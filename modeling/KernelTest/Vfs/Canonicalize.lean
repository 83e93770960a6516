import KernelTest.Libc.Strings

/-!
# Canonical paths

`canonicalize_path` splits the working directory and the path at the separators and keeps the
elements on a linked list used as a stack.
-/

namespace KernelTest.Vfs

open Libc

/-- `PATH_SEPARATOR`. -/
def pathSeparator : UInt8 := 47

/-- `PATH_DOT`. -/
def pathDot : List UInt8 := [46]

/-- `PATH_UP`. -/
def pathUp : List UInt8 := [46, 46]

/-- The list `out` of copied elements; `fresh` is the node `malloc` gives out next. -/
structure Stack where
  mem : ListMem Nat Unit Block
  fresh : Nat

namespace Stack

/-- `list_create()`. -/
def create : Stack :=
  { mem := listCreate
      { links := fun _ => ⟨none, none⟩, value := fun _ => [], owner := fun _ => none,
        head := fun _ => none, tail := fun _ => none, length := fun _ => 0 } ()
    fresh := 0 }

/-- `list_insert(out, s)`. -/
def push (out : Stack) (s : Block) : Except Fault Stack := do
  let mem ← liftList (listInsert out.mem () out.fresh s)
  pure { mem := mem, fresh := out.fresh + 1 }

/-- `list_pop(out)`, freeing the node and its value if there is one. -/
def pop (out : Stack) : Except Fault Stack := do
  let (mem, _) ← liftList (listPop out.mem ())
  pure { out with mem := mem }

def values (out : Stack) : Except Fault (List Block) := do
  let nodes ← liftList (foreach out.mem ())
  pure (nodes.map out.mem.value)

end Stack

/-- `malloc(strlen(s) + 1)` and `memcpy` of the string with its terminator. -/
def copyString (junk : Nat → UInt8) (s : Block) : Except Fault Block := do
  let n ← strlen s
  memcpy (malloc junk (n + 1)) 0 s (n + 1)

/-- The loop that pushes the elements of the working directory. -/
def pushElements (junk : Nat → UInt8) :
    Nat → Stack → Block → Option Nat → Nat → Except Fault Stack
  | _, out, _, none, _ => pure out
  | 0, _, _, some _, _ => throw .diverged
  | k + 1, out, path, some pch, save => do
    let s ← copyString junk (path.drop pch)
    let out ← out.push s
    let (path, pch, save) ← strtokR path save [pathSeparator]
    pushElements junk k out path pch save

/-- What the second loop does with the element at `pch`. -/
def resolveElement (junk : Nat → UInt8) (out : Stack) (pch : Block) : Except Fault Stack := do
  let up ← strcmp pch (pathUp ++ [0])
  if up = 0 then
    out.pop
  else
    let dot ← strcmp pch (pathDot ++ [0])
    if dot = 0 then
      pure out
    else
      let s ← copyString junk pch
      out.push s

/-- The loop over the elements of the path. -/
def resolveElements (junk : Nat → UInt8) :
    Nat → Stack → Block → Option Nat → Nat → Except Fault Stack
  | _, out, _, none, _ => pure out
  | 0, _, _, some _, _ => throw .diverged
  | k + 1, out, path, some pch, save => do
    let out ← resolveElement junk out (path.drop pch)
    let (path, pch, save) ← strtokR path save [pathSeparator]
    resolveElements junk k out path pch save

/-- The size of the joined string without its terminator. -/
def joinedSize : List Block → Except Fault Nat
  | [] => pure 0
  | s :: rest => do
    let n ← strlen s
    let size ← joinedSize rest
    pure (n + 1 + size)

/-- The loop that writes the elements to `output + offset`. -/
def joinElements : List Block → Block → Nat → Except Fault Block
  | [], output, _ => pure output
  | s :: rest, output, offset => do
    let output ← storeByte output offset pathSeparator
    let n ← strlen s
    let output ← memcpy output (offset + 1) s (n + 1)
    joinElements rest output (offset + 1 + n)

/-- The last part of `canonicalize_path`: the output string. -/
def joinStack (junk : Nat → UInt8) (out : Stack) : Except Fault Block := do
  let values ← out.values
  let size ← joinedSize values
  let output := malloc junk (size + 1)
  if size = 0 then
    -- `realloc` keeps the bytes that fit.
    let output := output.take 2 ++ (malloc junk 2).drop output.length
    let output ← storeByte output 0 pathSeparator
    storeByte output 1 0
  else
    joinElements values output 0

/-- The first part of `canonicalize_path`: the elements of the working directory, for a relative
path. -/
def startStack (junk : Nat → UInt8) (cwd input : Block) : Except Fault Stack := do
  let n ← strlen input
  let c ← loadByte input 0
  if n ≠ 0 ∧ c ≠ pathSeparator then
    let path ← copyString junk cwd
    let (path', pch, save) ← strtokR path 0 [pathSeparator]
    pushElements junk path.length Stack.create path' pch save
  else
    pure Stack.create

/-- `canonicalize_path(cwd, input)`: the block of the returned string. -/
def canonicalizePath (junk : Nat → UInt8) (cwd input : Block) : Except Fault Block := do
  let out ← startStack junk cwd input
  let path ← copyString junk input
  let (path', pch, save) ← strtokR path 0 [pathSeparator]
  let out ← resolveElements junk path.length out path' pch save
  joinStack junk out

/-- One component of the path applied to the stack of components. -/
def pathStep (stack : List (List UInt8)) (c : List UInt8) : List (List UInt8) :=
  if c = [] ∨ c = pathDot then stack
  else if c = pathUp then stack.dropLast
  else stack ++ [c]

/-- The components with a separator in front of each; a lone separator when there are none. -/
def joinPath (cs : List (List UInt8)) : List UInt8 :=
  if cs = [] then [pathSeparator] else joined pathSeparator cs

/-- The reference: the stack of the components, starting from those of `cwd` for a relative
path. -/
def stackSemantics (cwd input : List UInt8) : List (List UInt8) :=
  (input.splitOn pathSeparator).foldl pathStep
    (if input.head? = some pathSeparator then [] else tokens pathSeparator cwd)

/-- A component that a canonical path may have. -/
structure IsComponent (c : List UInt8) : Prop where
  ne_nil : c ≠ []
  no_nul : 0 ∉ c
  no_separator : pathSeparator ∉ c
  ne_dot : c ≠ pathDot
  ne_up : c ≠ pathUp

/-- `/` alone, or `/` followed by components joined by single `/`. -/
def Canonical (p : List UInt8) : Prop := ∃ cs, (∀ c ∈ cs, IsComponent c) ∧ p = joinPath cs

def Holds (out : Stack) (cs : List (List UInt8)) : Prop :=
  ∃ xs, IsList out.mem () xs ∧ xs.map out.mem.value = cs.map (· ++ [0]) ∧
    ∀ n ∈ xs, n < out.fresh

theorem holds_create : Holds Stack.create [] :=
  ⟨[], isList_create _ (), rfl, fun _ hn => absurd hn List.not_mem_nil⟩

theorem Holds.push {out : Stack} {cs : List (List UInt8)} (h : Holds out cs) (c : List UInt8) :
    ∃ out', out.push (c ++ [0]) = .ok out' ∧ Holds out' (cs ++ [c]) := by
  obtain ⟨xs, hlist, hvalues, hfresh⟩ := h
  have hnew : out.fresh ∉ xs := fun hn => Nat.lt_irrefl _ (hfresh _ hn)
  obtain ⟨m', hrun, hlist', hframe⟩ := hlist.insert hnew (c ++ [0])
  refine ⟨⟨m', out.fresh + 1⟩, ?_, xs ++ [out.fresh], hlist', ?_, ?_⟩
  · rw [Stack.push, hrun]
    rfl
  · have hold : xs.map m'.value = xs.map out.mem.value := by
      apply List.map_congr_left
      intro n hn
      rw [hframe.value]
      simp [ne_of_mem_of_not_mem hn hnew]
    rw [List.map_append, hold, hvalues, List.map_append]
    simp [hframe.value]
  · intro n hn
    rcases List.mem_append.1 hn with hn | hn
    · exact Nat.lt_succ_of_lt (hfresh n hn)
    · rw [List.mem_singleton.1 hn]
      exact Nat.lt_succ_self _

theorem Holds.pop {out : Stack} {cs : List (List UInt8)} (h : Holds out cs) :
    ∃ out', out.pop = .ok out' ∧ Holds out' cs.dropLast := by
  obtain ⟨xs, hlist, hvalues, hfresh⟩ := h
  rcases List.eq_nil_or_concat' xs with rfl | ⟨ys, n, rfl⟩
  · have hcs : cs = [] := by simpa using hvalues.symm
    refine ⟨out, ?_, [], hlist, by simp [hcs], hfresh⟩
    rw [Stack.pop, hlist.pop_nil]
    rfl
  · obtain ⟨m', hrun, hlist', _, hframe⟩ := hlist.pop
    refine ⟨{ out with mem := m' }, ?_, ys, hlist', ?_, fun k hk => hfresh k (by simp [hk])⟩
    · rw [Stack.pop, hrun]
      rfl
    · have hlast := congrArg List.dropLast hvalues
      simpa [hframe.value] using hlast

theorem Holds.values {out : Stack} {cs : List (List UInt8)} (h : Holds out cs) :
    out.values = .ok (cs.map (· ++ [0])) := by
  obtain ⟨xs, hlist, hvalues, _⟩ := h
  rw [Stack.values, hlist.foreach_eq, ← hvalues]
  rfl

theorem copyString_eq (junk : Nat → UInt8) {b : Block} {s : List UInt8} (h : CString b s) :
    copyString junk b = .ok (s ++ [0]) := by
  have hlen : s.length + 1 ≤ b.length := by
    obtain ⟨_, r, rfl⟩ := h
    simp
  have hcopy : memcpy (malloc junk (s.length + 1)) 0 b (s.length + 1) = .ok (s ++ [0]) := by
    have hfit : 0 + (s.length + 1) ≤ (malloc junk (s.length + 1)).length ∧
        s.length + 1 ≤ b.length := by simpa [malloc] using hlen
    rw [memcpy, if_pos hfit, h.take]
    simp [malloc]
  rw [copyString, strlen_eq h]
  exact hcopy

private theorem separator_ne_zero : pathSeparator ≠ 0 := by decide

section Loops

variable (junk : Nat → UInt8) {k : Nat} {out : Stack} {cs ts : List (List UInt8)} {path : Block}
  {pch : Option Nat} {save : Nat}

theorem pushElements_eq (h : Holds out cs) (hp : Pending pathSeparator path pch save ts)
    (hk : ts.length ≤ k) :
    ∃ out', pushElements junk k out path pch save = .ok out' ∧ Holds out' (cs ++ ts) := by
  induction ts generalizing k out cs path pch save with
  | nil =>
    have hnull : pch = none := hp
    refine ⟨out, ?_, by simpa using h⟩
    rw [hnull]
    cases k <;> rfl
  | cons t ts ih =>
    obtain ⟨q, s, rfl, htoken, hrest, hts⟩ := hp
    obtain ⟨k, rfl⟩ : ∃ j, k = j + 1 := ⟨k - 1, by simp at hk; omega⟩
    obtain ⟨out₁, hpush, h₁⟩ := h.push t
    obtain ⟨path₁, pch₁, save₁, hnext, hp₁⟩ := strtokR_pending separator_ne_zero hrest
    rw [hts] at hp₁
    obtain ⟨out', hrun, h'⟩ := ih h₁ hp₁ (by simpa using hk)
    refine ⟨out', ?_, by simpa using h'⟩
    rw [pushElements, copyString_eq junk htoken]
    show (out.push (t ++ [0]) >>= fun out => strtokR path save [pathSeparator] >>= _) = _
    rw [hpush]
    show (strtokR path save [pathSeparator] >>= _) = _
    rw [hnext]
    exact hrun

theorem resolveElement_eq {b : Block} {t : List UInt8} (h : Holds out cs) (ht : CString b t)
    (hne : t ≠ []) :
    ∃ out', resolveElement junk out b = .ok out' ∧ Holds out' (pathStep cs t) := by
  obtain ⟨d, hup, hupiff⟩ := strcmp_eq_zero ht
    (cString_terminated (s := pathUp) (by decide))
  obtain ⟨e, hdot, hdotiff⟩ := strcmp_eq_zero ht
    (cString_terminated (s := pathDot) (by decide))
  have hdu : pathDot ≠ pathUp := by decide
  rw [resolveElement, hup]
  show ∃ out', (if d = 0 then out.pop else strcmp b (pathDot ++ [0]) >>= _) = _ ∧ _
  by_cases hu : t = pathUp
  · obtain ⟨out', hpop, h'⟩ := h.pop
    have hstep : pathStep cs t = cs.dropLast := by
      have hskip : ¬ (t = [] ∨ t = pathDot) := by
        rintro (he | he)
        · exact hne he
        · exact hdu (he.symm.trans hu)
      rw [pathStep, if_neg hskip, if_pos hu]
    rw [hstep, if_pos (hupiff.2 hu)]
    exact ⟨out', hpop, h'⟩
  · rw [if_neg fun he => hu (hupiff.1 he), hdot]
    show ∃ out', (if e = 0 then pure out else copyString junk b >>= _) = _ ∧ _
    by_cases hd : t = pathDot
    · have hstep : pathStep cs t = cs := by
        rw [pathStep, if_pos (Or.inr hd)]
      rw [hstep, if_pos (hdotiff.2 hd)]
      exact ⟨out, rfl, h⟩
    · obtain ⟨out', hpush, h'⟩ := h.push t
      have hstep : pathStep cs t = cs ++ [t] := by
        rw [pathStep, if_neg (by simp [hne, hd]), if_neg hu]
      rw [hstep, if_neg fun he => hd (hdotiff.1 he), copyString_eq junk ht]
      exact ⟨out', hpush, h'⟩

theorem resolveElements_eq (h : Holds out cs) (hp : Pending pathSeparator path pch save ts)
    (hne : ∀ t ∈ ts, t ≠ []) (hk : ts.length ≤ k) :
    ∃ out', resolveElements junk k out path pch save = .ok out' ∧
      Holds out' (ts.foldl pathStep cs) := by
  induction ts generalizing k out cs path pch save with
  | nil =>
    have hnull : pch = none := hp
    refine ⟨out, ?_, h⟩
    rw [hnull]
    cases k <;> rfl
  | cons t ts ih =>
    obtain ⟨q, s, rfl, htoken, hrest, hts⟩ := hp
    obtain ⟨k, rfl⟩ : ∃ j, k = j + 1 := ⟨k - 1, by simp at hk; omega⟩
    obtain ⟨out₁, hbody, h₁⟩ := resolveElement_eq junk h htoken (hne t (by simp))
    obtain ⟨path₁, pch₁, save₁, hnext, hp₁⟩ := strtokR_pending separator_ne_zero hrest
    rw [hts] at hp₁
    obtain ⟨out', hrun, h'⟩ := ih h₁ hp₁ (fun u hu => hne u (by simp [hu])) (by simpa using hk)
    refine ⟨out', ?_, h'⟩
    rw [resolveElements, hbody]
    show (strtokR path save [pathSeparator] >>= _) = _
    rw [hnext]
    exact hrun

end Loops

section Join

variable {cs : List (List UInt8)}

theorem joinedSize_eq (h : ∀ c ∈ cs, 0 ∉ c) :
    joinedSize (cs.map (· ++ [0])) = .ok (joined pathSeparator cs).length := by
  induction cs with
  | nil => rfl
  | cons c cs ih =>
    have hc : CString (c ++ [0]) c := cString_terminated (h c (by simp))
    rw [List.map_cons, joinedSize, strlen_eq hc, ih fun d hd => h d (by simp [hd])]
    show Except.ok _ = _
    simp [Nat.add_assoc]
    omega

private theorem writeElement (pre : Block) (old : UInt8) (rest : Block) {c : List UInt8}
    (hlen : c.length + 1 ≤ rest.length) :
    ∃ o₁, storeByte (pre ++ old :: rest) pre.length pathSeparator = .ok o₁ ∧
      memcpy o₁ (pre.length + 1) (c ++ [0]) (c.length + 1) =
        .ok ((pre ++ pathSeparator :: c) ++ 0 :: rest.drop (c.length + 1)) := by
  refine ⟨pre ++ pathSeparator :: rest, ?_, ?_⟩
  · rw [storeByte, if_pos (by simp)]
    simp
  · have hfit : pre.length + 1 + (c.length + 1) ≤ (pre ++ pathSeparator :: rest).length ∧
        c.length + 1 ≤ (c ++ [0]).length := by
      simp
      omega
    have htake : (pre ++ pathSeparator :: rest).take (pre.length + 1) = pre ++ [pathSeparator] := by
      simp [List.take_append, List.take_of_length_le]
    have hdrop : (pre ++ pathSeparator :: rest).drop (pre.length + 1 + (c.length + 1)) =
        rest.drop (c.length + 1) := by
      rw [Nat.add_assoc, ← List.drop_drop, List.drop_left, Nat.add_comm 1, List.drop_succ_cons]
    rw [memcpy, if_pos hfit, htake, hdrop, List.take_of_length_le (by simp)]
    simp

theorem joinElements_eq {pre rest : Block} {old : UInt8} (h : ∀ c ∈ cs, 0 ∉ c)
    (hlen : rest.length = (joined pathSeparator cs).length) (hold : cs = [] → old = 0) :
    joinElements (cs.map (· ++ [0])) (pre ++ old :: rest) pre.length =
      .ok (pre ++ joined pathSeparator cs ++ [0]) := by
  induction cs generalizing pre rest old with
  | nil =>
    have hrest : rest = [] := List.length_eq_zero_iff.1 hlen
    rw [hrest, hold rfl]
    simp [joinElements]
    rfl
  | cons c cs ih =>
    have hc : CString (c ++ [0]) c := cString_terminated (h c (by simp))
    rw [joined_cons, List.cons_append, List.length_cons, List.length_append] at hlen
    obtain ⟨o₁, hstore, hcopy⟩ := writeElement pre old rest (c := c) (by omega)
    have hrest : joinElements (cs.map (· ++ [0]))
        ((pre ++ pathSeparator :: c) ++ 0 :: rest.drop (c.length + 1))
        (pre ++ pathSeparator :: c).length =
        .ok ((pre ++ pathSeparator :: c) ++ joined pathSeparator cs ++ [0]) :=
      ih (fun d hd => h d (by simp [hd])) (by simp; omega) (fun _ => rfl)
    rw [List.map_cons, joinElements, hstore]
    show (strlen (c ++ [0]) >>= _) = _
    rw [strlen_eq hc]
    show (memcpy o₁ (pre.length + 1) (c ++ [0]) (c.length + 1) >>= _) = _
    rw [hcopy]
    have hoff : pre.length + 1 + c.length = (pre ++ pathSeparator :: c).length := by
      simp
      omega
    show joinElements _ _ (pre.length + 1 + c.length) = _
    rw [hoff, hrest]
    simp

theorem joinStack_eq (junk : Nat → UInt8) {out : Stack} (h : Holds out cs)
    (hcs : ∀ c ∈ cs, 0 ∉ c) : joinStack junk out = .ok (joinPath cs ++ [0]) := by
  rw [joinStack, h.values]
  show (joinedSize (cs.map (· ++ [0])) >>= _) = _
  rw [joinedSize_eq hcs]
  show (if (joined pathSeparator cs).length = 0 then _ else _) = _
  cases cs with
  | nil => rfl
  | cons c cs =>
    have hsize : (joined pathSeparator (c :: cs)).length ≠ 0 := by simp
    have hblock : malloc junk ((joined pathSeparator (c :: cs)).length + 1) =
        [] ++ junk 0 :: ((List.range (joined pathSeparator (c :: cs)).length).map
          fun i => junk (i + 1)) := by
      rw [malloc, List.range_succ_eq_map, List.map_cons, List.map_map]
      rfl
    rw [if_neg hsize, hblock]
    have hjoin : joinElements ((c :: cs).map (· ++ [0]))
        ([] ++ junk 0 :: ((List.range (joined pathSeparator (c :: cs)).length).map
          fun i => junk (i + 1))) (List.length []) =
        .ok ([] ++ joined pathSeparator (c :: cs) ++ [0]) :=
      joinElements_eq hcs (by simp) (fun he => absurd he (by simp))
    rw [List.length_nil] at hjoin
    rw [hjoin, joinPath, if_neg (by simp)]
    rfl

end Join

theorem mem_foldl_pathStep {c : List UInt8} {ts cs : List (List UInt8)}
    (h : c ∈ ts.foldl pathStep cs) : c ∈ cs ∨ (c ∈ ts ∧ c ≠ [] ∧ c ≠ pathDot ∧ c ≠ pathUp) := by
  induction ts generalizing cs with
  | nil => exact Or.inl h
  | cons t ts ih =>
    rcases ih h with h | ⟨h, hrest⟩
    · rw [pathStep] at h
      split at h
      · exact Or.inl h
      · next hskip =>
        rw [not_or] at hskip
        split at h
        · exact Or.inl (List.dropLast_subset _ h)
        · next hup =>
          rcases List.mem_append.1 h with h | h
          · exact Or.inl h
          · rw [List.mem_singleton] at h
            subst h
            exact Or.inr ⟨by simp, hskip.1, hskip.2, hup⟩
    · exact Or.inr ⟨by simp [h], hrest⟩

theorem foldl_pathStep_tokens (s : List UInt8) (cs : List (List UInt8)) :
    (tokens pathSeparator s).foldl pathStep cs = (s.splitOn pathSeparator).foldl pathStep cs := by
  rw [tokens]
  induction s.splitOn pathSeparator generalizing cs with
  | nil => rfl
  | cons t ts ih =>
    by_cases ht : t = []
    · have hskip : pathStep cs t = cs := if_pos (Or.inl ht)
      simp [ht] at ih hskip ⊢
      rw [ih, hskip]
    · simp [ht] at ih ⊢
      rw [ih]

def startComponents (cwd input : List UInt8) : List (List UInt8) :=
  if input ≠ [] ∧ input.head? ≠ some pathSeparator then tokens pathSeparator cwd else []

private theorem startStack_eq (junk : Nat → UInt8) {bcwd binput : Block} {cwd input : List UInt8}
    (hcwd : input ≠ [] → input.head? ≠ some pathSeparator → CString bcwd cwd)
    (hinput : CString binput input) :
    ∃ out, startStack junk bcwd binput = .ok out ∧ Holds out (startComponents cwd input) := by
  have hcond : ∃ c, loadByte binput 0 = .ok c ∧ ((input.length ≠ 0 ∧ c ≠ pathSeparator) ↔
      (input ≠ [] ∧ input.head? ≠ some pathSeparator)) := by
    obtain ⟨_, r, rfl⟩ := hinput
    cases input with
    | nil => exact ⟨0, rfl, by simp⟩
    | cons c s => exact ⟨c, rfl, by simp⟩
  obtain ⟨c, hload, hiff⟩ := hcond
  rw [startStack, strlen_eq hinput]
  show ∃ out, (loadByte binput 0 >>= _) = _ ∧ _
  rw [hload]
  show ∃ out, (if input.length ≠ 0 ∧ c ≠ pathSeparator then _ else _) = _ ∧ _
  rw [startComponents]
  by_cases hrel : input ≠ [] ∧ input.head? ≠ some pathSeparator
  · have hstr := hcwd hrel.1 hrel.2
    have hcopy : CString ((cwd ++ [0]).drop 0) cwd := cString_terminated hstr.1
    obtain ⟨path, pch, save, hfirst, hp⟩ := strtokR_pending separator_ne_zero hcopy
    rw [if_pos (hiff.2 hrel), if_pos hrel, copyString_eq junk hstr]
    show ∃ out, (strtokR (cwd ++ [0]) 0 [pathSeparator] >>= _) = _ ∧ _
    rw [hfirst]
    obtain ⟨out, hrun, hout⟩ := pushElements_eq junk holds_create hp
      ((length_tokens_le cwd).trans (by simp) : _ ≤ (cwd ++ [0]).length)
    exact ⟨out, hrun, by simpa using hout⟩
  · rw [if_neg fun h => hrel (hiff.1 h), if_neg hrel]
    exact ⟨Stack.create, rfl, holds_create⟩

theorem canonicalizePath_eq (junk : Nat → UInt8) (cwd : List UInt8) {bcwd binput : Block}
    {input : List UInt8}
    (hcwd : input ≠ [] → input.head? ≠ some pathSeparator → CString bcwd cwd)
    (hinput : CString binput input) :
    canonicalizePath junk bcwd binput = .ok (joinPath
      ((tokens pathSeparator input).foldl pathStep (startComponents cwd input)) ++ [0]) := by
  obtain ⟨out, hstart, hout⟩ := startStack_eq junk hcwd hinput
  have hcopy : CString ((input ++ [0]).drop 0) input := cString_terminated hinput.1
  obtain ⟨path, pch, save, hfirst, hp⟩ := strtokR_pending separator_ne_zero hcopy
  obtain ⟨out', hrun, hout'⟩ := resolveElements_eq junk hout hp
    (fun t ht => (mem_tokens ht).1)
    ((length_tokens_le input).trans (by simp) : _ ≤ (input ++ [0]).length)
  have hnul : ∀ c ∈ (tokens pathSeparator input).foldl pathStep (startComponents cwd input),
      0 ∉ c := by
    intro c hc h0
    rcases mem_foldl_pathStep hc with hc | ⟨hc, _⟩
    · rw [startComponents] at hc
      split at hc
      · next hrel => exact (hcwd hrel.1 hrel.2).1 ((mem_tokens hc).2.2 h0)
      · exact absurd hc List.not_mem_nil
    · exact hinput.1 ((mem_tokens hc).2.2 h0)
  rw [canonicalizePath, hstart]
  show (copyString junk binput >>= _) = _
  rw [copyString_eq junk hinput]
  show (strtokR (input ++ [0]) 0 [pathSeparator] >>= _) = _
  rw [hfirst]
  show (resolveElements junk (input ++ [0]).length out path pch save >>= _) = _
  rw [hrun]
  exact joinStack_eq junk hout' hnul

theorem tokens_joinPath {cs : List (List UInt8)} (h : ∀ c ∈ cs, IsComponent c) :
    tokens pathSeparator (joinPath cs) = cs := by
  rw [joinPath]
  split
  · next hcs =>
    rw [hcs]
    rfl
  · exact tokens_joined fun c hc => ⟨(h c hc).ne_nil, (h c hc).no_separator⟩

theorem foldl_pathStep_components {ts cs : List (List UInt8)} (h : ∀ t ∈ ts, IsComponent t) :
    ts.foldl pathStep cs = cs ++ ts := by
  induction ts generalizing cs with
  | nil => simp
  | cons t ts ih =>
    have ht := h t (by simp)
    have hstep : pathStep cs t = cs ++ [t] := by
      rw [pathStep, if_neg (by simp [ht.ne_nil, ht.ne_dot]), if_neg ht.ne_up]
    rw [List.foldl_cons, hstep, ih fun u hu => h u (by simp [hu])]
    simp

theorem head?_joinPath (cs : List (List UInt8)) : (joinPath cs).head? = some pathSeparator := by
  rw [joinPath]
  split
  · rfl
  · next hcs =>
    obtain ⟨c, cs, rfl⟩ := List.exists_cons_of_ne_nil hcs
    rfl

theorem stackSemantics_eq {cwd input : List UInt8} (hne : input ≠ []) :
    (tokens pathSeparator input).foldl pathStep (startComponents cwd input) =
      stackSemantics cwd input := by
  rw [foldl_pathStep_tokens, stackSemantics, startComponents]
  by_cases hsep : input.head? = some pathSeparator
  · rw [if_neg (by simp [hsep]), if_pos hsep]
  · rw [if_pos ⟨hne, hsep⟩, if_neg hsep]

theorem isComponent_stackSemantics {cwd input : List UInt8} (hcwd : Canonical cwd)
    (hnul : 0 ∉ input) {c : List UInt8} (h : c ∈ stackSemantics cwd input) : IsComponent c := by
  rw [stackSemantics, ← foldl_pathStep_tokens] at h
  rcases mem_foldl_pathStep h with h | ⟨h, hne, hdot, hup⟩
  · split at h
    · exact absurd h List.not_mem_nil
    · obtain ⟨cs, hcs, rfl⟩ := hcwd
      rw [tokens_joinPath hcs] at h
      exact hcs c h
  · obtain ⟨_, hsep, hsub⟩ := mem_tokens h
    exact ⟨hne, fun h0 => hnul (hsub h0), hsep, hdot, hup⟩

private theorem stackSemantics_self {cwd : List UInt8} {cs : List (List UInt8)}
    (h : ∀ c ∈ cs, IsComponent c) : stackSemantics cwd (joinPath cs) = cs := by
  rw [stackSemantics, ← foldl_pathStep_tokens, if_pos (head?_joinPath cs), tokens_joinPath h,
    foldl_pathStep_components h]
  rfl

private theorem stackSemantics_absolute {cwd input : List UInt8} (hcwd : Canonical cwd)
    (hrel : input.head? ≠ some pathSeparator) (x : List UInt8) :
    stackSemantics x (cwd ++ pathSeparator :: input) = stackSemantics cwd input := by
  obtain ⟨cs, hcs, rfl⟩ := hcwd
  have hhead : (joinPath cs ++ pathSeparator :: input).head? = some pathSeparator := by
    rw [List.head?_append, head?_joinPath]
    rfl
  rw [stackSemantics, stackSemantics, ← foldl_pathStep_tokens, ← foldl_pathStep_tokens,
    if_pos hhead, if_neg hrel, tokens_append_cons, tokens_joinPath hcs, List.foldl_append,
    foldl_pathStep_components hcs]
  rfl

/-- `canonicalize_path` equals the stack semantics, with the string written inside its block. Hence
the result is canonical and a fixed point, and a relative path means the same as the absolute one
behind the working directory. -/
theorem canonicalizePath_stackSemantics (junk : Nat → UInt8) {bcwd binput : Block}
    {cwd input : List UInt8} (hcwd : Canonical cwd) (hbcwd : CString bcwd cwd)
    (hinput : CString binput input) (hne : input ≠ []) :
    canonicalizePath junk bcwd binput = .ok (joinPath (stackSemantics cwd input) ++ [0]) ∧
      Canonical (joinPath (stackSemantics cwd input)) ∧
      (∀ bx br, CString br (joinPath (stackSemantics cwd input)) →
        canonicalizePath junk bx br = .ok (joinPath (stackSemantics cwd input) ++ [0])) ∧
      (input.head? ≠ some pathSeparator →
        ∀ bx ba, CString ba (cwd ++ pathSeparator :: input) →
          canonicalizePath junk bx ba = canonicalizePath junk bcwd binput) := by
  have hrun : canonicalizePath junk bcwd binput =
      .ok (joinPath (stackSemantics cwd input) ++ [0]) := by
    rw [canonicalizePath_eq junk cwd (fun _ _ => hbcwd) hinput, stackSemantics_eq hne]
  have hcomponents : ∀ c ∈ stackSemantics cwd input, IsComponent c := fun c hc =>
    isComponent_stackSemantics hcwd hinput.1 hc
  refine ⟨hrun, ⟨_, hcomponents, rfl⟩, ?_, ?_⟩
  · intro bx br hbr
    have habs := head?_joinPath (stackSemantics cwd input)
    have hne' : joinPath (stackSemantics cwd input) ≠ [] := by
      intro he
      rw [he] at habs
      cases habs
    rw [canonicalizePath_eq junk cwd (fun _ h => absurd habs h) hbr,
      stackSemantics_eq hne', stackSemantics_self hcomponents]
  · intro hrel bx ba hba
    have habs : (cwd ++ pathSeparator :: input).head? = some pathSeparator := by
      obtain ⟨cs, _, rfl⟩ := hcwd
      rw [List.head?_append, head?_joinPath]
      rfl
    rw [canonicalizePath_eq junk cwd (fun _ h => absurd habs h) hba,
      stackSemantics_eq (by simp), stackSemantics_absolute hcwd hrel, hrun]

/-- Working directory `/a`, path `../b`. -/
theorem canonicalizePath_up :
    canonicalizePath (fun _ => 7) [47, 97, 0] [46, 46, 47, 98, 0] = .ok [47, 98, 0] ∧
      Canonical [47, 98] := by
  have hcwd : Canonical [47, 97] := by
    refine ⟨[[97]], ?_, by decide⟩
    intro c hc
    rw [List.mem_singleton.1 hc]
    constructor <;> decide
  have hbcwd : CString [47, 97, 0] [47, 97] := ⟨by decide, [], rfl⟩
  have hinput : CString [46, 46, 47, 98, 0] [46, 46, 47, 98] := ⟨by decide, [], rfl⟩
  have h := canonicalizePath_stackSemantics (fun _ => 7) hcwd hbcwd hinput (by decide)
  exact ⟨h.1, h.2.1⟩

end KernelTest.Vfs
