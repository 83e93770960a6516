import KernelTest.Vfs.PathWalk

/-!
# Symbolic links

The reference for paths with symbolic links, a resolver that finds a node or nothing. `kopen` has
values of its own for what goes wrong with a link: it agrees with the reference exactly where every
link that is met can be followed.
-/

namespace KernelTest.Vfs

open Libc

variable {ρ : Type} (cb : Callbacks ρ) (junk : Nat → UInt8) (vfs : Mounts ρ)

/-- A link that the search follows: `O_NOFOLLOW` with `O_PATH` spares the last component. -/
def Followed (flags : Nat) (leaf : Prop) (node : File ρ) : Prop :=
  node.flags &&& fsSymlink ≠ 0 ∧ ¬ (flags &&& oNofollow ≠ 0 ∧ flags &&& oPath ≠ 0 ∧ leaf)

instance (flags : Nat) (leaf : Prop) [Decidable leaf] (node : File ρ) :
    Decidable (Followed flags leaf node) := inferInstanceAs (Decidable (_ ∧ _))

/-- What the symbolic link says, when `readlink` gives a string that ends inside the buffer. -/
def readTarget (node : File ρ) : Option (List UInt8) :=
  if node.readlinkFn = 0 then none
  else
    let (len, buf) := cb.readlink node.readlinkFn node junk
    if 0 ≤ len ∧ len.toNat < maxSymlinkSize ∧ buf len.toNat = 0 then some (linkText buf) else none

/-- The reference from `node` on, where `again` opens what a link names. -/
def resolveFrom (again : List (List UInt8) → Option (File ρ)) (flags : Nat) :
    List (List UInt8) → File ρ → List (List UInt8) → Option (File ρ)
  | _, node, [] => some (fopenNode cb node flags).1
  | before, node, c :: rest => do
    let next ← fsFinddirNode cb node c
    if Followed flags (rest = []) next then
      if flags &&& oNofollow ≠ 0 ∧ rest = [] then none
      else do
        let text ← readTarget cb junk next
        let target ← again (targetComponents before text)
        resolveFrom again flags (before ++ [c]) target rest
    else resolveFrom again flags (before ++ [c]) next rest

/-- Every link that is met from `node` on can be followed: it may be, it can be read, and what it
names can be opened. -/
def LinksOpenFrom (again : List (List UInt8) → Option (File ρ))
    (openable : List (List UInt8) → Prop) (flags : Nat) :
    List (List UInt8) → File ρ → List (List UInt8) → Prop
  | _, _, [] => True
  | before, node, c :: rest => ∀ next, fsFinddirNode cb node c = some next →
      if Followed flags (rest = []) next then
        ¬ (flags &&& oNofollow ≠ 0 ∧ rest = []) ∧
          ∃ text target, readTarget cb junk next = some text ∧
            openable (targetComponents before text) ∧
            again (targetComponents before text) = some target ∧
            LinksOpenFrom again openable flags (before ++ [c]) target rest
      else LinksOpenFrom again openable flags (before ++ [c]) next rest

/-- The reference with a given resolver for what links name. -/
def resolveWith (again : List (List UInt8) → Option (File ρ)) (cs : List (List UInt8))
    (flags : Nat) : Option (File ρ) :=
  if cs = [] then
    if vfs.fsRoot = 0 then none else some (fopenNode cb (vfs.file vfs.fsRoot) flags).1
  else
    let (last, rest) := vfs.mountPoint cs
    if last = 0 then none
    else
      resolveFrom cb junk again flags (cs.take (cs.length - rest.length)) (vfs.file last) rest

/-- The reference: the node that the components lead to, opened, when at most `depth` links may be
nested. -/
def resolve : Nat → List (List UInt8) → Nat → Option (File ρ)
  | 0 => resolveWith cb junk vfs fun _ => none
  | depth + 1 => resolveWith cb junk vfs fun cs => resolve depth cs 0

/-- With given notions for what links name: `/` is mounted if it is meant, and the links that are met
can be followed. -/
def LinksOpenWith (again : List (List UInt8) → Option (File ρ))
    (openable : List (List UInt8) → Prop) (cs : List (List UInt8)) (flags : Nat) : Prop :=
  if cs = [] then vfs.fsRoot ≠ 0
  else
    let (last, rest) := vfs.mountPoint cs
    last = 0 ∨ LinksOpenFrom cb junk again openable flags (cs.take (cs.length - rest.length))
      (vfs.file last) rest

/-- Every link that is met, at any depth of nesting, can be followed. -/
def LinksOpen : Nat → List (List UInt8) → Nat → Prop
  | 0 => LinksOpenWith cb junk vfs (fun _ => none) fun _ => False
  | depth + 1 =>
    LinksOpenWith cb junk vfs (fun cs => resolve cb junk vfs depth cs 0)
      fun cs => LinksOpen depth cs 0

def FilePtr.ofOption : Option (File ρ) → FilePtr ρ
  | none => .null
  | some f => .node f

def Fails {β : Type} (bad : β → Prop) (x : VfsM β) : Prop :=
  (∃ f, f ≠ .endless ∧ x = .error f) ∨ ∃ b, bad b ∧ x = .ok b

def FilePtr.IsErr (p : FilePtr ρ) : Prop := ∃ k, p = .err k

def Outcome.IsErr (o : Outcome ρ) : Prop := ∃ k, o = .done (.err k)

section Step

variable {cb junk} {reopen : List (List UInt8) → Nat → Nat → VfsM (FilePtr ρ)}
  {flags symlinkDepth : Nat} {before rest : List (List UInt8)} {c : List UInt8} {node next : File ρ}

theorem walk_err (k : Nat) :
    walk cb junk reopen flags symlinkDepth before (.err k) rest = .error .wildPointer := by
  cases rest <;> rfl

theorem walk_none (hc : 0 ∉ c) (h : fsFinddirNode cb node c = none) :
    walk cb junk reopen flags symlinkDepth before (.node node) (c :: rest) = .ok .null := by
  rw [walk, fsFinddir_node (cString_terminated hc), h]
  rfl

theorem walk_plain (hc : 0 ∉ c) (h : fsFinddirNode cb node c = some next)
    (hlink : ¬ Followed flags (rest = []) next) :
    walk cb junk reopen flags symlinkDepth before (.node node) (c :: rest) =
      walk cb junk reopen flags symlinkDepth (before ++ [c]) (.node next) rest := by
  rw [walk, fsFinddir_node (cString_terminated hc), h]
  show ((if Followed flags (rest = []) next then
    walkLink cb junk reopen flags symlinkDepth (rest = []) before next
    else (pure (.go (.node next)) : VfsM (Outcome ρ))) >>= _) = _
  rw [if_neg hlink]
  rfl

theorem walk_link (hc : 0 ∉ c) (h : fsFinddirNode cb node c = some next)
    (hlink : Followed flags (rest = []) next) :
    walk cb junk reopen flags symlinkDepth before (.node node) (c :: rest) =
      (walkLink cb junk reopen flags symlinkDepth (rest = []) before next >>= fun
        | .done p => pure p
        | .go node => walk cb junk reopen flags symlinkDepth (before ++ [c]) node rest) := by
  rw [walk, fsFinddir_node (cString_terminated hc), h]
  show ((if Followed flags (rest = []) next then
    walkLink cb junk reopen flags symlinkDepth (rest = []) before next
    else (pure (.go (.node next)) : VfsM (Outcome ρ))) >>= _) = _
  exact congrArg (· >>= _) (if_pos hlink)

theorem walkLink_fails {leaf : Prop} [Decidable leaf]
    (h : (flags &&& oNofollow ≠ 0 ∧ leaf) ∨ maxSymlinkDepth ≤ symlinkDepth ∨
      readTarget cb junk next = none) :
    Fails Outcome.IsErr (walkLink cb junk reopen flags symlinkDepth leaf before next) := by
  have herr : ∀ k, Fails Outcome.IsErr (pure (.done (.err k)) : VfsM (Outcome ρ)) := fun k =>
    Or.inr ⟨_, ⟨k, rfl⟩, rfl⟩
  rw [walkLink]
  split
  · exact herr 1
  next hnofollow =>
  split
  · exact herr 2
  next hdepth =>
  have hnone : readTarget cb junk next = none := by
    rcases h with h | h | h
    · exact absurd h hnofollow
    · exact absurd h hdepth
    · exact h
  rw [readTarget] at hnone
  split
  · exact Or.inl ⟨.nullPointer, by decide, rfl⟩
  next hread =>
  rw [if_neg hread] at hnone
  generalize cb.readlink next.readlinkFn next junk = result at hnone ⊢
  obtain ⟨len, buf⟩ := result
  dsimp only at hnone ⊢
  split
  · exact herr 3
  split
  · exact Or.inl ⟨.string .overrun, by decide, rfl⟩
  split
  · exact herr 4
  · next hneg hbig hnul =>
    rw [if_pos ⟨by omega, by omega, not_not.1 hnul⟩] at hnone
    cases hnone

theorem walkLink_reads {leaf : Prop} [Decidable leaf] {text : List UInt8}
    (hnofollow : ¬ (flags &&& oNofollow ≠ 0 ∧ leaf)) (hdepth : symlinkDepth < maxSymlinkDepth)
    (htext : readTarget cb junk next = some text) :
    walkLink cb junk reopen flags symlinkDepth leaf before next =
      (reopen (targetComponents before text) 0 (symlinkDepth + 1) >>= fun target =>
        pure (if target matches .null then .done (.err 5) else .go target)) := by
  rw [readTarget] at htext
  rw [walkLink, if_neg hnofollow, if_neg (by omega)]
  split at htext
  · cases htext
  next hread =>
  rw [if_neg hread]
  generalize cb.readlink next.readlinkFn next junk = result at htext ⊢
  obtain ⟨len, buf⟩ := result
  dsimp only at htext ⊢
  split at htext
  · next hlen =>
    obtain ⟨hpos, hsmall, hnul⟩ := hlen
    obtain rfl := Option.some.inj htext
    exact (if_neg (by omega)).trans ((if_neg (by omega)).trans (if_neg (by simpa using hnul)))
  · cases htext

end Step

section Search

variable {cb junk vfs} {reopen : List (List UInt8) → Nat → Nat → VfsM (FilePtr ρ)}
  {again : List (List UInt8) → Option (File ρ)} {openable : List (List UInt8) → Prop}
  {flags symlinkDepth : Nat} {before rest : List (List UInt8)} {node : File ρ}

/-- The call returns what the reference finds, or fails where a link cannot be followed. -/
def Agrees (x : VfsM (FilePtr ρ)) (found : Option (File ρ)) (links : Prop) : Prop :=
  (links → x = .ok (FilePtr.ofOption found)) ∧ (¬ links → Fails FilePtr.IsErr x)

theorem fails_bind {α β : Type} {bad : α → Prop} {bad' : β → Prop} {x : VfsM α} {f : α → VfsM β}
    (h : Fails bad x) (hf : ∀ a, bad a → Fails bad' (f a)) : Fails bad' (x >>= f) := by
  rcases h with ⟨e, he, rfl⟩ | ⟨a, ha, rfl⟩
  · exact Or.inl ⟨e, he, rfl⟩
  · exact hf a ha

private theorem agrees_of_fails {x : VfsM (FilePtr ρ)} {found : Option (File ρ)} {links : Prop}
    (hlinks : ¬ links) (hx : Fails FilePtr.IsErr x) : Agrees x found links :=
  ⟨fun h => absurd h hlinks, fun _ => hx⟩

private theorem fails_step {x : VfsM (Outcome ρ)} {f : FilePtr ρ → VfsM (FilePtr ρ)}
    (h : Fails Outcome.IsErr x) :
    Fails FilePtr.IsErr (x >>= fun
      | .done p => pure p
      | .go p => f p) := by
  refine fails_bind h fun o ho => ?_
  obtain ⟨k, rfl⟩ := ho
  exact Or.inr ⟨_, ⟨k, rfl⟩, rfl⟩

private theorem nul_notMem_text {text : List UInt8} (h : readTarget cb junk node = some text) :
    0 ∉ text := by
  rw [readTarget] at h
  split at h
  · cases h
  generalize cb.readlink node.readlinkFn node junk = result at h
  obtain ⟨len, buf⟩ := result
  dsimp only at h
  split at h
  · obtain rfl := Option.some.inj h
    intro h0
    simpa using List.mem_takeWhile_imp h0
  · cases h

private theorem nul_notMem_targetComponents {text : List UInt8} (hb : ∀ c ∈ before, 0 ∉ c)
    (htext : 0 ∉ text) : ∀ c ∈ targetComponents before text, 0 ∉ c := by
  intro c hc
  rcases mem_foldl_pathStep hc with hc | ⟨hc, _⟩
  · split at hc
    · exact hb c hc
    · exact absurd hc List.not_mem_nil
  · exact fun h0 => htext ((mem_tokens hc).2.2 h0)

theorem walk_agrees
    (hreopen : ∀ cs, (∀ c ∈ cs, 0 ∉ c) → symlinkDepth < maxSymlinkDepth →
      Agrees (reopen cs 0 (symlinkDepth + 1)) (again cs) (openable cs))
    (hdepth : ∀ cs, openable cs → symlinkDepth < maxSymlinkDepth)
    (hbefore : ∀ c ∈ before, 0 ∉ c) (hnames : ∀ c ∈ rest, 0 ∉ c) :
    Agrees (walk cb junk reopen flags symlinkDepth before (.node node) rest)
      (resolveFrom cb junk again flags before node rest)
      (LinksOpenFrom cb junk again openable flags before node rest) := by
  induction rest generalizing before node with
  | nil => exact ⟨fun _ => rfl, fun h => absurd trivial h⟩
  | cons c rest ih =>
    have hc := hnames c (by simp)
    have hbefore' : ∀ d ∈ before ++ [c], 0 ∉ d := by
      simpa [or_imp, forall_and] using ⟨hbefore, hc⟩
    have ih' : ∀ node, Agrees
        (walk cb junk reopen flags symlinkDepth (before ++ [c]) (.node node) rest) _ _ :=
      fun node => ih hbefore' fun d hd => hnames d (by simp [hd])
    rw [resolveFrom, LinksOpenFrom]
    cases hnext : fsFinddirNode cb node c with
    | none =>
      rw [walk_none hc hnext]
      exact ⟨fun _ => rfl, fun h => absurd (fun _ he => by cases he) h⟩
    | some next =>
      simp only [Option.some.injEq, forall_eq', Option.bind_eq_bind, Option.bind_some]
      by_cases hlink : Followed flags (rest = []) next
      · rw [walk_link hc hnext hlink, if_pos hlink, if_pos hlink]
        by_cases hnofollow : flags &&& oNofollow ≠ 0 ∧ rest = []
        · exact agrees_of_fails (fun h => h.1 hnofollow)
            (fails_step (walkLink_fails (Or.inl hnofollow)))
        rw [if_neg hnofollow]
        cases htext : readTarget cb junk next with
        | none =>
          refine agrees_of_fails ?_ (fails_step (walkLink_fails (Or.inr (Or.inr htext))))
          rintro ⟨_, text, target, h, _⟩
          cases h
        | some text =>
          have hcs := nul_notMem_targetComponents hbefore (nul_notMem_text htext)
          simp only [Option.bind_some]
          by_cases hopen : openable (targetComponents before text)
          · have hsmall := hdepth _ hopen
            have htarget := (hreopen _ hcs hsmall).1 hopen
            rw [walkLink_reads hnofollow hsmall htext, htarget]
            cases hagain : again (targetComponents before text) with
            | none =>
              refine agrees_of_fails ?_ (Or.inr ⟨_, ⟨5, rfl⟩, rfl⟩)
              rintro ⟨_, text', target, h, _, h', _⟩
              rw [← Option.some.inj h, hagain] at h'
              cases h'
            | some target =>
              have hrest := ih' target
              refine ⟨?_, ?_⟩
              · rintro ⟨_, text', target', h, _, h', hlinks⟩
                rw [← Option.some.inj h, hagain] at h'
                rw [← Option.some.inj h'] at hlinks
                exact hrest.1 hlinks
              · intro hlinks
                exact hrest.2 fun h => hlinks ⟨hnofollow, text, target, rfl, hopen, hagain, h⟩
          · have hnot : ¬ (¬ (flags &&& oNofollow ≠ 0 ∧ rest = []) ∧
                ∃ text' target, some text = some text' ∧
                  openable (targetComponents before text') ∧
                  again (targetComponents before text') = some target ∧
                  LinksOpenFrom cb junk again openable flags (before ++ [c]) target rest) := by
              rintro ⟨_, text', target, h, h', _⟩
              rw [← Option.some.inj h] at h'
              exact hopen h'
            apply agrees_of_fails hnot
            by_cases hsmall : symlinkDepth < maxSymlinkDepth
            · have hfails := (hreopen _ hcs hsmall).2 hopen
              rw [walkLink_reads hnofollow hsmall htext, bind_assoc]
              refine fails_bind hfails fun p hp => ?_
              -- An error value is handed on, and the next step reads through it.
              obtain ⟨k, rfl⟩ := hp
              exact Or.inl ⟨.wildPointer, by decide, walk_err k⟩
            · exact fails_step (walkLink_fails (Or.inr (Or.inl (by omega))))
      · rw [walk_plain hc hnext hlink, if_neg hlink, if_neg hlink]
        exact ih' next

private theorem openWith_agrees {cs : List (List UInt8)} {k : Nat}
    (hreopen : ∀ cs, (∀ c ∈ cs, 0 ∉ c) → symlinkDepth < maxSymlinkDepth →
      Agrees (openPath cb junk vfs k cs 0 (symlinkDepth + 1)) (again cs) (openable cs))
    (hdepth : ∀ cs, openable cs → symlinkDepth < maxSymlinkDepth) (hnames : ∀ c ∈ cs, 0 ∉ c) :
    Agrees (openPath cb junk vfs (k + 1) cs flags symlinkDepth)
      (resolveWith cb junk vfs again cs flags)
      (LinksOpenWith cb junk vfs again openable cs flags) := by
  rw [openPath, resolveWith, LinksOpenWith]
  by_cases hnil : cs = []
  · rw [if_pos hnil, if_pos hnil, if_pos hnil]
    by_cases hroot : vfs.fsRoot = 0
    · rw [if_pos hroot]
      exact agrees_of_fails (fun h => h hroot) (Or.inl ⟨.nullPointer, by decide, rfl⟩)
    · rw [if_neg hroot, if_neg hroot]
      exact ⟨fun _ => rfl, fun h => absurd hroot h⟩
  rw [if_neg hnil, if_neg hnil, if_neg hnil]
  have hsuffix := mountPoint_suffix vfs cs
  generalize vfs.mountPoint cs = point at hsuffix ⊢
  obtain ⟨last, rest⟩ := point
  dsimp only at hsuffix ⊢
  by_cases hlast : last = 0
  · rw [if_pos hlast, if_pos hlast]
    exact ⟨fun _ => rfl, fun h => absurd (Or.inl hlast) h⟩
  rw [if_neg hlast, if_neg hlast]
  have hwalk : Agrees (walk cb junk (openPath cb junk vfs k) flags symlinkDepth
      (cs.take (cs.length - rest.length)) (.node (vfs.file last)) rest) _ _ :=
    walk_agrees hreopen hdepth (fun c hc => hnames c (List.mem_of_mem_take hc))
      fun c hc => hnames c (hsuffix.subset hc)
  exact ⟨fun h => hwalk.1 (h.resolve_left hlast), fun h => hwalk.2 fun h' => h (Or.inr h')⟩

theorem openPath_agrees {depth : Nat} (cs : List (List UInt8)) (flags symlinkDepth : Nat)
    (hdepth : symlinkDepth + depth = maxSymlinkDepth) (hnames : ∀ c ∈ cs, 0 ∉ c) :
    Agrees (openPath cb junk vfs (depth + 1) cs flags symlinkDepth)
      (resolve cb junk vfs depth cs flags) (LinksOpen cb junk vfs depth cs flags) := by
  induction depth generalizing cs flags symlinkDepth with
  | zero =>
    exact openWith_agrees (fun _ _ h => absurd h (by omega)) (fun _ h => absurd h not_false) hnames
  | succ depth ih =>
    exact openWith_agrees (fun cs hcs _ => ih cs 0 (symlinkDepth + 1) (by omega) hcs)
      (fun _ _ => by omega) hnames

end Search

/-- What is asked of a call: it comes to an end without a fault, returns none of the error values,
and returns 0 when nothing can be opened. -/
def OpensOrNull (x : VfsM (FilePtr ρ)) (found : Option (File ρ)) : Prop :=
  ∃ p, x = .ok p ∧ ¬ p.IsErr ∧ (found = none → p = .null)

theorem Agrees.opensOrNull_iff {x : VfsM (FilePtr ρ)} {found : Option (File ρ)} {links : Prop}
    (h : Agrees x found links) : OpensOrNull x found ↔ links := by
  constructor
  · rintro ⟨p, hx, hp, _⟩
    by_contra hlinks
    rcases h.2 hlinks with ⟨f, _, hf⟩ | ⟨q, hq, hx'⟩
    · rw [hx] at hf
      cases hf
    · rw [hx] at hx'
      cases hx'
      exact hp hq
  · intro hlinks
    refine ⟨_, h.1 hlinks, ?_, fun hnone => by rw [hnone]; rfl⟩
    rintro ⟨k, hk⟩
    cases found <;> cases hk

theorem Agrees.ne_endless {x : VfsM (FilePtr ρ)} {found : Option (File ρ)} {links : Prop}
    (h : Agrees x found links) : x ≠ .error .endless := by
  by_cases hlinks : links
  · rw [h.1 hlinks]
    simp
  · rcases h.2 hlinks with ⟨f, hf, rfl⟩ | ⟨p, _, rfl⟩
    · simpa using hf
    · simp

variable {vfs}

/-- `kopen` always ends within the depth of nesting. It reads inside the buffer, keeps its error
values to itself and returns 0 for what cannot be opened exactly when every link that is met can be
followed. -/
theorem kopen_opensOrNull_iff {file : Nat → File ρ} {calls : List (Option Block × Nat)}
    (hrun : mountAll junk (vfsInstall file) calls = .ok vfs) {workDirpath filename : Block}
    {w s : List UInt8} (hw : CString workDirpath w) (hs : CString filename s) (flags : Nat) :
    kopen cb junk vfs workDirpath none flags = .ok .null ∧
      kopen cb junk vfs workDirpath (some filename) flags ≠ .error .endless ∧
      (OpensOrNull (kopen cb junk vfs workDirpath (some filename) flags)
          (resolve cb junk vfs maxSymlinkDepth (targetComponents (tokens pathSeparator w) s)
            flags) ↔
        LinksOpen cb junk vfs maxSymlinkDepth (targetComponents (tokens pathSeparator w) s)
          flags) := by
  have hvfs := (wellFormed_vfsInstall file).mountAll hrun
  have hopen := kopenRecur_eq cb junk hvfs (k := maxSymlinkDepth + 1) flags 0 hs fun _ _ => hw
  have hnames : ∀ c ∈ targetComponents (tokens pathSeparator w) s, 0 ∉ c := fun c hc =>
    (isName_resolved hs.1 (fun _ _ => hw.1) c hc).no_nul
  have hagrees : Agrees (openPath cb junk vfs (maxSymlinkDepth + 1) _ flags 0) _ _ :=
    openPath_agrees _ flags 0 (Nat.zero_add _) hnames
  refine ⟨rfl, ?_⟩
  rw [kopen, hopen]
  exact ⟨hagrees.ne_endless, hagrees.opensOrNull_iff⟩

/-- A directory with the file `a`, a link `k` to it, a link `d` to nothing, a link `l` to `d`, and a
link `f` that fills the whole buffer. -/
private def someLinks : Callbacks Nat where
  openNode := fun _ node _ => (node, 0)
  finddir := fun _ _ name =>
    if name = [97] then some ⟨1, 0, 1, 0, 0, 0, 0⟩
    else if name = [107] then some ⟨32, 0, 1, 0, 0, 1, 1⟩
    else if name = [100] then some ⟨32, 0, 1, 0, 0, 1, 2⟩
    else if name = [108] then some ⟨32, 0, 1, 0, 0, 1, 3⟩
    else if name = [102] then some ⟨32, 0, 1, 0, 0, 1, 4⟩
    else none
  readlink := fun _ node buf =>
    if node.rest = 1 then (1, fun i => [97].getD i 0)
    else if node.rest = 2 then (2, fun i => [47, 120].getD i 0)
    else if node.rest = 3 then (1, fun i => [100].getD i 0)
    else (4096, buf)

private def oneMount : Mounts Nat where
  root := .node ⟨[91, 114, 111, 111, 116, 93, 0], 1⟩ []
  fsRoot := 1
  file := Function.update (fun _ => ⟨2, 0, 0, 0, 1, 0, 0⟩) 1 ⟨2, -1, 0, 0, 1, 0, 0⟩

private theorem mountAll_oneMount : mountAll (fun _ => 7)
    (vfsInstall fun _ => (⟨2, 0, 0, 0, 1, 0, 0⟩ : File Nat)) [(some [47, 0], 1)] =
      .ok oneMount := rfl

/-- The link `k` can be followed. -/
theorem kopen_link :
    OpensOrNull (kopen someLinks (fun _ => 7) oneMount [47, 0] (some [47, 107, 0]) 0)
      (resolve someLinks (fun _ => 7) oneMount maxSymlinkDepth [[107]] 0) := by
  have hfile : LinksOpen someLinks (fun _ => 7) oneMount 7 [[97]] 0 := by
    refine Or.inr fun next hnext => ?_
    have hplain : next = ⟨1, 0, 1, 0, 0, 0, 0⟩ := by
      rw [← Option.some.inj hnext]
    subst hplain
    exact trivial
  have hlink : LinksOpen someLinks (fun _ => 7) oneMount maxSymlinkDepth [[107]] 0 := by
    refine Or.inr fun next hnext => ?_
    have hnode : next = ⟨32, 0, 1, 0, 0, 1, 1⟩ := by
      rw [← Option.some.inj hnext]
    subst hnode
    exact ⟨by decide, [97], ⟨1, 1, 1, 0, 0, 0, 0⟩, by decide +kernel, hfile, by decide +kernel,
      trivial⟩
  have hroot : CString [47, 0] [47] := cString_terminated (by decide)
  have hname : CString [47, 107, 0] [47, 107] := cString_terminated (by decide)
  exact (kopen_opensOrNull_iff someLinks (fun _ => 7) mountAll_oneMount hroot hname 0).2.2.2 hlink

/-- The link `d` names nothing: `kopen` returns `(FILE*)-5`. From the link `l` to it this value
reaches `fopen`, and for the link `f` the byte behind the buffer is read. -/
theorem kopen_dangling :
    resolve someLinks (fun _ => 7) oneMount maxSymlinkDepth [[100]] 0 = none ∧
      kopen someLinks (fun _ => 7) oneMount [47, 0] (some [47, 100, 0]) 0 = .ok (.err 5) ∧
      kopen someLinks (fun _ => 7) oneMount [47, 0] (some [47, 108, 0]) 0 = .error .wildPointer ∧
      kopen someLinks (fun _ => 7) oneMount [47, 0] (some [47, 102, 0]) 0 =
        .error (.string .overrun) := by
  decide +kernel

end KernelTest.Vfs
