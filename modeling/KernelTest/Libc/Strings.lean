import Mathlib.Data.List.TakeWhile
import KernelTest.Framework.Tokens
import KernelTest.Libc.LinkedList

/-!
# Strings

The string functions of the C library, on the bytes of the block a `char *` points into. Reading or
writing past the end of the block is a fault.
-/

namespace KernelTest.Libc

/-- The bytes of an allocated block, from some pointer into it to its end. -/
abbrev Block := List UInt8

inductive Fault
  /-- An access outside the block. -/
  | overrun
  /-- A loop that is still running when its bound is used up. -/
  | diverged
  /-- A fault of a list function. -/
  | list (f : ListFault)
  deriving DecidableEq, Repr

def liftList {β : Type} : Except ListFault β → Except Fault β
  | .ok b => .ok b
  | .error f => .error (.list f)

/-- `b[p]`. -/
def loadByte (b : Block) (p : Nat) : Except Fault UInt8 :=
  match b[p]? with
  | none => .error .overrun
  | some c => .ok c

/-- `b[p] = c`. -/
def storeByte (b : Block) (p : Nat) (c : UInt8) : Except Fault Block :=
  if p < b.length then .ok (b.set p c) else .error .overrun

/-- `memcpy(b + p, src, n)`. -/
def memcpy (b : Block) (p : Nat) (src : Block) (n : Nat) : Except Fault Block :=
  if p + n ≤ b.length ∧ n ≤ src.length then
    .ok (b.take p ++ src.take n ++ b.drop (p + n))
  else
    .error .overrun

/-- `malloc(n)`; `junk` is what the memory happens to hold. -/
def malloc (junk : Nat → UInt8) (n : Nat) : Block := (List.range n).map junk

/-- `strlen(s)`. -/
def strlen : Block → Except Fault Nat
  | [] => .error .overrun
  | c :: s => if c = 0 then .ok 0 else (strlen s).map (· + 1)

/-- `strspn(s, delim)`. -/
def strspn : Block → List UInt8 → Except Fault Nat
  | [], _ => .error .overrun
  | c :: s, delim => if c ∈ delim then (strspn s delim).map (· + 1) else .ok 0

/-- `strcspn(s, delim)`. -/
def strcspn : Block → List UInt8 → Except Fault Nat
  | [], _ => .error .overrun
  | c :: s, delim => if c = 0 ∨ c ∈ delim then .ok 0 else (strcspn s delim).map (· + 1)

/-- `strpbrk(s, delim)`, as an offset from `s`. -/
def strpbrk (s : Block) (delim : List UInt8) : Except Fault (Option Nat) := do
  let n ← strcspn s delim
  let c ← loadByte s n
  pure (if c = 0 then none else some n)

/-- `strcmp(l, r)`. -/
def strcmp : Block → Block → Except Fault Int
  | a :: l, b :: r =>
    if a = b ∧ a ≠ 0 then strcmp l r else .ok ((a.toNat : Int) - (b.toNat : Int))
  | _, _ => .error .overrun

/-- The second half of `strtok_r`: the end of the token is found and cut off. -/
def cutToken (b : Block) (token : Nat) (delim : List UInt8) :
    Except Fault (Block × Option Nat × Nat) := do
  match ← strpbrk (b.drop token) delim with
  | none =>
    let n ← strlen (b.drop token)
    pure (b, some token, token + n)
  | some n =>
    let b ← storeByte b (token + n) 0
    pure (b, some token, token + n + 1)

/-- `strtok_r(str, delim, &saveptr)` with `str` (or, when it is null, the saved pointer) at the
offset `p`: the block after the separator is overwritten, the token, and the saved pointer. -/
def strtokR (b : Block) (p : Nat) (delim : List UInt8) :
    Except Fault (Block × Option Nat × Nat) := do
  let n ← strspn (b.drop p) delim
  let c ← loadByte b (p + n)
  if c = 0 then pure (b, none, p + n) else cutToken b (p + n) delim

/-- The pointer with the bytes `b` points to the string `s`. -/
def CString (b : Block) (s : List UInt8) : Prop := 0 ∉ s ∧ ∃ r, b = s ++ 0 :: r

theorem strlen_eq {b : Block} {s : List UInt8} (h : CString b s) : strlen b = .ok s.length := by
  obtain ⟨hs, r, rfl⟩ := h
  induction s with
  | nil => rfl
  | cons c s ih =>
    have hc : c ≠ 0 := fun he => hs (by simp [he])
    rw [List.cons_append, strlen, if_neg hc, ih fun h => hs (by simp [h])]
    rfl

theorem cString_of_strlen {b : Block} {n : Nat} (h : strlen b = .ok n) : CString b (b.take n) := by
  induction b generalizing n with
  | nil => cases h
  | cons c b ih =>
    rw [strlen] at h
    split at h
    · next hc =>
      cases h
      exact ⟨by simp, b, by simp [hc]⟩
    · next hc =>
      cases hb : strlen b with
      | error e =>
        rw [hb] at h
        cases h
      | ok m =>
        rw [hb] at h
        cases h
        obtain ⟨hnul, r, hr⟩ := ih hb
        exact ⟨by simpa [Ne.symm hc] using hnul, r, by simpa using hr⟩

theorem CString.take {b : Block} {s : List UInt8} (h : CString b s) :
    b.take (s.length + 1) = s ++ [0] := by
  obtain ⟨_, r, rfl⟩ := h
  rw [List.take_append, List.take_of_length_le (by omega)]
  simp

theorem CString.drop {b : Block} {s t : List UInt8} (h : CString b (s ++ t)) :
    CString (b.drop s.length) t := by
  obtain ⟨hs, r, rfl⟩ := h
  exact ⟨fun h => hs (List.mem_append_right s h), r, by simp⟩

theorem cString_takeWhile {b : Block} (h : 0 ∈ b) : CString b (b.takeWhile (· ≠ 0)) := by
  induction b with
  | nil => simp at h
  | cons c b ih =>
    by_cases hc : c = 0
    · exact ⟨by simp [hc], b, by simp [hc]⟩
    · have hb : 0 ∈ b := by simpa [Ne.symm hc] using h
      obtain ⟨hnul, r, hr⟩ := ih hb
      refine ⟨by simpa [hc, Ne.symm hc] using hnul, r, ?_⟩
      rw [List.takeWhile_cons_of_pos (by simpa using hc), List.cons_append, ← hr]

theorem cString_terminated {s : List UInt8} (h : 0 ∉ s) : CString (s ++ [0]) s := ⟨h, [], rfl⟩

private theorem byte_sub_ne_zero {a b : UInt8} (h : a ≠ b) :
    (a.toNat : Int) - (b.toNat : Int) ≠ 0 := by
  have hne : a.toNat ≠ b.toNat := fun he => h (UInt8.toNat_inj.1 he)
  omega

theorem strcmp_eq_zero {l r : Block} {s t : List UInt8} (hl : CString l s) (hr : CString r t) :
    ∃ d, strcmp l r = .ok d ∧ (d = 0 ↔ s = t) := by
  obtain ⟨hs, l, rfl⟩ := hl
  obtain ⟨ht, r, rfl⟩ := hr
  induction s generalizing t with
  | nil =>
    cases t with
    | nil => exact ⟨0, by simp [strcmp], by simp⟩
    | cons b t =>
      have hb : (0 : UInt8) ≠ b := fun he => ht (by simp [he])
      exact ⟨_, if_neg (by simp), by simpa using byte_sub_ne_zero hb⟩
  | cons a s ih =>
    have ha : a ≠ 0 := fun he => hs (by simp [he])
    cases t with
    | nil => exact ⟨_, if_neg (by simp [ha]), by simpa using byte_sub_ne_zero ha⟩
    | cons b t =>
      by_cases hab : a = b
      · obtain ⟨d, hd, hiff⟩ := ih (fun h => hs (List.mem_cons_of_mem a h))
          (fun h => ht (List.mem_cons_of_mem b h))
        exact ⟨d, (if_pos ⟨hab, ha⟩).trans hd, by simp [hab, hiff]⟩
      · exact ⟨_, if_neg (by simp [hab]), by simpa [hab] using byte_sub_ne_zero hab⟩

private theorem strspn_eq {b : Block} {s delim : List UInt8} (hd : 0 ∉ delim) (h : CString b s) :
    strspn b delim = .ok (s.takeWhile (· ∈ delim)).length := by
  obtain ⟨hs, r, rfl⟩ := h
  induction s with
  | nil => exact if_neg hd
  | cons c s ih =>
    by_cases hc : c ∈ delim
    · rw [List.cons_append, strspn, if_pos hc, ih fun h => hs (List.mem_cons_of_mem c h)]
      simp [hc, Except.map]
    · rw [List.cons_append, strspn, if_neg hc]
      simp [hc]

private theorem strcspn_eq {b : Block} {s delim : List UInt8} (h : CString b s) :
    strcspn b delim = .ok (s.takeWhile (· ∉ delim)).length := by
  obtain ⟨hs, r, rfl⟩ := h
  induction s with
  | nil => exact if_pos (Or.inl rfl)
  | cons c s ih =>
    have h0 : c ≠ 0 := fun he => hs (by simp [he])
    by_cases hc : c ∈ delim
    · rw [List.cons_append, strcspn, if_pos (Or.inr hc)]
      simp [hc]
    · rw [List.cons_append, strcspn, if_neg (by simp [h0, hc]),
        ih fun h => hs (List.mem_cons_of_mem c h)]
      simp [hc, Except.map]

theorem loadByte_drop {b r : Block} {p : Nat} {c : UInt8} (h : b.drop p = c :: r) :
    loadByte b p = .ok c := by
  have hget : b[p]? = some c := by
    rw [← List.head?_drop, h]
    rfl
  rw [loadByte, hget]

theorem loadByte_append (x : Block) (c : UInt8) (r : Block) : loadByte (x ++ c :: r) x.length = .ok c :=
  loadByte_drop List.drop_left

private theorem loadByte_terminator {b : Block} {s : List UInt8} (h : CString b s) :
    loadByte b s.length = .ok 0 := by
  obtain ⟨_, r, rfl⟩ := h
  exact loadByte_drop (r := r) (by simp)

private theorem strpbrk_none {b : Block} {s delim : List UInt8} (hs : ∀ c ∈ s, c ∉ delim)
    (h : CString b s) : strpbrk b delim = .ok none := by
  have hspan : s.takeWhile (· ∉ delim) = s :=
    List.takeWhile_eq_self_iff.2 (by simpa using hs)
  rw [strpbrk, strcspn_eq h, hspan]
  show (loadByte b s.length >>= fun c => pure _) = _
  rw [loadByte_terminator h]
  rfl

private theorem strpbrk_some {b : Block} {s t delim : List UInt8} {d : UInt8}
    (ht : ∀ c ∈ t, c ∉ delim) (hd : d ∈ delim) (h : CString b (t ++ d :: s)) :
    strpbrk b delim = .ok (some t.length) := by
  have hspan : (t ++ d :: s).takeWhile (· ∉ delim) = t := by
    rw [List.takeWhile_append_of_pos (by simpa using ht)]
    simp [hd]
  have hbyte : loadByte b t.length = .ok d := by
    obtain ⟨_, r, rfl⟩ := h
    exact loadByte_drop (r := s ++ 0 :: r) (by simp)
  have hd0 : d ≠ 0 := fun he => h.1 (by simp [he])
  rw [strpbrk, strcspn_eq h, hspan]
  show (loadByte b t.length >>= fun c => pure _) = _
  rw [hbyte]
  show Except.ok _ = _
  rw [if_neg hd0]

section Tokenizer

variable {b : Block} {p : Nat} {s : List UInt8} {sep : UInt8}

private theorem strtokR_skip (hsep : sep ≠ 0) (h : CString (b.drop p) s) :
    ∃ p', CString (b.drop p') (s.dropWhile (· = sep)) ∧ strtokR b p [sep] =
      (loadByte b p' >>= fun c => if c = 0 then pure (b, none, p') else cutToken b p' [sep]) := by
  have hspan : strspn (b.drop p) [sep] = .ok (s.takeWhile (· = sep)).length := by
    rw [strspn_eq (by simpa using hsep.symm) h]
    simp
  refine ⟨p + (s.takeWhile (· = sep)).length, ?_, ?_⟩
  · rw [← List.takeWhile_append_dropWhile (p := (· = sep)) (l := s)] at h
    rw [← List.drop_drop]
    exact h.drop
  · rw [strtokR, hspan]
    rfl

theorem strtokR_nil (hsep : sep ≠ 0) (h : CString (b.drop p) s) (hs : tokens sep s = []) :
    ∃ p', strtokR b p [sep] = .ok (b, none, p') := by
  obtain ⟨p', hrest, hrun⟩ := strtokR_skip hsep h
  rcases tokens_cases sep s with ⟨hnil, _⟩ | ⟨t, _, _, ⟨_, htok⟩ | ⟨u, _, htok⟩⟩
  rotate_left
  · simp [hs] at htok
  · simp [hs] at htok
  rw [hnil] at hrest
  obtain ⟨_, r, hr⟩ := hrest
  refine ⟨p', ?_⟩
  rw [hrun, loadByte_drop hr]
  rfl

private theorem cutToken_last {t : List UInt8} (ht : sep ∉ t) (h : CString (b.drop p) t) :
    cutToken b p [sep] = .ok (b, some p, p + t.length) := by
  have hnone : strpbrk (b.drop p) [sep] = .ok none :=
    strpbrk_none (fun c hc he => ht (List.mem_singleton.1 he ▸ hc)) h
  rw [cutToken, hnone]
  show (strlen (b.drop p) >>= fun n => pure (b, some p, p + n)) = _
  rw [strlen_eq h]
  rfl

private theorem cutToken_cut {t u : List UInt8} (ht : sep ∉ t)
    (h : CString (b.drop p) (t ++ sep :: u)) :
    cutToken b p [sep] = .ok (b.set (p + t.length) 0, some p, p + t.length + 1) := by
  have hsome : strpbrk (b.drop p) [sep] = .ok (some t.length) :=
    strpbrk_some (fun c hc he => ht (List.mem_singleton.1 he ▸ hc)) (by simp) h
  have hlt : p + t.length < b.length := by
    obtain ⟨_, r, hr⟩ := h
    have hlen := congrArg List.length hr
    simp at hlen
    omega
  rw [cutToken, hsome]
  show (storeByte b (p + t.length) 0 >>= fun b => pure _) = _
  rw [storeByte, if_pos hlt]
  rfl

theorem strtokR_cons {t : List UInt8} {ts : List (List UInt8)} (hsep : sep ≠ 0)
    (h : CString (b.drop p) s) (hs : tokens sep s = t :: ts) :
    ∃ b' q p' s', strtokR b p [sep] = .ok (b', some q, p') ∧ CString (b'.drop q) t ∧
      CString (b'.drop p') s' ∧ tokens sep s' = ts := by
  obtain ⟨q, hrest, hrun⟩ := strtokR_skip hsep h
  rcases tokens_cases sep s with ⟨_, htok⟩ | ⟨v, hne, hv, htok⟩
  · simp [hs] at htok
  have hvt : v = t := by
    rcases htok with ⟨_, htok⟩ | ⟨u, _, htok⟩ <;> rw [hs] at htok <;>
      exact (List.cons.inj htok).1.symm
  subst hvt
  have hbyte : ∀ w, CString (b.drop q) (v ++ w) → ∃ c, c ≠ 0 ∧ loadByte b q = .ok c := by
    intro w hw
    obtain ⟨c, v', rfl⟩ := List.exists_cons_of_ne_nil hne
    obtain ⟨h0, r, hr⟩ := hw
    exact ⟨c, fun he => h0 (by simp [he]), loadByte_drop hr⟩
  have hcut : ∀ w, CString (b.drop q) (v ++ w) → strtokR b p [sep] = cutToken b q [sep] := by
    intro w hw
    obtain ⟨c, hc, hload⟩ := hbyte w hw
    rw [hrun, hload]
    show (if c = 0 then _ else _) = _
    rw [if_neg hc]
  rcases htok with ⟨hlast, htok⟩ | ⟨u, hmid, htok⟩
  · rw [hlast] at hrest
    have hstr : CString (b.drop q) (v ++ []) := by simpa using hrest
    refine ⟨b, q, q + v.length, [], ?_, hrest, ?_, ?_⟩
    · rw [hcut [] hstr, cutToken_last hv hrest]
    · rw [← List.drop_drop]
      exact hstr.drop
    · rw [hs] at htok
      exact (List.cons.inj htok).2.symm
  · rw [hmid] at hrest
    refine ⟨b.set (q + v.length) 0, q, q + v.length + 1, u, ?_, ?_, ?_, ?_⟩
    · rw [hcut _ hrest, cutToken_cut hv hrest]
    · obtain ⟨h0, r, hr⟩ := hrest
      have hset : (b.set (q + v.length) 0).drop q = v ++ 0 :: (u ++ 0 :: r) := by
        rw [List.drop_set, if_neg (by omega), hr]
        simp
      exact ⟨fun h => h0 (List.mem_append_left _ h), _, hset⟩
    · have hstr : CString (b.drop q) ((v ++ [sep]) ++ u) := by simpa using hrest
      have hdrop := hstr.drop
      rw [List.drop_drop] at hdrop
      rw [List.drop_set_of_lt (by omega)]
      simpa [Nat.add_assoc] using hdrop
    · rw [hs] at htok
      exact (List.cons.inj htok).2.symm

/-- In the middle of a tokenizer loop with the current token at `pch`: `ts` are the tokens still
to be handled, the current one included. -/
def Pending (sep : UInt8) (b : Block) (pch : Option Nat) (save : Nat) : List (List UInt8) → Prop
  | [] => pch = none
  | t :: ts => ∃ q s, pch = some q ∧ CString (b.drop q) t ∧ CString (b.drop save) s ∧
      tokens sep s = ts

theorem strtokR_pending (hsep : sep ≠ 0) (h : CString (b.drop p) s) :
    ∃ b' pch save, strtokR b p [sep] = .ok (b', pch, save) ∧
      Pending sep b' pch save (tokens sep s) := by
  cases hs : tokens sep s with
  | nil =>
    obtain ⟨p', hrun⟩ := strtokR_nil hsep h hs
    exact ⟨b, none, p', hrun, rfl⟩
  | cons t ts =>
    obtain ⟨b', q, p', s', hrun, htoken, hrest, hts⟩ := strtokR_cons hsep h hs
    exact ⟨b', some q, p', hrun, q, s', rfl, htoken, hrest, hts⟩

end Tokenizer

end KernelTest.Libc
