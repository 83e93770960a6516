import KernelTest.Framework.Exec
import KernelTest.Libc.Strings

/-!
# Splitting a string into an array of tokens

`tokenize` cuts a string in place and stores the tokens in the caller's array. The tokens that are
cut off first must still be there when the last one is found.
-/

namespace KernelTest.Libc

/-- `buf[i] = p` in an array of pointers into the string. -/
def storePointer (buf : List (Option Nat)) (i : Nat) (p : Option Nat) :
    Except Fault (List (Option Nat)) :=
  if i < buf.length then .ok (buf.set i p) else .error .overrun

/-- The loop of `tokenize`, for at most `fuel` tokens. -/
def tokenizeLoop (sep : UInt8) : Nat → Block → Option Nat → Nat → Nat → List (Option Nat) →
    Except Fault (Block × Nat × List (Option Nat))
  | 0, _, _, _, _, _ => .error .diverged
  | fuel + 1, str, pch, save, argc, buf =>
    match pch with
    | none => do
      let buf ← storePointer buf argc none
      .ok (str, argc, buf)
    | some token => do
      let buf ← storePointer buf argc (some token)
      let (str, pch, save) ← strtokR str save [sep]
      tokenizeLoop sep fuel str pch save (argc + 1) buf

/-- `tokenize(str, sep, buf)`: the string afterwards, the number of tokens, and the array. -/
def tokenize (str : Block) (sep : UInt8) (buf : List (Option Nat)) :
    Except Fault (Block × Nat × List (Option Nat)) := do
  let (str, pch, save) ← strtokR str 0 [sep]
  match pch with
  | none => .ok (str, 0, buf)
  | some token => tokenizeLoop sep (str.length + 1) str (some token) save 0 buf

section Frame

variable {b b' : Block} {p p' : Nat} {pch : Option Nat} {delim : List UInt8}

theorem storeByte_ok {c : UInt8} (h : storeByte b p c = .ok b') :
    p < b.length ∧ b' = b.set p c := by
  rw [storeByte] at h
  split at h
  · next hp =>
    cases h
    exact ⟨hp, rfl⟩
  · cases h

theorem cutToken_frame (h : cutToken b p delim = .ok (b', pch, p')) :
    b'.length = b.length ∧ b'.take p = b.take p ∧ pch = some p ∧ p ≤ p' ∧
      (b' = b ∧ b'[p']? = some 0 ∨ ∃ n, p' = p + n + 1 ∧ b'[p + n]? = some 0) := by
  rw [cutToken] at h
  cases hbrk : strpbrk (b.drop p) delim with
  | error e =>
    rw [hbrk] at h
    cases h
  | ok found =>
    rw [hbrk, Exec.ok_bind] at h
    cases found with
    | none =>
      cases hlen : strlen (b.drop p) with
      | error e =>
        simp only [hlen] at h
        cases h
      | ok n =>
        simp only [hlen] at h
        cases h
        obtain ⟨_, r, hr⟩ := cString_of_strlen hlen
        have hn : ((b.drop p).take n).length = n := by
          have hstr := congrArg List.length hr
          rw [List.length_append, List.length_take, List.length_cons] at hstr
          rw [List.length_take]
          omega
        refine ⟨rfl, rfl, rfl, by omega, Or.inl ⟨rfl, ?_⟩⟩
        rw [← List.getElem?_drop, hr, List.getElem?_append_right hn.le, hn, Nat.sub_self]
        rfl
    | some n =>
      cases hstore : storeByte b (p + n) 0 with
      | error e =>
        simp only [hstore] at h
        cases h
      | ok b₁ =>
        simp only [hstore] at h
        cases h
        obtain ⟨hlt, rfl⟩ := storeByte_ok hstore
        refine ⟨List.length_set, ?_, rfl, by omega, Or.inr ⟨n, rfl, ?_⟩⟩
        · rw [List.take_set_of_le (by omega)]
        · simp [hlt]

theorem strtokR_frame (h : strtokR b p delim = .ok (b', pch, p')) :
    b'.length = b.length ∧ b'.take p = b.take p ∧ p ≤ p' ∧ ∀ q, pch = some q →
      (b' = b ∧ b'[p']? = some 0 ∨ ∃ n, p' = q + n + 1 ∧ b'[q + n]? = some 0) := by
  rw [strtokR] at h
  cases hspan : strspn (b.drop p) delim with
  | error e =>
    rw [hspan] at h
    cases h
  | ok n =>
    rw [hspan, Exec.ok_bind] at h
    cases hload : loadByte b (p + n) with
    | error e =>
      rw [hload] at h
      cases h
    | ok c =>
      rw [hload, Exec.ok_bind] at h
      split at h
      · cases h
        simp
      · obtain ⟨hlen, htake, hpch, hle, hnext⟩ := cutToken_frame h
        refine ⟨hlen, ?_, by omega, ?_⟩
        · have hshort := congrArg (List.take p) htake
          rwa [List.take_take, List.take_take, Nat.min_eq_left (by omega)] at hshort
        · intro q hq
          rw [hpch] at hq
          cases hq
          exact hnext

theorem CString.of_take {q : Nat} {t : List UInt8} (h : CString (b.drop q) t)
    (hp : q + t.length < p) (htake : b'.take p = b.take p) : CString (b'.drop q) t := by
  have hsame : (b'.drop q).take (t.length + 1) = (b.drop q).take (t.length + 1) := by
    have hcut := congrArg (List.take (q + (t.length + 1))) htake
    rw [List.take_take, List.take_take, Nat.min_eq_left (by omega)] at hcut
    rw [List.take_drop, List.take_drop, hcut]
  rw [h.take] at hsame
  constructor
  · exact h.1
  · refine ⟨(b'.drop q).drop (t.length + 1), ?_⟩
    have hsplit := List.take_append_drop (t.length + 1) (b'.drop q)
    rw [hsame, List.append_assoc] at hsplit
    exact hsplit.symm

theorem token_end {q : Nat} {t s : List UInt8}
    (hnext : b'[p']? = some 0 ∨ ∃ n, p' = q + n + 1 ∧ b'[q + n]? = some 0)
    (ht : CString (b'.drop q) t) (hs : CString (b'.drop p') s) : s = [] ∨ q + t.length < p' := by
  rcases hnext with hzero | ⟨n, rfl, hzero⟩
  · left
    obtain ⟨hnul, r, hr⟩ := hs
    cases s with
    | nil => rfl
    | cons c s =>
      have hc : b'[p']? = some c := by
        rw [← Nat.add_zero p', ← List.getElem?_drop, hr]
        rfl
      rw [hzero] at hc
      cases hc
      simp at hnul
  · right
    obtain ⟨hnul, r, hr⟩ := ht
    by_contra hlt
    apply hnul
    rw [← List.getElem?_drop, hr, List.getElem?_append_left (by omega)] at hzero
    exact List.mem_of_getElem? hzero

end Frame

def TokensAt (str : Block) (buf : List (Option Nat)) (i : Nat) (ts : List (List UInt8)) : Prop :=
  ∀ k, ∀ h : k < ts.length, ∃ q, buf[i + k]? = some (some q) ∧ CString (str.drop q) ts[k]

theorem tokensAt_cons {str : Block} {buf : List (Option Nat)} {i q : Nat} {t : List UInt8}
    {ts : List (List UInt8)} (hq : buf[i]? = some (some q)) (ht : CString (str.drop q) t)
    (h : TokensAt str buf (i + 1) ts) : TokensAt str buf i (t :: ts) := by
  intro k hk
  cases k with
  | zero => exact ⟨q, hq, ht⟩
  | succ k =>
    have hrest := h k (by simpa using hk)
    rwa [show i + 1 + k = i + (k + 1) by omega] at hrest

/-- In the middle of the loop: what is pending, and the current token ends in front of the saved
pointer when another token follows. -/
structure Cutting (sep : UInt8) (str : Block) (pch : Option Nat) (save : Nat)
    (ts : List (List UInt8)) : Prop where
  pending : Pending sep str pch save ts
  behind : ∀ q t ts', pch = some q → ts = t :: ts' → ts' = [] ∨ q + t.length < save

section Loop

variable {sep : UInt8} {str : Block} {save : Nat} {s : List UInt8}

theorem strtokR_cutting (hsep : sep ≠ 0) (h : CString (str.drop save) s) :
    ∃ str' pch save', strtokR str save [sep] = .ok (str', pch, save') ∧
      Cutting sep str' pch save' (tokens sep s) ∧ str'.length = str.length ∧
      str'.take save = str.take save ∧ save ≤ save' ∧ (tokens sep s = [] → str' = str) := by
  obtain ⟨str', pch, save', hrun, hpending⟩ := strtokR_pending hsep h
  obtain ⟨hlen, htake, hle, hnext⟩ := strtokR_frame hrun
  refine ⟨str', pch, save', hrun, ⟨hpending, ?_⟩, hlen, htake, hle, ?_⟩
  · intro q t ts' hq hts
    rw [hts] at hpending
    obtain ⟨q', s', hq', ht, hs', htokens⟩ := hpending
    rw [hq] at hq'
    cases hq'
    rcases token_end ((hnext q hq).imp_left And.right) ht hs' with hnil | hlt
    · left
      rw [← htokens, hnil, tokens_nil]
    · exact Or.inr hlt
  · intro hnil
    obtain ⟨p', hp'⟩ := strtokR_nil hsep h hnil
    rw [hp'] at hrun
    cases hrun
    rfl

theorem storePointer_eq {buf : List (Option Nat)} {i : Nat} (h : i < buf.length)
    (p : Option Nat) : storePointer buf i p = .ok (buf.set i p) := if_pos h

theorem tokenizeLoop_eq (hsep : sep ≠ 0) {ts : List (List UInt8)} {fuel argc : Nat}
    {pch : Option Nat} {buf : List (Option Nat)} (h : Cutting sep str pch save ts)
    (hfuel : ts.length < fuel) (hroom : argc + ts.length < buf.length) :
    ∃ str' buf', tokenizeLoop sep fuel str pch save argc buf = .ok (str', argc + ts.length, buf') ∧
      TokensAt str' buf' argc ts ∧ (∀ j, j < argc → buf'[j]? = buf[j]?) ∧
      str'.take save = str.take save ∧ (ts = [] → str' = str) := by
  induction ts generalizing str pch save argc buf fuel with
  | nil =>
    cases fuel with
    | zero => simp at hfuel
    | succ n =>
      have hpch : pch = none := h.pending
      refine ⟨str, buf.set argc none, ?_, ?_, ?_, rfl, fun _ => rfl⟩
      · subst hpch
        rw [tokenizeLoop, storePointer_eq (by simpa using hroom)]
        rfl
      · intro k hk
        simp at hk
      · intro j hj
        rw [List.getElem?_set_ne (by omega)]
  | cons t ts ih =>
    cases fuel with
    | zero => simp at hfuel
    | succ n =>
      rw [List.length_cons] at hfuel hroom
      obtain ⟨q, s, rfl, ht, hs, hts⟩ := h.pending
      obtain ⟨str₁, pch₁, save₁, hrun, hcut, hlen, htake, hle, hnil⟩ := strtokR_cutting hsep hs
      rw [hts] at hcut hnil
      have hroom₁ : argc + 1 + ts.length < (buf.set argc (some q)).length := by
        rw [List.length_set]
        omega
      have hfuel₁ : ts.length < n := by omega
      obtain ⟨str', buf', hloop, hat, hbefore, hkeep, hsame⟩ := ih hcut hfuel₁ hroom₁
      have htake' : str'.take save = str.take save := by
        have hcutoff := congrArg (List.take save) hkeep
        rw [List.take_take, List.take_take, Nat.min_eq_left hle] at hcutoff
        rw [hcutoff, htake]
      refine ⟨str', buf', ?_, ?_, ?_, htake', by simp⟩
      · rw [tokenizeLoop, storePointer_eq (by omega), Exec.ok_bind, hrun, Exec.ok_bind,
          List.length_cons, show argc + (ts.length + 1) = argc + 1 + ts.length by omega]
        exact hloop
      · have hq : buf'[argc]? = some (some q) := by
          rw [hbefore argc (by omega), List.getElem?_set_self (by omega)]
        apply tokensAt_cons hq _ hat
        -- The last token ends at the saved pointer, and nothing is cut any more.
        rcases h.behind q t ts rfl rfl with hlast | hlt
        · rw [hsame hlast, hnil hlast]
          exact ht
        · exact ht.of_take hlt htake'
      · intro j hj
        rw [hbefore j (by omega), List.getElem?_set_ne (by omega)]

theorem tokenizeLoop_ne_ok (hsep : sep ≠ 0) {ts : List (List UInt8)} {fuel argc : Nat}
    {pch : Option Nat} {buf : List (Option Nat)} (h : Cutting sep str pch save ts)
    (hroom : buf.length ≤ argc + ts.length) (hargc : argc ≤ buf.length)
    (out : Block × Nat × List (Option Nat)) :
    tokenizeLoop sep fuel str pch save argc buf ≠ .ok out := by
  intro hok
  induction ts generalizing str pch save argc buf fuel with
  | nil =>
    cases fuel with
    | zero => cases hok
    | succ n =>
      have hpch : pch = none := h.pending
      subst hpch
      rw [tokenizeLoop, storePointer, if_neg (by simpa using hroom), Exec.error_bind] at hok
      cases hok
  | cons t ts ih =>
    cases fuel with
    | zero => cases hok
    | succ n =>
      rw [List.length_cons] at hroom
      obtain ⟨q, s, rfl, ht, hs, hts⟩ := h.pending
      obtain ⟨str₁, pch₁, save₁, hrun, hcut, _⟩ := strtokR_cutting hsep hs
      rw [hts] at hcut
      rw [tokenizeLoop] at hok
      by_cases hlt : argc < buf.length
      · rw [storePointer_eq hlt, Exec.ok_bind, hrun, Exec.ok_bind] at hok
        apply ih hcut _ _ hok
        · rw [List.length_set]
          omega
        · rw [List.length_set]
          omega
      · rw [storePointer, if_neg hlt, Exec.error_bind] at hok
        cases hok

end Loop

section Tokenize

variable {sep : UInt8} {str : Block} {s : List UInt8} {buf : List (Option Nat)}

theorem length_tokens_lt (h : CString str s) : (tokens sep s).length < str.length + 1 := by
  have hle : (tokens sep s).length ≤ s.length + 1 := length_tokens_le s
  obtain ⟨_, r, rfl⟩ := h
  rw [List.length_append, List.length_cons]
  omega

theorem tokenize_eq (hsep : sep ≠ 0) (h : CString str s)
    (hroom : (tokens sep s).length < buf.length) :
    ∃ str' buf', tokenize str sep buf = .ok (str', (tokens sep s).length, buf') ∧
      TokensAt str' buf' 0 (tokens sep s) := by
  obtain ⟨str₁, pch, save, hrun, hcut, hlen, _⟩ := @strtokR_cutting sep str 0 s hsep h
  rw [tokenize, hrun, Exec.ok_bind]
  cases hts : tokens sep s with
  | nil =>
    rw [hts] at hcut
    have hpch : pch = none := hcut.pending
    subst hpch
    refine ⟨str₁, buf, rfl, ?_⟩
    intro k hk
    simp at hk
  | cons t ts =>
    rw [hts] at hcut hroom
    obtain ⟨q, _, rfl, _⟩ := hcut.pending
    have hfuel : (t :: ts).length < str₁.length + 1 := by
      rw [hlen, ← hts]
      exact length_tokens_lt h
    have hroom₀ : 0 + (t :: ts).length < buf.length := by rwa [Nat.zero_add]
    obtain ⟨str', buf', hloop, hat, _⟩ := tokenizeLoop_eq hsep hcut hfuel hroom₀
    rw [Nat.zero_add] at hloop
    exact ⟨str', buf', hloop, hat⟩

theorem tokenize_ne_ok (hsep : sep ≠ 0) (h : CString str s) (hpos : 0 < buf.length)
    (hroom : buf.length ≤ (tokens sep s).length) (out : Block × Nat × List (Option Nat)) :
    tokenize str sep buf ≠ .ok out := by
  obtain ⟨str₁, pch, save, hrun, hcut, _⟩ := @strtokR_cutting sep str 0 s hsep h
  intro hok
  rw [tokenize, hrun, Exec.ok_bind] at hok
  cases hts : tokens sep s with
  | nil =>
    rw [hts] at hroom
    simp at hroom
    simp [hroom] at hpos
  | cons t ts =>
    rw [hts] at hcut hroom
    obtain ⟨q, _, rfl, _⟩ := hcut.pending
    exact tokenizeLoop_ne_ok hsep hcut (by simpa using hroom) (Nat.zero_le _) out hok

end Tokenize

end KernelTest.Libc
