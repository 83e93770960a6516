import Mathlib.Data.Nat.Bitwise
import Mathlib.Data.Nat.Find
import Mathlib.Tactic.Tauto
import KernelTest.Framework.Exec
import KernelTest.Libc.Strings

/-!
# Scanning memory word by word

`strlen`, `strchrnul`, `strchr` and `memchr` on a memory in which some addresses are mapped. They go byte by
byte to an aligned address and then word by word, so that they read behind the end of what they scan, though
never in a word none of whose bytes they need.
-/

namespace KernelTest.Libc.Raw

abbrev Memory := Nat → Option UInt8

def load (mem : Memory) (a : Nat) : Except Fault UInt8 :=
  match mem a with
  | none => .error .overrun
  | some b => .ok b

/-! ## Words -/

/-- The word of four bytes, the first of which is the lowest. -/
def wordOf (a b c d : UInt8) : BitVec 32 := d.toBitVec ++ c.toBitVec ++ b.toBitVec ++ a.toBitVec

/-- `*(size_t *)a`. -/
def loadWord (mem : Memory) (a : Nat) : Except Fault (BitVec 32) := do
  let b₀ ← load mem a
  let b₁ ← load mem (a + 1)
  let b₂ ← load mem (a + 2)
  let b₃ ← load mem (a + 3)
  return wordOf b₀ b₁ b₂ b₃

/-- `ONES`. -/
def ones : BitVec 32 := 0xFFFFFFFF#32 / 255#32

/-- `HIGHS`. -/
def highs : BitVec 32 := ones * (255#32 / 2#32 + 1#32)

/-- `HASZERO(x)`. -/
def hasZero (x : BitVec 32) : Bool := (x - ones) &&& ~~~x &&& highs ≠ 0#32

theorem toNat_wordOf (a b c d : UInt8) :
    (wordOf a b c d).toNat = a.toNat + 256 * (b.toNat + 256 * (c.toNat + 256 * d.toNat)) := by
  have ha := a.toNat_lt
  have hb := b.toNat_lt
  have hc := c.toNat_lt
  rw [wordOf, BitVec.toNat_append, BitVec.toNat_append, BitVec.toNat_append]
  simp only [UInt8.toNat_toBitVec]
  rw [← Nat.shiftLeft_add_eq_or_of_lt hc, ← Nat.shiftLeft_add_eq_or_of_lt hb, ← Nat.shiftLeft_add_eq_or_of_lt ha]
  omega

/-- The bit `i` of `x - ONES` is set, and that of `x` is not. -/
def Borrowed (x : BitVec 32) (i : Nat) : Prop :=
  (x.toNat + 4278124287) % 4294967296 / 2 ^ i % 2 = 1 ∧ x.toNat / 2 ^ i % 2 = 0

theorem borrowed_iff (x : BitVec 32) {i : Nat} (hi : i < 32) :
    ((x - ones) &&& ~~~x).getLsbD i = true ↔ Borrowed x i := by
  have hones : 2 ^ 32 - ones.toNat + x.toNat = x.toNat + 4278124287 := by
    rw [show ones.toNat = 16843009 by decide]
    omega
  rw [BitVec.getLsbD_and, BitVec.getLsbD_not, decide_eq_true hi, Bool.true_and, Bool.and_eq_true,
    Bool.not_eq_true', ← BitVec.testBit_toNat, ← BitVec.testBit_toNat, BitVec.toNat_sub, hones,
    Nat.testBit_eq_decide_div_mod_eq, Nat.testBit_eq_decide_div_mod_eq, decide_eq_true_iff, decide_eq_false_iff_not,
    Borrowed]
  generalize x.toNat / 2 ^ i = y
  exact and_congr_right fun _ => by omega

theorem hasZero_iff (x : BitVec 32) :
    hasZero x = true ↔ Borrowed x 7 ∨ Borrowed x 15 ∨ Borrowed x 23 ∨ Borrowed x 31 := by
  have hhighs : ∀ i < 32, highs.getLsbD i = true ↔ i = 7 ∨ i = 15 ∨ i = 23 ∨ i = 31 := by decide
  rw [hasZero, decide_eq_true_iff]
  constructor
  · intro hne
    obtain ⟨i, hi, hbit⟩ : ∃ i < 32, ((x - ones) &&& ~~~x &&& highs).getLsbD i = true := by
      by_contra hnone
      refine hne (BitVec.eq_of_getLsbD_eq fun i hi => ?_)
      rw [BitVec.getLsbD_zero]
      exact Bool.eq_false_iff.mpr fun htrue => hnone ⟨i, hi, htrue⟩
    rw [BitVec.getLsbD_and, Bool.and_eq_true, borrowed_iff x hi, hhighs i hi] at hbit
    rcases hbit with ⟨hbit, rfl | rfl | rfl | rfl⟩ <;> simp [hbit]
  · intro hbit heq
    have hzero : ∀ i < 32, (i = 7 ∨ i = 15 ∨ i = 23 ∨ i = 31) → ¬ Borrowed x i := by
      intro i hi hhigh hborrowed
      have hset := congrArg (BitVec.getLsbD · i) heq
      simp only [BitVec.getLsbD_and, BitVec.getLsbD_zero] at hset
      rw [← BitVec.getLsbD_and, (borrowed_iff x hi).mpr hborrowed, (hhighs i hi).mpr hhigh] at hset
      exact absurd hset (by decide)
    rcases hbit with h | h | h | h
    · exact hzero 7 (by decide) (by decide) h
    · exact hzero 15 (by decide) (by decide) h
    · exact hzero 23 (by decide) (by decide) h
    · exact hzero 31 (by decide) (by decide) h

/-- The test for a zero byte is right: no borrow comes out of bytes that are not zero. -/
theorem hasZero_wordOf (a b c d : UInt8) :
    hasZero (wordOf a b c d) = true ↔ a = 0 ∨ b = 0 ∨ c = 0 ∨ d = 0 := by
  have hzero : ∀ y : UInt8, y = 0 ↔ y.toNat = 0 := fun y => by rw [← UInt8.toNat_inj]; rfl
  have ha := a.toNat_lt
  have hb := b.toNat_lt
  have hc := c.toNat_lt
  have hd := d.toNat_lt
  rw [hasZero_iff, Borrowed, Borrowed, Borrowed, Borrowed, toNat_wordOf, hzero, hzero, hzero, hzero]
  generalize hx : a.toNat + 256 * (b.toNat + 256 * (c.toNat + 256 * d.toNat)) = x
  generalize hy : (x + 4278124287) % 4294967296 = y
  constructor
  · intro h
    by_contra hne
    rcases h with h | h | h | h <;> omega
  · intro h
    -- the lowest byte that is zero borrows
    by_cases ha0 : a.toNat = 0
    · exact Or.inl (by omega)
    · by_cases hb0 : b.toNat = 0
      · exact Or.inr (Or.inl (by omega))
      · by_cases hc0 : c.toNat = 0
        · exact Or.inr (Or.inr (Or.inl (by omega)))
        · exact Or.inr (Or.inr (Or.inr (by omega)))

/-- `ONES * c`. -/
def repeated (c : UInt8) : BitVec 32 := ones * c.toBitVec.setWidth 32

theorem repeated_eq (c : UInt8) : repeated c = wordOf c c c c := by
  have hc := c.toNat_lt
  apply BitVec.eq_of_toNat_eq
  rw [repeated, BitVec.toNat_mul, toNat_wordOf, show ones.toNat = 16843009 by decide, BitVec.toNat_setWidth,
    UInt8.toNat_toBitVec]
  omega

/-- Whether the word has a byte `c`. -/
theorem hasZero_xor (c b₀ b₁ b₂ b₃ : UInt8) :
    hasZero (wordOf b₀ b₁ b₂ b₃ ^^^ repeated c) = true ↔ b₀ = c ∨ b₁ = c ∨ b₂ = c ∨ b₃ = c := by
  have hxor : wordOf b₀ b₁ b₂ b₃ ^^^ repeated c = wordOf (b₀ ^^^ c) (b₁ ^^^ c) (b₂ ^^^ c) (b₃ ^^^ c) := by
    rw [repeated_eq, wordOf, wordOf, wordOf, BitVec.xor_append, BitVec.xor_append, BitVec.xor_append]
    rfl
  rw [hxor, hasZero_wordOf]
  simp only [UInt8.xor_eq_zero_iff]

/-! ## The loops -/

/-- `for (; s % ALIGN; s++) if (stop(*s)) return s`: the address, and whether the scan is over. -/
def scanHead (stop : UInt8 → Bool) (mem : Memory) : Nat → Nat → Except Fault (Nat × Bool)
  | 0, _ => .error .diverged
  | fuel + 1, s =>
    if s % 4 = 0 then .ok (s, false)
    else do
      let b ← load mem s
      if stop b then return (s, true)
      else scanHead stop mem fuel (s + 1)

/-- `for (; !stopWord(*w); w++)`. -/
def scanWords (stopWord : BitVec 32 → Bool) (mem : Memory) : Nat → Nat → Except Fault Nat
  | 0, _ => .error .diverged
  | fuel + 1, w => do
    let x ← loadWord mem w
    if stopWord x then return w
    else scanWords stopWord mem fuel (w + 4)

/-- `for (; !stop(*s); s++)`. -/
def scanBytes (stop : UInt8 → Bool) (mem : Memory) : Nat → Nat → Except Fault Nat
  | 0, _ => .error .diverged
  | fuel + 1, s => do
    let b ← load mem s
    if stop b then return s
    else scanBytes stop mem fuel (s + 1)

def scan (stop : UInt8 → Bool) (stopWord : BitVec 32 → Bool) (fuel : Nat) (mem : Memory) (s : Nat) :
    Except Fault Nat := do
  let (s, stopped) ← scanHead stop mem fuel s
  if stopped then return s
  else
    let w ← scanWords stopWord mem fuel s
    scanBytes stop mem fuel w

/-- `strlen(s)`. -/
def strlen (fuel : Nat) (mem : Memory) (s : Nat) : Except Fault Nat := do
  let e ← scan (· == 0) hasZero fuel mem s
  return e - s

/-- `strchrnul(s, c)`. -/
def strchrnul (fuel : Nat) (mem : Memory) (s : Nat) (c : UInt8) : Except Fault Nat :=
  if c = 0 then do
    let l ← strlen fuel mem s
    return s + l
  else scan (fun b => b == 0 || b == c) (fun x => hasZero x || hasZero (x ^^^ repeated c)) fuel mem s

/-- `strchr(s, c)`. -/
def strchr (fuel : Nat) (mem : Memory) (s : Nat) (c : UInt8) : Except Fault (Option Nat) := do
  let r ← strchrnul fuel mem s c
  let b ← load mem r
  return if b = c then some r else none

/-- `for (; (s & (ALIGN - 1)) && n && *s != c; s++, n--)`. -/
def memchrHead (c : UInt8) (mem : Memory) : Nat → Nat → Except Fault (Nat × Nat)
  | s, 0 => .ok (s, 0)
  | s, n + 1 =>
    if s % 4 = 0 then .ok (s, n + 1)
    else do
      let b ← load mem s
      if b = c then return (s, n + 1)
      else memchrHead c mem (s + 1) n

/-- `for (; n >= sizeof(size_t) && !HASZERO(*w^k); w++, n -= sizeof(size_t))`. -/
def memchrWords (c : UInt8) (mem : Memory) : Nat → Nat → Except Fault (Nat × Nat)
  | w, n + 4 => do
    let x ← loadWord mem w
    if hasZero (x ^^^ repeated c) then return (w, n + 4)
    else memchrWords c mem (w + 4) n
  | w, n => .ok (w, n)

/-- `for (; n && *s != c; s++, n--)`. -/
def memchrBytes (c : UInt8) (mem : Memory) : Nat → Nat → Except Fault (Nat × Nat)
  | s, 0 => .ok (s, 0)
  | s, n + 1 => do
    let b ← load mem s
    if b = c then return (s, n + 1)
    else memchrBytes c mem (s + 1) n

/-- `memchr(s, c, n)`. -/
def memchr (c : UInt8) (mem : Memory) (s n : Nat) : Except Fault (Option Nat) := do
  let (s, n) ← memchrHead c mem s n
  if n = 0 then return none
  else
    let b ← load mem s
    if b = c then return some s
    else
      let (w, n) ← memchrWords c mem s n
      let (s, n) ← memchrBytes c mem w n
      return if n = 0 then none else some s

/-! ## What they find -/

/-- Words are mapped as a whole. -/
def AlignedMapping (mem : Memory) : Prop := ∀ a, mem a ≠ none → ∀ i < 4, mem (a / 4 * 4 + i) ≠ none

/-- The byte at an address that is mapped. -/
def byteAt (mem : Memory) (a : Nat) : UInt8 := (mem a).getD 0

/-- The addresses from `s` up to and including `e` are mapped. -/
def Mapped (mem : Memory) (s e : Nat) : Prop := ∀ a, s ≤ a → a ≤ e → mem a ≠ none

/-- The first byte from `s` on that stops is the one at `e`. -/
structure StopsAt (stop : UInt8 → Bool) (mem : Memory) (s e : Nat) : Prop where
  le : s ≤ e
  mapped : Mapped mem s e
  before : ∀ a, s ≤ a → a < e → stop (byteAt mem a) = false
  hit : stop (byteAt mem e) = true

variable {stop : UInt8 → Bool} {stopWord : BitVec 32 → Bool} {mem : Memory} {c : UInt8} {s e a n fuel : Nat}
  {t : List UInt8}

theorem load_eq (h : mem a ≠ none) : load mem a = .ok (byteAt mem a) := by
  rw [load, byteAt]
  cases hmem : mem a with
  | none => exact absurd hmem h
  | some b => rfl

theorem loadWord_eq (halign : AlignedMapping mem) (h : mem a ≠ none) (ha : a % 4 = 0) :
    loadWord mem a = .ok (wordOf (byteAt mem a) (byteAt mem (a + 1)) (byteAt mem (a + 2)) (byteAt mem (a + 3))) := by
  have hword : ∀ i < 4, mem (a + i) ≠ none := by
    intro i hi
    have hi' := halign a h i hi
    rwa [show a / 4 * 4 + i = a + i by omega] at hi'
  rw [loadWord, load_eq h, Exec.ok_bind, load_eq (hword 1 (by decide)), Exec.ok_bind,
    load_eq (hword 2 (by decide)), Exec.ok_bind, load_eq (hword 3 (by decide)), Exec.ok_bind]
  rfl

namespace StopsAt

theorem load (h : StopsAt stop mem s e) : Raw.load mem s = .ok (byteAt mem s) :=
  load_eq (h.mapped s (Nat.le_refl s) h.le)

theorem later (h : StopsAt stop mem s e) (hsa : s ≤ a) (hae : a ≤ e) : StopsAt stop mem a e :=
  ⟨hae, fun a' ha => h.mapped a' (by omega), fun a' ha => h.before a' (by omega), h.hit⟩

theorem lt (h : StopsAt stop mem s e) (hstop : ¬ stop (byteAt mem s) = true) : s < e :=
  Nat.lt_of_le_of_ne h.le fun heq => hstop (heq ▸ h.hit)

theorem eq_end (h : StopsAt stop mem s e) (hstop : stop (byteAt mem s) = true) : s = e := by
  by_contra hne
  have := h.before s (Nat.le_refl s) (Nat.lt_of_le_of_ne h.le hne)
  rw [hstop] at this
  exact absurd this (by decide)

theorem scanBytes_eq (h : StopsAt stop mem s e) (hfuel : e - s < fuel) : scanBytes stop mem fuel s = .ok e := by
  induction fuel generalizing s with
  | zero => omega
  | succ fuel ih =>
    rw [scanBytes, h.load, Exec.ok_bind]
    split
    · next hstop => rw [h.eq_end hstop]; rfl
    · next hstop =>
      have hlt := h.lt hstop
      exact ih (h.later (Nat.le_succ s) hlt) (by omega)

theorem scanHead_eq (h : StopsAt stop mem s e) (hfuel : e - s + 1 < fuel) :
    scanHead stop mem fuel s = .ok (e, true) ∨
      ∃ a, s ≤ a ∧ a ≤ e ∧ a % 4 = 0 ∧ scanHead stop mem fuel s = .ok (a, false) := by
  induction fuel generalizing s with
  | zero => omega
  | succ fuel ih =>
    rw [scanHead]
    split
    · next halign => exact Or.inr ⟨s, Nat.le_refl s, h.le, halign, rfl⟩
    · rw [h.load, Exec.ok_bind]
      split
      · next hstop => exact Or.inl (by rw [h.eq_end hstop]; rfl)
      · next hstop =>
        have hlt := h.lt hstop
        rcases ih (h.later (Nat.le_succ s) hlt) (by omega) with hhead | ⟨a, hsa, hae, halign, hhead⟩
        · exact Or.inl hhead
        · exact Or.inr ⟨a, by omega, hae, halign, hhead⟩

section Words

variable (halign : AlignedMapping mem) (hword : ∀ b₀ b₁ b₂ b₃, stopWord (wordOf b₀ b₁ b₂ b₃) = true ↔
  stop b₀ = true ∨ stop b₁ = true ∨ stop b₂ = true ∨ stop b₃ = true)
include halign hword

theorem scanWords_eq (h : StopsAt stop mem s e) (hs : s % 4 = 0) (hfuel : e - s < fuel) :
    ∃ a, s ≤ a ∧ a ≤ e ∧ scanWords stopWord mem fuel s = .ok a := by
  induction fuel generalizing s with
  | zero => omega
  | succ fuel ih =>
    rw [scanWords, loadWord_eq halign (h.mapped s (Nat.le_refl s) h.le) hs, Exec.ok_bind]
    split
    · exact ⟨s, Nat.le_refl s, h.le, rfl⟩
    · next hstop =>
      -- none of the four bytes stops, so that the scan is not over in this word
      rw [hword, not_or, not_or, not_or] at hstop
      have hlt : s + 4 ≤ e := by
        by_contra hgt
        have hhit := h.hit
        have hle := h.le
        rcases (by omega : e = s ∨ e = s + 1 ∨ e = s + 2 ∨ e = s + 3) with rfl | rfl | rfl | rfl
        · exact hstop.1 hhit
        · exact hstop.2.1 hhit
        · exact hstop.2.2.1 hhit
        · exact hstop.2.2.2 hhit
      obtain ⟨a, hsa, hae, hrun⟩ := ih (h.later (by omega) hlt) (by omega) (by omega)
      exact ⟨a, by omega, hae, hrun⟩

/-- The scan finds what a scan byte by byte does. -/
theorem scan_eq (h : StopsAt stop mem s e) (hfuel : e - s + 1 < fuel) : scan stop stopWord fuel mem s = .ok e := by
  rw [scan]
  rcases h.scanHead_eq hfuel with hhead | ⟨a, hsa, hae, ha, hhead⟩
  · rw [hhead]
    rfl
  · have hleft : e - a < fuel := by omega
    obtain ⟨b, hab, hbe, hwords⟩ := (h.later hsa hae).scanWords_eq halign hword ha hleft
    rw [hhead]
    change (scanWords stopWord mem fuel a >>= _) = _
    rw [hwords]
    exact (h.later (Nat.le_trans hsa hab) hbe).scanBytes_eq (by omega)

end Words

end StopsAt

/-- A string stands at `s`, and its terminator at `e`. -/
abbrev StringAt (mem : Memory) (s e : Nat) : Prop := StopsAt (· == 0) mem s e

/-- The bytes of the string and its terminator. -/
structure HoldsString (mem : Memory) (a : Nat) (t : List UInt8) : Prop where
  nul : 0 ∉ t
  bytes : ∀ i, i ≤ t.length → mem (a + i) = some (t.getD i 0)

theorem HoldsString.byteAt_eq {a i : Nat} (hs : HoldsString mem a t) (hi : i ≤ t.length) :
    byteAt mem (a + i) = t.getD i 0 := by
  rw [byteAt, hs.bytes i hi]
  rfl

theorem HoldsString.stringAt {a : Nat} (hs : HoldsString mem a t) : StringAt mem a (a + t.length) := by
  refine ⟨Nat.le_add_right a _, fun a' ha hae => ?_, fun a' ha hae => ?_, ?_⟩
  · obtain ⟨i, rfl⟩ := Nat.exists_eq_add_of_le ha
    rw [hs.bytes i (by omega)]
    exact Option.some_ne_none _
  · obtain ⟨i, rfl⟩ := Nat.exists_eq_add_of_le ha
    rw [hs.byteAt_eq (by omega), beq_eq_false_iff_ne]
    have hi : i < t.length := by omega
    rw [List.getD_eq_getElem _ _ hi]
    exact fun hzero => hs.nul (hzero ▸ List.getElem_mem hi)
  · rw [hs.byteAt_eq (Nat.le_refl _), List.getD_eq_default _ _ (Nat.le_refl _)]
    rfl

/-! ## An example page -/

def exampleText : List UInt8 := [120, 99, 97, 98, 99, 97, 99, 97, 98, 99, 97]

def exampleNeedle : List UInt8 := [97, 99, 97, 98, 99, 97]

/-- A mapped page with a string at the address 0 and another one behind it. -/
def examplePage : Memory := fun a =>
  if a < 4096 then some ((exampleText ++ 0 :: exampleNeedle).getD a 0) else none

theorem examplePage_aligned : AlignedMapping examplePage := by
  intro a ha i hi
  have ha' : a < 4096 := by
    by_contra hge
    exact ha (if_neg hge)
  rw [examplePage, if_pos (by omega)]
  exact Option.some_ne_none _

theorem exampleText_holds : HoldsString examplePage 0 exampleText := ⟨by decide, by decide⟩

theorem exampleNeedle_holds : HoldsString examplePage 12 exampleNeedle := ⟨by decide, by decide⟩

/-! ## The functions -/

theorem strlen_scan (halign : AlignedMapping mem) (h : StringAt mem s e) (hfuel : e - s + 1 < fuel) :
    strlen fuel mem s = .ok (e - s) := by
  rw [strlen, h.scan_eq halign (fun b₀ b₁ b₂ b₃ => by simp [hasZero_wordOf]) hfuel]
  rfl

/-- The first place at which the string has the byte, or its end. -/
structure FirstByte (mem : Memory) (c : UInt8) (s e r : Nat) : Prop where
  le : s ≤ r ∧ r ≤ e
  before : ∀ a, s ≤ a → a < r → byteAt mem a ≠ c
  hit : byteAt mem r = c ∨ r = e

theorem strchrnul_scan (halign : AlignedMapping mem) (h : StringAt mem s e) (hfuel : e - s + 1 < fuel)
    (c : UInt8) : ∃ r, strchrnul fuel mem s c = .ok r ∧ FirstByte mem c s e r := by
  rw [strchrnul]
  split
  · next hc =>
    subst hc
    refine ⟨e, ?_, ⟨h.le, Nat.le_refl e⟩, fun a hsa hae => by simpa using h.before a hsa hae, Or.inr rfl⟩
    rw [strlen_scan halign h hfuel, Exec.ok_bind, Nat.add_sub_cancel' h.le]
    rfl
  · next hc =>
    obtain ⟨r, hr, hmin⟩ : ∃ r, (s ≤ r ∧ r ≤ e ∧ (byteAt mem r = 0 ∨ byteAt mem r = c)) ∧
        ∀ a, s ≤ a → a < r → ¬ (byteAt mem a = 0 ∨ byteAt mem a = c) := by
      have hex : ∃ i, byteAt mem (s + i) = 0 ∨ byteAt mem (s + i) = c :=
        ⟨e - s, Or.inl (by simpa [Nat.add_sub_cancel' h.le] using h.hit)⟩
      refine ⟨s + Nat.find hex, ⟨Nat.le_add_right _ _, ?_, Nat.find_spec hex⟩, fun a hsa har => ?_⟩
      · have hle : Nat.find hex ≤ e - s :=
          Nat.find_min' hex (Or.inl (by simpa [Nat.add_sub_cancel' h.le] using h.hit))
        have := h.le
        omega
      · have := Nat.find_min hex (m := a - s) (by omega)
        rwa [Nat.add_sub_cancel' hsa] at this
    have hstops : StopsAt (fun b => b == 0 || b == c) mem s r :=
      ⟨hr.1, fun a hsa har => h.mapped a hsa (by omega), fun a hsa har => by simpa using hmin a hsa har,
        by simpa using hr.2.2⟩
    refine ⟨r, hstops.scan_eq halign (fun b₀ b₁ b₂ b₃ => ?_) (by omega), ⟨hr.1, hr.2.1⟩,
      fun a hsa har heq => hmin a hsa har (Or.inr heq), ?_⟩
    · simp only [Bool.or_eq_true, hasZero_wordOf, hasZero_xor, beq_iff_eq]
      grind
    · refine hr.2.2.symm.imp id fun hzero => ?_
      by_contra hne
      have := h.before r hr.1 (by omega)
      rw [hzero] at this
      exact absurd this (by decide)

/-- `strlen` is the length, whatever the alignment. -/
theorem strlen_length (halign : AlignedMapping mem) (h : HoldsString mem s t) (hfuel : t.length + 1 < fuel) :
    strlen fuel mem s = .ok t.length := by
  rw [strlen_scan halign h.stringAt (by omega), Nat.add_sub_cancel_left]

theorem strlen_length_examplePage : strlen 20 examplePage 0 = .ok 11 :=
  strlen_length examplePage_aligned exampleText_holds (by decide)

/-- `strchr` finds the first byte `c` of the string and its terminator. -/
theorem strchr_findIdx (halign : AlignedMapping mem) (h : HoldsString mem s t) (hfuel : t.length + 1 < fuel)
    (c : UInt8) : strchr fuel mem s c = .ok (((t ++ [0]).findIdx? (· == c)).map (s + ·)) := by
  obtain ⟨r, hrun, ⟨hsr, hre⟩, hbefore, hhit⟩ :=
    strchrnul_scan halign h.stringAt (by omega : s + t.length - s + 1 < fuel) c
  obtain ⟨i, rfl⟩ := Nat.exists_eq_add_of_le hsr
  have hat : ∀ j (hj : j < (t ++ [0]).length), (t ++ [0])[j] = byteAt mem (s + j) := by
    intro j hj
    rw [List.length_append, List.length_singleton] at hj
    rw [h.byteAt_eq (by omega)]
    by_cases hlt : j < t.length
    · rw [List.getElem_append_left hlt, List.getD_eq_getElem _ _ hlt]
    · obtain rfl : j = t.length := by omega
      simp
  have hi : i < (t ++ [0]).length := by
    rw [List.length_append, List.length_singleton]
    omega
  rw [strchr, hrun, Exec.ok_bind, load_eq (h.stringAt.mapped _ hsr hre), Exec.ok_bind]
  by_cases hc : byteAt mem (s + i) = c
  · have hfound : (t ++ [0]).findIdx? (· == c) = some i :=
      List.findIdx?_eq_some_iff_getElem.mpr ⟨hi, by simpa [hat i hi] using hc, fun j hj => by
        simpa [hat j (by omega)] using hbefore (s + j) (by omega) (by omega)⟩
    rw [if_pos hc, hfound]
    rfl
  · have hend : i = t.length := by have := hhit.resolve_left hc; omega
    have hnone : (t ++ [0]).findIdx? (· == c) = none := by
      rw [List.findIdx?_eq_none_iff]
      intro b hb
      obtain ⟨j, hj, rfl⟩ := List.mem_iff_getElem.mp hb
      rw [hat j hj, beq_eq_false_iff_ne]
      rw [List.length_append, List.length_singleton] at hj
      by_cases hji : j = i
      · rwa [hji]
      · exact hbefore (s + j) (by omega) (by omega)
    rw [if_neg hc, hnone]
    rfl

theorem strchr_findIdx_examplePage : strchr 20 examplePage 0 98 = .ok (some 3) :=
  strchr_findIdx examplePage_aligned exampleText_holds (by decide) 98

/-- The bytes in front of `s'` have been read and are not `c`; `n'` are left. -/
structure Passed (mem : Memory) (c : UInt8) (s n s' n' : Nat) : Prop where
  le : s ≤ s'
  left : s' + n' = s + n
  other : ∀ a, s ≤ a → a < s' → mem a ≠ none ∧ byteAt mem a ≠ c

/-- The `n` bytes from `s` on are mapped, up to the first one that is `c`. -/
def Readable (mem : Memory) (c : UInt8) (s n : Nat) : Prop :=
  ∀ a, s ≤ a → a < s + n → (∀ a', s ≤ a' → a' < a → byteAt mem a' ≠ c) → mem a ≠ none

section Memchr

variable {s' s'' n' n'' : Nat}

theorem Passed.refl (mem : Memory) (c : UInt8) (s n : Nat) : Passed mem c s n s n :=
  ⟨Nat.le_refl s, rfl, fun a hsa has => absurd hsa (by omega)⟩

theorem Passed.trans (h : Passed mem c s n s' n') (h' : Passed mem c s' n' s'' n'') : Passed mem c s n s'' n'' := by
  refine ⟨Nat.le_trans h.le h'.le, h'.left.trans h.left, fun a hsa ha => ?_⟩
  by_cases ha' : a < s'
  · exact h.other a hsa ha'
  · exact h'.other a (by omega) ha

theorem Passed.readable (h : Passed mem c s n s' n') (hread : Readable mem c s n) : Readable mem c s' n' := by
  have hleft := h.left
  have hle := h.le
  intro a hsa han hbefore
  refine hread a (by omega) (by omega) fun a' hsa' haa' => ?_
  by_cases ha' : a' < s'
  · exact (h.other a' hsa' ha').2
  · exact hbefore a' (by omega) haa'

theorem Readable.first (h : Readable mem c s n) (hn : 0 < n) : mem s ≠ none :=
  h s (Nat.le_refl s) (by omega) fun a hsa has => absurd hsa (by omega)

theorem passed_byte (h : Readable mem c s (n + 1)) (hne : byteAt mem s ≠ c) : Passed mem c s (n + 1) (s + 1) n := by
  refine ⟨Nat.le_succ s, by omega, fun a hsa has => ?_⟩
  obtain rfl : a = s := by omega
  exact ⟨h.first (Nat.succ_pos n), hne⟩

theorem memchrHead_passed (h : Readable mem c s n) : ∃ s' n', memchrHead c mem s n = .ok (s', n') ∧
    Passed mem c s n s' n' ∧ (n' = 0 ∨ s' % 4 = 0 ∨ byteAt mem s' = c) := by
  induction n generalizing s with
  | zero => exact ⟨s, 0, rfl, Passed.refl mem c s 0, Or.inl rfl⟩
  | succ n ih =>
    rw [memchrHead]
    split
    · next halign => exact ⟨s, n + 1, rfl, Passed.refl mem c s (n + 1), Or.inr (Or.inl halign)⟩
    · rw [load_eq (h.first (Nat.succ_pos n)), Exec.ok_bind]
      split
      · next heq => exact ⟨s, n + 1, rfl, Passed.refl mem c s (n + 1), Or.inr (Or.inr heq)⟩
      · next hne =>
        have hstep := passed_byte h hne
        obtain ⟨s', n', hrun, hpassed, hend⟩ := ih (hstep.readable h)
        exact ⟨s', n', hrun, hstep.trans hpassed, hend⟩

theorem memchrBytes_passed (h : Readable mem c s n) : ∃ s' n', memchrBytes c mem s n = .ok (s', n') ∧
    Passed mem c s n s' n' ∧ (n' = 0 ∨ mem s' ≠ none ∧ byteAt mem s' = c) := by
  induction n generalizing s with
  | zero => exact ⟨s, 0, rfl, Passed.refl mem c s 0, Or.inl rfl⟩
  | succ n ih =>
    have hs := h.first (Nat.succ_pos n)
    rw [memchrBytes, load_eq hs, Exec.ok_bind]
    split
    · next heq => exact ⟨s, n + 1, rfl, Passed.refl mem c s (n + 1), Or.inr ⟨hs, heq⟩⟩
    · next hne =>
      have hstep := passed_byte h hne
      obtain ⟨s', n', hrun, hpassed, hend⟩ := ih (hstep.readable h)
      exact ⟨s', n', hrun, hstep.trans hpassed, hend⟩

theorem memchrWords_passed (halign : AlignedMapping mem) (h : Readable mem c s n) (hs : s % 4 = 0) :
    ∃ s' n', memchrWords c mem s n = .ok (s', n') ∧ Passed mem c s n s' n' := by
  induction n using Nat.strongRecOn generalizing s with
  | ind n ih =>
    by_cases hn : n < 4
    · refine ⟨s, n, ?_, Passed.refl mem c s n⟩
      rcases (by omega : n = 0 ∨ n = 1 ∨ n = 2 ∨ n = 3) with rfl | rfl | rfl | rfl <;> rfl
    · obtain ⟨m, rfl⟩ := Nat.exists_eq_add_of_le' (Nat.le_of_not_lt hn)
      have hfirst := h.first (by omega)
      rw [memchrWords, loadWord_eq halign hfirst hs, Exec.ok_bind]
      split
      · exact ⟨s, m + 4, rfl, Passed.refl mem c s (m + 4)⟩
      · next hnone =>
        rw [hasZero_xor, not_or, not_or, not_or] at hnone
        have hword := halign s hfirst
        rw [show s / 4 * 4 = s by omega] at hword
        have hstep : Passed mem c s (m + 4) (s + 4) m := by
          refine ⟨by omega, by omega, fun a hsa has => ?_⟩
          rcases (by omega : a = s ∨ a = s + 1 ∨ a = s + 2 ∨ a = s + 3) with rfl | rfl | rfl | rfl
          · exact ⟨hfirst, hnone.1⟩
          · exact ⟨hword 1 (by decide), hnone.2.1⟩
          · exact ⟨hword 2 (by decide), hnone.2.2.1⟩
          · exact ⟨hword 3 (by decide), hnone.2.2.2⟩
        obtain ⟨s', n', hrun, hpassed⟩ := ih m (by omega) (hstep.readable h) (by omega)
        exact ⟨s', n', hrun, hstep.trans hpassed⟩

theorem Passed.found (h : Passed mem c s n s' n') (hs : mem s' ≠ none) (heq : byteAt mem s' = c) :
    StopsAt (· == c) mem s s' := by
  refine ⟨h.le, fun a hsa ha => ?_, fun a hsa ha => by simpa using (h.other a hsa ha).2, by simpa using heq⟩
  rcases Nat.lt_or_eq_of_le ha with hlt | rfl
  · exact (h.other a hsa hlt).1
  · exact hs

/-- `memchr` finds the first of `n` bytes that is `c`, though it reads words; what is behind that byte need
not be mapped. -/
theorem memchr_scan (halign : AlignedMapping mem) (h : Readable mem c s n) :
    (∃ e, memchr c mem s n = .ok (some e) ∧ e < s + n ∧ StopsAt (· == c) mem s e) ∨
      memchr c mem s n = .ok none ∧ ∀ a, s ≤ a → a < s + n → byteAt mem a ≠ c := by
  obtain ⟨s₁, n₁, hhead, hpassed₁, hend₁⟩ := memchrHead_passed h
  have hleft₁ := hpassed₁.left
  have hread₁ := hpassed₁.readable h
  rw [memchr, hhead]
  by_cases hn₁ : n₁ = 0
  · subst hn₁
    exact Or.inr ⟨rfl, fun a hsa ha => (hpassed₁.other a hsa (by omega)).2⟩
  · have hfirst := hread₁.first (Nat.pos_of_ne_zero hn₁)
    rw [Exec.ok_bind]
    simp only [if_neg hn₁]
    rw [load_eq hfirst, Exec.ok_bind]
    by_cases hc : byteAt mem s₁ = c
    · exact Or.inl ⟨s₁, if_pos hc, by omega, hpassed₁.found hfirst hc⟩
    · obtain ⟨s₂, n₂, hwords, hpassed₂⟩ := memchrWords_passed halign hread₁ (by tauto)
      obtain ⟨s₃, n₃, hbytes, hpassed₃, hend₃⟩ := memchrBytes_passed (hpassed₂.readable hread₁)
      have hpassed := hpassed₁.trans (hpassed₂.trans hpassed₃)
      have hleft := hpassed.left
      rw [if_neg hc, hwords, Exec.ok_bind, hbytes, Exec.ok_bind]
      by_cases hn₃ : n₃ = 0
      · subst hn₃
        exact Or.inr ⟨rfl, fun a hsa ha => (hpassed.other a hsa (by omega)).2⟩
      · obtain ⟨hs₃, hc₃⟩ := hend₃.resolve_left hn₃
        exact Or.inl ⟨s₃, by simp only [if_neg hn₃]; rfl, by omega, hpassed.found hs₃ hc₃⟩

end Memchr

end KernelTest.Libc.Raw
