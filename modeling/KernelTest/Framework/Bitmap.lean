import KernelTest.Framework.Bytes
import Mathlib.Data.Nat.Count

/-!
# Bitmaps in byte buffers

Bit `n` of a bitmap is bit `n % 8` of byte `n / 8`. The scan is the loop
`while(bit(n)) n++`, which has no bound of its own: it is cut where it would leave the buffer.
-/

namespace KernelTest

/-- Bit `n` is set. -/
def bitSet (b : Buf) (n : Nat) : Bool := (b (n / 8)).toNat.testBit (n % 8)

/-- `b[n >> 3] |= 1 << (n % 8)`. -/
def setBit (b : Buf) (n : Nat) : Buf :=
  fun i => if i = n / 8 then b i ||| UInt8.ofNat (2 ^ (n % 8)) else b i

/-- `while(bit(i)) i++`, over at most `n` bits; `none` when none of them is clear. -/
def scanClear (b : Buf) : Nat → Nat → Option Nat
  | 0, _ => none
  | n + 1, i => if bitSet b i then scanClear b n (i + 1) else some i

/-- How many of the first `n` bits are clear. -/
def clearCount (b : Buf) (n : Nat) : Nat := Nat.count (fun i => bitSet b i = false) n

theorem bitSet_congr {a b : Buf} {n : Nat} (h : a (n / 8) = b (n / 8)) :
    bitSet a n = bitSet b n := by
  rw [bitSet, bitSet, h]

theorem bitSet_setBit (b : Buf) (n m : Nat) :
    bitSet (setBit b n) m = (decide (m = n) || bitSet b m) := by
  have hpow : (UInt8.ofNat (2 ^ (n % 8))).toNat = 2 ^ (n % 8) := by
    have hlt : 2 ^ (n % 8) < 2 ^ 8 := Nat.pow_lt_pow_right (by decide) (by omega)
    simpa using hlt
  by_cases hbyte : m / 8 = n / 8
  · have hiff : n % 8 = m % 8 ↔ m = n := by omega
    simp only [bitSet, setBit, hbyte, if_true, UInt8.toNat_or, hpow, Nat.testBit_or,
      Nat.testBit_two_pow, hiff, Bool.or_comm]
  · have hne : m ≠ n := by
      intro h
      exact hbyte (by rw [h])
    simp [bitSet, setBit, hbyte, hne]

theorem bitSet_setBit_same (b : Buf) (n : Nat) : bitSet (setBit b n) n = true := by
  simp [bitSet_setBit]

theorem bitSet_setBit_of_ne (b : Buf) {n m : Nat} (h : m ≠ n) :
    bitSet (setBit b n) m = bitSet b m := by
  simp [bitSet_setBit, h]

theorem bitSet_of_full_byte {b : Buf} {n : Nat} (h : b (n / 8) = 255) : bitSet b n = true := by
  have hbits : ∀ j, j < 8 → (255 : UInt8).toNat.testBit j = true := by decide
  rw [bitSet, h]
  exact hbits (n % 8) (Nat.mod_lt n (by decide))

theorem scanClear_eq_some {b : Buf} {n i k : Nat} (h : scanClear b n i = some k) :
    i ≤ k ∧ k < i + n ∧ bitSet b k = false ∧ ∀ j, i ≤ j → j < k → bitSet b j = true := by
  induction n generalizing i with
  | zero => cases h
  | succ n ih =>
    rw [scanClear] at h
    cases hbit : bitSet b i with
    | true =>
      rw [hbit, if_pos rfl] at h
      obtain ⟨hlo, hhi, hclear, hbefore⟩ := ih h
      refine ⟨by omega, by omega, hclear, ?_⟩
      intro j hj hjk
      by_cases hji : j = i
      · rw [hji, hbit]
      · exact hbefore j (by omega) hjk
    | false =>
      rw [hbit, if_neg (by decide)] at h
      cases h
      exact ⟨by omega, by omega, hbit, fun j _ _ => by omega⟩

theorem scanClear_eq_none {b : Buf} {n i : Nat} (h : scanClear b n i = none) :
    ∀ j, i ≤ j → j < i + n → bitSet b j = true := by
  induction n generalizing i with
  | zero => intro j _ _; omega
  | succ n ih =>
    rw [scanClear] at h
    cases hbit : bitSet b i with
    | false =>
      rw [hbit, if_neg (by decide)] at h
      cases h
    | true =>
      rw [hbit, if_pos rfl] at h
      intro j hj hjn
      by_cases hji : j = i
      · rw [hji, hbit]
      · exact ih h j (by omega) (by omega)

theorem scanClear_of_clear {b : Buf} {n m j : Nat} (hj : j < n) (hclear : bitSet b j = false)
    (hnm : n ≤ m) : ∃ k, scanClear b m 0 = some k ∧ k < n ∧ bitSet b k = false := by
  cases hscan : scanClear b m 0 with
  | none =>
    have hset := scanClear_eq_none hscan j (Nat.zero_le j) (by omega)
    rw [hclear] at hset
    cases hset
  | some k =>
    obtain ⟨-, -, hk, hbefore⟩ := scanClear_eq_some hscan
    refine ⟨k, rfl, ?_, hk⟩
    by_contra hge
    have hset := hbefore j (Nat.zero_le j) (by omega)
    rw [hclear] at hset
    cases hset

theorem clearCount_congr {a b : Buf} {n : Nat} (h : ∀ i, i < n → bitSet a i = bitSet b i) :
    clearCount a n = clearCount b n := by
  induction n with
  | zero => rfl
  | succ n ih =>
    rw [clearCount, clearCount, Nat.count_succ, Nat.count_succ, h n (Nat.lt_succ_self n)]
    have hrest := ih fun i hi => h i (by omega)
    rw [clearCount, clearCount] at hrest
    rw [hrest]

theorem exists_clear_of_clearCount_pos {b : Buf} {n : Nat} (h : 0 < clearCount b n) :
    ∃ i, i < n ∧ bitSet b i = false :=
  Nat.count_ne_iff_exists.mp (Nat.ne_of_gt h)

theorem clearCount_pos {b : Buf} {n i : Nat} (hi : i < n) (h : bitSet b i = false) :
    0 < clearCount b n :=
  Nat.pos_of_ne_zero (Nat.count_ne_iff_exists.mpr ⟨i, hi, h⟩)

theorem clearCount_setBit {b : Buf} {n k : Nat} (hk : k < n) (h : bitSet b k = false) :
    clearCount (setBit b k) n + 1 = clearCount b n := by
  induction n with
  | zero => omega
  | succ n ih =>
    rw [clearCount, clearCount, Nat.count_succ, Nat.count_succ]
    by_cases hkn : k = n
    · have hrest : clearCount (setBit b k) n = clearCount b n :=
        clearCount_congr fun i hi => bitSet_setBit_of_ne b (by omega)
      rw [clearCount, clearCount] at hrest
      rw [hrest, ← hkn, h, bitSet_setBit_same]
      simp
    · have hrest := ih (by omega)
      rw [clearCount, clearCount] at hrest
      rw [bitSet_setBit_of_ne b (Ne.symm hkn)]
      omega

end KernelTest
