import Mathlib.Data.List.Pairwise
import KernelTest.Boot.Args
import KernelTest.Boot.Modules

/-!
# The keys of scheduled functions

A key `name_number` determines its name and its number, so that the map of functions to be called
can be read as a list of pending calls, and the map of late functions as a list in order.
-/

namespace KernelTest.Boot

open Libc

private theorem digit_bounds {n : Nat} {c : Char} (h : c ∈ Nat.toDigits 10 n) :
    48 ≤ c.toNat ∧ c.toNat ≤ 57 := by
  have hdigit : c.isDigit = true := Nat.isDigit_of_mem_toDigits (by decide) (by decide) h
  simp only [Char.isDigit, Bool.and_eq_true, decide_eq_true_eq] at hdigit
  exact ⟨hdigit.1, hdigit.2⟩

private theorem toNat_digitByte {n : Nat} {c : Char} (h : c ∈ Nat.toDigits 10 n) :
    (UInt8.ofNat c.toNat).toNat = c.toNat := by
  have hbounds := digit_bounds h
  rw [UInt8.toNat_ofNat']
  omega

theorem mem_decimal {n : Nat} {b : UInt8} (h : b ∈ decimal n) : b ≠ 0 ∧ b ≠ 95 := by
  obtain ⟨c, hc, rfl⟩ := List.mem_map.1 h
  have hbounds := digit_bounds hc
  have hval := toNat_digitByte hc
  constructor
  · intro heq
    rw [heq] at hval
    change 0 = c.toNat at hval
    omega
  · intro heq
    rw [heq] at hval
    change 95 = c.toNat at hval
    omega

private theorem map_decimal (n : Nat) :
    (decimal n).map (fun b => Char.ofNat b.toNat) = Nat.toDigits 10 n := by
  rw [decimal, List.map_map]
  conv => rhs; rw [← List.map_id (Nat.toDigits 10 n)]
  apply List.map_congr_left
  intro c hc
  rw [Function.comp_apply, toNat_digitByte hc, Char.ofNat_toNat, id]

theorem decimal_injective : Function.Injective decimal := by
  intro m n h
  have hdigits : Nat.toDigits 10 m = Nat.toDigits 10 n := by
    rw [← map_decimal, ← map_decimal, h]
  calc m = Nat.ofDigitChars 10 (Nat.toDigits 10 m) 0 := Nat.ofDigitChars_ten_toDigits.symm
    _ = Nat.ofDigitChars 10 (Nat.toDigits 10 n) 0 := by rw [hdigits]
    _ = n := Nat.ofDigitChars_ten_toDigits

theorem keyText_inj {a b : List UInt8} {m n : Nat} : keyText a m = keyText b n ↔ a = b ∧ m = n := by
  constructor
  · intro h
    have hcut : ∀ (x : List UInt8) (k : Nat),
        (keyText x k).reverse.takeWhile (· ≠ 95) = (decimal k).reverse := by
      intro x k
      rw [keyText, List.reverse_append, List.reverse_cons, List.append_assoc,
        List.takeWhile_append_of_pos]
      · simp
      · intro c hc
        simpa using (mem_decimal (List.mem_reverse.1 hc)).2
    have hdec : decimal m = decimal n := by
      have hrev := congrArg (fun l : List UInt8 => l.reverse.takeWhile (· ≠ 95)) h
      simp only [hcut, List.reverse_inj] at hrev
      exact hrev
    have hmn := decimal_injective hdec
    subst hmn
    exact ⟨List.append_cancel_right h, rfl⟩
  · rintro ⟨rfl, rfl⟩
    rfl

theorem keyText_nul_not_mem (name : CText) (n : Nat) : 0 ∉ keyText name.1 n := by
  intro h
  rw [keyText, List.mem_append, List.mem_cons] at h
  rcases h with h | h | h
  · exact name.2 h
  · exact absurd h (by decide)
  · exact (mem_decimal h).1 rfl

/-- The key of a function scheduled for `name`. -/
def keyOfCall (name : CText) (n : Nat) : CText := ⟨keyText name.1 n, keyText_nul_not_mem name n⟩

theorem keyOfCall_inj {a b : CText} {m n : Nat} : keyOfCall a m = keyOfCall b n ↔ a = b ∧ m = n := by
  rw [keyOfCall, keyOfCall, Subtype.mk.injEq, keyText_inj, Subtype.ext_iff]

/-- No name is another one followed by `_` and a number up to `bound`. -/
def NamesApart (names : List CText) (bound : Nat) : Prop :=
  ∀ name ∈ names, ∀ a ∈ names, ∀ n ∈ List.range (bound + 1), name ≠ keyOfCall a n

instance (names : List CText) (bound : Nat) : Decidable (NamesApart names bound) :=
  inferInstanceAs (Decidable (∀ name ∈ names, ∀ a ∈ names, ∀ n ∈ List.range (bound + 1),
    name ≠ keyOfCall a n))

theorem NamesApart.ne {names : List CText} {bound : Nat} (h : NamesApart names bound)
    {name a : CText} (hname : name ∈ names) (ha : a ∈ names) {n : Nat} (hn : n ≤ bound) :
    keyOfCall a n ≠ name :=
  fun he => h name hname a ha n (List.mem_range.2 (Nat.lt_succ_of_le hn)) he.symm

def decimalText (n : Nat) : CText := ⟨decimal n, fun h => (mem_decimal h).1 rfl⟩

theorem decimalText_injective : Function.Injective decimalText := by
  intro m n h
  exact decimal_injective (Subtype.ext_iff.1 h)

theorem sprintf_eq (junk : Nat → UInt8) {size : Nat} {text : List UInt8} (h : text.length < size) :
    sprintf junk size text = .ok (text ++ 0 :: (malloc junk size).drop (text.length + 1)) := if_pos h

theorem denotes_sprintf {junk : Nat → UInt8} {size : Nat} (text : CText) :
    DenotesText (text.1 ++ 0 :: (malloc junk size).drop (text.1.length + 1)) text :=
  ⟨text.2, _, rfl⟩

theorem denotes_name (name : CText) : DenotesText (name.1 ++ [0]) name := cString_terminated name.2

end KernelTest.Boot
