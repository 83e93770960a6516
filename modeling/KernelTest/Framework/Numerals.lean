import Mathlib.Tactic.Ring
import Mathlib.Data.List.Basic

/-!
# Numerals

Numbers as text in a base up to 16, the most significant digit first: the numeral without leading zeros,
and a fixed number of places.
-/

namespace KernelTest

def digitByte (i : Nat) : UInt8 := UInt8.ofNat (Nat.digitChar i).toNat

def digitValue (c : UInt8) : Nat := if c.toNat < 58 then c.toNat - 48 else c.toNat - 87

/-- The numeral of `v` in base `b`, without leading zeros. -/
def numeral (b v : Nat) : List UInt8 := (Nat.toDigits b v).map fun c => UInt8.ofNat c.toNat

/-- The last `k` places of `v` in base `b`. -/
def places (b : Nat) : Nat → Nat → List UInt8
  | 0, _ => []
  | k + 1, v => places b k (v / b) ++ [digitByte (v % b)]

def readNumeral (b : Nat) (text : List UInt8) : Nat :=
  text.foldl (fun n c => n * b + digitValue c) 0

/-- The numeral of `v`, with zeros in front of it up to the width `w`. -/
def padded (b w v : Nat) : List UInt8 :=
  List.replicate (w - (numeral b v).length) 48 ++ numeral b v

variable {b k v w : Nat}

@[simp] theorem length_places (b k v : Nat) : (places b k v).length = k := by
  induction k generalizing v with
  | zero => rfl
  | succ k ih => rw [places, List.length_append, ih, List.length_singleton]

@[simp] theorem length_padded (b w v : Nat) :
    (padded b w v).length = max w (numeral b v).length := by
  rw [padded, List.length_append, List.length_replicate]
  omega

theorem numeral_of_lt (h : v < b) : numeral b v = [digitByte v] := by
  rw [numeral, Nat.toDigits_of_lt_base h]
  rfl

theorem numeral_of_le (hb : 1 < b) (h : b ≤ v) :
    numeral b v = numeral b (v / b) ++ [digitByte (v % b)] := by
  rw [numeral, Nat.toDigits_of_base_le hb h, List.map_append]
  rfl

theorem length_numeral_le (hb : 1 < b) (hk : 0 < k) : (numeral b v).length ≤ k ↔ v < b ^ k := by
  rw [numeral, List.length_map, Nat.length_toDigits_le_iff hb hk]

theorem length_numeral_pos : 0 < (numeral b v).length := by
  rw [numeral, List.length_map]
  exact Nat.length_toDigits_pos

theorem places_zero (b k : Nat) : places b k 0 = List.replicate k 48 := by
  induction k with
  | zero => rfl
  | succ k ih =>
    rw [places, Nat.zero_div, Nat.zero_mod, ih, List.replicate_succ']
    rfl

theorem places_eq (hb : 1 < b) (hk : 0 < k) (h : v < b ^ k) : places b k v = padded b k v := by
  induction k generalizing v with
  | zero => omega
  | succ k ih =>
    rw [places, padded]
    by_cases hv : v < b
    · rw [numeral_of_lt hv, Nat.div_eq_of_lt hv, Nat.mod_eq_of_lt hv, places_zero]
      rfl
    · have hle : b ≤ v := Nat.le_of_not_lt hv
      have hdiv : v / b < b ^ k := by
        rw [Nat.div_lt_iff_lt_mul (by omega), ← Nat.pow_succ]
        exact h
      have hpos : 0 < k := by
        apply Nat.pos_of_ne_zero
        rintro rfl
        rw [Nat.pow_zero, Nat.lt_one_iff] at hdiv
        have := Nat.div_pos hle (by omega)
        omega
      rw [ih hpos hdiv, padded, numeral_of_le hb hle, List.length_append, List.length_singleton,
        Nat.add_sub_add_right, List.append_assoc]

theorem places_succ (b k v : Nat) : places b (k + 1) v = digitByte (v / b ^ k % b) :: places b k v := by
  induction k generalizing v with
  | zero => rw [Nat.pow_zero, Nat.div_one, places, places, places, List.nil_append]
  | succ k ih =>
    rw [places, ih, List.cons_append, places, Nat.div_div_eq_div_mul, ← Nat.pow_succ']

theorem padded_append (h : w ≤ k) (hd : (numeral b v).length ≤ w) :
    List.replicate (k - w) 48 ++ padded b w v = padded b k v := by
  rw [padded, padded, ← List.append_assoc, List.replicate_append_replicate]
  congr 2
  omega

theorem digitValue_digitByte (h : v < 16) : digitValue (digitByte v) = v := by
  revert v
  decide

theorem readNumeral_append (b : Nat) (text : List UInt8) (c : UInt8) :
    readNumeral b (text ++ [c]) = readNumeral b text * b + digitValue c := by
  rw [readNumeral, List.foldl_append]
  rfl

theorem readNumeral_places (hb : 0 < b) (hb' : b ≤ 16) (k v : Nat) :
    readNumeral b (places b k v) = v % b ^ k := by
  induction k generalizing v with
  | zero => rw [Nat.pow_zero, Nat.mod_one, places, readNumeral, List.foldl_nil]
  | succ k ih =>
    have hlt : v % b < 16 := Nat.lt_of_lt_of_le (Nat.mod_lt v hb) hb'
    rw [places, readNumeral_append, ih, digitValue_digitByte hlt, Nat.pow_succ, Nat.mul_comm (b ^ k) b,
      Nat.mod_mul, Nat.mul_comm b]
    omega

theorem readNumeral_padded (hb : 1 < b) (hb' : b ≤ 16) (w v : Nat) :
    readNumeral b (padded b w v) = v := by
  let k := max w (numeral b v).length
  have hpos : 0 < k := Nat.lt_of_lt_of_le length_numeral_pos (Nat.le_max_right _ _)
  have hlt : v < b ^ k := (length_numeral_le hb hpos).mp (Nat.le_max_right _ _)
  have hsame : padded b w v = padded b k v := by
    rw [padded, padded]
    congr 2
    omega
  rw [hsame, ← places_eq hb hpos hlt, readNumeral_places (by omega) hb', Nat.mod_eq_of_lt hlt]

end KernelTest
