import KernelTest.Framework.Bytes

/-!
# Bytes laid out one after the other

What a program that appends field after field to a file leaves in memory when the file is loaded:
`Stored b p l` says that the bytes `l` lie at `p`, and the rules below find a field of a table again.
-/

namespace KernelTest

/-- The `w` bytes of a little-endian word. -/
def leBytes : Nat → Nat → List UInt8
  | 0, _ => []
  | w + 1, v => UInt8.ofNat v :: leBytes w (v / 256)

@[simp] theorem length_leBytes (w v : Nat) : (leBytes w v).length = w := by
  induction w generalizing v with
  | zero => rfl
  | succ w ih => rw [leBytes, List.length_cons, ih]

/-- The bytes `l` lie at `p`. -/
def Stored (b : Buf) (p : Nat) (l : List UInt8) : Prop := ∀ i, ∀ h : i < l.length, b (p + i) = l[i]

variable {b : Buf} {p : Nat} {l l' : List UInt8}

theorem stored_nil : Stored b p [] := by
  intro i hi
  simp at hi

theorem stored_cons {c : UInt8} : Stored b p (c :: l) ↔ b p = c ∧ Stored b (p + 1) l := by
  constructor
  · intro h
    constructor
    · exact h 0 (by simp)
    · intro i hi
      have hnext := h (i + 1) (by simpa using hi)
      rw [List.getElem_cons_succ] at hnext
      rw [← hnext]
      congr 1
      omega
  · intro h i hi
    cases i with
    | zero => simpa using h.1
    | succ i =>
      have hnext := h.2 i (by simpa using hi)
      rw [List.getElem_cons_succ, ← hnext]
      congr 1
      omega

theorem stored_append : Stored b p (l ++ l') ↔ Stored b p l ∧ Stored b (p + l.length) l' := by
  induction l generalizing p with
  | nil => simp [stored_nil]
  | cons c l ih =>
    rw [List.cons_append, stored_cons, ih, stored_cons, and_assoc, List.length_cons,
      show p + 1 + l.length = p + (l.length + 1) by omega]

theorem Stored.getLE {w v : Nat} (h : Stored b p (leBytes w v)) : getLE w b p = v % 256 ^ w := by
  induction w generalizing p v with
  | zero => simp [KernelTest.getLE, Nat.mod_one]
  | succ w ih =>
    rw [leBytes, stored_cons] at h
    have hbyte : (UInt8.ofNat v).toNat = v % 256 := by simp
    rw [KernelTest.getLE, h.1, ih h.2, hbyte, pow_succ', Nat.mod_mul]

theorem Stored.get32 {v : Nat} (h : Stored b p (leBytes 4 v)) : get32 b p = u32 v := h.getLE

theorem Stored.flatMap {α : Type} {f : α → List UInt8} {xs : List α}
    (h : Stored b p (xs.flatMap f)) {i : Nat} (hi : i < xs.length) :
    Stored b (p + ((xs.take i).flatMap f).length) (f xs[i]) := by
  induction xs generalizing p i with
  | nil => simp at hi
  | cons x xs ih =>
    rw [List.flatMap_cons, stored_append] at h
    cases i with
    | zero => simpa using h.1
    | succ i =>
      have hrest := ih h.2 (by simpa using hi)
      rw [List.take_succ_cons, List.flatMap_cons, List.length_append, ← Nat.add_assoc]
      exact hrest

theorem length_flatMap_of_eq {α : Type} {f : α → List UInt8} {w : Nat} {xs : List α}
    (hf : ∀ x ∈ xs, (f x).length = w) : (xs.flatMap f).length = w * xs.length := by
  induction xs with
  | nil => simp
  | cons x xs ih =>
    rw [List.flatMap_cons, List.length_append, hf x (by simp), ih fun y hy => hf y (by simp [hy]),
      List.length_cons]
    ring

theorem Stored.record {α : Type} {f : α → List UInt8} {w : Nat} {xs : List α}
    (h : Stored b p (xs.flatMap f)) (hf : ∀ x ∈ xs, (f x).length = w) {i : Nat}
    (hi : i < xs.length) : Stored b (p + w * i) (f xs[i]) := by
  have hlen : ((xs.take i).flatMap f).length = w * i := by
    rw [length_flatMap_of_eq fun x hx => hf x (List.mem_of_mem_take hx), List.length_take,
      Nat.min_eq_left hi.le]
  rw [← hlen]
  exact h.flatMap hi

end KernelTest
