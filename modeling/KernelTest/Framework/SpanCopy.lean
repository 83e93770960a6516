import Mathlib.Data.List.Induction
import KernelTest.Framework.Bytes

/-!
# A range copied in pieces

A request for the bytes `0, …, r - 1` of a buffer is served piece by piece. A piece is a span
`(start, length)`; the pieces together do what one copy of the range does exactly when they cover
it and nothing else.
-/

namespace KernelTest

/-- The start and the length of a piece of a buffer. -/
abbrev Span : Type := Nat × Nat

/-- `i` lies in one of the spans. -/
def Covered (spans : List Span) (i : Nat) : Prop := ∃ s ∈ spans, s.1 ≤ i ∧ i < s.1 + s.2

/-- The spans cover the first `r` places, and no other. -/
def CoversExactly (spans : List Span) (r : Nat) : Prop := ∀ i, Covered spans i ↔ i < r

@[simp] theorem covered_nil (i : Nat) : ¬ Covered [] i := by
  simp [Covered]

@[simp] theorem covered_cons (s : Span) (spans : List Span) (i : Nat) :
    Covered (s :: spans) i ↔ (s.1 ≤ i ∧ i < s.1 + s.2) ∨ Covered spans i := by
  simp [Covered]

@[simp] theorem covered_append (spans spans' : List Span) (i : Nat) :
    Covered (spans ++ spans') i ↔ Covered spans i ∨ Covered spans' i := by
  induction spans with
  | nil => simp
  | cons s spans ih => simp [ih, or_assoc]

theorem CoversExactly.append {spans : List Span} {r : Nat} (h : CoversExactly spans r) (w : Nat) :
    CoversExactly (spans ++ [(r, w)]) (r + w) := by
  intro i
  rw [covered_append, h i, covered_cons]
  simp only [covered_nil, or_false]
  omega

def rowOfSpans (start width n : Nat) : List Span :=
  (List.range n).map fun k => (start + width * k, width)

theorem rowOfSpans_succ (start width n : Nat) :
    rowOfSpans start width (n + 1) = (start, width) :: rowOfSpans (start + width) width n := by
  rw [rowOfSpans, List.range_succ_eq_map, List.map_cons, List.map_map, rowOfSpans]
  congr 1
  apply List.map_congr_left
  intro k _
  have hnext : start + width * (k + 1) = start + width + width * k := by ring
  simp [hnext]

theorem covered_rowOfSpans {start width n i : Nat} (hw : 0 < width) :
    Covered (rowOfSpans start width n) i ↔ start ≤ i ∧ i < start + width * n := by
  induction n generalizing start with
  | zero =>
    simp only [rowOfSpans, List.range_zero, List.map_nil, covered_nil, false_iff]
    omega
  | succ n ih =>
    have hlen : width * (n + 1) = width + width * n := by ring
    rw [rowOfSpans_succ, covered_cons, ih, hlen]
    change (start ≤ i ∧ i < start + width) ∨ _ ↔ _
    omega

/-- Copy the spans of a range whose place `0` is `dst + d` on one side and `src + s` on the
other. -/
def copySpans (dst : Buf) (d : Nat) (src : Buf) (s : Nat) (spans : List Span) : Buf :=
  spans.foldl (fun b span => blit b (d + span.1) src (s + span.1) span.2) dst

theorem copySpans_covered {dst src : Buf} {d s i : Nat} {spans : List Span}
    (h : Covered spans i) : copySpans dst d src s spans (d + i) = src (s + i) := by
  induction spans using List.reverseRecOn with
  | nil => simp at h
  | append_singleton spans span ih =>
    rw [copySpans, List.foldl_append, List.foldl_cons, List.foldl_nil]
    by_cases hin : span.1 ≤ i ∧ i < span.1 + span.2
    · rw [blit_inside (by omega) (by omega)]
      congr 1
      omega
    · rw [blit_outside (by omega)]
      apply ih
      simpa [hin] using h

theorem copySpans_outside {dst src : Buf} {d s j : Nat} {spans : List Span}
    (h : ∀ i, Covered spans i → j ≠ d + i) : copySpans dst d src s spans j = dst j := by
  induction spans generalizing dst with
  | nil => rfl
  | cons span spans ih =>
    rw [copySpans, List.foldl_cons]
    change copySpans _ d src s spans j = _
    rw [ih fun i hi => h i (by simp [hi])]
    apply blit_outside
    by_contra hin
    exact h (j - d) (by rw [covered_cons]; left; omega) (by omega)

theorem copySpans_eq_blit {dst src : Buf} {d s r : Nat} {spans : List Span}
    (h : CoversExactly spans r) : copySpans dst d src s spans = blit dst d src s r := by
  funext j
  by_cases hj : d ≤ j ∧ j < d + r
  · have hcov : Covered spans (j - d) := (h (j - d)).2 (by omega)
    have heq := @copySpans_covered dst src d s (j - d) spans hcov
    rw [show d + (j - d) = j by omega] at heq
    rw [heq, blit_inside hj.1 hj.2]
  · rw [blit_outside (by omega)]
    apply copySpans_outside
    intro i hi
    have hlt := (h i).1 hi
    omega

theorem covered_of_copySpans_eq {d s r i : Nat} {spans : List Span} (hi : i < r)
    (h : copySpans (fun _ => 0) d (fun _ => 1) s spans = blit (fun _ => 0) d (fun _ => 1) s r) :
    Covered spans i := by
  by_contra hcov
  have hsame : copySpans (fun _ => 0) d (fun _ => 1) s spans (d + i) = 0 := by
    apply copySpans_outside
    intro k hk heq
    have hki : k = i := by omega
    exact hcov (hki ▸ hk)
  rw [h, blit_inside (by omega) (by omega)] at hsame
  simp at hsame

end KernelTest
