import Mathlib.Algebra.BigOperators.Group.Finset.Basic
import Mathlib.Algebra.BigOperators.Intervals
import Mathlib.Algebra.Order.BigOperators.Group.Finset

/-!
# Reference counts

Objects with a count of the references to them. An object whose count is `-1` is static: it is
never counted and never closed. The count of any other object is exact when it is the number of
its holders, and the object is open exactly as long as it has one.
-/

namespace KernelTest

open Finset

theorem sum_range_change (g g' : Nat → Nat) {n k : Nat} (hk : k < n)
    (h : ∀ i, i ≠ k → g' i = g i) :
    ∑ i ∈ range n, g' i + g k = ∑ i ∈ range n, g i + g' k := by
  have hmem : k ∈ range n := mem_range.2 hk
  have hrest : ∑ i ∈ (range n).erase k, g' i = ∑ i ∈ (range n).erase k, g i :=
    sum_congr rfl fun i hi => h i (ne_of_mem_erase hi)
  rw [← add_sum_erase _ g hmem, ← add_sum_erase _ g' hmem, hrest]
  omega

theorem sum_range_same {n : Nat} {g g' : Nat → Nat} (h : ∀ i, i < n → g' i = g i) :
    ∑ i ∈ range n, g' i = ∑ i ∈ range n, g i :=
  sum_congr rfl fun i hi => h i (mem_range.1 hi)

/-- How many of the first `n` cells hold `f`. -/
def held {φ : Type} [DecidableEq φ] (cells : Nat → Option φ) (n : Nat) (f : φ) : Nat :=
  ∑ i ∈ range n, if cells i = some f then 1 else 0

section Held

variable {φ : Type} [DecidableEq φ] {cells : Nat → Option φ} {n i : Nat} {f : φ}

@[simp] theorem held_zero : held cells 0 f = 0 := rfl

theorem held_succ : held cells (n + 1) f = held cells n f + if cells n = some f then 1 else 0 :=
  sum_range_succ _ n

theorem held_pos (hi : i < n) (h : cells i = some f) : 0 < held cells n f := by
  have hle : (if cells i = some f then 1 else 0) ≤ held cells n f :=
    single_le_sum (f := fun i => if cells i = some f then 1 else 0)
      (fun _ _ => Nat.zero_le _) (mem_range.2 hi)
  rw [if_pos h] at hle
  exact hle

theorem held_eq_zero (h : ∀ i, i < n → cells i ≠ some f) : held cells n f = 0 :=
  sum_eq_zero fun i hi => if_neg (h i (mem_range.1 hi))

theorem held_congr {cells' : Nat → Option φ} (h : ∀ i, i < n → cells' i = cells i) :
    held cells' n f = held cells n f :=
  sum_range_same fun i hi => by rw [h i hi]

theorem held_update (hi : i < n) (p : Option φ) :
    held (Function.update cells i p) n f + (if cells i = some f then 1 else 0) =
      held cells n f + if p = some f then 1 else 0 := by
  have hchange := sum_range_change (fun i => if cells i = some f then 1 else 0)
    (fun j => if Function.update cells i p j = some f then 1 else 0) hi fun j hj => by simp [hj]
  simpa [held] using hchange

end Held

/-- The counts of all objects, and which objects are open. -/
structure RefCounts (φ : Type) where
  count : φ → Int
  isOpen : φ → Bool

namespace RefCounts

variable {φ : Type} [DecidableEq φ] {c : RefCounts φ} {h h' : φ → Nat} {f : φ}

/-- A new reference to an object that is counted. -/
def take (c : RefCounts φ) (f : φ) : RefCounts φ :=
  if 0 ≤ c.count f then { c with count := Function.update c.count f (c.count f + 1) } else c

/-- A reference to an object that is counted is given back; the last one closes the object. -/
def drop (c : RefCounts φ) (f : φ) : RefCounts φ :=
  if c.count f = -1 then c
  else
    { count := Function.update c.count f (c.count f - 1)
      isOpen := if c.count f - 1 = 0 then Function.update c.isOpen f false else c.isOpen }

/-- The counts are those of the holders `h`. -/
def Exact (c : RefCounts φ) (h : φ → Nat) : Prop :=
  ∀ f, (c.count f = -1 ∧ c.isOpen f = true) ∨
    (c.count f = h f ∧ (c.isOpen f = true ↔ 0 < h f))

omit [DecidableEq φ] in
theorem Exact.congr (hc : c.Exact h) (hh : ∀ f, c.count f ≠ -1 → h' f = h f) : c.Exact h' := by
  intro f
  rcases hc f with hs | ⟨hcount, hopen⟩
  · exact Or.inl hs
  · have hne : c.count f ≠ -1 := by
      rw [hcount]
      omega
    rw [← hh f hne] at hcount hopen
    exact Or.inr ⟨hcount, hopen⟩

theorem take_static {g : φ} (hg : c.count g = -1) : (c.take f).count g = -1 := by
  unfold take
  split
  · next hf =>
    have hne : g ≠ f := by
      rintro rfl
      omega
    simpa [hne] using hg
  · exact hg

theorem drop_static {g : φ} (hg : c.count g = -1) : (c.drop f).count g = -1 := by
  unfold drop
  split
  · exact hg
  · next hf =>
    have hne : g ≠ f := by
      rintro rfl
      exact hf hg
    simpa [hne] using hg

theorem Exact.take (hc : c.Exact h) (hf : 0 < h f) :
    (c.take f).Exact fun g => h g + if f = g then 1 else 0 := by
  intro g
  rcases hc f with ⟨hs, _⟩ | ⟨hcount, hopen⟩
  · have hsame : c.take f = c := if_neg (by rw [hs]; decide)
    rw [hsame]
    rcases hc g with hg | hg
    · exact Or.inl hg
    · have hfg : f ≠ g := by
        rintro rfl
        omega
      simpa [hfg] using Or.inr hg
  · have hrun : c.take f = { c with count := Function.update c.count f (c.count f + 1) } :=
      if_pos (by rw [hcount]; omega)
    rw [hrun]
    by_cases hg : g = f
    · subst hg
      refine Or.inr ⟨by simp [hcount], ?_⟩
      simpa [hf] using hopen
    · simpa [hg, Ne.symm hg] using hc g

theorem Exact.drop (hc : c.Exact h) (hh : ∀ g, h g = h' g + if f = g then 1 else 0) :
    (c.drop f).Exact h' := by
  intro g
  have hf := hh f
  rw [if_pos rfl] at hf
  rcases hc f with ⟨hs, _⟩ | ⟨hcount, hopen⟩
  · have hsame : c.drop f = c := if_pos hs
    rw [hsame]
    rcases hc g with hg | hg
    · exact Or.inl hg
    · have hfg : f ≠ g := by
        rintro rfl
        omega
      rw [hh g, if_neg hfg] at hg
      exact Or.inr hg
  · have hne : c.count f ≠ -1 := by
      rw [hcount]
      omega
    rw [RefCounts.drop, if_neg hne]
    by_cases hg : g = f
    · subst hg
      right
      constructor
      · simp only [Function.update_self]
        omega
      · by_cases hlast : c.count g - 1 = 0
        · have hzero : h' g = 0 := by omega
          simp [hlast, hzero]
        · have hpos : 0 < h' g := by omega
          simp only [if_neg hlast, hopen]
          omega
    · have hgh : h' g = h g := by
        rw [hh g, if_neg (Ne.symm hg), Nat.add_zero]
      rw [hgh]
      by_cases hlast : c.count f - 1 = 0
      · simpa [hlast, hg] using hc g
      · simpa [hlast, hg] using hc g

end RefCounts

end KernelTest
