import Mathlib.Data.List.Infix

/-!
# Occurrences of a list in a list

`cutAt pat s` cuts `s` around the first occurrence of `pat`. The leftmost occurrences that do not overlap are
what is found by cutting the rest again, and `replaceAll` puts another list in their place.
-/

namespace KernelTest

variable {α : Type} [DecidableEq α]

/-- What is before and behind the first occurrence of `pat`. -/
def cutAt (pat : List α) : List α → Option (List α × List α)
  | [] => if pat = [] then some ([], []) else none
  | c :: s =>
    if pat <+: c :: s then some ([], (c :: s).drop pat.length)
    else (cutAt pat s).map fun cut => (c :: cut.1, cut.2)

variable {pat new s a t : List α}

theorem cutAt_nil_left (s : List α) : cutAt [] s = some ([], s) := by
  cases s <;> simp [cutAt]

theorem eq_of_cutAt (h : cutAt pat s = some (a, t)) : s = a ++ (pat ++ t) := by
  induction s generalizing a with
  | nil =>
    rw [cutAt] at h
    split at h
    · next hpat =>
      cases h
      rw [hpat]
      rfl
    · cases h
  | cons c s ih =>
    rw [cutAt] at h
    split at h
    · next hpre =>
      cases h
      exact (List.prefix_iff_eq_append.mp hpre).symm
    · cases hcut : cutAt pat s with
      | none =>
        rw [hcut] at h
        cases h
      | some cut =>
        rw [hcut] at h
        cases h
        rw [ih hcut]
        rfl

theorem cutAt_of_starts {i : Nat} (h : pat <+: s.drop i) : ∃ a t, cutAt pat s = some (a, t) ∧ a.length ≤ i := by
  induction s generalizing i with
  | nil =>
    rw [List.drop_nil, List.prefix_nil] at h
    exact ⟨[], [], if_pos h, Nat.zero_le i⟩
  | cons c s ih =>
    rw [cutAt]
    by_cases hpre : pat <+: c :: s
    · exact ⟨[], _, if_pos hpre, Nat.zero_le i⟩
    · cases i with
      | zero => exact absurd h hpre
      | succ i =>
        obtain ⟨a, t, hcut, hle⟩ := ih h
        exact ⟨c :: a, t, by rw [if_neg hpre, hcut]; rfl, Nat.succ_le_succ hle⟩

theorem length_lt_of_cutAt (hpat : pat ≠ []) (h : cutAt pat s = some (a, t)) : t.length < s.length := by
  have hlen := congrArg List.length (eq_of_cutAt h)
  have hpos := List.length_pos_iff.mpr hpat
  simp only [List.length_append] at hlen
  omega

/-- The leftmost occurrences of `pat` that do not overlap are replaced by `new`. -/
def replaceAll (pat new s : List α) : List α :=
  if hpat : pat = [] then s
  else
    match hcut : cutAt pat s with
    | none => s
    | some (a, t) =>
      have := length_lt_of_cutAt hpat hcut
      a ++ (new ++ replaceAll pat new t)
  termination_by s.length

def occurrences (pat s : List α) : Nat :=
  if hpat : pat = [] then 0
  else
    match hcut : cutAt pat s with
    | none => 0
    | some (a, t) =>
      have := length_lt_of_cutAt hpat hcut
      occurrences pat t + 1
  termination_by s.length

theorem replaceAll_nil_left (new s : List α) : replaceAll [] new s = s := by
  rw [replaceAll]
  simp

theorem replaceAll_none (h : cutAt pat s = none) : replaceAll pat new s = s := by
  rw [replaceAll]
  split
  · rfl
  · split <;> simp_all

theorem replaceAll_some (hpat : pat ≠ []) (h : cutAt pat s = some (a, t)) :
    replaceAll pat new s = a ++ (new ++ replaceAll pat new t) := by
  rw [replaceAll, dif_neg hpat]
  split <;> simp_all

theorem occurrences_none (h : cutAt pat s = none) : occurrences pat s = 0 := by
  rw [occurrences]
  split
  · rfl
  · split <;> simp_all

theorem occurrences_some (hpat : pat ≠ []) (h : cutAt pat s = some (a, t)) :
    occurrences pat s = occurrences pat t + 1 := by
  rw [occurrences, dif_neg hpat]
  split <;> simp_all

theorem occurrences_induction (hpat : pat ≠ []) {P : List α → Prop} (last : ∀ s, cutAt pat s = none → P s)
    (next : ∀ s a t, cutAt pat s = some (a, t) → P t → P s) (s : List α) : P s := by
  induction hn : s.length using Nat.strongRecOn generalizing s with
  | ind n ih =>
    cases hcut : cutAt pat s with
    | none => exact last s hcut
    | some cut => exact next s cut.1 cut.2 hcut (ih _ (hn ▸ length_lt_of_cutAt hpat hcut) _ rfl)

theorem length_replaceAll (pat new s : List α) :
    (replaceAll pat new s).length + occurrences pat s * pat.length =
      s.length + occurrences pat s * new.length := by
  by_cases hpat : pat = []
  · rw [hpat, replaceAll_nil_left, occurrences]
    simp
  · induction s using occurrences_induction hpat with
    | last s hcut => rw [replaceAll_none hcut, occurrences_none hcut]; simp
    | next s a t hcut ih =>
      have hlen := congrArg List.length (eq_of_cutAt hcut)
      rw [replaceAll_some hpat hcut, occurrences_some hpat hcut, Nat.succ_mul, Nat.succ_mul]
      simp only [List.length_append] at hlen ⊢
      omega

end KernelTest
