import Mathlib.Order.Defs.Unbundled
import Mathlib.Tactic.Common

/-!
# Maximal suffixes

A word is a function whose first `l` letters count. Its suffixes are compared by the first letter in which
they differ, and a suffix that is a prefix of another is the smaller one. Where a word is cut in front of the
suffix that is maximal, the repetitions around the cut tell what the periods of the word are.
-/

namespace KernelTest.Words

variable {α : Type*} {r : α → α → Prop} {w t : Nat → α} {l a c c' i j k p : Nat}

/-- The suffix from `i` on is the smaller one, by a letter in which it differs from the one from `j` on. -/
def Below (r : α → α → Prop) (w : Nat → α) (l i j : Nat) : Prop :=
  ∃ d, i + d < l ∧ j + d < l ∧ (∀ e < d, w (i + e) = w (j + e)) ∧ r (w (i + d)) (w (j + d))

def PrefixOf (w : Nat → α) (l i j : Nat) : Prop := j ≤ i ∧ ∀ e, i + e < l → w (i + e) = w (j + e)

structure MaxSuffix (r : α → α → Prop) (w : Nat → α) (l c : Nat) : Prop where
  lt : c < l
  max : ∀ i < l, Below r w l i c ∨ PrefixOf w l i c

/-- `p` is a period of the suffix from `c` on. -/
def HasPeriod (w : Nat → α) (l c p : Nat) : Prop := ∀ i, c ≤ i → i + p < l → w i = w (i + p)

structure LeastPeriod (w : Nat → α) (l c p : Nat) : Prop where
  pos : 0 < p
  period : HasPeriod w l c p
  le : ∀ q, 0 < q → HasPeriod w l c q → p ≤ q

/-- What stands in front of the cut stands again `j` letters later, as far as that is behind the cut. -/
def Repeats (w : Nat → α) (l c j : Nat) : Prop := ∀ i < c, c ≤ i + j → i + j < l → w i = w (i + j)

theorem LeastPeriod.le_length (h : LeastPeriod w l c p) (hc : c < l) : p ≤ l - c :=
  h.le _ (by omega) fun i hi hil => by omega

theorem HasPeriod.mul (h : HasPeriod w l c p) (hc : c ≤ i) (q : Nat) (hi : i + q * p < l) :
    w i = w (i + q * p) := by
  induction q with
  | zero => rw [Nat.zero_mul, Nat.add_zero]
  | succ q ih =>
    rw [Nat.succ_mul] at hi ⊢
    rw [ih (by omega), ← Nat.add_assoc]
    exact h _ (by omega) (by omega)

/-! ## The order of the suffixes -/

section Order

variable [IsStrictTotalOrder α r]

theorem PrefixOf.not_below (h : PrefixOf w l i j) : ¬ Below r w l j i := by
  rintro ⟨d, -, hd, -, hr⟩
  rw [h.2 d hd] at hr
  exact irrefl_of r _ hr

theorem Below.asymm (h : Below r w l i j) : ¬ Below r w l j i := by
  obtain ⟨d, hi, hj, heq, hr⟩ := h
  rintro ⟨d', hi', hj', heq', hr'⟩
  rcases Nat.lt_trichotomy d d' with hlt | rfl | hlt
  · rw [heq' d hlt] at hr
    exact irrefl_of r _ hr
  · exact asymm_of r hr hr'
  · rw [heq d' hlt] at hr'
    exact irrefl_of r _ hr'

theorem Below.trans (h : Below r w l i j) (h' : Below r w l j k) : Below r w l i k := by
  obtain ⟨d, hi, hj, heq, hr⟩ := h
  obtain ⟨d', hj', hk', heq', hr'⟩ := h'
  rcases Nat.lt_trichotomy d d' with hlt | rfl | hlt
  · refine ⟨d, hi, by omega, fun e he => (heq e he).trans (heq' e (by omega)), ?_⟩
    rwa [← heq' d hlt]
  · exact ⟨d, hi, hk', fun e he => (heq e he).trans (heq' e he), trans_of r hr hr'⟩
  · refine ⟨d', by omega, hk', fun e he => (heq e (by omega)).trans (heq' e he), ?_⟩
    rwa [heq d' hlt]

theorem MaxSuffix.not_below (h : MaxSuffix r w l c) (i : Nat) : ¬ Below r w l c i := by
  intro hbelow
  have hi : i < l := by
    obtain ⟨d, -, hd, -⟩ := hbelow
    omega
  rcases h.max i hi with hmax | hmax
  · exact hmax.asymm hbelow
  · exact hmax.not_below hbelow

/-! ## Repetitions around the cut -/

/-- A repetition is longer than the part in front of the cut. -/
theorem MaxSuffix.lt_of_repeats (h : MaxSuffix r w l c) (hj : 0 < j) (hrep : Repeats w l c j) : c < j := by
  by_contra hle
  rcases h.max (c - j) (by have := h.lt; omega) with ⟨d, hd, hcd, heq, hr⟩ | hprefix
  · by_cases hdj : d < j
    · have hsame := hrep (c - j + d) (by omega) (by omega) (by omega)
      rw [show c - j + d + j = c + d by omega] at hsame
      rw [hsame] at hr
      exact irrefl_of r _ hr
    · refine h.not_below (c + j) ⟨d - j, by omega, by omega, fun e he => ?_, ?_⟩
      · have hsame := heq (j + e) (by omega)
        rwa [show c - j + (j + e) = c + e by omega, ← Nat.add_assoc] at hsame
      · rwa [show c + (d - j) = c - j + d by omega, show c + j + (d - j) = c + d by omega]
  · exact absurd hprefix.1 (by omega)

variable (h : MaxSuffix r w l c) (h' : MaxSuffix (Function.swap r) w l c') (hcc : c' ≤ c)
include h h' hcc

/-- A repetition that ends in the word is a period of the whole word, where the other order has its maximal
suffix no later. -/
theorem MaxSuffix.hasPeriod_of_repeats (hj : 0 < j) (hjl : c + j ≤ l) (hrep : Repeats w l c j) :
    HasPeriod w l 0 j := by
  have hcj := h.lt_of_repeats hj hrep
  have hleft : ∀ i < c, w i = w (i + j) := fun i hi => hrep i hi (by omega) (by omega)
  intro i _ hil
  by_cases hic : i < c
  · exact hleft i hic
  · rcases h'.max (c' + j) (by omega) with ⟨d, hd, hd', heq, hr⟩ | ⟨-, heq⟩
    · have hdc : c ≤ c' + d := by
        by_contra hlt
        have hsame := hleft (c' + d) (by omega)
        rw [show c' + d + j = c' + j + d by omega] at hsame
        rw [hsame] at hr
        exact irrefl_of r _ hr
      refine absurd ⟨c' + d - c, by omega, by omega, fun e he => ?_, ?_⟩ (h.not_below (c + j))
      · have hsame := heq (c - c' + e) (by omega)
        rw [show c' + j + (c - c' + e) = c + j + e by omega, show c' + (c - c' + e) = c + e by omega] at hsame
        exact hsame.symm
      · rw [show c + (c' + d - c) = c' + d by omega, show c + j + (c' + d - c) = c' + j + d by omega]
        exact hr
    · have hsame := heq (i - c') (by omega)
      rw [show c' + j + (i - c') = i + j by omega, show c' + (i - c') = i by omega] at hsame
      exact hsame.symm

/-- If there is a repetition that ends in the word, the least period of the maximal suffix is one. -/
theorem MaxSuffix.repeats_leastPeriod (hp : LeastPeriod w l c p) (hj : 0 < j) (hjl : c + j ≤ l)
    (hrep : Repeats w l c j) : Repeats w l c p := by
  induction j using Nat.strongRecOn with
  | ind j ih =>
    have hper := h.hasPeriod_of_repeats h' hcc hj hjl hrep
    rcases Nat.eq_or_lt_of_le (hp.le j hj fun i _ => hper i (Nat.zero_le i)) with rfl | hlt
    · exact hrep
    · refine ih (j - p) (Nat.sub_lt hj hp.pos) (by omega) (by omega) fun i hi hci hil => ?_
      rw [hper i (Nat.zero_le i) (by omega), hp.period _ hci (by omega)]
      congr 1
      omega

theorem MaxSuffix.le_of_repeats (hp : LeastPeriod w l c p) (hj : 0 < j) (hrep : Repeats w l c j) : p ≤ j := by
  by_cases hjl : c + j ≤ l
  · have hper := h.hasPeriod_of_repeats h' hcc hj hjl hrep
    exact hp.le j hj fun i _ => hper i (Nat.zero_le i)
  · have := hp.le_length h.lt
    omega

end Order

/-! ## Occurrences in a text -/

/-- The word stands at the place `i` of the text. -/
def Occurs (w : Nat → α) (l : Nat) (t : Nat → α) (i : Nat) : Prop := ∀ x < l, t (i + x) = w x

/-- Where the letters from the cut up to `k` agree, another occurrence repeats what is around the cut. -/
theorem Occurs.repeats (hk : ∀ x, c ≤ x → x < k → t (i + x) = w x) (h : Occurs w l t (i + j))
    (hend : ∀ x < c, x + j < l → x + j < k) : Repeats w l c j := by
  intro x hx hcx hxl
  rw [← hk (x + j) hcx (hend x hx hxl), ← h x (by omega)]
  congr 1
  omega

/-- If the letter at `k` is the first behind the cut that differs, the next occurrence is more than `k - c`
letters later. -/
theorem MaxSuffix.not_occurs_of_ne [IsStrictTotalOrder α r] (h : MaxSuffix r w l c)
    (h' : MaxSuffix (Function.swap r) w l c') (hcc : c' ≤ c) (hk : ∀ x, c ≤ x → x < k → t (i + x) = w x)
    (hkl : k < l) (hne : t (i + k) ≠ w k) (hj : j + c ≤ k) : ¬ Occurs w l t (i + j) := by
  intro hocc
  by_cases hj0 : j = 0
  · subst hj0
    exact hne (hocc k hkl)
  · have hrep := hocc.repeats hk fun x hx _ => by omega
    have hper := h.hasPeriod_of_repeats h' hcc (Nat.pos_of_ne_zero hj0) (by omega) hrep
    have hsame := hper (k - j) (Nat.zero_le _) (by omega)
    have hlast := hocc (k - j) (by omega)
    rw [show k - j + j = k by omega] at hsame
    rw [hsame, show i + j + (k - j) = i + k by omega] at hlast
    exact hne hlast

/-- If everything behind the cut agrees, the next occurrence is a repetition later. -/
theorem Occurs.repeats_of_right (hk : ∀ x, c ≤ x → x < l → t (i + x) = w x) (h : Occurs w l t (i + j)) :
    Repeats w l c j :=
  h.repeats hk fun _ _ hxl => hxl

/-! ## Finding the maximal suffix -/

/-- Up to the letter in front of `j + k`, the maximal suffix starts at `a`. It consists of copies of its first
`p` letters, the last whole one of which ends at `j`, and of `k - 1` letters more. -/
structure SuffixScan (r : α → α → Prop) (w : Nat → α) (l a j k p : Nat) : Prop where
  pos : 0 < k
  le : k ≤ p
  copies : ∃ q, j + 1 = a + (q + 1) * p
  period : HasPeriod w (j + k) a p
  top : ∀ i, a < i → i < a + p → Below r w (a + p) i a
  before : ∀ i < a, Below r w l i a
  inWord : j + k ≤ l

namespace SuffixScan

theorem start (hl : 0 < l) : SuffixScan r w l 0 0 1 1 where
  pos := Nat.one_pos
  le := Nat.le_refl 1
  copies := ⟨0, rfl⟩
  period := fun i _ hi => by omega
  top := fun i hi hi' => by omega
  before := fun i hi => absurd hi (Nat.not_lt_zero i)
  inWord := by omega

variable (h : SuffixScan r w l a j k p)
include h

theorem first_le : a ≤ j ∧ p ≤ j + 1 - a := by
  obtain ⟨q, hq⟩ := h.copies
  have hp := Nat.lt_of_lt_of_le h.pos h.le
  rw [Nat.succ_mul] at hq
  omega

/-- The place in the first copy that a place corresponds to. -/
theorem place (hi : a ≤ i) : ∃ q x, x < p ∧ i = a + x + q * p := by
  have hp := Nat.lt_of_lt_of_le h.pos h.le
  refine ⟨(i - a) / p, (i - a) % p, Nat.mod_lt _ hp, ?_⟩
  have := Nat.mod_add_div (i - a) p
  rw [Nat.mul_comm] at this
  omega

/-- The letter that is compared with the one at `j + k`. -/
theorem compared : w (a + k - 1) = w (j + k - p) := by
  obtain ⟨q, hq⟩ := h.copies
  have hpos := h.pos
  have hle := h.le
  rw [Nat.succ_mul] at hq
  have hmul := h.period.mul (i := a + k - 1) (by omega) q (by omega)
  rw [hmul]
  congr 1
  omega

theorem same (hlt : k < p) (hjk : j + k < l) (heq : w (a + k - 1) = w (j + k)) :
    SuffixScan r w l a j (k + 1) p := by
  have hfirst := h.first_le
  refine ⟨by omega, hlt, h.copies, fun i hi hil => ?_, h.top, h.before, by omega⟩
  by_cases hlast : i + p < j + k
  · exact h.period i hi hlast
  · rw [show i + p = j + k by omega, ← heq, h.compared]
    congr 1
    omega

theorem whole (hk : k = p) (hjk : j + k < l) (heq : w (a + k - 1) = w (j + k)) :
    SuffixScan r w l a (j + p) 1 p := by
  obtain ⟨q, hq⟩ := h.copies
  have hfirst := h.first_le
  refine ⟨Nat.one_pos, hk ▸ h.pos, ⟨q + 1, ?_⟩, fun i hi hil => ?_, h.top, h.before, by omega⟩
  · rw [Nat.succ_mul]
    omega
  · by_cases hlast : i + p < j + k
    · exact h.period i hi hlast
    · rw [show i + p = j + k by omega, ← heq, h.compared]
      congr 1
      omega

/-- The letters of a later copy are those of the first. -/
theorem copy {q x e : Nat} (hi : i = a + x + q * p) (he : i + e < j + k) : w (i + e) = w (a + x + e) := by
  rw [h.period.mul (i := a + x + e) (by omega) q (by omega)]
  congr 1
  omega

/-- The letter at `j + k` is the larger one: the whole of the next copy is. -/
theorem below_next (hjk : j + k < l) (hr : r (w (a + k - 1)) (w (j + k))) {q : Nat} (hi : i = a + q * p)
    (hij : i ≤ j) : Below r w l i (j + 1) := by
  obtain ⟨q', hq'⟩ := h.copies
  have hpos := h.pos
  refine ⟨k - 1, by omega, by omega, fun e he => ?_, ?_⟩
  · rw [h.copy (x := 0) (by omega) (by omega), h.copy (i := j + 1) (x := 0) (by omega) (by omega)]
  · rw [h.copy (x := 0) (by omega) (by omega), show a + 0 + (k - 1) = a + k - 1 by omega,
      show j + 1 + (k - 1) = j + k by omega]
    exact hr

theorem larger [IsStrictTotalOrder α r] (hjk : j + k < l) (hr : r (w (a + k - 1)) (w (j + k))) :
    SuffixScan r w l (j + 1) (j + 1) 1 1 := by
  have hfirst := h.first_le
  have hpos := h.pos
  refine ⟨Nat.one_pos, Nat.le_refl 1, ⟨0, rfl⟩, fun i hi hil => by omega, fun i hi hi' => by omega,
    fun i hi => ?_, by omega⟩
  have hnext : Below r w l a (j + 1) := h.below_next hjk hr (q := 0) (by omega) hfirst.1
  by_cases hia : i < a
  · exact (h.before i hia).trans hnext
  · obtain ⟨q, x, hx, hplace⟩ := h.place (Nat.le_of_not_lt hia)
    obtain ⟨q', hq'⟩ := h.copies
    by_cases hx0 : x = 0
    · exact h.below_next hjk hr (q := q) (by omega) (by omega)
    · -- inside a copy, the difference to the first copy is in the same copy
      have hq : q < q' + 1 := by
        by_contra hge
        have := Nat.mul_le_mul_right p (Nat.le_of_not_lt hge)
        omega
      have hwhole := Nat.mul_le_mul_right p hq
      rw [Nat.succ_mul] at hwhole
      obtain ⟨d, hd, -, heq, hrd⟩ := h.top (a + x) (by omega) (by omega)
      have hinside : Below r w l i a := by
        refine ⟨d, by omega, by omega, fun e he => ?_, ?_⟩
        · rw [h.copy hplace (by omega), heq e he]
        · rw [h.copy hplace (by omega)]
          exact hrd
      exact hinside.trans hnext

theorem smaller [IsStrictTotalOrder α r] (hjk : j + k < l) (hr : r (w (j + k)) (w (a + k - 1))) :
    SuffixScan r w l a (j + k) 1 (j + k + 1 - a) := by
  have hfirst := h.first_le
  have hpos := h.pos
  have hle := h.le
  refine ⟨Nat.one_pos, by omega, ⟨0, by omega⟩, fun i hi hil => by omega, fun i hi hi' => ?_, h.before,
    by omega⟩
  rw [show a + (j + k + 1 - a) = j + k + 1 by omega] at hi' ⊢
  obtain ⟨q, x, hx, hplace⟩ := h.place (Nat.le_of_lt hi)
  obtain ⟨q', hq'⟩ := h.copies
  -- what stands `d` letters behind `i` when `d` leads to the last letter
  have hlast : ∀ d, i + d = j + k → x + d < p → a + x + d = a + k - 1 := by
    intro d hd hxd
    have hqq : q = q' + 1 := by
      rcases Nat.lt_trichotomy q (q' + 1) with hlt | heq | hgt
      · have := Nat.mul_le_mul_right p hlt
        rw [Nat.succ_mul] at this
        omega
      · exact heq
      · have := Nat.mul_le_mul_right p hgt
        rw [Nat.succ_mul] at this
        omega
    rw [hqq] at hplace
    omega
  by_cases hx0 : x = 0
  · subst hx0
    refine ⟨j + k - i, by omega, by omega, fun e he => by rw [h.copy hplace (by omega), Nat.add_zero], ?_⟩
    rw [show i + (j + k - i) = j + k by omega]
    have hq : q ≤ q' + 1 := by
      by_contra hgt
      have := Nat.mul_le_mul_right p (Nat.lt_of_not_le hgt)
      rw [Nat.succ_mul] at this
      omega
    obtain ⟨m, hm⟩ := Nat.exists_eq_add_of_le hq
    rw [hm, Nat.add_mul] at hq'
    have hq0 : q ≠ 0 := by
      rintro rfl
      omega
    have := Nat.mul_le_mul_right p (Nat.pos_of_ne_zero hq0)
    have hsame := h.period.mul (i := a + k - 1) (by omega) m (by omega)
    rw [show a + (j + k - i) = a + k - 1 + m * p by omega, ← hsame]
    exact hr
  · obtain ⟨d, hd, -, heq, hrd⟩ := h.top (a + x) (by omega) (by omega)
    by_cases hin : i + d < j + k
    · refine ⟨d, by omega, by omega, fun e he => ?_, ?_⟩
      · rw [h.copy hplace (by omega), heq e he]
      · rw [h.copy hplace hin]
        exact hrd
    · refine ⟨j + k - i, by omega, by omega, fun e he => ?_, ?_⟩
      · rw [h.copy hplace (by omega), heq e (by omega)]
      · rw [show i + (j + k - i) = j + k by omega]
        rw [← hlast (j + k - i) (by omega) (by omega)] at hr
        by_cases hde : j + k - i = d
        · rw [hde] at hr ⊢
          exact trans_of r hr hrd
        · rwa [← heq (j + k - i) (by omega)]

/-- When the word has been read, the scan has found its maximal suffix and the period of that. -/
theorem finish [IsStrictTotalOrder α r] (hend : l ≤ j + k) : MaxSuffix r w l a ∧ LeastPeriod w l a p := by
  have hfirst := h.first_le
  have hpos := h.pos
  have hle := h.le
  have hin := h.inWord
  have hjk : j + k = l := by omega
  refine ⟨⟨by omega, fun i hi => ?_⟩, by omega, hjk ▸ h.period, fun q hq hper => ?_⟩
  · by_cases hia : i < a
    · exact Or.inl (h.before i hia)
    · obtain ⟨q, x, hx, hplace⟩ := h.place (Nat.le_of_not_lt hia)
      by_cases hx0 : x = 0
      · subst hx0
        exact Or.inr ⟨by omega, fun e he => by rw [h.copy hplace (by omega), Nat.add_zero]⟩
      · obtain ⟨d, hd, -, heq, hrd⟩ := h.top (a + x) (by omega) (by omega)
        by_cases hil : i + d < l
        · refine Or.inl ⟨d, hil, by omega, fun e he => ?_, ?_⟩
          · rw [h.copy hplace (by omega), heq e he]
          · rw [h.copy hplace (by omega)]
            exact hrd
        · refine Or.inr ⟨by omega, fun e he => ?_⟩
          rw [h.copy hplace (by omega), heq e (by omega)]
  · by_contra hlt
    obtain ⟨d, hd, -, -, hrd⟩ := h.top (a + q) (by omega) (by omega)
    have hsame := hper (a + d) (by omega) (by omega)
    rw [show a + d + q = a + q + d by omega] at hsame
    rw [hsame] at hrd
    exact irrefl_of r _ hrd

end SuffixScan

end KernelTest.Words
