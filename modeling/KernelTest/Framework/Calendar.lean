import Mathlib.Algebra.BigOperators.Intervals
import Mathlib.Algebra.Order.BigOperators.Group.Finset

/-!
# The Gregorian calendar

Dates and times from 1970 on, each with its successor, and the seconds since the beginning of 1970. Nothing here
depends on a particular program.
-/

namespace KernelTest.Calendar

def IsLeap (year : Nat) : Prop := year % 4 = 0 ∧ (year % 100 ≠ 0 ∨ year % 400 = 0)

instance (year : Nat) : Decidable (IsLeap year) := inferInstanceAs (Decidable (_ ∧ _))

def yearLength (year : Nat) : Nat := if IsLeap year then 366 else 365

/-- The days of a month, which is a number from 1 to 12. -/
def monthLength (year : Nat) : Nat → Nat
  | 2 => if IsLeap year then 29 else 28
  | 4 | 6 | 9 | 11 => 30
  | _ => 31

structure Date where
  year : Nat
  month : Nat
  day : Nat
  year_ge : 1970 ≤ year
  month_pos : 1 ≤ month
  month_le : month ≤ 12
  day_pos : 1 ≤ day
  day_le : day ≤ monthLength year month

structure Time extends Date where
  hour : Nat
  minute : Nat
  second : Nat
  hour_lt : hour < 24
  minute_lt : minute < 60
  second_lt : second < 60

theorem monthLength_pos (year month : Nat) : 1 ≤ monthLength year month := by
  unfold monthLength
  split <;> first | decide | (split <;> decide)

def Date.next (d : Date) : Date :=
  if h : d.day < monthLength d.year d.month then
    ⟨d.year, d.month, d.day + 1, d.year_ge, d.month_pos, d.month_le, Nat.le_add_left 1 d.day, h⟩
  else if h : d.month < 12 then
    ⟨d.year, d.month + 1, 1, d.year_ge, Nat.le_add_left 1 d.month, h, Nat.le_refl 1, monthLength_pos _ _⟩
  else
    ⟨d.year + 1, 1, 1, Nat.le_succ_of_le d.year_ge, Nat.le_refl 1, by decide, Nat.le_refl 1, monthLength_pos _ _⟩

def Time.next (t : Time) : Time :=
  if h : t.second + 1 < 60 then { t with second := t.second + 1, second_lt := h }
  else if h : t.minute + 1 < 60 then { t with minute := t.minute + 1, minute_lt := h, second := 0, second_lt := by decide }
  else if h : t.hour + 1 < 24 then
    ⟨t.toDate, t.hour + 1, 0, 0, h, by decide, by decide⟩
  else ⟨t.toDate.next, 0, 0, 0, by decide, by decide, by decide⟩

/-- The days of the years from 1970 on that are over. -/
def daysBeforeYear (year : Nat) : Nat := ∑ y ∈ Finset.Ico 1970 year, yearLength y

/-- The days of the year's months that are over. -/
def daysBeforeMonth (year month : Nat) : Nat := ∑ m ∈ Finset.Ico 1 month, monthLength year m

def Date.days (d : Date) : Nat := daysBeforeYear d.year + daysBeforeMonth d.year d.month + (d.day - 1)

def Time.posix (t : Time) : Nat := t.toDate.days * 86400 + t.hour * 3600 + t.minute * 60 + t.second

theorem daysBeforeYear_succ {year : Nat} (h : 1970 ≤ year) :
    daysBeforeYear (year + 1) = daysBeforeYear year + yearLength year := Finset.sum_Ico_succ_top h _

theorem daysBeforeMonth_succ (year : Nat) {month : Nat} (h : 1 ≤ month) :
    daysBeforeMonth year (month + 1) = daysBeforeMonth year month + monthLength year month :=
  Finset.sum_Ico_succ_top h _

@[simp]
theorem daysBeforeMonth_one (year : Nat) : daysBeforeMonth year 1 = 0 := rfl

theorem daysBeforeMonth_end (year : Nat) : daysBeforeMonth year 13 = yearLength year := by
  simp only [daysBeforeMonth, Finset.sum_Ico_succ_top, Nat.reduceLeDiff, Finset.Ico_self, Finset.sum_empty, yearLength,
    monthLength]
  split <;> rfl

theorem Date.days_next (d : Date) : d.next.days = d.days + 1 := by
  have hday := d.day_pos
  rw [Date.next]
  by_cases hmonth : d.day < monthLength d.year d.month
  · rw [dif_pos hmonth, Date.days, Date.days]
    change daysBeforeYear d.year + daysBeforeMonth d.year d.month + (d.day + 1 - 1) = _
    omega
  · have hlast : d.day = monthLength d.year d.month := Nat.le_antisymm d.day_le (Nat.le_of_not_lt hmonth)
    rw [dif_neg hmonth]
    by_cases hyear : d.month < 12
    · rw [dif_pos hyear, Date.days, Date.days]
      change daysBeforeYear d.year + daysBeforeMonth d.year (d.month + 1) + 0 = _
      rw [daysBeforeMonth_succ d.year d.month_pos]
      omega
    · have hdecember : d.month = 12 := Nat.le_antisymm d.month_le (Nat.le_of_not_lt hyear)
      have hall := daysBeforeMonth_end d.year
      rw [daysBeforeMonth_succ d.year (by decide)] at hall
      rw [dif_neg hyear, Date.days, Date.days]
      change daysBeforeYear (d.year + 1) + 0 + 0 = _
      rw [daysBeforeYear_succ d.year_ge, hlast, hdecember, ← hall]
      rw [hdecember] at hlast
      omega

theorem Time.posix_next (t : Time) : t.next.posix = t.posix + 1 := by
  have hsecond := t.second_lt
  have hminute := t.minute_lt
  have hhour := t.hour_lt
  rw [Time.next]
  by_cases hs : t.second + 1 < 60
  · rw [dif_pos hs]
    change t.toDate.days * 86400 + t.hour * 3600 + t.minute * 60 + (t.second + 1) = t.posix + 1
    rw [Time.posix]
    omega
  · rw [dif_neg hs]
    by_cases hm : t.minute + 1 < 60
    · rw [dif_pos hm]
      change t.toDate.days * 86400 + t.hour * 3600 + (t.minute + 1) * 60 + 0 = t.posix + 1
      rw [Time.posix]
      omega
    · rw [dif_neg hm]
      by_cases hh : t.hour + 1 < 24
      · rw [dif_pos hh]
        change t.toDate.days * 86400 + (t.hour + 1) * 3600 + 0 * 60 + 0 = t.posix + 1
        rw [Time.posix]
        omega
      · rw [dif_neg hh]
        change t.toDate.next.days * 86400 + 0 * 3600 + 0 * 60 + 0 = t.posix + 1
        rw [t.toDate.days_next, Time.posix]
        omega

theorem yearLength_le (year : Nat) : yearLength year ≤ 366 := by
  unfold yearLength
  split <;> decide

theorem daysBeforeYear_le (year : Nat) : daysBeforeYear year ≤ 366 * (year - 1970) := by
  have hsum := Finset.sum_le_card_nsmul (Finset.Ico 1970 year) yearLength 366 fun y _ => yearLength_le y
  rw [Nat.card_Ico, Nat.nsmul_eq_mul, Nat.mul_comm] at hsum
  exact hsum

theorem Date.day_lt (d : Date) : daysBeforeMonth d.year d.month + (d.day - 1) < yearLength d.year := by
  have hmonths : daysBeforeMonth d.year (d.month + 1) ≤ daysBeforeMonth d.year 13 :=
    Finset.sum_le_sum_of_subset (Finset.Ico_subset_Ico_right (Nat.succ_le_succ d.month_le))
  rw [daysBeforeMonth_succ d.year d.month_pos, daysBeforeMonth_end] at hmonths
  have hpos := d.day_pos
  have hle := d.day_le
  omega

theorem Time.next_of_year_ne {t : Time} (h : t.next.year ≠ t.year) :
    t.next.year = t.year + 1 ∧ t.next.month = 1 ∧ t.next.day = 1 ∧ t.next.hour = 0 ∧ t.next.minute = 0 ∧
      t.next.second = 0 := by
  rw [Time.next] at h ⊢
  by_cases hs : t.second + 1 < 60
  · rw [dif_pos hs] at h
    exact absurd rfl h
  · rw [dif_neg hs] at h ⊢
    by_cases hm : t.minute + 1 < 60
    · rw [dif_pos hm] at h
      exact absurd rfl h
    · rw [dif_neg hm] at h ⊢
      by_cases hh : t.hour + 1 < 24
      · rw [dif_pos hh] at h
        exact absurd rfl h
      · rw [dif_neg hh] at h ⊢
        change t.toDate.next.year ≠ t.year at h
        change t.toDate.next.year = t.year + 1 ∧ t.toDate.next.month = 1 ∧ t.toDate.next.day = 1 ∧ _
        rw [Date.next] at h ⊢
        by_cases hday : t.day < monthLength t.year t.month
        · rw [dif_pos hday] at h
          exact absurd rfl h
        · rw [dif_neg hday] at h ⊢
          by_cases hmonth : t.month < 12
          · rw [dif_pos hmonth] at h
            exact absurd rfl h
          · rw [dif_neg hmonth]
            exact ⟨rfl, rfl, rfl, rfl, rfl, rfl⟩

end KernelTest.Calendar
