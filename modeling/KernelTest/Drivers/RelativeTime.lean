import Mathlib.Logic.Function.Iterate
import KernelTest.Framework.Bytes

/-!
# Deadlines in seconds and parts of a second

`relative_time` adds a duration to the time of the timer with one carry at most. The wait loop of the speaker
compares the two parts of a time separately.
-/

namespace KernelTest.Drivers

/-- `ticks`, `subticks` and `current_hz`, all of 32 bits. -/
structure Clock where
  ticks : Nat
  subticks : Nat
  currentHz : Nat
  ticks_lt : ticks < 2 ^ 32
  hz_lt : currentHz < 2 ^ 32
  subticks_lt : subticks < currentHz

namespace Clock

/-- The part of `pit_handler` that counts. -/
def pitHandler (c : Clock) : Clock :=
  if h : u32 (c.subticks + 1) = c.currentHz then
    ⟨u32 (c.ticks + 1), 0, c.currentHz, u32_lt _, c.hz_lt, Nat.lt_of_le_of_lt (Nat.zero_le _) c.subticks_lt⟩
  else
    ⟨c.ticks, u32 (c.subticks + 1), c.currentHz, c.ticks_lt, c.hz_lt,
      Nat.lt_of_le_of_ne (Nat.le_trans (Nat.mod_le _ _) c.subticks_lt) h⟩

/-- `relative_time(seconds, subseconds, &s, &ss)`: what it stores in `s` and in `ss`. -/
def relativeTime (c : Clock) (seconds subseconds : Nat) : Nat × Nat :=
  if u32 (subseconds + c.subticks) > c.currentHz then
    (u32 (u32 (c.ticks + seconds) + 1), sub32 (u32 (subseconds + c.subticks)) c.currentHz)
  else (u32 (c.ticks + seconds), u32 (c.subticks + subseconds))

end Clock

/-- The condition on which the wait loop of `note` stops at a time. -/
def noteStops (deadline time : Nat × Nat) : Prop := time.1 ≥ deadline.1 ∧ time.2 ≥ deadline.2

instance (deadline time : Nat × Nat) : Decidable (noteStops deadline time) := inferInstanceAs (Decidable (_ ∧ _))

namespace Clock

def time (c : Clock) : Nat × Nat := (c.ticks, c.subticks)

end Clock

/-- The wait loop of `note`, from the clock at its first look on: the clock at which it stops. -/
def noteWait (deadline : Nat × Nat) : List Clock → Option Clock
  | [] => none
  | c :: looks => if noteStops deadline c.time then some c else noteWait deadline looks

def NotBefore (time other : Nat × Nat) : Prop := other.1 < time.1 ∨ other.1 = time.1 ∧ other.2 ≤ time.2

namespace Clock

variable {c : Clock} {seconds subseconds : Nat}

/-- The subticks since the clock was started. -/
def total (c : Clock) : Nat := c.ticks * c.currentHz + c.subticks

/-- Neither the sum of the parts nor the deadline overflows. -/
structure Fits (c : Clock) (seconds subseconds : Nat) : Prop where
  parts : c.subticks + subseconds < 2 ^ 32
  deadline : c.ticks + seconds + (c.subticks + subseconds) / c.currentHz < 2 ^ 32

def after (c : Clock) (n : Nat) : Clock := pitHandler^[n] c

/-- The deadline is a time with a part of less than a second, it lies as far ahead as it should, and the wait
loop stops at it and at all later times, but not before: at the first look that is late enough. -/
structure KeepsDeadline (c : Clock) (seconds subseconds : Nat) : Prop where
  normal : (c.relativeTime seconds subseconds).2 < c.currentHz
  sum : (c.relativeTime seconds subseconds).1 * c.currentHz + (c.relativeTime seconds subseconds).2 =
    (c.ticks + seconds) * c.currentHz + c.subticks + subseconds
  stops : ∀ t : Nat × Nat, t.1 < 2 ^ 32 → t.2 < c.currentHz → NotBefore t c.time →
    (noteStops (c.relativeTime seconds subseconds) t ↔ NotBefore t (c.relativeTime seconds subseconds))
  waits : ∀ looks : List Nat, (∀ n ∈ looks, c.total + n < 2 ^ 32 * c.currentHz) →
    noteWait (c.relativeTime seconds subseconds) (looks.map c.after) =
      (looks.find? (seconds * c.currentHz + subseconds ≤ ·)).map c.after

theorem total_pitHandler (h : c.total + 1 < 2 ^ 32 * c.currentHz) :
    c.pitHandler.total = c.total + 1 ∧ c.pitHandler.currentHz = c.currentHz := by
  have hticks := c.ticks_lt
  have hsub := c.subticks_lt
  have hhz := c.hz_lt
  have hsum : u32 (c.subticks + 1) = c.subticks + 1 := u32_of_lt (by omega)
  rw [pitHandler]
  by_cases hend : u32 (c.subticks + 1) = c.currentHz
  · have hnext : c.ticks + 1 < 2 ^ 32 := by
      by_contra hlast
      have hall : (c.ticks + 1) * c.currentHz = 2 ^ 32 * c.currentHz := by
        congr 1
        omega
      rw [total] at h
      rw [Nat.succ_mul] at hall
      omega
    have hticks' : u32 (c.ticks + 1) = c.ticks + 1 := u32_of_lt hnext
    rw [dif_pos hend]
    refine ⟨?_, rfl⟩
    change u32 (c.ticks + 1) * c.currentHz + 0 = c.ticks * c.currentHz + c.subticks + 1
    rw [hticks', Nat.succ_mul]
    omega
  · rw [dif_neg hend]
    refine ⟨?_, rfl⟩
    change c.ticks * c.currentHz + u32 (c.subticks + 1) = c.ticks * c.currentHz + c.subticks + 1
    rw [hsum, Nat.add_assoc]

theorem total_iterate (n : Nat) (h : c.total + n < 2 ^ 32 * c.currentHz) :
    (pitHandler^[n] c).total = c.total + n ∧ (pitHandler^[n] c).currentHz = c.currentHz := by
  induction n with
  | zero => exact ⟨rfl, rfl⟩
  | succ n ih =>
    obtain ⟨htotal, hhz⟩ := ih (by omega)
    rw [Function.iterate_succ_apply']
    have hnext := total_pitHandler (c := pitHandler^[n] c) (by rw [htotal, hhz]; omega)
    rw [htotal, hhz] at hnext
    exact hnext

theorem notBefore_iff {hz : Nat} {t u : Nat × Nat} (ht : t.2 < hz) (hu : u.2 < hz) :
    NotBefore t u ↔ u.1 * hz + u.2 ≤ t.1 * hz + t.2 := by
  constructor
  · intro h
    cases h with
    | inl hlt =>
      have hmul : (u.1 + 1) * hz ≤ t.1 * hz := Nat.mul_le_mul_right hz hlt
      rw [Nat.succ_mul] at hmul
      omega
    | inr h =>
      rw [h.1]
      omega
  · intro h
    by_contra hnot
    have hcases : t.1 < u.1 ∨ t.1 = u.1 ∧ t.2 < u.2 := by
      unfold NotBefore at hnot
      omega
    cases hcases with
    | inl hlt =>
      have hmul : (t.1 + 1) * hz ≤ u.1 * hz := Nat.mul_le_mul_right hz hlt
      rw [Nat.succ_mul] at hmul
      omega
    | inr heq =>
      rw [heq.1] at h
      omega

theorem relativeTime_eq (h : c.Fits seconds subseconds) : c.relativeTime seconds subseconds =
    if c.subticks + subseconds > c.currentHz then
      (c.ticks + seconds + 1, c.subticks + subseconds - c.currentHz)
    else (c.ticks + seconds, c.subticks + subseconds) := by
  have hsub := c.subticks_lt
  have hhz := c.hz_lt
  have hparts := h.parts
  have hsum : u32 (subseconds + c.subticks) = c.subticks + subseconds := by
    rw [Nat.add_comm]
    exact u32_of_lt hparts
  have hsum' : u32 (c.subticks + subseconds) = c.subticks + subseconds := u32_of_lt hparts
  have hticks : u32 (c.ticks + seconds) = c.ticks + seconds :=
    u32_of_lt (Nat.lt_of_le_of_lt (Nat.le_add_right _ _) h.deadline)
  rw [relativeTime, hsum, hsum', hticks]
  by_cases hcarry : c.subticks + subseconds > c.currentHz
  · have hone : 1 ≤ (c.subticks + subseconds) / c.currentHz :=
      (Nat.le_div_iff_mul_le (by omega)).mpr (by omega)
    have hnext : u32 (c.ticks + seconds + 1) = c.ticks + seconds + 1 := by
      have hdeadline := h.deadline
      exact u32_of_lt (by omega)
    rw [if_pos hcarry, if_pos hcarry, hnext, sub32_of_le hparts (Nat.le_of_lt hcarry)]
  · rw [if_neg hcarry, if_neg hcarry]

theorem relativeTime_sum (h : c.Fits seconds subseconds) :
    (c.relativeTime seconds subseconds).1 * c.currentHz + (c.relativeTime seconds subseconds).2 =
      (c.ticks + seconds) * c.currentHz + c.subticks + subseconds := by
  rw [relativeTime_eq h]
  by_cases hcarry : c.subticks + subseconds > c.currentHz
  · rw [if_pos hcarry]
    change (c.ticks + seconds + 1) * c.currentHz + (c.subticks + subseconds - c.currentHz) = _
    rw [Nat.succ_mul]
    omega
  · rw [if_neg hcarry, Nat.add_assoc]

theorem stops_iff {s ss hz : Nat} {now : Nat × Nat} (hss : ss < hz) (hnow : now.1 ≤ s) :
    (∀ t : Nat × Nat, t.1 < 2 ^ 32 → t.2 < hz → NotBefore t now → (noteStops (s, ss) t ↔ NotBefore t (s, ss))) ↔
      ss = 0 ∨ 2 ^ 32 ≤ s + 1 := by
  constructor
  · intro h
    by_contra hnot
    have hnext : NotBefore (s + 1, 0) now := .inl (Nat.lt_succ_of_le hnow)
    have hstops := (h (s + 1, 0) (by omega) (by omega) hnext).mpr (.inl (Nat.lt_succ_self s))
    have hzero : 0 ≥ ss := hstops.2
    omega
  · intro h t ht _ _
    change t.1 ≥ s ∧ t.2 ≥ ss ↔ s < t.1 ∨ s = t.1 ∧ ss ≤ t.2
    omega

theorem stops_after (h : c.Fits seconds subseconds) (hnormal : (c.relativeTime seconds subseconds).2 < c.currentHz)
    (hstops : ∀ t : Nat × Nat, t.1 < 2 ^ 32 → t.2 < c.currentHz → NotBefore t c.time →
      (noteStops (c.relativeTime seconds subseconds) t ↔ NotBefore t (c.relativeTime seconds subseconds)))
    {n : Nat} (hn : c.total + n < 2 ^ 32 * c.currentHz) :
    noteStops (c.relativeTime seconds subseconds) (c.after n).time ↔ seconds * c.currentHz + subseconds ≤ n := by
  obtain ⟨htotal, hhz⟩ := total_iterate n hn
  have hticks : (c.after n).time.1 < 2 ^ 32 := (pitHandler^[n] c).ticks_lt
  have hsub : (c.after n).time.2 < c.currentHz := hhz ▸ (pitHandler^[n] c).subticks_lt
  have htime : (c.after n).time.1 * c.currentHz + (c.after n).time.2 = c.total + n := by
    rw [← htotal, total, hhz]
    rfl
  have hlater : NotBefore (c.after n).time c.time := by
    rw [notBefore_iff hsub c.subticks_lt, htime]
    exact Nat.le_add_right c.total n
  rw [hstops _ hticks hsub hlater, notBefore_iff hsub hnormal, htime, relativeTime_sum h, total, Nat.add_mul]
  omega

theorem noteWait_eq {deadline : Nat × Nat} {duration : Nat} {looks : List Nat}
    (h : ∀ n ∈ looks, (noteStops deadline (c.after n).time ↔ duration ≤ n)) :
    noteWait deadline (looks.map c.after) = (looks.find? (duration ≤ ·)).map c.after := by
  induction looks with
  | nil => rfl
  | cons n looks ih =>
    have hfirst := h n List.mem_cons_self
    have hrest := ih fun k hk => h k (List.mem_cons_of_mem n hk)
    rw [List.map_cons, noteWait]
    by_cases hn : duration ≤ n
    · have hfind : (n :: looks).find? (duration ≤ ·) = some n := by simp [hn]
      rw [if_pos (hfirst.mpr hn), hfind]
      rfl
    · have hfind : (n :: looks).find? (duration ≤ ·) = looks.find? (duration ≤ ·) := by simp [hn]
      rw [if_neg (mt hfirst.mp hn), hfind, hrest]

theorem keepsDeadline_of_stops (h : c.Fits seconds subseconds)
    (hnormal : (c.relativeTime seconds subseconds).2 < c.currentHz)
    (hstops : ∀ t : Nat × Nat, t.1 < 2 ^ 32 → t.2 < c.currentHz → NotBefore t c.time →
      (noteStops (c.relativeTime seconds subseconds) t ↔ NotBefore t (c.relativeTime seconds subseconds))) :
    c.KeepsDeadline seconds subseconds :=
  ⟨hnormal, relativeTime_sum h, hstops, fun _ hlooks =>
    noteWait_eq fun n hn => stops_after h hnormal hstops (hlooks n hn)⟩

/-- `relative_time` and the wait loop keep a deadline exactly if the clock shows a whole second and no part of a
second is added, or if the deadline is in the last second of the counter and the parts add up to less than two
seconds, but not to one. -/
theorem keepsDeadline_iff (h : c.Fits seconds subseconds) : c.KeepsDeadline seconds subseconds ↔
    (c.subticks = 0 ∧ subseconds = 0) ∨
      (c.ticks + seconds + (c.subticks + subseconds) / c.currentHz = 2 ^ 32 - 1 ∧
        c.subticks + subseconds ≠ c.currentHz ∧ c.subticks + subseconds < 2 * c.currentHz) := by
  have hsub := c.subticks_lt
  have hdeadline := h.deadline
  have heq := relativeTime_eq h
  by_cases hcarry : c.subticks + subseconds > c.currentHz
  · rw [if_pos hcarry] at heq
    have hnow : c.time.1 ≤ c.ticks + seconds + 1 := by
      change c.ticks ≤ _
      omega
    constructor
    · intro hk
      have hnormal := hk.normal
      have hstops := hk.stops
      rw [heq] at hnormal hstops
      have hone : (c.subticks + subseconds) / c.currentHz = 1 :=
        Nat.div_eq_of_lt_le (by omega) (by omega)
      have hlast := (stops_iff hnormal hnow).mp hstops
      omega
    · intro hcond
      have hlt : c.subticks + subseconds < 2 * c.currentHz := by omega
      have hone : (c.subticks + subseconds) / c.currentHz = 1 :=
        Nat.div_eq_of_lt_le (by omega) (by omega)
      have hnormal : c.subticks + subseconds - c.currentHz < c.currentHz := by omega
      have hstops := (stops_iff hnormal hnow).mpr (.inr (by omega))
      rw [← heq] at hstops
      have hnormal' : (c.relativeTime seconds subseconds).2 < c.currentHz := by rwa [heq]
      exact keepsDeadline_of_stops h hnormal' hstops
  · rw [if_neg hcarry] at heq
    have hnow : c.time.1 ≤ c.ticks + seconds := Nat.le_add_right c.ticks seconds
    constructor
    · intro hk
      have hnormal := hk.normal
      have hstops := hk.stops
      rw [heq] at hnormal hstops
      have hzero : (c.subticks + subseconds) / c.currentHz = 0 := Nat.div_eq_of_lt hnormal
      have hlast := (stops_iff hnormal hnow).mp hstops
      omega
    · intro hcond
      have hlt : c.subticks + subseconds < c.currentHz := by omega
      have hzero : (c.subticks + subseconds) / c.currentHz = 0 := Nat.div_eq_of_lt hlt
      have hstops := (stops_iff hlt hnow).mpr (by omega)
      rw [← heq] at hstops
      have hnormal : (c.relativeTime seconds subseconds).2 < c.currentHz := by rwa [heq]
      exact keepsDeadline_of_stops h hnormal hstops

/-- Three seconds after a whole second. -/
theorem keepsDeadline_iff_whole : (⟨7, 0, 1000, by decide, by decide, by decide⟩ : Clock).KeepsDeadline 3 0 ↔
    ((0 : Nat) = 0 ∧ (0 : Nat) = 0) ∨ (7 + 3 + (0 + 0) / 1000 = 2 ^ 32 - 1 ∧ 0 + 0 ≠ 1000 ∧ 0 + 0 < 2 * 1000) :=
  keepsDeadline_iff ⟨by decide, by decide⟩

/-- A tenth of a second, at nine tenths: the deadline has 1000 parts of a second. -/
theorem not_keepsDeadline_tenth :
    ¬ (⟨5, 900, 1000, by decide, by decide, by decide⟩ : Clock).KeepsDeadline 0 100 :=
  fun h => absurd h.normal (by decide)

end Clock

end KernelTest.Drivers
