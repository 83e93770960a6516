import KernelTest.Task.TimeToLive
import Mathlib.Data.Nat.Count
import Mathlib.Data.Nat.Periodic

/-!
# Duty cycles

In PWM mode `ttl` counts the offers of a task to `task_ttl_canlive`. The task is refused until `ttl` has
reached `ttl_start`, and from there on accepted until `ttl` wraps at `ttl_fscale`. `task_set_ttl` puts
`ttl_start` at a part of the scale, so that the accepted offers are the duty cycle.

The wrap is tested after an accepted offer only. If the duty cycle rounds down to no offer at all then
`ttl_start` is the whole scale, `ttl` passes the wrap while it refuses, and one offer more is accepted.
-/

namespace KernelTest.Task

/-- `MAX_TTL` -/
def maxTtl : Int := 2000

/-- `task_set_ttl(task, duty_cycle_or_preload)`. The division of C truncates. -/
def taskSetTtl (x : Ttl) (dutyCycleOrPreload : Int) : Ttl :=
  if x.pwmMode then
    { x with ttlStart := x.ttlFscale - (dutyCycleOrPreload * x.ttlFscale).tdiv 100, ttl := 0 }
  else
    { x with
      ttlStart := (dutyCycleOrPreload * x.ttlFscale).tdiv 100
      ttl := (dutyCycleOrPreload * x.ttlFscale).tdiv 100 }

/-- `task_set_ttl_fscale(task, fscale)` -/
def taskSetTtlFscale (x : Ttl) (fscale : Int) : Ttl :=
  let ttlFscale := if fscale ≤ 0 then maxTtl else if fscale ≥ maxTtl then maxTtl else fscale
  taskSetTtl { x with ttlFscale := ttlFscale } 100

namespace Ttl

/-- The task after `n` offers to `task_ttl_canlive`. -/
def offered (pid : Nat) (x : Ttl) : Nat → Ttl
  | 0 => x
  | n + 1 => (taskTtlCanlive pid (offered pid x n)).2

/-- The offer after `n` others is accepted. -/
def Accepts (pid : Nat) (x : Ttl) (n : Nat) : Prop := (taskTtlCanlive pid (x.offered pid n)).1 = 0

instance (pid : Nat) (x : Ttl) : DecidablePred (x.Accepts pid) :=
  fun n => inferInstanceAs (Decidable ((taskTtlCanlive pid (x.offered pid n)).1 = 0))

/-- The frequency scale is set, and then the duty cycle. -/
def withDuty (x : Ttl) (f d : Nat) : Ttl := taskSetTtl (taskSetTtlFscale x f) d

/-- Every window of `f` offers has the accepted offers of the duty cycle `d`, and `ttl` stays within the
scale. -/
def DutyKept (pid : Nat) (x : Ttl) (f d : Nat) : Prop :=
  ∀ i, ((Finset.Ico i (i + f)).filter ((x.withDuty f d).Accepts pid)).card = d * f / 100 ∧
    0 ≤ ((x.withDuty f d).offered pid i).ttl ∧ ((x.withDuty f d).offered pid i).ttl ≤ f

def period (f d : Nat) : Nat := if d * f / 100 = 0 then f + 1 else f

variable {pid f d : Nat} {x : Ttl}

theorem withDuty_eq (hmode : x.pwmMode = true) (hf : 1 ≤ f) (hmax : f ≤ 2000) :
    x.withDuty f d = ⟨true, 0, (f : Int) - (d * f / 100 : Nat), f⟩ := by
  have hscale : (if (f : Int) ≤ 0 then maxTtl else if (f : Int) ≥ maxTtl then maxTtl else f) = f := by
    rw [if_neg (by omega)]
    split
    · simp only [maxTtl] at *
      omega
    · rfl
  have hdiv : ((d : Int) * f).tdiv 100 = (d * f / 100 : Nat) := by
    rw [Int.tdiv_eq_ediv_of_nonneg (Int.mul_nonneg (Int.natCast_nonneg d) (Int.natCast_nonneg f))]
    push_cast
    rfl
  simp only [withDuty, taskSetTtlFscale, taskSetTtl, hmode, if_true, hscale, hdiv]

theorem taskTtlCanlive_zero : taskTtlCanlive 0 x = (0, x) := rfl

theorem taskTtlCanlive_pwm (hpid : pid ≠ 0) (t s e : Int) :
    taskTtlCanlive pid ⟨true, t, s, e⟩ =
      (if t < s then 1 else 0, ⟨true, if s ≤ t ∧ e ≤ t + 1 then 0 else t + 1, s, e⟩) := by
  by_cases hlt : t < s
  · simp [taskTtlCanlive, hpid, hlt, show ¬ s ≤ t by omega]
  · by_cases hwrap : e ≤ t + 1
    · simp [taskTtlCanlive, hpid, hlt, hwrap, show s ≤ t by omega]
    · simp [taskTtlCanlive, hpid, hlt, hwrap]

theorem offered_zero (n : Nat) : x.offered 0 n = x := by
  induction n with
  | zero => rfl
  | succ n ih => rw [offered, ih, taskTtlCanlive_zero]

theorem period_pos (hf : 1 ≤ f) : 0 < period f d := by
  simp only [period]
  split <;> omega

theorem offered_eq (hpid : pid ≠ 0) (hf : 1 ≤ f) (n : Nat) :
    (⟨true, 0, (f : Int) - (d * f / 100 : Nat), f⟩ : Ttl).offered pid n =
      ⟨true, (n % period f d : Nat), (f : Int) - (d * f / 100 : Nat), f⟩ := by
  induction n with
  | zero => simp [offered]
  | succ n ih =>
    have hlt := Nat.mod_lt n (period_pos (d := d) hf)
    rw [offered, ih, taskTtlCanlive_pwm hpid, ← Nat.mod_add_mod]
    generalize n % period f d = t at hlt
    -- the wrap at the scale is the end of the period
    have hwrap : (f : Int) - (d * f / 100 : Nat) ≤ t ∧ (f : Int) ≤ t + 1 ↔ t + 1 = period f d := by
      simp only [period] at *
      split at hlt <;> split <;> omega
    by_cases hend : t + 1 = period f d
    · simp only [if_pos (hwrap.2 hend), hend, Nat.mod_self, Nat.cast_zero]
    · rw [Nat.mod_eq_of_lt (by omega)]
      simp only [if_neg (mt hwrap.1 hend), Nat.cast_add, Nat.cast_one]

theorem accepts_withDuty (hpid : pid ≠ 0) (hmode : x.pwmMode = true) (hf : 1 ≤ f) (hmax : f ≤ 2000)
    (n : Nat) : (x.withDuty f d).Accepts pid n ↔ f ≤ n % period f d + d * f / 100 := by
  rw [Accepts, withDuty_eq hmode hf hmax, offered_eq hpid hf, taskTtlCanlive_pwm hpid]
  simp only [ite_eq_right_iff, one_ne_zero, imp_false]
  omega

theorem ttl_withDuty (hpid : pid ≠ 0) (hmode : x.pwmMode = true) (hf : 1 ≤ f) (hmax : f ≤ 2000)
    (n : Nat) : ((x.withDuty f d).offered pid n).ttl = (n % period f d : Nat) := by
  rw [withDuty_eq hmode hf hmax, offered_eq hpid hf]

theorem card_accepts (hpid : pid ≠ 0) (hmode : x.pwmMode = true) (hf : 1 ≤ f) (hmax : f ≤ 2000)
    (hle : d * f / 100 ≤ f) (hsome : d * f / 100 ≠ 0) (i : Nat) :
    ((Finset.Ico i (i + f)).filter ((x.withDuty f d).Accepts pid)).card = d * f / 100 := by
  have hperiod : period f d = f := if_neg hsome
  have hperiodic : Function.Periodic ((x.withDuty f d).Accepts pid) f := by
    intro n
    rw [eq_iff_iff, accepts_withDuty hpid hmode hf hmax, accepts_withDuty hpid hmode hf hmax,
      hperiod, Nat.add_mod_right]
  have hfirst : (Finset.Ico 0 (0 + f)).filter ((x.withDuty f d).Accepts pid) =
      Finset.Ico (f - d * f / 100) f := by
    ext n
    rw [Finset.mem_filter, Finset.mem_Ico, Finset.mem_Ico, accepts_withDuty hpid hmode hf hmax,
      hperiod]
    by_cases hlt : n < f
    · rw [Nat.mod_eq_of_lt hlt]
      omega
    · omega
  rw [Nat.filter_Ico_card_eq_of_periodic i f _ hperiodic,
    ← Nat.filter_Ico_card_eq_of_periodic 0 f _ hperiodic, hfirst, Nat.card_Ico]
  omega

/-- The duty cycle is kept if it is at least one offer of the scale. A task with pid 0 is never refused,
so that it keeps the full duty cycle only. -/
theorem dutyKept_iff (hmode : x.pwmMode = true) (hf : 1 ≤ f) (hmax : f ≤ 2000) (hd : d ≤ 100) :
    DutyKept pid x f d ↔ if pid = 0 then d = 100 else 100 ≤ d * f := by
  have hle : d * f / 100 ≤ f := by
    have hmul := Nat.mul_le_mul_right f hd
    omega
  by_cases hpid : pid = 0
  · subst hpid
    have hall (i : Nat) :
        (Finset.Ico i (i + f)).filter ((x.withDuty f d).Accepts 0) = Finset.Ico i (i + f) :=
      Finset.filter_true_of_mem fun n _ => rfl
    have httl (i : Nat) : ((x.withDuty f d).offered 0 i).ttl = 0 := by
      rw [offered_zero, withDuty_eq hmode hf hmax]
    simp only [DutyKept, hall, httl, Nat.card_Ico, if_true]
    constructor
    · intro h
      have hcard := (h 0).1
      by_contra hne
      have hmul := Nat.mul_le_mul_right f (show d ≤ 99 by omega)
      omega
    · intro hfull i
      subst hfull
      omega
  · rw [if_neg hpid]
    constructor
    · intro h
      by_contra hnone
      -- the offer after `f` others is accepted, and it is in the window that starts with the next
      have hzero : d * f / 100 = 0 := by omega
      have hcard := (h 1).1
      rw [hzero, Finset.card_eq_zero, Finset.filter_eq_empty_iff] at hcard
      have hin : f ∈ Finset.Ico 1 (1 + f) := Finset.mem_Ico.2 (by omega)
      refine hcard hin ((accepts_withDuty hpid hmode hf hmax f).2 ?_)
      rw [period, if_pos hzero, Nat.mod_eq_of_lt (by omega)]
      omega
    · intro hsome i
      have hne : d * f / 100 ≠ 0 := by omega
      rw [ttl_withDuty hpid hmode hf hmax]
      have hlt := Nat.mod_lt i (period_pos (d := d) hf)
      rw [period, if_neg hne] at hlt
      rw [period, if_neg hne]
      exact ⟨card_accepts hpid hmode hf hmax hle hne i, by omega, by omega⟩

theorem dutyKept_iff_half : DutyKept 2 init 2000 50 :=
  (dutyKept_iff rfl (by decide) (by decide) (by decide)).2 (by decide)

/-- With a duty cycle of 0 a task is accepted once in `f + 1` offers. -/
theorem not_dutyKept_zero : ¬ DutyKept 2 init 4 0 := by
  intro h
  exact absurd (h 1).1 (by decide)

end Ttl

end KernelTest.Task
