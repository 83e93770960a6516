import KernelTest.Framework.Bytes
import KernelTest.Framework.Calendar

/-!
# The clock of the CMOS

The driver reads the registers of the clock into a cache, up to a register that it leaves out, and computes the
seconds since 1970 from the cache.
-/

namespace KernelTest.Drivers

open Calendar

/-- The registers of the device, which have 7-bit numbers, and the memory from `cmos_mem` on. -/
structure Cmos where
  registers : Buf
  mem : Buf

/-- `n` rounds of the loop of `cmos_cmd`, from register `i` on. -/
def cmosLoop (data : List UInt8) (datalen : Nat) : Nat → Nat → Nat → Cmos → Cmos
  | 0, _, _, c => c
  | n + 1, i, dataCtr, c =>
    if datalen = 0 then
      cmosLoop data datalen n (i + 1) dataCtr { c with mem := Function.update c.mem i (c.registers (i % 128)) }
    else
      let c := { c with registers := Function.update c.registers (i % 128) (data.getD dataCtr 0) }
      if dataCtr + 1 ≥ datalen then c else cmosLoop data datalen n (i + 1) (dataCtr + 1) c

/-- `cmos_cmd(start_addr, end_addr, data, datalen)`. The addresses are unsigned and never -1. -/
def cmosCmd (startAddr endAddr : UInt8) (data : List UInt8) (datalen : Nat) (c : Cmos) : Cmos :=
  cmosLoop data datalen (endAddr.toNat - startAddr.toNat) startAddr.toNat 0 c

/-- `bcd_to_bin` -/
def bcdToBin (val : UInt8) : Nat := val.toNat / 16 * 10 + val.toNat % 16

/-- `time_t` -/
structure RtcTime where
  sec : Nat
  min : Nat
  hour : Nat
  weekday : Nat
  monthday : Nat
  month : Nat
  year : Nat
  deriving DecidableEq

/-- `rtc_get_time()` -/
def rtcGetTime (c : Cmos) : RtcTime × Cmos :=
  let c := cmosCmd 0 9 [] 0 c
  (⟨bcdToBin (c.mem 0), bcdToBin (c.mem 2), bcdToBin (c.mem 4), bcdToBin (c.mem 6), bcdToBin (c.mem 7),
    bcdToBin (c.mem 8), bcdToBin (c.mem 9)⟩, c)

/-- The loop of `time_secs_of_years`, with `n` rounds until `years` is 1969. -/
def yearLoop : Nat → Nat → Nat
  | 0, days => days
  | n + 1, days =>
    let years := 1969 + (n + 1)
    let days := u32 (days + 365)
    yearLoop n
      (if years % 4 = 0 then
        if years % 100 = 0 then
          if years % 400 = 0 then u32 (days + 1) else days
        else u32 (days + 1)
      else days)

/-- `time_secs_of_years(years)` -/
def timeSecsOfYears (years : Int) : Nat := u32 (yearLoop (years + 2000 - 1969).toNat 0 * 86400)

/-- What `case k` of `time_secs_of_month` adds. -/
def caseDays (year : Nat) : Nat → Nat
  | 11 => 30
  | 10 => 31
  | 9 => 30
  | 8 => 31
  | 7 => 31
  | 6 => 30
  | 5 => 31
  | 4 => 30
  | 3 => 31
  | 2 => 28 + if year % 4 = 0 ∧ (year % 100 ≠ 0 ∨ year % 400 = 0) then 1 else 0
  | 1 => 31
  | _ => 0

/-- The switch of `time_secs_of_month` from `case k` on. -/
def fallThrough (year : Nat) : Nat → Nat
  | 0 => 0
  | k + 1 => caseDays year (k + 1) + fallThrough year k

/-- `time_secs_of_month(months, year)` -/
def timeSecsOfMonth (months : Int) (year : Nat) : Nat :=
  u32 ((if 1 ≤ months ∧ months ≤ 11 then fallThrough (year + 2000) months.toNat else 0) * 86400)

/-- `rtc_get_time_secs()` -/
def rtcGetTimeSecs (c : Cmos) : Nat × Cmos :=
  let c := cmosCmd 0 9 [] 0 c
  let secs : Int := timeSecsOfYears (bcdToBin (c.mem 9) - 1) +
    timeSecsOfMonth (bcdToBin (c.mem 8) - 1) (bcdToBin (c.mem 9)) + (bcdToBin (c.mem 7) - 1) * 86400 +
    bcdToBin (c.mem 4) * 3600 + bcdToBin (c.mem 2) * 60 + bcdToBin (c.mem 0)
  ((secs % 4294967296).toNat, c)

/-! ## What it should do -/

/-- A number below 100 as two decimal digits. -/
def toBcd (n : Nat) : UInt8 := UInt8.ofNat (n / 10 * 16 + n % 10)

/-- The clock shows a time of this century. -/
structure ShowsTime (registers : Buf) (t : Time) (weekday : Nat) : Prop where
  century : 2000 ≤ t.year ∧ t.year < 2100
  weekday_le : 1 ≤ weekday ∧ weekday ≤ 7
  second : registers 0 = toBcd t.second
  minute : registers 2 = toBcd t.minute
  hour : registers 4 = toBcd t.hour
  dayOfWeek : registers 6 = toBcd weekday
  day : registers 7 = toBcd t.day
  month : registers 8 = toBcd t.month
  year : registers 9 = toBcd (t.year - 2000)

/-- The seconds and the parts of the time are read, and a second later there is a second more, in this
century. -/
structure TellsTime (c : Cmos) (t : Time) (weekday : Nat) : Prop where
  secs : (rtcGetTimeSecs c).1 = t.posix % 2 ^ 32
  parts : (rtcGetTime c).1 = ⟨t.second, t.minute, t.hour, weekday, t.day, t.month, t.year - 2000⟩
  increases : ∀ registers weekday', ShowsTime registers t.next weekday' →
    (rtcGetTimeSecs c).1 < (rtcGetTimeSecs { (rtcGetTimeSecs c).2 with registers := registers }).1

/-! ## The cache -/

section Cache

variable {c : Cmos} {t : Time} {weekday : Nat}

theorem cmosLoop_read (n i dataCtr : Nat) (c : Cmos) :
    (cmosLoop [] 0 n i dataCtr c).registers = c.registers ∧ ∀ j, (cmosLoop [] 0 n i dataCtr c).mem j =
      if i ≤ j ∧ j < i + n then c.registers (j % 128) else c.mem j := by
  induction n generalizing i c with
  | zero =>
    refine ⟨rfl, fun j => ?_⟩
    rw [if_neg (by omega)]
    rfl
  | succ n ih =>
    obtain ⟨hregisters, hmem⟩ := ih (i + 1) { c with mem := Function.update c.mem i (c.registers (i % 128)) }
    rw [cmosLoop, if_pos rfl]
    refine ⟨hregisters, fun j => ?_⟩
    rw [hmem j]
    by_cases hj : j = i
    · rw [if_neg (by omega), if_pos (by omega), hj]
      exact Function.update_self ..
    · have hcond : (i + 1 ≤ j ∧ j < i + 1 + n) ↔ (i ≤ j ∧ j < i + (n + 1)) := by omega
      have hother : Function.update c.mem i (c.registers (i % 128)) j = c.mem j := Function.update_of_ne hj ..
      simp only [hcond, hother]

theorem cmosCmd_mem (c : Cmos) (j : Nat) :
    (cmosCmd 0 9 [] 0 c).mem j = if j < 9 then c.registers j else c.mem j := by
  have hmem := (cmosLoop_read 9 0 0 c).2 j
  simp only [Nat.zero_le, true_and, Nat.zero_add] at hmem
  rw [cmosCmd]
  change (cmosLoop [] 0 9 0 0 c).mem j = _
  rw [hmem]
  by_cases hj : j < 9
  · rw [if_pos hj, if_pos hj, Nat.mod_eq_of_lt (by omega)]
  · rw [if_neg hj, if_neg hj]

theorem bcdToBin_toBcd {n : Nat} (h : n < 100) : bcdToBin (toBcd n) = n := by
  have hbyte : n / 10 * 16 + n % 10 < 2 ^ 8 := by omega
  rw [bcdToBin, toBcd, UInt8.toNat_ofNat_of_lt' hbyte]
  omega

end Cache

/-! ## Years and months -/

theorem yearLoop_eq {n days : Nat} (h : days + 366 * n < 4294967296) :
    yearLoop n days = days + daysBeforeYear (1970 + n) := by
  induction n generalizing days with
  | zero => rfl
  | succ n ih =>
    have hround : yearLoop (n + 1) days = yearLoop n (days + yearLength (1970 + n)) := by
      have hdays : u32 (days + 365) = days + 365 := Nat.mod_eq_of_lt (by lia)
      have hmore : u32 (days + 365 + 1) = days + 365 + 1 := Nat.mod_eq_of_lt (by lia)
      have hyear : 1969 + (n + 1) = 1970 + n := by omega
      simp only [yearLoop, hdays, hmore, hyear, yearLength, IsLeap]
      congr 1
      grind
    have hlength : yearLength (1970 + n) ≤ 366 := by
      unfold yearLength
      split <;> decide
    rw [hround, ih (by lia), ← Nat.add_assoc 1970, daysBeforeYear_succ (Nat.le_add_right 1970 n)]
    omega

theorem fallThrough_eq (year : Nat) {k : Nat} (h : k ≤ 11) : fallThrough year k = daysBeforeMonth year (k + 1) := by
  induction k with
  | zero => rfl
  | succ k ih =>
    have hcase : caseDays year (k + 1) = monthLength year (k + 1) := by
      match k, h with
      | 0, _ | 2, _ | 3, _ | 4, _ | 5, _ | 6, _ | 7, _ | 8, _ | 9, _ | 10, _ => rfl
      | 1, _ =>
        change 28 + (if IsLeap year then 1 else 0) = if IsLeap year then 29 else 28
        split <;> rfl
    rw [fallThrough, hcase, ih (by omega), daysBeforeMonth_succ year (Nat.le_add_left 1 k), Nat.add_comm]

/-! ## The seconds -/

def secsOf (r : RtcTime) : Nat :=
  (daysBeforeYear (2000 + r.year) + daysBeforeMonth (2000 + r.year) r.month + (r.monthday - 1)) * 86400 +
    r.hour * 3600 + r.min * 60 + r.sec

section Seconds

variable {c : Cmos} {t : Time} {weekday : Nat}

theorem timeSecsOfYears_eq {k : Nat} (h : k < 200) :
    timeSecsOfYears ((k : Int) - 1) = u32 (daysBeforeYear (2000 + k) * 86400) := by
  have hrounds : ((k : Int) - 1 + 2000 - 1969).toNat = 30 + k := by omega
  have hloop := @yearLoop_eq (30 + k) 0 (by omega)
  rw [Nat.zero_add, ← Nat.add_assoc] at hloop
  rw [timeSecsOfYears, hrounds, hloop]

theorem timeSecsOfMonth_eq {month : Nat} (hpos : 1 ≤ month) (hle : month ≤ 12) (k : Nat) :
    timeSecsOfMonth ((month : Int) - 1) k = u32 (daysBeforeMonth (2000 + k) month * 86400) := by
  obtain ⟨m, rfl⟩ : ∃ m, month = m + 1 := ⟨month - 1, by omega⟩
  have hm : ((m + 1 : Nat) : Int) - 1 = m := by omega
  have hdays : (if 1 ≤ (m : Int) ∧ (m : Int) ≤ 11 then fallThrough (2000 + k) m else 0) =
      daysBeforeMonth (2000 + k) (m + 1) := by
    cases m with
    | zero => rfl
    | succ m => rw [if_pos (by omega), fallThrough_eq _ (by omega)]
  rw [timeSecsOfMonth, hm, Int.toNat_natCast, Nat.add_comm k, hdays]

theorem rtcGetTimeSecs_eq {r : RtcTime} (hr : (rtcGetTime c).1 = r) (hyear : r.year < 200) (hpos : 1 ≤ r.month)
    (hle : r.month ≤ 12) (hday : 1 ≤ r.monthday) : (rtcGetTimeSecs c).1 = secsOf r % 4294967296 := by
  subst hr
  have hyears := timeSecsOfYears_eq hyear
  have hmonths := timeSecsOfMonth_eq hpos hle (rtcGetTime c).1.year
  change ((↑(timeSecsOfYears ((rtcGetTime c).1.year - 1)) +
    ↑(timeSecsOfMonth ((rtcGetTime c).1.month - 1) (rtcGetTime c).1.year) +
    (((rtcGetTime c).1.monthday : Int) - 1) * 86400 + ↑(rtcGetTime c).1.hour * 3600 + ↑(rtcGetTime c).1.min * 60 +
    ↑(rtcGetTime c).1.sec) % 4294967296 : Int).toNat = _
  rw [hyears, hmonths, secsOf, u32, u32]
  generalize (rtcGetTime c).1 = r at *
  obtain ⟨d, hd⟩ : ∃ d, r.monthday = d + 1 := ⟨r.monthday - 1, by omega⟩
  rw [hd]
  generalize daysBeforeYear (2000 + r.year) = y
  generalize daysBeforeMonth (2000 + r.year) r.month = m
  omega

theorem rtcGetTime_eq (h : ShowsTime c.registers t weekday) : (rtcGetTime c).1 =
    ⟨t.second, t.minute, t.hour, weekday, t.day, t.month, bcdToBin (c.mem 9)⟩ := by
  have hday : monthLength t.year t.month ≤ 31 := by
    unfold monthLength
    split <;> first | decide | (split <;> decide)
  have hle := t.day_le
  have hmonth := t.month_le
  have hhour := t.hour_lt
  have hminute := t.minute_lt
  have hsecond := t.second_lt
  have hweekday := h.weekday_le
  rw [rtcGetTime]
  simp only [cmosCmd_mem, Nat.reduceLT, if_true, if_false, h.second, h.minute, h.hour, h.dayOfWeek, h.day, h.month]
  rw [bcdToBin_toBcd (by omega), bcdToBin_toBcd (by omega), bcdToBin_toBcd (by omega), bcdToBin_toBcd (by omega),
    bcdToBin_toBcd (by omega), bcdToBin_toBcd (by omega)]

theorem posix_lt (h : t.year < 2100) : t.posix < 4294967296 := by
  have hyears := daysBeforeYear_le t.year
  have hday := t.toDate.day_lt
  have hlength := yearLength_le t.year
  have hhour := t.hour_lt
  have hminute := t.minute_lt
  have hsecond := t.second_lt
  rw [Time.posix, Date.days]
  omega

theorem rtcGetTimeSecs_posix (h : ShowsTime c.registers t weekday) (hcache : bcdToBin (c.mem 9) = t.year - 2000) :
    (rtcGetTimeSecs c).1 = t.posix := by
  have hyear : 2000 + (t.year - 2000) = t.year := Nat.add_sub_cancel' h.century.1
  have hcentury : bcdToBin (c.mem 9) < 200 := by
    have hto := h.century.2
    omega
  have hsecs := rtcGetTimeSecs_eq (rtcGetTime_eq h) hcentury t.month_pos t.month_le t.day_pos
  have hposix : secsOf ⟨t.second, t.minute, t.hour, weekday, t.day, t.month, bcdToBin (c.mem 9)⟩ = t.posix := by
    rw [secsOf, hcache, hyear]
    rfl
  rw [hsecs, hposix, Nat.mod_eq_of_lt (posix_lt h.century.2)]

def registersOf (t : Time) (weekday : Nat) : Buf
  | 0 => toBcd t.second
  | 2 => toBcd t.minute
  | 4 => toBcd t.hour
  | 6 => toBcd weekday
  | 7 => toBcd t.day
  | 8 => toBcd t.month
  | 9 => toBcd (t.year - 2000)
  | _ => 0

theorem showsTime_registersOf (hfrom : 2000 ≤ t.year) (hto : t.year < 2100) (hpos : 1 ≤ weekday) (hle : weekday ≤ 7) :
    ShowsTime (registersOf t weekday) t weekday :=
  ⟨⟨hfrom, hto⟩, ⟨hpos, hle⟩, rfl, rfl, rfl, rfl, rfl, rfl, rfl⟩

theorem rtcGetTimeSecs_stale (h : ShowsTime c.registers t weekday) (hne : t.next.year ≠ t.year)
    (hto : t.next.year < 2100) (hcache : bcdToBin (c.mem 9) = t.year - 2000) :
    (rtcGetTimeSecs { c with registers := registersOf t.next 1 }).1 ≤ t.posix := by
  obtain ⟨hyear, hmonth, hday, hhour, hminute, hsecond⟩ := Time.next_of_year_ne hne
  have hcentury := h.century
  have hshows : ShowsTime (registersOf t.next 1) t.next 1 :=
    showsTime_registersOf (by omega) hto (by decide) (by decide)
  have hparts := rtcGetTime_eq (c := { c with registers := registersOf t.next 1 }) hshows
  have hold : 2000 + (t.year - 2000) = t.year := Nat.add_sub_cancel' hcentury.1
  have hlt : bcdToBin (c.mem 9) < 200 := by omega
  rw [hmonth, hday, hhour, hminute, hsecond] at hparts
  have hone : 1 ≤ 1 := Nat.le_refl 1
  have htwelve : 1 ≤ 12 := by decide
  rw [rtcGetTimeSecs_eq hparts hlt hone htwelve hone, hcache, Time.posix, Date.days]
  refine Nat.le_trans (Nat.mod_le _ _) ?_
  change (daysBeforeYear (2000 + (t.year - 2000)) + 0 + 0) * 86400 + 0 * 3600 + 0 * 60 + 0 ≤ _
  rw [hold]
  omega

/-- The clock is told right exactly if the cache has the year already, and the second is not the last one of a
year before 2099. -/
theorem tellsTime_iff (h : ShowsTime c.registers t weekday) : TellsTime c t weekday ↔
    bcdToBin (c.mem 9) = t.year - 2000 ∧ (t.next.year = t.year ∨ t.next.year = 2100) := by
  have hmem : (rtcGetTimeSecs c).2.mem 9 = c.mem 9 := cmosCmd_mem c 9
  have hregisters : (rtcGetTimeSecs c).2.registers = c.registers := (cmosLoop_read 9 0 0 c).1
  constructor
  · intro hk
    have hcache : bcdToBin (c.mem 9) = t.year - 2000 :=
      congrArg RtcTime.year ((rtcGetTime_eq h).symm.trans hk.parts)
    refine ⟨hcache, ?_⟩
    by_contra hnot
    have hne : t.next.year ≠ t.year := fun heq => hnot (.inl heq)
    have hyear := (Time.next_of_year_ne hne).1
    have hto : t.next.year < 2100 := by
      have hcentury := h.century
      omega
    have hfrom : 2000 ≤ t.next.year := by
      have hcentury := h.century
      omega
    have hless := hk.increases _ 1 (showsTime_registersOf hfrom hto (by decide) (by decide))
    have hstale := rtcGetTimeSecs_stale (c := (rtcGetTimeSecs c).2) (hregisters ▸ h) hne hto (by rw [hmem, hcache])
    rw [rtcGetTimeSecs_posix h hcache] at hless
    exact absurd hless (Nat.not_lt.mpr hstale)
  · intro ⟨hcache, hnext⟩
    have hsecs := rtcGetTimeSecs_posix h hcache
    refine ⟨?_, ?_, ?_⟩
    · rw [hsecs]
      exact (Nat.mod_eq_of_lt (posix_lt h.century.2)).symm
    · rw [rtcGetTime_eq h, hcache]
    · intro registers weekday' hshows
      have hsame : t.next.year = t.year := by
        have hcentury := hshows.century
        omega
      have hlater := rtcGetTimeSecs_posix (c := { (rtcGetTimeSecs c).2 with registers := registers }) hshows
        (by rw [hsame, ← hcache]; exact congrArg bcdToBin hmem)
      rw [hsecs, hlater, t.posix_next]
      exact Nat.lt_succ_self t.posix

/-- Noon of 29 February 2016, with the year in the cache. -/
def leapNoon : Time := ⟨⟨2016, 2, 29, by decide, by decide, by decide, by decide, by decide⟩, 12, 0, 0, by decide,
  Nat.succ_pos 59, Nat.succ_pos 59⟩

theorem tellsTime_iff_leapNoon : TellsTime ⟨registersOf leapNoon 1, fun _ => 0x16⟩ leapNoon 1 ↔
    bcdToBin 0x16 = leapNoon.year - 2000 ∧ (leapNoon.next.year = leapNoon.year ∨ leapNoon.next.year = 2100) :=
  tellsTime_iff (showsTime_registersOf (by decide) (by decide) (by decide) (by decide))

/-- The cache is cleared when the kernel starts, and the year is never read. -/
theorem not_tellsTime_cleared : ¬ TellsTime ⟨registersOf leapNoon 1, fun _ => 0⟩ leapNoon 1 :=
  fun h => absurd (congrArg RtcTime.year h.parts) (by decide)

end Seconds

end KernelTest.Drivers
