import Melis.Lib.C
import Melis.Lib.Calendar

/-!
# rtc-lib.c

The conversions between a broken-down time and the seconds since 1970, with the
arithmetic of the source: `u32` and `i32` stand where it converts to `unsigned
int` and to `int`.
-/

namespace Melis.Rtc

open Lib

/-- `struct rtc_time`. The year counts from 1900, the month from 0. -/
structure RtcTime where
  tmSec : Int
  tmMin : Int
  tmHour : Int
  tmMday : Int
  tmMon : Int
  tmYear : Int
  tmWday : Int
  tmYday : Int
  tmIsdst : Int
deriving DecidableEq

def isLeapYear (year : Nat) : Bool := (year % 4 == 0 && year % 100 != 0) || year % 400 == 0

def rtcDaysInMonth : List Nat := [31, 28, 31, 30, 31, 30, 31, 31, 30, 31, 30, 31]

/-- `rtc_month_days`, called for the months 0 to 11. -/
def rtcMonthDays (month year : Nat) : Nat :=
  rtcDaysInMonth.getD month 0 + if isLeapYear year && month == 1 then 1 else 0

/-- The month 1 to 12 as 11, 12, 1 to 10, and the year it is then in. -/
def marchBased (year0 mon0 : Nat) : Nat × Nat :=
  let mon := u32 (mon0 - 2)
  if i32 mon ≤ 0 then (u32 (mon + 12), u32 (year0 - 1)) else (mon, year0)

def mktime64 (year0 mon0 day hour min sec : Nat) : Int :=
  let mon := (marchBased year0 mon0).1
  let year := (marchBased year0 mon0).2
  ((((u32 (year / 4 - year / 100 + year / 400 + (367 * mon / 12 : Nat) + day) : Int) +
    u32 (year * 365 : Nat) - 719499) * 24 + hour) * 60 + min) * 60 + sec

def rtcTmToTime64 (tm : RtcTime) : Int :=
  mktime64 (u32 (tm.tmYear + 1900)) (u32 (tm.tmMon + 1)) (u32 tm.tmMday) (u32 tm.tmHour)
    (u32 tm.tmMin) (u32 tm.tmSec)

/-- `rtc_tm_sub`. -/
def rtcTmSub (lhs rhs : RtcTime) : Int := rtcTmToTime64 lhs - rtcTmToTime64 rhs

/-- `div_s64_rem` for a positive divisor: the quotient and the remainder. -/
def divS64Rem (dividend : Int) (divisor : Nat) : Int × Nat :=
  if dividend < 0 then (-(-dividend / divisor), u32 (-(-dividend % divisor)))
  else (dividend / divisor, u32 (dividend % divisor))

/-- `LEAPS_THRU_END_OF`. -/
def leapsThruEndOf (y : Nat) : Nat := y / 4 - y / 100 + y / 400

/-- The loop over the months, with `left` of its eleven rounds to go. -/
def rtcMonthLoop (year : Nat) : Nat → Nat → Int → Nat × Int
  | 0, month, days => (month, days)
  | left + 1, month, days =>
    let newdays := days - rtcMonthDays month year
    if newdays < 0 then (month, days) else rtcMonthLoop year left (month + 1) newdays

/-- The year and the day in it, from the days since 1970. -/
def rtcYear (days : Int) : Nat × Int :=
  let year := u32 (1970 + days.tdiv 365)
  let days := i32 (days - u32 ((year - 1970 : Int) * 365 + leapsThruEndOf (u32 (year - 1)) -
    leapsThruEndOf (1970 - 1)))
  if days < 0 then
    let year := u32 (year - 1)
    (year, days + 365 + if isLeapYear year then 1 else 0)
  else (year, days)

/-- `rtc_time64_to_tm`, from the days and the seconds of the last of them on. -/
def rtcDayToTm (days : Int) (secs : Nat) : RtcTime :=
  let date := rtcYear days
  let month := rtcMonthLoop date.1 11 0 date.2
  { tmSec := (secs - secs / 3600 * 3600 - (secs - secs / 3600 * 3600) / 60 * 60 : Nat)
    tmMin := ((secs - secs / 3600 * 3600) / 60 : Nat)
    tmHour := (secs / 3600 : Nat)
    tmMday := month.2 + 1
    tmMon := month.1
    tmYear := i32 (date.1 - 1900)
    tmWday := (days + 4).tmod 7
    tmYday := date.2 + 1
    tmIsdst := 0 }

def rtcTime64ToTm (time : Int) : RtcTime :=
  rtcDayToTm (i32 (divS64Rem time 86400).1) (divS64Rem time 86400).2

/-- `rtc_tm_to_time`, for an `unsigned long` of 32 bits. -/
def rtcTmToTime (tm : RtcTime) : Nat := u32 (rtcTmToTime64 tm)

/-- `rtc_time_to_tm`. -/
def rtcTimeToTm (time : Nat) : RtcTime := rtcTime64ToTm time

/-! ## The instant of a time -/

namespace RtcTime

def year (tm : RtcTime) : Nat := (tm.tmYear + 1900).toNat

def month (tm : RtcTime) : Nat := tm.tmMon.toNat

def day (tm : RtcTime) : Nat := tm.tmMday.toNat

/-- The days up to the date. -/
def ordinal (tm : RtcTime) : Nat := Lib.ordinal tm.year tm.month tm.day

/-- The seconds since 1970, the first day of which has the ordinal 719529. -/
def instant (tm : RtcTime) : Int :=
  ((((tm.ordinal : Int) - 719529) * 24 + tm.tmHour) * 60 + tm.tmMin) * 60 + tm.tmSec

/-- A date of the calendar, from 1970 on, and a time of the day. -/
structure Valid (tm : RtcTime) : Prop where
  year : 70 ≤ tm.tmYear
  mon : 0 ≤ tm.tmMon ∧ tm.tmMon < 12
  mday : 1 ≤ tm.tmMday ∧ tm.tmMday ≤ monthDays (isLeap tm.year) tm.month
  hour : 0 ≤ tm.tmHour ∧ tm.tmHour < 24
  min : 0 ≤ tm.tmMin ∧ tm.tmMin < 60
  sec : 0 ≤ tm.tmSec ∧ tm.tmSec < 60

/-- The same date and time of the day. -/
structure Same (a b : RtcTime) : Prop where
  year : a.tmYear = b.tmYear
  mon : a.tmMon = b.tmMon
  mday : a.tmMday = b.tmMday
  hour : a.tmHour = b.tmHour
  min : a.tmMin = b.tmMin
  sec : a.tmSec = b.tmSec

theorem Valid.day_le {tm : RtcTime} (h : tm.Valid) : tm.day ≤ 31 := by
  have hle := monthDays_le (isLeap tm.year) tm.month
  have := h.mday
  unfold day
  omega

/-- A valid time is the only one of its instant. -/
theorem Valid.same {a b : RtcTime} (ha : a.Valid) (hb : b.Valid) (h : a.instant = b.instant) :
    a.Same b := by
  obtain ⟨hya, hma, hda, hha, hia, hsa⟩ := ha
  obtain ⟨hyb, hmb, hdb, hhb, hib, hsb⟩ := hb
  unfold instant at h
  have hord : a.ordinal = b.ordinal := by omega
  obtain ⟨hy, hm, hd⟩ := ordinal_inj (by unfold month; omega) (by unfold day; omega)
    (by unfold day; omega) (by unfold month; omega) (by unfold day; omega) (by unfold day; omega) hord
  unfold RtcTime.year at hy
  unfold RtcTime.month at hm
  unfold RtcTime.day at hd
  constructor <;> omega

end RtcTime

theorem rtcMonthDays_eq {m y : Nat} (hm : m < 12) : rtcMonthDays m y = monthDays (isLeap y) m := by
  have hleap : isLeapYear y = isLeap y := rfl
  unfold rtcMonthDays
  rw [hleap]
  cases isLeap y <;> interval_cases m <;> rfl

/-! ## mktime64 -/

theorem yearStart_succ (y : Nat) : yearStart (y + 1) = 365 * y + 366 + leapsThruEndOf y := by
  have h4 : (y + 1 + 3) / 4 = y / 4 + 1 := by omega
  have h100 : (y + 1 + 99) / 100 = y / 100 + 1 := by omega
  have h400 : (y + 1 + 399) / 400 = y / 400 + 1 := by omega
  have hle : y / 100 ≤ y / 4 := by omega
  unfold yearStart leapsThruEndOf
  omega

theorem leaps_le (y : Nat) : leapsThruEndOf y ≤ y := by
  unfold leapsThruEndOf
  omega

theorem leaps_int (y : Nat) : (y : Int) / 4 - y / 100 + y / 400 = leapsThruEndOf y := by
  unfold leapsThruEndOf
  omega

/-- `mktime64`, with the month `mon` counted from March on. -/
theorem mktime64_of {y mon0 d h mi s mon year : Nat} (hmon : marchBased y mon0 = (mon, year))
    (hyear : year < 10000) (hm : mon ≤ 12) (hd : d ≤ 31) :
    mktime64 y mon0 d h mi s =
      ((((leapsThruEndOf year + 367 * mon / 12 + d + year * 365 : Nat) - 719499 : Int) * 24 + h) * 60
        + mi) * 60 + s := by
  have hl := leaps_le year
  have h1 : u32 (leapsThruEndOf year + (367 * mon / 12 : Nat) + d) =
      leapsThruEndOf year + 367 * mon / 12 + d := by
    exact_mod_cast u32_eq (n := leapsThruEndOf year + 367 * mon / 12 + d) (by omega)
  have h2 : u32 (year * 365 : Nat) = year * 365 := u32_eq (by omega)
  unfold mktime64
  rw [hmon]
  dsimp only
  rw [leaps_int, h1, h2]
  omega

theorem monthStart_march {leap : Bool} {m : Nat} (h2 : 2 ≤ m) (hm : m < 12) :
    monthStart leap m = 367 * (m - 1) / 12 + 29 + if leap then 1 else 0 := by
  interval_cases m <;> cases leap <;> rfl

/-- `mktime64` counts the days of the calendar. -/
theorem mktime64_eq {y m d h mi s : Nat} (hy : 0 < y) (hy' : y < 10000) (hm : m < 12)
    (hd : d ≤ 31) :
    mktime64 y (m + 1) d h mi s =
      ((((ordinal y m d : Int) - 719529) * 24 + h) * 60 + mi) * 60 + s := by
  have hdays : ∀ {mon year : Nat}, leapsThruEndOf year + 367 * mon / 12 + d + year * 365 + 30 =
      ordinal y m d → ((leapsThruEndOf year + 367 * mon / 12 + d + year * 365 : Nat) - 719499 : Int) =
        (ordinal y m d : Int) - 719529 := by
    intro mon year h
    omega
  rcases Nat.lt_or_ge m 2 with h2 | h2
  · have hmon : marchBased y (m + 1) = (m + 11, y - 1) := by
      have hyear : u32 (y - 1) = y - 1 := by
        unfold u32
        omega
      unfold marchBased
      rw [hyear]
      interval_cases m <;> rfl
    rw [mktime64_of hmon (by omega) (by omega) hd, hdays]
    have hstart := yearStart_succ (y - 1)
    rw [Nat.sub_add_cancel hy] at hstart
    unfold ordinal
    rw [hstart]
    interval_cases m
    · simp [monthStart]
      omega
    · simp [monthStart, monthDays]
      omega
  · have hmon : marchBased y (m + 1) = (m - 1, y) := by
      unfold marchBased
      interval_cases m <;> rfl
    rw [mktime64_of hmon (by omega) (by omega) hd, hdays]
    have hstart := yearStart_succ y
    rw [spans_year y, yearDays] at hstart
    unfold ordinal
    rw [monthStart_march h2 hm]
    split at hstart <;> rename_i hl <;> simp only [hl] <;> simp <;> omega
/-- A valid time is converted to its instant. -/
theorem rtcTmToTime64_eq {tm : RtcTime} (h : tm.Valid) (hy : tm.tmYear < 8100) :
    rtcTmToTime64 tm = tm.instant := by
  have hd := h.day_le
  obtain ⟨hyear, hmon, hmday, hhour, hmin, hsec⟩ := h
  have h1 : u32 (tm.tmYear + 1900) = tm.year := by
    unfold u32 RtcTime.year
    omega
  have h2 : u32 (tm.tmMon + 1) = tm.month + 1 := by
    unfold u32 RtcTime.month
    omega
  have h3 : u32 tm.tmMday = tm.day := by
    unfold RtcTime.day at hd ⊢
    unfold u32
    omega
  have h4 : (u32 tm.tmHour : Int) = tm.tmHour := by
    unfold u32
    omega
  have h5 : (u32 tm.tmMin : Int) = tm.tmMin := by
    unfold u32
    omega
  have h6 : (u32 tm.tmSec : Int) = tm.tmSec := by
    unfold u32
    omega
  have hy1 : 0 < tm.year := by
    unfold RtcTime.year
    omega
  have hy2 : tm.year < 10000 := by
    unfold RtcTime.year
    omega
  have hm : tm.month < 12 := by
    unfold RtcTime.month
    omega
  unfold rtcTmToTime64 RtcTime.instant RtcTime.ordinal
  rw [h1, h2, h3, mktime64_eq hy1 hy2 hm hd, h4, h5, h6]

/-! ## rtc_time64_to_tm -/

/-- The year of a day, and the day in it. -/
theorem rtcYear_spec {n : Nat} (hn : n < 49711) : ∃ y r : Nat, rtcYear n = (y, (r : Int)) ∧
    1970 ≤ y ∧ y ≤ 2106 ∧ r < yearDays y ∧ 719528 + n = yearStart y + r := by
  obtain ⟨k, hk⟩ : ∃ k, k = n / 365 := ⟨_, rfl⟩
  have hstart := yearStart_succ (1969 + k)
  have hleaps : 477 ≤ leapsThruEndOf (1969 + k) ∧ leapsThruEndOf (1969 + k) ≤ 477 + k := by
    unfold leapsThruEndOf
    omega
  have hyear : u32 (1970 + (n : Int).tdiv 365) = 1970 + k := by
    have hdiv : (n : Int).tdiv 365 = k := by
      rw [hk, Int.tdiv_eq_ediv_of_nonneg (by omega)]
      rfl
    rw [hdiv]
    exact_mod_cast u32_eq (n := 1970 + k) (by omega)
  have hprev : u32 ((1970 + k : Nat) - 1) = 1969 + k := by
    unfold u32
    omega
  have hbase : leapsThruEndOf (1970 - 1) = 477 := by decide
  have hsum : u32 (((1970 + k : Nat) - 1970 : Int) * 365 + leapsThruEndOf (1969 + k) - 477) =
      k * 365 + (leapsThruEndOf (1969 + k) - 477) := by
    unfold u32
    omega
  have hdays : i32 ((n : Int) - (k * 365 + (leapsThruEndOf (1969 + k) - 477) : Nat)) =
      (n : Int) - (k * 365 + (leapsThruEndOf (1969 + k) - 477) : Nat) :=
    i32_eq (by omega) (by omega)
  unfold rtcYear
  simp only [hyear, hprev, hbase]
  rw [show ((477 : Nat) : Int) = 477 from rfl, hsum, hdays]
  have hyear1 := spans_year (1969 + k)
  have hbefore : yearDays (1969 + k) = 365 + if isLeapYear (1969 + k) then 1 else 0 := by
    unfold yearDays
    rw [show isLeapYear (1969 + k) = isLeap (1969 + k) from rfl]
    split <;> rfl
  have hlong : ∀ y, 365 ≤ yearDays y := by
    intro y
    unfold yearDays
    split <;> omega
  have hlong0 := hlong (1969 + k)
  have hlong1 := hlong (1970 + k)
  rw [show 1969 + k + 1 = 1970 + k by omega] at hstart hyear1
  split
  · rename_i hneg
    refine ⟨1969 + k, n + yearDays (1969 + k) - (k * 365 + (leapsThruEndOf (1969 + k) - 477)), ?_,
      by omega, by omega, by omega, by omega⟩
    rw [hbefore]
    refine Prod.ext rfl ?_
    dsimp only
    push_cast
    split <;> omega
  · rename_i hpos
    refine ⟨1970 + k, n - (k * 365 + (leapsThruEndOf (1969 + k) - 477)), ?_, by omega, by omega,
      by omega, by omega⟩
    refine Prod.ext rfl ?_
    dsimp only
    omega

theorem rtcMonthLoop_spec {y left m r : Nat} (hm : m + left = 11)
    (hr : monthStart (isLeap y) m + r < yearDays y) :
    ∃ m' d : Nat, rtcMonthLoop y left m r = (m', (d : Int)) ∧ m' < 12 ∧
      d < monthDays (isLeap y) m' ∧
      monthStart (isLeap y) m' + d = monthStart (isLeap y) m + r := by
  induction left generalizing m r with
  | zero =>
    obtain rfl : m = 11 := hm
    refine ⟨11, r, rfl, by omega, ?_, rfl⟩
    rw [← monthStart_year] at hr
    exact Nat.lt_of_add_lt_add_left hr
  | succ left ih =>
    rw [rtcMonthLoop, rtcMonthDays_eq (by omega)]
    split
    · exact ⟨m, r, rfl, by omega, by omega, rfl⟩
    · rename_i hge
      obtain ⟨r', hr'⟩ : ∃ r', r = monthDays (isLeap y) m + r' := ⟨r - monthDays (isLeap y) m, by omega⟩
      have hsub : (r : Int) - monthDays (isLeap y) m = r' := by omega
      rw [hsub]
      obtain ⟨m', d, heq, hm', hd, hsum⟩ := ih (m := m + 1) (r := r') (by omega)
        (by rw [monthStart]; omega)
      refine ⟨m', d, heq, hm', hd, ?_⟩
      rw [hsum, monthStart]
      omega

theorem divS64Rem_nat (x : Nat) {n : Nat} (hn : 0 < n) (hn' : n < 2 ^ 32) :
    divS64Rem x n = (((x / n : Nat) : Int), x % n) := by
  have hmod : x % n < n := Nat.mod_lt x hn
  unfold divS64Rem
  rw [if_neg (by omega), ← Int.natCast_ediv, ← Int.natCast_emod, u32_eq (by omega)]

theorem rtcTimeToTm_eq {x : Nat} (hx : x < 2 ^ 32) :
    rtcTimeToTm x = rtcDayToTm (x / 86400 : Nat) (x % 86400) := by
  have hi : i32 ((x / 86400 : Nat) : Int) = (x / 86400 : Nat) := i32_eq (by omega) (by omega)
  unfold rtcTimeToTm rtcTime64ToTm
  rw [divS64Rem_nat x (by omega) (by omega), hi]

theorem rtcDayToTm_eq {days secs y r m d : Nat} (hyear : rtcYear days = (y, (r : Int)))
    (hmonth : rtcMonthLoop y 11 0 r = (m, (d : Int))) (hy : y ≤ 2106) :
    rtcDayToTm days secs =
      { tmSec := (secs - secs / 3600 * 3600 - (secs - secs / 3600 * 3600) / 60 * 60 : Nat)
        tmMin := ((secs - secs / 3600 * 3600) / 60 : Nat)
        tmHour := (secs / 3600 : Nat)
        tmMday := d + 1
        tmMon := m
        tmYear := y - 1900
        tmWday := (days + 4 : Int).tmod 7
        tmYday := r + 1
        tmIsdst := 0 } := by
  have hmon : i32 ((y : Int) - 1900) = y - 1900 := i32_eq (by omega) (by omega)
  unfold rtcDayToTm
  simp only [hyear, hmonth, hmon]

/-- The seconds are converted to the valid time of that instant. -/
theorem rtcTimeToTm_spec {x : Nat} (hx : x < 2 ^ 32) :
    (rtcTimeToTm x).Valid ∧ (rtcTimeToTm x).instant = x := by
  rw [rtcTimeToTm_eq hx]
  obtain ⟨days, hdays⟩ : ∃ days, days = x / 86400 := ⟨_, rfl⟩
  obtain ⟨secs, hsecs⟩ : ∃ secs, secs = x % 86400 := ⟨_, rfl⟩
  rw [← hdays, ← hsecs]
  obtain ⟨y, r, hyear, hy, hy', hr, hstart⟩ := rtcYear_spec (n := days) (by omega)
  obtain ⟨m, d, hmonth, hm, hd, hsum⟩ := rtcMonthLoop_spec (m := 0) (Nat.zero_add 11)
    (by simpa [monthStart] using hr)
  have htm : rtcDayToTm days secs = _ := rtcDayToTm_eq hyear hmonth hy'
  have hyr : (rtcDayToTm days secs).year = y := by
    rw [htm]
    simp [RtcTime.year]
  have hmo : (rtcDayToTm days secs).month = m := by
    rw [htm]
    simp [RtcTime.month]
  have hda : (rtcDayToTm days secs).day = d + 1 := by
    rw [htm]
    simp only [RtcTime.day]
    omega
  have hord : (rtcDayToTm days secs).ordinal = 719529 + days := by
    unfold RtcTime.ordinal ordinal
    rw [hyr, hmo, hda]
    simp only [monthStart, Nat.zero_add] at hsum
    omega
  constructor
  · have hmday : (d : Int) + 1 ≤ monthDays (isLeap (rtcDayToTm days secs).year) (rtcDayToTm days secs).month := by
      rw [hyr, hmo]
      omega
    rw [htm] at hmday ⊢
    constructor <;> dsimp only <;> omega
  · unfold RtcTime.instant
    rw [hord, htm]
    dsimp only
    omega

end Melis.Rtc
