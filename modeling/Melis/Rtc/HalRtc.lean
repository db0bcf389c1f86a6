import Melis.Rtc.RtcLib

/-!
# hal_rtc.c

The clock and its alarm over the registers, for the simplified timer: a counter
of days, the first of January 1970 being day 1, and the time of the day packed
in a word. The registers hold what was written last; `none` is an access past
the end of `month_days`.
-/

namespace Melis.Rtc

open Lib Function

/-! ## Registers -/

/-- The words of the register file, by offset. -/
abbrev Regs := Nat → Nat

def sunxiRtcYmd : Nat := 0x10
def sunxiRtcHms : Nat := 0x14
def sunxiAlrmDay : Nat := 0x20
def sunxiAlrmCounter : Nat := 0x20
def sunxiAlrmCurrent : Nat := 0x24
def sunxiAlrmHms : Nat := 0x24
def sunxiAlrmEn : Nat := 0x28
def sunxiAlrmIrqEn : Nat := 0x2c
def sunxiAlrmIrqSta : Nat := 0x30
def sunxiLoscCtrl : Nat := 0x00
def sunxiLoscCtrlRtcHmsAcc : Nat := 1 <<< 8
def sunxiLoscCtrlRtcYmdAcc : Nat := 1 <<< 7

def secInDay : Int := 24 * (60 * 60)

def readl (r : Regs) (offset : Nat) : Nat := r offset

def writel (r : Regs) (v offset : Nat) : Regs := update r offset (v % 2 ^ 32)

/-- `SUNXI_GET`. -/
def sunxiGet (x mask shift : Nat) : Nat := (x &&& mask <<< shift) >>> shift

/-- `SUNXI_SET`. -/
def sunxiSet (x mask shift : Nat) : Nat := (x &&& mask) <<< shift

def sunxiTimeGetSecValue (x : Nat) : Nat := sunxiGet x 0x3f 0
def sunxiTimeGetMinValue (x : Nat) : Nat := sunxiGet x 0x3f 8
def sunxiTimeGetHourValue (x : Nat) : Nat := sunxiGet x 0x1f 16
def sunxiTimeSetSecValue (x : Nat) : Nat := sunxiTimeGetSecValue x
def sunxiTimeSetMinValue (x : Nat) : Nat := sunxiSet x 0x3f 8
def sunxiTimeSetHourValue (x : Nat) : Nat := sunxiSet x 0x1f 16

/-- The time of day in a word, for the clock as for the alarm. -/
def packTime (tm : RtcTime) : Nat :=
  sunxiTimeSetSecValue (u32 tm.tmSec) ||| sunxiTimeSetMinValue (u32 tm.tmMin) |||
    sunxiTimeSetHourValue (u32 tm.tmHour)

/-- `hal_rtc_wait` fails: the bits of the mask are still set. -/
def halRtcWait (r : Regs) (offset mask : Nat) : Bool := readl r offset &&& mask == mask

def halRtcSetaie (enable : Bool) (r : Regs) : Regs :=
  if enable then
    let alrmVal := readl r sunxiAlrmEn ||| 1
    let alrmIrqVal := readl r sunxiAlrmIrqEn ||| 1
    writel (writel r alrmVal sunxiAlrmEn) alrmIrqVal sunxiAlrmIrqEn
  else writel (writel (writel r 1 sunxiAlrmIrqSta) 0 sunxiAlrmEn) 0 sunxiAlrmIrqEn

/-! ## The clock -/

/-- `data_year_param`. -/
def dataYearMin : Nat := 1970
def dataYearMax : Nat := 2097

/-- `month_days`; the months count from 1. -/
def monthDaysTable (leap : Bool) : List Nat :=
  if leap then [0, 31, 29, 31, 30, 31, 30, 31, 31, 30, 31, 30, 31]
  else [0, 31, 28, 31, 30, 31, 30, 31, 31, 30, 31, 30, 31]

def daysOfYear (year : Nat) : Nat := if isLeapYear year then 366 else 365

theorem daysOfYear_pos (year : Nat) : 0 < daysOfYear year := by
  unfold daysOfYear
  split <;> omega

/-- The first loop of `hal_rtc_day_to_ymd`. -/
def yearLoop (year : Nat) (date : Int) : Nat × Int :=
  if daysOfYear year < date then yearLoop (year + 1) (date - daysOfYear year) else (year, date)
termination_by date.toNat
decreasing_by
  have := daysOfYear_pos year
  omega

/-- The second loop of `hal_rtc_day_to_ymd`, with the table from month `i` on. -/
def monthLoop : List Nat → Nat → Int → Option (Nat × Int)
  | [], _, _ => none
  | days :: table, i, date =>
    if days < date then monthLoop table (i + 1) (date - days) else some (i, date)

def halRtcDayToYmd (rtcTm : RtcTime) (minYear udate : Nat) : Option RtcTime :=
  let date := i32 udate
  if date = 0 then some { rtcTm with tmMday := 1, tmMon := 1, tmYear := 70 }
  else
    let year := (yearLoop minYear date).1
    let tmYear : Int := year - 1900
    let leap := isLeapYear (u32 tmYear)
    (monthLoop ((monthDaysTable leap).drop 1) 1 (yearLoop minYear date).2).map fun p =>
      { rtcTm with tmYear := tmYear, tmMon := p.1, tmMday := p.2 }

def halRtcGettime (r : Regs) (rtcTm : RtcTime) : Option RtcTime :=
  let date := readl r sunxiRtcYmd
  let time := readl r sunxiRtcHms
  let rtcTm := { rtcTm with
    tmSec := sunxiTimeGetSecValue time
    tmMin := sunxiTimeGetMinValue time
    tmHour := sunxiTimeGetHourValue time }
  (halRtcDayToYmd rtcTm dataYearMin date).map fun tm => { tm with tmMon := tm.tmMon - 1 }

/-- The loop of `hal_rtc_settime` over the months, `left` of them from `i` on. -/
def addMonths (leap : Bool) : Nat → Nat → Nat → Option Nat
  | 0, _, date => some date
  | left + 1, i, date =>
    (monthDaysTable leap)[i]?.bind fun days => addMonths leap left (i + 1) (date + days)

/-- Its loop over the years, `left` of them from the last down to the first. -/
def addYears : Nat → Nat → Nat
  | 0, date => date
  | left + 1, date => addYears left (date + daysOfYear (dataYearMin + left))

/-- The day counter of a date. -/
def countDays (rtcTm : RtcTime) : Option Nat :=
  let year := rtcTm.tmYear + 1900
  (addMonths (isLeapYear (u32 year)) rtcTm.tmMon.toNat 1 (u32 rtcTm.tmMday)).map
    (addYears (year - dataYearMin).toNat)

/-- `hal_rtc_settime` writing to the registers: they may be written when no earlier access is
under way. -/
def writeClock (r : Regs) (date time : Nat) : Regs × Bool :=
  if halRtcWait r sunxiLoscCtrl sunxiLoscCtrlRtcHmsAcc then (r, false)
  else
    let r := writel r 0 sunxiRtcHms
    if halRtcWait r sunxiLoscCtrl sunxiLoscCtrlRtcHmsAcc then (r, false)
    else
      let r := writel r time sunxiRtcHms
      if halRtcWait r sunxiLoscCtrl sunxiLoscCtrlRtcHmsAcc then (r, false)
      else if halRtcWait r sunxiLoscCtrl sunxiLoscCtrlRtcYmdAcc then (r, false)
      else
        let r := writel r date sunxiRtcYmd
        if halRtcWait r sunxiLoscCtrl sunxiLoscCtrlRtcYmdAcc then (r, false) else (r, true)

/-- `hal_rtc_settime`: the registers, the caller's `rtc_tm`, and whether it returns 0. -/
def halRtcSettime (r : Regs) (rtcTm : RtcTime) : Option (Regs × RtcTime × Bool) :=
  let year := rtcTm.tmYear + 1900
  if year < dataYearMin ∨ dataYearMax < year then some (r, rtcTm, false)
  else
    (countDays rtcTm).map fun date =>
      let p := writeClock r date (packTime rtcTm)
      (p.1, { rtcTm with tmMon := rtcTm.tmMon + 1 }, p.2)

/-! ## The alarm -/

/-- `struct rtc_wkalrm`. -/
structure RtcWkalrm where
  enabled : Bool
  time : RtcTime

def halRtcGetalarm (r : Regs) (wkalrm : RtcWkalrm) : Option RtcWkalrm :=
  let alarmCnt := readl r sunxiAlrmCounter
  let alarmCur := readl r sunxiAlrmCurrent
  if alarmCnt < alarmCur then
    some ⟨false, { wkalrm.time with
      tmMon := -1, tmMday := -1, tmYear := -1, tmHour := -1, tmMin := -1, tmSec := -1 }⟩
  else
    (halRtcGettime r wkalrm.time).map fun tm =>
      let alarmSeconds := u32 (rtcTmToTime tm + (alarmCnt - alarmCur))
      ⟨wkalrm.enabled || readl r sunxiAlrmIrqEn &&& 1 != 0, rtcTimeToTm alarmSeconds⟩

/-- `hal_rtc_setalarm` writing to the registers. -/
def writeAlarm (r : Regs) (timeGapDay alrm : Nat) (enabled : Bool) : Regs :=
  let r := halRtcSetaie false r
  let r := writel r 0 sunxiAlrmDay
  let r := writel r 0 sunxiAlrmHms
  let r := writel r (timeGapDay + readl r sunxiRtcYmd) sunxiAlrmDay
  let r := writel r alrm sunxiAlrmHms
  let r := writel r 0 sunxiAlrmIrqEn
  let r := writel r 1 sunxiAlrmIrqEn
  halRtcSetaie enabled r

/-- `hal_rtc_setalarm`: the registers, and whether it returns 0. What `tm_now` holds before
`hal_rtc_gettime` fills it is `stack`. -/
def halRtcSetalarm (r : Regs) (stack : RtcTime) (wkalrm : RtcWkalrm) : Option (Regs × Bool) :=
  (halRtcGettime r stack).map fun tmNow =>
    let diff := rtcTmSub wkalrm.time tmNow
    if diff ≤ 0 then (r, false)
    else if 255 * secInDay < diff then (r, false)
    else
      let timeGapDay := u32 (wkalrm.time.tmMday - tmNow.tmMday)
      (writeAlarm r timeGapDay (packTime wkalrm.time) wkalrm.enabled, true)

end Melis.Rtc
