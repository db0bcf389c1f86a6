import Melis.Rtc.HalRtc

/-!
# What the clock and the alarm keep

The day counter runs over the calendar, but `hal_rtc_day_to_ymd` asks whether
the year less 1900 is a leap year. In the range of the clock the two differ in
the year 2000 only, so the dates from its 29th of February on are misread. The
alarm's day is right within one month, and `hal_rtc_getalarm` takes the time of
the day for a second count of seconds.
-/

namespace Melis.Rtc

open Lib Function

variable {r r' : Regs} {tm t : RtcTime}

/-! ## Fields of a word -/

theorem sunxiGet_eq (x n shift : Nat) : sunxiGet x (2 ^ n - 1) shift = x / 2 ^ shift % 2 ^ n := by
  unfold sunxiGet
  rw [Nat.shiftRight_and_distrib, Nat.shiftLeft_shiftRight, Nat.and_two_pow_sub_one_eq_mod,
    Nat.shiftRight_eq_div_pow]

theorem sunxiSet_eq {x n : Nat} (h : x < 2 ^ n) (shift : Nat) :
    sunxiSet x (2 ^ n - 1) shift = x <<< shift := by
  unfold sunxiSet
  rw [Nat.and_two_pow_sub_one_eq_mod, Nat.mod_eq_of_lt h]

/-- The time of the day in a word. -/
theorem packTime_eq (h : tm.Valid) :
    (packTime tm : Int) = tm.tmSec + tm.tmMin * 256 + tm.tmHour * 65536 := by
  obtain ⟨s, hs⟩ := Int.eq_ofNat_of_zero_le h.sec.1
  obtain ⟨m, hm⟩ := Int.eq_ofNat_of_zero_le h.min.1
  obtain ⟨o, ho⟩ := Int.eq_ofNat_of_zero_le h.hour.1
  have hs' := h.sec.2
  have hm' := h.min.2
  have ho' := h.hour.2
  have hsec : sunxiTimeSetSecValue s = s :=
    (sunxiGet_eq s 6 0).trans (by omega)
  have hmin : sunxiTimeSetMinValue m = m <<< 8 := sunxiSet_eq (n := 6) (by omega) 8
  have hhour : sunxiTimeSetHourValue o = o <<< 16 := sunxiSet_eq (n := 5) (by omega) 16
  have hlow : s ||| m <<< 8 = m * 256 + s := by
    rw [Nat.or_comm, ← Nat.shiftLeft_add_eq_or_of_lt (by omega), Nat.shiftLeft_eq]
  have hall : (m * 256 + s) ||| o <<< 16 = o * 65536 + (m * 256 + s) := by
    rw [Nat.or_comm, ← Nat.shiftLeft_add_eq_or_of_lt (by omega), Nat.shiftLeft_eq]
  unfold packTime
  rw [hs, hm, ho, u32_eq (by omega), u32_eq (by omega), u32_eq (by omega), hsec, hmin, hhour, hlow,
    hall]
  omega

theorem getSec_packTime (h : tm.Valid) : (sunxiTimeGetSecValue (packTime tm) : Int) = tm.tmSec := by
  have hpack := packTime_eq h
  have hget := sunxiGet_eq (packTime tm) 6 0
  have hs := h.sec
  unfold sunxiTimeGetSecValue
  rw [show 0x3f = 2 ^ 6 - 1 from rfl, hget]
  omega

theorem getMin_packTime (h : tm.Valid) : (sunxiTimeGetMinValue (packTime tm) : Int) = tm.tmMin := by
  have hpack := packTime_eq h
  have hget := sunxiGet_eq (packTime tm) 6 8
  have hs := h.sec
  have hm := h.min
  unfold sunxiTimeGetMinValue
  rw [show 0x3f = 2 ^ 6 - 1 from rfl, hget]
  omega

theorem getHour_packTime (h : tm.Valid) :
    (sunxiTimeGetHourValue (packTime tm) : Int) = tm.tmHour := by
  have hpack := packTime_eq h
  have hget := sunxiGet_eq (packTime tm) 5 16
  have hs := h.sec
  have hm := h.min
  have ho := h.hour
  unfold sunxiTimeGetHourValue
  rw [show 0x1f = 2 ^ 5 - 1 from rfl, hget]
  omega

/-! ## The day counter -/

/-- The count of the days with the first of January 1970 as day 1. -/
def RtcTime.dayCount (tm : RtcTime) : Nat := tm.ordinal - 719528

theorem monthDaysTable_succ {leap : Bool} {m : Nat} (hm : m < 12) :
    (monthDaysTable leap)[m + 1]? = some (monthDays leap m) := by
  interval_cases m <;> cases leap <;> rfl

theorem addMonths_eq {leap : Bool} {left i date : Nat} (h : i + left ≤ 12) :
    addMonths leap left (i + 1) date =
      some (date + (monthStart leap (i + left) - monthStart leap i)) := by
  induction left generalizing i date with
  | zero => simp [addMonths]
  | succ left ih =>
    have hstep : monthStart leap (i + 1) = monthStart leap i + monthDays leap i := rfl
    have hle := (spans_month leap).mono (Nat.le_add_right (i + 1) left)
    rw [addMonths, monthDaysTable_succ (by omega), Option.bind_some, ih (by omega),
      show i + (left + 1) = i + 1 + left by omega]
    congr 1
    omega

theorem daysOfYear_eq (y : Nat) : daysOfYear y = yearDays y := rfl

theorem addYears_eq {n date : Nat} :
    addYears n date = date + (yearStart (dataYearMin + n) - yearStart dataYearMin) := by
  induction n generalizing date with
  | zero => simp [addYears]
  | succ n ih =>
    have hstep := spans_year (dataYearMin + n)
    have hle := spans_year.mono (Nat.le_add_right dataYearMin n)
    rw [addYears, ih, daysOfYear_eq, show dataYearMin + (n + 1) = dataYearMin + n + 1 by omega]
    omega

theorem yearStart_min : yearStart dataYearMin = 719528 := by decide

theorem countDays_eq (h : tm.Valid) (hy : tm.tmYear ≤ 197) : countDays tm = some tm.dayCount := by
  have hday := h.day_le
  obtain ⟨hyear, hmon, hmday, -, -, -⟩ := h
  have h1 : u32 (tm.tmYear + 1900) = tm.year := by
    unfold u32 RtcTime.year
    omega
  have h2 : u32 tm.tmMday = tm.day := by
    unfold RtcTime.day at hday ⊢
    unfold u32
    omega
  have h3 : dataYearMin + (tm.tmYear + 1900 - dataYearMin).toNat = tm.year := by
    unfold RtcTime.year dataYearMin
    omega
  have hle := spans_year.mono (h3 ▸ Nat.le_add_right dataYearMin _ : dataYearMin ≤ tm.year)
  unfold countDays
  dsimp only
  rw [h1, h2, addMonths_eq (i := 0) (by omega), Option.map_some, addYears_eq, h3]
  refine congrArg some ?_
  unfold RtcTime.dayCount RtcTime.ordinal ordinal
  rw [yearStart_min] at hle ⊢
  rw [Nat.zero_add]
  have h0 : monthStart (isLeap tm.year) 0 = 0 := rfl
  have hl : isLeapYear tm.year = isLeap tm.year := rfl
  rw [hl, h0, Nat.sub_zero]
  unfold RtcTime.month
  omega

theorem yearLoop_eq {y n : Nat} (hn : 0 < n) :
    ∃ y' d : Nat, yearLoop y n = (y', (d : Int)) ∧ 0 < d ∧ d ≤ yearDays y' ∧
      yearStart y + n = yearStart y' + d := by
  induction n using Nat.strong_induction_on generalizing y with
  | _ n ih =>
    rw [yearLoop, daysOfYear_eq]
    split
    · rename_i hlt
      have hpos := yearDays_pos y
      obtain ⟨y', d, heq, hd, hdy, hsum⟩ := ih (n - yearDays y) (by omega) (y := y + 1) (by omega)
      have hsub : ((n : Int) - yearDays y) = (n - yearDays y : Nat) := by omega
      rw [hsub]
      refine ⟨y', d, heq, hd, hdy, ?_⟩
      rw [← hsum, spans_year y]
      omega
    · exact ⟨y, n, rfl, hn, by omega, rfl⟩

theorem drop_monthDaysTable {leap : Bool} {m : Nat} (hm : m < 12) :
    (monthDaysTable leap).drop (m + 1) =
      monthDays leap m :: (monthDaysTable leap).drop (m + 1 + 1) := by
  interval_cases m <;> cases leap <;> rfl

/-- The loop over the table finds the day of the year in its month, if the table has it. -/
theorem monthLoop_eq {leap : Bool} {left m n : Nat} (hm : m + left = 12) (hn : 0 < n)
    (hle : monthStart leap m + n ≤ monthStart leap 12) : ∃ m' d : Nat,
      monthLoop ((monthDaysTable leap).drop (m + 1)) (m + 1) n = some (m' + 1, (d : Int)) ∧
        m' < 12 ∧ 0 < d ∧ d ≤ monthDays leap m' ∧
          monthStart leap m' + d = monthStart leap m + n := by
  induction left generalizing m n with
  | zero =>
    obtain rfl : m = 12 := hm
    omega
  | succ left ih =>
    rw [drop_monthDaysTable (by omega), monthLoop]
    split
    · rename_i hlong
      have hsub : ((n : Int) - monthDays leap m) = (n - monthDays leap m : Nat) := by omega
      have hstep : monthStart leap (m + 1) = monthStart leap m + monthDays leap m := rfl
      obtain ⟨m', d, heq, hm', hd, hdm, hsum⟩ :=
        ih (m := m + 1) (n := n - monthDays leap m) (by omega) (by omega) (by omega)
      rw [hsub]
      exact ⟨m', d, heq, hm', hd, hdm, by omega⟩
    · exact ⟨m, n, rfl, by omega, hn, by omega, rfl⟩

/-- Past the last day of the year the loop runs off the table. -/
theorem monthLoop_none {leap : Bool} {left m n : Nat} (hm : m + left = 12)
    (hlt : monthStart leap 12 < monthStart leap m + n) :
    monthLoop ((monthDaysTable leap).drop (m + 1)) (m + 1) n = none := by
  induction left generalizing m n with
  | zero =>
    obtain rfl : m = 12 := hm
    cases leap <;> rfl
  | succ left ih =>
    have hstep : monthStart leap (m + 1) = monthStart leap m + monthDays leap m := rfl
    have hle := (spans_month leap).le_start (i := m) (j := 12) (by omega)
    have hsub : ((n : Int) - monthDays leap m) = (n - monthDays leap m : Nat) := by omega
    rw [drop_monthDaysTable (by omega), monthLoop, if_pos (by omega), hsub]
    exact ih (by omega) (by omega)

/-- The year less 1900 is a leap year when the year is, but for 2000. -/
theorem isLeap_offset {y : Nat} (h1 : 1970 ≤ y) (h2 : y < 2100) :
    isLeap (y - 1900) = (isLeap y && y != 2000) := by
  rw [Bool.eq_iff_iff, isLeap_iff, Bool.and_eq_true, isLeap_iff, bne_iff_ne]
  omega

/-- The registers show the time `tm`. -/
structure Shows (r : Regs) (tm : RtcTime) : Prop where
  ymd : r sunxiRtcYmd = tm.dayCount
  hms : r sunxiRtcHms = packTime tm

/-- The day of the year, the first being 1. -/
def RtcTime.dayOfYear (tm : RtcTime) : Nat := monthStart (isLeap tm.year) tm.month + tm.day

/-- What `hal_rtc_gettime` makes of the day of the year, with the months of a leap year just if
`leap`. -/
structure ReadAs (leap : Bool) (tm t : RtcTime) : Prop where
  year : t.tmYear = tm.tmYear
  hour : t.tmHour = tm.tmHour
  min : t.tmMin = tm.tmMin
  sec : t.tmSec = tm.tmSec
  mon : 0 ≤ t.tmMon ∧ t.tmMon < 12
  mday : 1 ≤ t.tmMday ∧ t.tmMday ≤ monthDays leap t.month
  day : monthStart leap t.month + t.day = tm.dayOfYear

theorem RtcTime.Valid.dayOfYear (h : tm.Valid) :
    0 < tm.dayOfYear ∧ tm.dayOfYear ≤ yearDays tm.year := by
  have hm : tm.month < 12 := by
    have := h.mon
    unfold RtcTime.month
    omega
  have hd : 0 < tm.day ∧ tm.day ≤ monthDays (isLeap tm.year) tm.month := by
    have := h.mday
    unfold RtcTime.day
    omega
  exact ⟨Nat.add_pos_right _ hd.1, (monthStart_add_le hm hd.2).trans_eq (monthStart_year _)⟩

/-- The count starts with the first day of `data_year->min`. -/
theorem RtcTime.Valid.dayCount (h : tm.Valid) :
    yearStart dataYearMin + tm.dayCount = yearStart tm.year + tm.dayOfYear ∧ 0 < tm.dayCount := by
  have hpos := h.dayOfYear.1
  have hyear : dataYearMin ≤ tm.year := by
    have := h.year
    unfold RtcTime.year dataYearMin
    omega
  have hle := spans_year.mono hyear
  have hord : tm.ordinal = yearStart tm.year + tm.dayOfYear := Nat.add_assoc ..
  have hmin := yearStart_min
  unfold RtcTime.dayCount
  omega

theorem RtcTime.Valid.dayCount_lt (h : tm.Valid) (hy : tm.tmYear < 200) :
    tm.dayCount < 48000 := by
  have hsum := h.dayCount.1
  have hle := h.dayOfYear.2
  have hnext : yearStart tm.year + yearDays tm.year ≤ yearStart 2100 := by
    refine spans_year.le_start ?_
    have := h.year
    unfold RtcTime.year
    omega
  have hmin := yearStart_min
  have hmax : yearStart 2100 = 767010 := by decide
  omega

theorem gettime_eq (h : tm.Valid) (hy : tm.tmYear < 200) (hs : Shows r tm) (t : RtcTime) :
    (tm.dayOfYear ≤ monthStart (isLeap (tm.year - 1900)) 12 → ∃ t', halRtcGettime r t = some t' ∧
      ReadAs (isLeap (tm.year - 1900)) tm t') ∧
    (monthStart (isLeap (tm.year - 1900)) 12 < tm.dayOfYear → halRtcGettime r t = none) := by
  obtain ⟨hcount, hpos⟩ := h.dayCount
  have hlt := h.dayCount_lt hy
  obtain ⟨hday, hdays⟩ := h.dayOfYear
  obtain ⟨y, d, hloop, hd, hdy, hsum⟩ := yearLoop_eq (y := dataYearMin) hpos
  obtain ⟨rfl, rfl⟩ := spans_year.unique hd hdy hday hdays (hsum.symm.trans hcount)
  have hi : i32 tm.dayCount = tm.dayCount := i32_eq (by omega) (by omega)
  have hyear : 1900 ≤ tm.year := by
    have := h.year
    unfold RtcTime.year
    omega
  have hoff : u32 ((tm.year : Int) - 1900) = tm.year - 1900 := by
    have := h.year
    unfold u32 RtcTime.year
    omega
  have hleap : isLeapYear (tm.year - 1900) = isLeap (tm.year - 1900) := rfl
  unfold halRtcGettime halRtcDayToYmd readl
  rw [hs.ymd, hs.hms]
  dsimp only
  rw [hi, if_neg (by omega), hloop]
  dsimp only
  rw [hoff, hleap]
  constructor
  · intro hle
    obtain ⟨m, n, hm, hm12, hn, hnm, hmn⟩ := monthLoop_eq (m := 0) (Nat.zero_add 12) hday
      (by simpa [monthStart] using hle)
    rw [Nat.zero_add] at hm
    rw [hm]
    refine ⟨_, rfl, ?_⟩
    have hty := h.year
    refine ⟨?_, getHour_packTime h, getMin_packTime h, getSec_packTime h, ?_, ?_, ?_⟩
    · dsimp only
      unfold RtcTime.year
      omega
    · dsimp only
      omega
    · have hmonth : (((m + 1 : Nat) : Int) - 1).toNat = m := by omega
      dsimp only [RtcTime.month]
      rw [hmonth]
      omega
    · have hmonth : (((m + 1 : Nat) : Int) - 1).toNat = m := by omega
      dsimp only [RtcTime.month, RtcTime.day]
      rw [hmonth, Int.toNat_natCast, hmn]
      simp [monthStart]
  · intro hgt
    have hnone := monthLoop_none (m := 0) (Nat.zero_add 12) (by simpa [monthStart] using hgt)
    rw [Nat.zero_add] at hnone
    rw [hnone]
    rfl

/-! ## Reading back -/

/-- With the months of its own year a time is read as it is. -/
theorem ReadAs.same (h : tm.Valid) (hr : ReadAs (isLeap tm.year) tm t) : t.Same tm := by
  obtain ⟨hyear, hhour, hmin, hsec, hmon, hmday, hday⟩ := hr
  have hm := h.mon
  have hd := h.mday
  obtain ⟨hmonth, hday⟩ := (spans_month (isLeap tm.year)).unique
    (by unfold RtcTime.day; omega) (by unfold RtcTime.day; omega) (by unfold RtcTime.day; omega)
    (by unfold RtcTime.day; omega) hday
  unfold RtcTime.month at hmonth
  unfold RtcTime.day at hday
  exact ⟨hyear, by omega, by omega, hhour, hmin, hsec⟩

/-- From March on no month begins on the same day in a leap year and in a common one. -/
theorem monthStart_ne : ∀ m < 12, ∀ m' < 12, 2 ≤ m' → monthStart true m ≠ monthStart false m' := by
  decide

/-- The days up to the 28th of February are in the first two months. -/
theorem two_le_of_day {m d : Nat} (hd : d ≤ monthDays false m) (h : 59 < monthStart false m + d) :
    2 ≤ m := by
  by_contra hlt
  have hlast := (spans_month false).le_start (i := m) (j := 2) (not_le.1 hlt)
  have hmar : monthStart false 2 = 59 := rfl
  omega

theorem le_one_of_monthStart_eq {m : Nat} (hm : m < 12)
    (h : monthStart false m = monthStart true m) : m ≤ 1 := by
  interval_cases m <;> revert h <;> decide

/-- With the months of a common year, a day past February in a leap year is not. -/
theorem ReadAs.not_same (hr : ReadAs false tm t) (hl : isLeap tm.year = true)
    (hd : 59 < tm.dayOfYear) : ¬ t.Same tm := by
  intro hsame
  obtain ⟨-, -, -, -, hmon, hmday, hday⟩ := hr
  have hmonth : t.month = tm.month := by
    unfold RtcTime.month
    rw [hsame.mon]
  have hdays : t.day = tm.day := by
    unfold RtcTime.day
    rw [hsame.mday]
  have hlt : t.month < 12 := by
    unfold RtcTime.month
    omega
  unfold RtcTime.dayOfYear at hday hd
  rw [hl] at hday hd
  rw [← hmonth, ← hdays] at hday hd
  have hle := le_one_of_monthStart_eq hlt (by omega)
  have hle' : monthStart false t.month + t.day ≤ 59 := by
    have hlast := (spans_month false).le_start (i := t.month) (j := 2) (by omega)
    have hfeb : monthStart false 2 = 59 := rfl
    unfold RtcTime.day
    omega
  omega

/-- The dates from the 29th of February to the end of the year 2000. -/
def RtcTime.Misread (tm : RtcTime) : Prop :=
  tm.tmYear = 100 ∧ (1 < tm.tmMon ∨ tm.tmMon = 1 ∧ 28 < tm.tmMday)

instance (tm : RtcTime) : Decidable tm.Misread := inferInstanceAs (Decidable (_ ∧ _))

theorem past_february {m d : Nat} (hm : m < 12) (hd : d ≤ monthDays true m) :
    59 < monthStart true m + d ↔ 1 < m ∨ m = 1 ∧ 28 < d := by
  rcases Nat.lt_or_ge 1 m with h1 | h1
  · have hmar : monthStart true 2 = 60 := rfl
    have hle : monthStart true 2 ≤ monthStart true m := (spans_month true).mono h1
    exact iff_of_true (by omega) (.inl h1)
  · have hjan : monthStart true 0 = 0 := rfl
    have hfeb : monthStart true 1 = 31 := rfl
    have hlen : monthDays true 0 = 31 := rfl
    interval_cases m <;> omega

theorem RtcTime.misread_iff (h : tm.Valid) :
    tm.Misread ↔ tm.year = 2000 ∧ 59 < tm.dayOfYear := by
  have hty := h.year
  have hm := h.mon
  have hd := h.mday
  have hyear : tm.tmYear = 100 ↔ tm.year = 2000 := by
    unfold RtcTime.year
    omega
  unfold RtcTime.Misread
  rw [hyear]
  refine and_congr_right fun h2000 => ?_
  have hleap : isLeap tm.year = true := by
    rw [h2000]
    decide
  rw [hleap] at hd
  have hpast := past_february (m := tm.month) (d := tm.day) (by unfold RtcTime.month; omega)
    (by unfold RtcTime.day; omega)
  unfold RtcTime.dayOfYear
  rw [hleap, hpast]
  unfold RtcTime.month RtcTime.day
  omega

/-- Up to the 28th of February the months of a common year do for a leap year. -/
theorem ReadAs.leap (hr : ReadAs false tm t) (hd : tm.dayOfYear ≤ 59) : ReadAs true tm t := by
  obtain ⟨hyear, hhour, hmin, hsec, hmon, hmday, hday⟩ := hr
  have hle : t.month ≤ 1 := by
    by_contra hgt
    have hmar : monthStart false 2 = 59 := rfl
    have hstart : monthStart false 2 ≤ monthStart false t.month :=
      (spans_month false).mono (not_le.1 hgt)
    unfold RtcTime.day at hday
    omega
  refine ⟨hyear, hhour, hmin, hsec, hmon, ?_, ?_⟩
  · have hlen : monthDays false t.month ≤ monthDays true t.month := by
      interval_cases t.month <;> decide
    omega
  · rw [← hday]
    interval_cases t.month <;> rfl

/-- `hal_rtc_gettime` reads the time the registers show, but for the dates of `Misread`. -/
theorem gettime_same (h : tm.Valid) (hy : tm.tmYear < 200) (hs : Shows r tm) (hm : ¬ tm.Misread)
    (t : RtcTime) : ∃ t', halRtcGettime r t = some t' ∧ t'.Same tm := by
  have hty := h.year
  have hle := h.dayOfYear.2
  have hleap := isLeap_offset (y := tm.year) (by unfold RtcTime.year; omega)
    (by unfold RtcTime.year; omega)
  rw [RtcTime.misread_iff h] at hm
  by_cases h2000 : tm.year = 2000
  · have hd : tm.dayOfYear ≤ 59 := not_lt.1 fun hd => hm ⟨h2000, hd⟩
    have hcommon : isLeap (tm.year - 1900) = false := by
      rw [h2000]
      decide
    have hread := (gettime_eq h hy hs t).1
    rw [hcommon] at hread
    obtain ⟨t', ht, hr⟩ := hread (hd.trans (by decide))
    have hl : isLeap tm.year = true := by
      rw [h2000]
      decide
    exact ⟨t', ht, ReadAs.same h (by rw [hl]; exact hr.leap hd)⟩
  · have hsame : isLeap (tm.year - 1900) = isLeap tm.year := by
      rw [hleap, bne_iff_ne.2 h2000, Bool.and_true]
    obtain ⟨t', ht, hr⟩ := (gettime_eq h hy hs t).1 (by rw [hsame, monthStart_year]; exact hle)
    exact ⟨t', ht, (hsame ▸ hr).same h⟩

theorem gettime_misread (h : tm.Valid) (hs : Shows r tm) (hm : tm.Misread) (t : RtcTime) :
    halRtcGettime r t = none ∨ ∃ t', halRtcGettime r t = some t' ∧ ReadAs false tm t' := by
  obtain ⟨h2000, -⟩ := (RtcTime.misread_iff h).1 hm
  have hleap : isLeap (tm.year - 1900) = false := by
    rw [h2000]
    decide
  have hread := gettime_eq h (by have := hm.1; omega) hs t
  rw [hleap] at hread
  rcases Nat.lt_or_ge (monthStart false 12) tm.dayOfYear with hlt | hge
  · exact .inl (hread.2 hlt)
  · exact .inr (hread.1 hge)

/-- No access to the clock's registers is under way. -/
structure Idle (r : Regs) : Prop where
  hms : halRtcWait r sunxiLoscCtrl sunxiLoscCtrlRtcHmsAcc = false
  ymd : halRtcWait r sunxiLoscCtrl sunxiLoscCtrlRtcYmdAcc = false

theorem Idle.writel (h : Idle r) {v offset : Nat} (ho : offset ≠ sunxiLoscCtrl) :
    Idle (writel r v offset) := by
  have hread : readl (Rtc.writel r v offset) sunxiLoscCtrl = readl r sunxiLoscCtrl :=
    update_of_ne ho.symm ..
  have hwait : ∀ mask, halRtcWait (Rtc.writel r v offset) sunxiLoscCtrl mask =
      halRtcWait r sunxiLoscCtrl mask := fun mask => by rw [halRtcWait, halRtcWait, hread]
  exact ⟨(hwait _).trans h.hms, (hwait _).trans h.ymd⟩

theorem writeClock_eq (h : Idle r) (date time : Nat) : writeClock r date time =
    (writel (writel (writel r 0 sunxiRtcHms) time sunxiRtcHms) date sunxiRtcYmd, true) := by
  have h1 : Idle (writel r 0 sunxiRtcHms) := h.writel (by decide)
  have h2 : Idle (writel (writel r 0 sunxiRtcHms) time sunxiRtcHms) := h1.writel (by decide)
  have h3 : Idle (writel (writel (writel r 0 sunxiRtcHms) time sunxiRtcHms) date sunxiRtcYmd) :=
    h2.writel (by decide)
  simp [writeClock, h.hms, h1.hms, h2.hms, h2.ymd, h3.ymd]

theorem packTime_lt (h : tm.Valid) : packTime tm < 2 ^ 32 := by
  have hpack := packTime_eq h
  have hs := h.sec
  have hm := h.min
  have ho := h.hour
  omega

/-- `hal_rtc_settime` leaves the registers that show the time. -/
theorem settime_shows (h : tm.Valid) (hy : tm.tmYear ≤ 197) (hi : Idle r) :
    ∃ r' tm', halRtcSettime r tm = some (r', tm', true) ∧ Shows r' tm := by
  have hty := h.year
  have hcount := h.dayCount_lt (by omega)
  have hpack := packTime_lt h
  have hrange : ¬ (tm.tmYear + 1900 < dataYearMin ∨ (dataYearMax : Int) < tm.tmYear + 1900) := by
    unfold dataYearMin dataYearMax
    omega
  unfold halRtcSettime
  rw [if_neg hrange, countDays_eq h hy, Option.map_some]
  dsimp only
  rw [writeClock_eq hi]
  refine ⟨_, _, rfl, ?_, ?_⟩
  · dsimp only
    rw [writel, update_self, Nat.mod_eq_of_lt (by omega)]
  · dsimp only
    rw [writel, update_of_ne (by decide), writel, update_self, Nat.mod_eq_of_lt hpack]

/-- The clock set to `tm` is read as `tm`. -/
def RoundTrips (r : Regs) (tm t : RtcTime) : Prop :=
  ∃ r' tm' t', halRtcSettime r tm = some (r', tm', true) ∧ halRtcGettime r' t = some t' ∧
    t'.Same tm

theorem roundTrips_iff (h : tm.Valid) (hy : tm.tmYear ≤ 197) (hi : Idle r) :
    RoundTrips r tm t ↔ ¬ tm.Misread := by
  obtain ⟨r', tm', hset, hshows⟩ := settime_shows h hy hi
  constructor
  · rintro ⟨r₁, tm₁, t', hset', hget, hsame⟩ hm
    cases hset.symm.trans hset'
    have hday := ((RtcTime.misread_iff h).1 hm)
    rcases gettime_misread h hshows hm t with hnone | ⟨t₁, hget₁, hr⟩
    · cases hnone.symm.trans hget
    · cases hget₁.symm.trans hget
      refine hr.not_same ?_ hday.2 hsame
      rw [hday.1]
      decide
  · intro hm
    obtain ⟨t', hget, hsame⟩ := gettime_same h (by omega) hshows hm t
    exact ⟨r', tm', t', hset, hget, hsame⟩

/-! ## The alarm -/

theorem RtcTime.Same.time64 {a b : RtcTime} (h : a.Same b) : rtcTmToTime64 a = rtcTmToTime64 b := by
  unfold rtcTmToTime64
  rw [h.year, h.mon, h.mday, h.hour, h.min, h.sec]

theorem RtcTime.Same.instant {a b : RtcTime} (h : a.Same b) : a.instant = b.instant := by
  unfold RtcTime.instant RtcTime.ordinal RtcTime.year RtcTime.month RtcTime.day
  rw [h.year, h.mon, h.mday, h.hour, h.min, h.sec]

/-- The registers after `hal_rtc_setalarm`. -/
theorem writeAlarm_regs (r : Regs) (gap alrm : Nat) (enabled : Bool) :
    writeAlarm r gap alrm enabled sunxiAlrmDay = (gap + r sunxiRtcYmd) % 2 ^ 32 ∧
      writeAlarm r gap alrm enabled sunxiAlrmHms = alrm % 2 ^ 32 ∧
        writeAlarm r gap alrm enabled sunxiRtcYmd = r sunxiRtcYmd ∧
          writeAlarm r gap alrm enabled sunxiRtcHms = r sunxiRtcHms := by
  cases enabled <;>
    simp [writeAlarm, halRtcSetaie, writel, readl, sunxiAlrmDay, sunxiAlrmHms,
      sunxiRtcYmd, sunxiRtcHms, sunxiAlrmIrqEn, sunxiAlrmEn, sunxiAlrmIrqSta]

/-- The alarm is set, its registers denote its time, and the time is read back. -/
def AlarmKept (r : Regs) (stack : RtcTime) (alrm w : RtcWkalrm) : Prop :=
  ∃ r', halRtcSetalarm r stack alrm = some (r', true) ∧ r' sunxiAlrmDay = alrm.time.dayCount ∧
    r' sunxiAlrmHms = packTime alrm.time ∧
      ∃ w', halRtcGetalarm r' w = some w' ∧ w'.time.Same alrm.time

/-- The alarm is in the month of the clock, and the day counter less the packed time of the
alarm happens to be the seconds that are left. -/
def AlarmRight (now alrm : RtcTime) : Prop :=
  alrm.tmYear = now.tmYear ∧ alrm.tmMon = now.tmMon ∧
    (alrm.dayCount : Int) - packTime alrm = alrm.instant - now.instant

section Alarm

variable {now alrm : RtcTime} (hn : now.Valid) (hy : now.tmYear ≤ 197) (ha : alrm.Valid)
  (hlater : 0 < alrm.instant - now.instant) (hnear : alrm.instant - now.instant ≤ 255 * secInDay)

/-- The day of the month that comes before the first of a month. -/
def RtcTime.monthEve (tm : RtcTime) : Nat := yearStart tm.year + monthStart (isLeap tm.year) tm.month

include hn ha

theorem eve_inj (h : alrm.monthEve = now.monthEve) :
    alrm.tmYear = now.tmYear ∧ alrm.tmMon = now.tmMon := by
  have hna := hn.year
  have hnm := hn.mon
  have hnd := hn.mday
  have haa := ha.year
  have ham := ha.mon
  have had := ha.mday
  have hfirst : ordinal alrm.year alrm.month 1 = ordinal now.year now.month 1 :=
    congrArg (· + 1) h
  obtain ⟨hyear, hmonth, -⟩ := ordinal_inj (by unfold RtcTime.month; omega)
    Nat.one_pos (by omega) (by unfold RtcTime.month; omega) Nat.one_pos (by omega) hfirst
  unfold RtcTime.year at hyear
  unfold RtcTime.month at hmonth
  omega

include hnear

/-- The alarm is in the year of the clock or in the next one. -/
theorem year_le : alrm.tmYear ≤ now.tmYear + 1 := by
  have hday := hn.dayOfYear
  have hday' := ha.dayOfYear
  by_contra hgt
  have hna := hn.year
  have hstart := spans_year.le_start (i := now.year) (j := now.year + 1) (by omega)
  have hnext : yearStart (now.year + 1) + yearDays (now.year + 1) ≤ yearStart alrm.year :=
    spans_year.le_start (by unfold RtcTime.year; omega)
  have hlong : 365 ≤ yearDays (now.year + 1) := by
    unfold yearDays
    split <;> omega
  have hord : now.ordinal = yearStart now.year + now.dayOfYear := Nat.add_assoc ..
  have hord' : alrm.ordinal = yearStart alrm.year + alrm.dayOfYear := Nat.add_assoc ..
  have hnh := hn.hour
  have hnm := hn.min
  have hns := hn.sec
  have hah := ha.hour
  have ham := ha.min
  have has := ha.sec
  unfold RtcTime.instant secInDay at hnear
  omega

omit hn ha hnear in
/-- The day register is right just if the days of the month differ as the day counters do. -/
theorem day_eq_iff {mday : Int} (hc : now.dayCount < 48000) (hc' : alrm.dayCount < 48000)
    (hd : 1 ≤ mday ∧ mday ≤ 31) (hd' : 1 ≤ alrm.tmMday ∧ alrm.tmMday ≤ 31) :
    (u32 (alrm.tmMday - mday) + now.dayCount) % 2 ^ 32 = alrm.dayCount ↔
      alrm.tmMday - mday = (alrm.dayCount : Int) - now.dayCount := by
  unfold u32
  omega

omit hn ha hnear in
theorem dayCount_eve (h : tm.Valid) :
    (tm.dayCount : Int) = tm.monthEve + tm.tmMday - yearStart dataYearMin := by
  have hcount := h.dayCount.1
  have hd := h.mday
  unfold RtcTime.dayOfYear RtcTime.day at hcount
  unfold RtcTime.monthEve
  omega

omit hnear in
/-- With the clock read right the day register is right just within one month. -/
theorem day_right_iff (hc : now.dayCount < 48000) (hc' : alrm.dayCount < 48000) :
    (u32 (alrm.tmMday - now.tmMday) + now.dayCount) % 2 ^ 32 = alrm.dayCount ↔
      alrm.tmYear = now.tmYear ∧ alrm.tmMon = now.tmMon := by
  have hnd := hn.mday
  have had := ha.mday
  have hnl := monthDays_le (isLeap now.year) now.month
  have hal := monthDays_le (isLeap alrm.year) alrm.month
  have hne := dayCount_eve hn
  have hae := dayCount_eve ha
  rw [day_eq_iff hc hc' (by omega) (by omega)]
  constructor
  · intro h
    exact eve_inj hn ha (by omega)
  · rintro ⟨hyear, hmon⟩
    have heve : alrm.monthEve = now.monthEve := by
      unfold RtcTime.monthEve RtcTime.year RtcTime.month
      rw [hyear, hmon]
    omega

omit hnear in
/-- With the clock misread the day register is wrong. -/
theorem day_wrong (hm : now.Misread) (hr : ReadAs false now t) (hc : now.dayCount < 48000)
    (hc' : alrm.dayCount < 48000) :
    (u32 (alrm.tmMday - t.tmMday) + now.dayCount) % 2 ^ 32 ≠ alrm.dayCount := by
  have had := ha.mday
  have hal := monthDays_le (isLeap alrm.year) alrm.month
  have htd := hr.mday
  have htl := monthDays_le false t.month
  have hne := dayCount_eve hn
  have hae := dayCount_eve ha
  obtain ⟨h2000, hlate⟩ := (RtcTime.misread_iff hn).1 hm
  have hcount := hn.dayCount.1
  have hday := hr.day
  have htm := hr.mon
  have hlast : monthStart false 12 = 365 := rfl
  have hlen : yearDays now.year = 366 := by
    rw [h2000]
    decide
  rw [Ne, day_eq_iff hc hc' (by omega) (by omega)]
  intro h
  have heq : yearStart alrm.year + (monthStart (isLeap alrm.year) alrm.month + 1) =
      yearStart now.year + (monthStart false t.month + 1) := by
    unfold RtcTime.monthEve at hae
    unfold RtcTime.day at hday
    omega
  have ham := ha.mon
  have halrm : monthStart (isLeap alrm.year) alrm.month + 1 ≤ yearDays alrm.year :=
    (monthStart_add_le (by unfold RtcTime.month; omega) (by omega)).trans_eq (monthStart_year _)
  have hread : monthStart false t.month + 1 ≤ monthStart false 12 :=
    monthStart_add_le (by unfold RtcTime.month; omega) (by omega)
  obtain ⟨hyear, hmonth⟩ :=
    spans_year.unique (Nat.succ_pos _) halrm (Nat.succ_pos _) (by omega) heq
  have hleap : isLeap alrm.year = true := by
    rw [hyear, h2000]
    decide
  rw [hleap] at hmonth
  refine monthStart_ne alrm.month (by unfold RtcTime.month; omega) t.month
    (by unfold RtcTime.month; omega) ?_ (Nat.succ.inj hmonth)
  refine two_le_of_day (d := t.day) (by unfold RtcTime.day; omega) ?_
  rw [hday]
  exact hlate

omit hn ha hnear in
/-- The seconds of a time of the clock fit in a word, with a day counter more. -/
theorem instant_lt (h : tm.Valid) (hc : tm.dayCount < 48000) :
    0 ≤ tm.instant ∧ tm.instant < 86400 * 48000 := by
  have hcount := h.dayCount
  have hord : tm.ordinal = yearStart tm.year + tm.dayOfYear := Nat.add_assoc ..
  have hmin := yearStart_min
  have hh := h.hour
  have hm := h.min
  have hs := h.sec
  unfold RtcTime.instant
  omega

omit hn ha hnear in
theorem gap_iff {n a : Int} {d p : Nat} (hn : 0 ≤ n) (hp : p ≤ d) :
    ((n.toNat + (d - p) : Nat) : Int) = a ↔ (d : Int) - p = a - n := by
  omega

omit hnear in
include hlater in
/-- The alarm read back, from the registers as `hal_rtc_setalarm` should leave them. -/
theorem getalarm_iff (hs : Shows r now) (hy : now.tmYear ≤ 197) (hm : ¬ now.Misread)
    (hc : alrm.dayCount < 48000) (hD : r sunxiAlrmDay = alrm.dayCount)
    (hH : r sunxiAlrmHms = packTime alrm) (w : RtcWkalrm) :
    (∃ w', halRtcGetalarm r w = some w' ∧ w'.time.Same alrm) ↔
      (alrm.dayCount : Int) - packTime alrm = alrm.instant - now.instant := by
  have hcount : readl r sunxiAlrmCounter = alrm.dayCount := hD
  have hcur : readl r sunxiAlrmCurrent = packTime alrm := hH
  unfold halRtcGetalarm
  rw [hcount, hcur]
  dsimp only
  split
  · rename_i hlt
    refine iff_of_false ?_ (by omega)
    rintro ⟨w', hw, hsame⟩
    cases hw
    have hsec := hsame.sec
    have := ha.sec
    dsimp only at hsec
    omega
  · rename_i hge
    obtain ⟨t', hget, hsame⟩ := gettime_same hn (by omega) hs hm w.time
    have hnow := instant_lt hn (hn.dayCount_lt (by omega))
    have htime : rtcTmToTime t' = now.instant.toNat := by
      unfold rtcTmToTime
      rw [hsame.time64, rtcTmToTime64_eq hn (by omega)]
      unfold u32
      omega
    have hsum : u32 (rtcTmToTime t' + (alrm.dayCount - packTime alrm)) =
        now.instant.toNat + (alrm.dayCount - packTime alrm) := by
      rw [htime]
      unfold u32
      omega
    obtain ⟨hvalid, hinst⟩ :=
      rtcTimeToTm_spec (x := now.instant.toNat + (alrm.dayCount - packTime alrm)) (by omega)
    rw [hget, Option.map_some, hsum]
    constructor
    · rintro ⟨w', hw, hsame'⟩
      cases hw
      exact (gap_iff hnow.1 (not_lt.1 hge)).1 (hinst.symm.trans hsame'.instant)
    · intro h
      have hback := hvalid.same ha (hinst.trans ((gap_iff hnow.1 (not_lt.1 hge)).2 h))
      exact ⟨_, rfl, hback⟩

omit hn ha hnear in
/-- The day register with the clock read as `t`. -/
theorem setalarm_day (hs : Shows r now) {stack : RtcTime} (hget : halRtcGettime r stack = some t)
    {w : RtcWkalrm} (hset : halRtcSetalarm r stack w = some (r', true)) :
    r' sunxiAlrmDay = (u32 (w.time.tmMday - t.tmMday) + now.dayCount) % 2 ^ 32 := by
  rw [halRtcSetalarm, hget, Option.map_some] at hset
  dsimp only at hset
  have hval := Option.some.inj hset
  split at hval
  · cases hval
  · split at hval
    · cases hval
    · obtain rfl := (Prod.mk.inj hval).1
      rw [(writeAlarm_regs ..).1, hs.ymd]

include hlater in
theorem alarmKept_iff (hs : Shows r now) (hy : now.tmYear ≤ 197) (stack : RtcTime)
    (enabled : Bool) (w : RtcWkalrm) :
    AlarmKept r stack ⟨enabled, alrm⟩ w ↔ ¬ now.Misread ∧ AlarmRight now alrm := by
  have hyear := year_le hn ha hnear
  have hc := hn.dayCount_lt (by omega)
  have hc' := ha.dayCount_lt (by omega)
  have hpack := packTime_lt ha
  by_cases hm : now.Misread
  · refine iff_of_false ?_ fun h => h.1 hm
    rintro ⟨r', hset, hday, -, -⟩
    rcases gettime_misread hn hs hm stack with hnone | ⟨t', hget, hr⟩
    · rw [halRtcSetalarm, hnone] at hset
      cases hset
    · exact day_wrong hn ha hm hr hc hc' ((setalarm_day hs hget hset).symm.trans hday)
  · obtain ⟨t', hget, hsame⟩ := gettime_same hn (by omega) hs hm stack
    have hsub : rtcTmSub alrm t' = alrm.instant - now.instant := by
      unfold rtcTmSub
      rw [hsame.time64, rtcTmToTime64_eq hn (by omega), rtcTmToTime64_eq ha (by omega)]
    have hset : halRtcSetalarm r stack ⟨enabled, alrm⟩ =
        some (writeAlarm r (u32 (alrm.tmMday - t'.tmMday)) (packTime alrm) enabled, true) := by
      rw [halRtcSetalarm, hget, Option.map_some]
      dsimp only
      rw [hsub, if_neg (by omega), if_neg (by omega)]
    obtain ⟨-, hhms, hymd, hclock⟩ :=
      writeAlarm_regs r (u32 (alrm.tmMday - t'.tmMday)) (packTime alrm) enabled
    have hdayReg := setalarm_day hs hget hset
    have hshows : Shows (writeAlarm r (u32 (alrm.tmMday - t'.tmMday)) (packTime alrm) enabled) now :=
      ⟨hymd.trans hs.ymd, hclock.trans hs.hms⟩
    rw [Nat.mod_eq_of_lt hpack] at hhms
    dsimp only at hdayReg
    rw [hsame.mday] at hdayReg hset hhms hshows
    constructor
    · rintro ⟨r', hset', hday, -, hback⟩
      obtain rfl := (Prod.mk.inj (Option.some.inj (hset.symm.trans hset'))).1
      obtain ⟨hsameYear, hsameMon⟩ := (day_right_iff hn ha hc hc').1 (hdayReg.symm.trans hday)
      exact ⟨hm, hsameYear, hsameMon,
        (getalarm_iff hn ha hlater hshows hy hm hc' hday hhms w).1 hback⟩
    · rintro ⟨-, hsameYear, hsameMon, hsecs⟩
      have hday := hdayReg.trans ((day_right_iff hn ha hc hc').2 ⟨hsameYear, hsameMon⟩)
      exact ⟨_, hset, hday, hhms,
        (getalarm_iff hn ha hlater hshows hy hm hc' hday hhms w).2 hsecs⟩

end Alarm

/-! ## The clock and the alarm -/

/-- A date is read back as it was set, and an alarm is kept, just in these cases. -/
theorem clock_and_alarm_kept_iff (r : Regs) :
    (∀ tm t : RtcTime, tm.Valid → tm.tmYear ≤ 197 → Idle r →
      (RoundTrips r tm t ↔ ¬ tm.Misread)) ∧
    ∀ (stack now alrm : RtcTime) (enabled : Bool) (w : RtcWkalrm),
      now.Valid → now.tmYear ≤ 197 → alrm.Valid → Shows r now →
        0 < alrm.instant - now.instant → alrm.instant - now.instant ≤ 255 * secInDay →
          (AlarmKept r stack ⟨enabled, alrm⟩ w ↔ ¬ now.Misread ∧ AlarmRight now alrm) :=
  ⟨fun _ _ h hy hi => roundTrips_iff h hy hi,
    fun stack _ _ enabled w hn hy ha hs hlater hnear =>
      alarmKept_iff hn ha hlater hnear hs hy stack enabled w⟩

/-- The registers of an idle clock that shows `tm`. -/
def regsAt (tm : RtcTime) : Regs := fun offset =>
  if offset = sunxiRtcYmd then tm.dayCount else if offset = sunxiRtcHms then packTime tm else 0

theorem shows_regsAt (tm : RtcTime) : Shows (regsAt tm) tm :=
  ⟨if_pos rfl, (if_neg (by decide)).trans (if_pos rfl)⟩

theorem idle_regsAt (tm : RtcTime) : Idle (regsAt tm) := by
  have hzero : readl (regsAt tm) sunxiLoscCtrl = 0 := by
    unfold readl regsAt
    rw [if_neg (by decide), if_neg (by decide)]
  constructor <;>
  · unfold halRtcWait
    rw [hzero]
    decide

/-- A time with the day and the month counted from 1. -/
def timeAt (year month day hour min sec : Int) : RtcTime :=
  ⟨sec, min, hour, day, month - 1, year - 1900, 0, 0, 0⟩

instance (now alrm : RtcTime) : Decidable (AlarmRight now alrm) :=
  inferInstanceAs (Decidable (_ ∧ _ ∧ _))

instance (tm : RtcTime) : Decidable tm.Valid :=
  decidable_of_iff (70 ≤ tm.tmYear ∧ (0 ≤ tm.tmMon ∧ tm.tmMon < 12) ∧
    (1 ≤ tm.tmMday ∧ tm.tmMday ≤ monthDays (isLeap tm.year) tm.month) ∧
    (0 ≤ tm.tmHour ∧ tm.tmHour < 24) ∧ (0 ≤ tm.tmMin ∧ tm.tmMin < 60) ∧
    0 ≤ tm.tmSec ∧ tm.tmSec < 60)
    ⟨fun ⟨h1, h2, h3, h4, h5, h6⟩ => ⟨h1, h2, h3, h4, h5, h6⟩,
      fun ⟨h1, h2, h3, h4, h5, h6⟩ => ⟨h1, h2, h3, h4, h5, h6⟩⟩

/-- The last second of the 28th of February 2000, and an alarm for a midnight in October. -/
theorem clock_and_alarm_kept_october :
    RoundTrips (regsAt (timeAt 1970 1 1 0 0 0)) (timeAt 2000 2 28 23 59 59) (timeAt 1970 1 1 0 0 0) ∧
      AlarmKept (regsAt (timeAt 2024 10 4 18 26 38)) (timeAt 1970 1 1 0 0 0)
        ⟨true, timeAt 2024 10 5 0 0 0⟩ ⟨false, timeAt 1970 1 1 0 0 0⟩ :=
  ⟨((clock_and_alarm_kept_iff _).1 _ _ (by decide) (by decide) (idle_regsAt _)).2 (by decide),
    ((clock_and_alarm_kept_iff _).2 _ _ _ _ _ (by decide) (by decide) (by decide) (shows_regsAt _)
      (by decide) (by decide)).2 (by decide)⟩

/-- The 29th of February 2000 is not read back, and an alarm for the next day, in the next month,
is not kept. -/
theorem clock_and_alarm_lost :
    ¬ RoundTrips (regsAt (timeAt 1970 1 1 0 0 0)) (timeAt 2000 2 29 0 0 0) (timeAt 1970 1 1 0 0 0) ∧
      ¬ AlarmKept (regsAt (timeAt 2024 1 31 12 0 0)) (timeAt 1970 1 1 0 0 0)
        ⟨true, timeAt 2024 2 1 12 0 0⟩ ⟨false, timeAt 1970 1 1 0 0 0⟩ :=
  ⟨fun h => (roundTrips_iff (by decide) (by decide) (idle_regsAt _)).1 h (by decide),
    fun h => absurd ((alarmKept_iff (by decide) (by decide) (by decide) (by decide)
      (shows_regsAt _) (by decide) _ _ _).1 h).2 (by decide)⟩

end Melis.Rtc
