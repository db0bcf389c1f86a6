import Mathlib.Data.List.Basic
import Mathlib.Tactic.IntervalCases

/-!
# The Gregorian calendar

Spans of days laid end to end, and the years and months as two layers of them.
`ordinal` counts the days up to a date; a date is valid where its day lies in
its month, and then it is the only one with its ordinal.
-/

namespace Melis.Lib

/-! ## Spans end to end -/

/-- Span `i` is `len i` long and begins after `start i`. -/
def Spans (start len : Nat → Nat) : Prop := ∀ i, start (i + 1) = start i + len i

namespace Spans

variable {start len : Nat → Nat} (h : Spans start len) {i j d e : Nat}

include h

theorem le_start (hij : i < j) : start i + len i ≤ start j := by
  induction j with
  | zero => exact absurd hij (Nat.not_lt_zero i)
  | succ j ih =>
    rw [h j]
    rcases Nat.lt_succ_iff_lt_or_eq.1 hij with hlt | rfl
    · exact (ih hlt).trans (Nat.le_add_right _ _)
    · exact le_rfl

theorem mono (hij : i ≤ j) : start i ≤ start j := by
  rcases Nat.eq_or_lt_of_le hij with rfl | hlt
  · exact le_rfl
  · exact (Nat.le_add_right _ _).trans (h.le_start hlt)

theorem lt_of_lt (hij : i < j) (hd : d ≤ len i) (he : 0 < e) : start i + d < start j + e := by
  have := h.le_start hij
  omega

/-- A place is in one span only. -/
theorem unique (hd : 0 < d) (hdi : d ≤ len i) (he : 0 < e) (hej : e ≤ len j)
    (heq : start i + d = start j + e) : i = j ∧ d = e := by
  rcases Nat.lt_trichotomy i j with hij | rfl | hij
  · exact absurd heq (h.lt_of_lt hij hdi he).ne
  · exact ⟨rfl, Nat.add_left_cancel heq⟩
  · exact absurd heq.symm (h.lt_of_lt hij hej hd).ne

end Spans

/-! ## Years and months -/

def isLeap (y : Nat) : Bool := (y % 4 == 0 && y % 100 != 0) || y % 400 == 0

def yearDays (y : Nat) : Nat := if isLeap y then 366 else 365

/-- The days before the year `y`, from the year 0 on. -/
def yearStart (y : Nat) : Nat := 365 * y + (y + 3) / 4 - (y + 99) / 100 + (y + 399) / 400

/-- The days of the months, January being 0. -/
def monthDays (leap : Bool) (m : Nat) : Nat :=
  [31, if leap then 29 else 28, 31, 30, 31, 30, 31, 31, 30, 31, 30, 31].getD m 0

/-- The days of the year before month `m`. -/
def monthStart (leap : Bool) : Nat → Nat
  | 0 => 0
  | m + 1 => monthStart leap m + monthDays leap m

/-- The days up to a date. -/
def ordinal (y m d : Nat) : Nat := yearStart y + monthStart (isLeap y) m + d

theorem isLeap_iff (y : Nat) : isLeap y = true ↔ y % 4 = 0 ∧ y % 100 ≠ 0 ∨ y % 400 = 0 := by
  simp [isLeap]

theorem yearDays_pos (y : Nat) : 0 < yearDays y := by
  unfold yearDays
  split <;> omega

theorem spans_year : Spans yearStart yearDays := by
  intro y
  have h4 : (y + 1 + 3) / 4 = (y + 3) / 4 + if y % 4 = 0 then 1 else 0 := by split <;> omega
  have h100 : (y + 1 + 99) / 100 = (y + 99) / 100 + if y % 100 = 0 then 1 else 0 := by
    split <;> omega
  have h400 : (y + 1 + 399) / 400 = (y + 399) / 400 + if y % 400 = 0 then 1 else 0 := by
    split <;> omega
  have hle : (y + 99) / 100 ≤ (y + 3) / 4 := by omega
  have h1 : y % 100 = 0 → y % 4 = 0 := by omega
  have h2 : y % 400 = 0 → y % 100 = 0 := by omega
  have hdays : yearDays y =
      365 + (if y % 4 = 0 then 1 else 0) - (if y % 100 = 0 then 1 else 0) +
        if y % 400 = 0 then 1 else 0 := by
    unfold yearDays
    grind [isLeap_iff y]
  unfold yearStart
  rw [h4, h100, h400, hdays]
  generalize (y + 3) / 4 = q at hle ⊢
  generalize (y + 99) / 100 = q' at hle ⊢
  split <;> split <;> split <;> omega

theorem spans_month (leap : Bool) : Spans (monthStart leap) (monthDays leap) := fun _ => rfl

theorem monthStart_twelve (leap : Bool) : monthStart leap 12 = if leap then 366 else 365 := by
  cases leap <;> rfl

theorem monthStart_year (y : Nat) : monthStart (isLeap y) 12 = yearDays y :=
  monthStart_twelve (isLeap y)

theorem monthDays_le (leap : Bool) (m : Nat) : monthDays leap m ≤ 31 := by
  by_cases hm : m < 12
  · interval_cases m <;> cases leap <;> decide
  · unfold monthDays
    rw [List.getD_eq_getElem?_getD, List.getElem?_eq_none (not_lt.1 hm), Option.getD_none]
    exact Nat.zero_le 31

/-- A day of month `m` is a day of the year. -/
theorem monthStart_add_le {leap : Bool} {m d : Nat} (hm : m < 12) (hd : d ≤ monthDays leap m) :
    monthStart leap m + d ≤ monthStart leap 12 :=
  (Nat.add_le_add_left hd _).trans ((spans_month leap).le_start hm)

/-- A valid date is the only one with its ordinal. -/
theorem ordinal_inj {y m d y' m' d' : Nat} (hm : m < 12) (hd : 0 < d)
    (hdm : d ≤ monthDays (isLeap y) m) (hm' : m' < 12) (hd' : 0 < d')
    (hdm' : d' ≤ monthDays (isLeap y') m') (h : ordinal y m d = ordinal y' m' d') :
    y = y' ∧ m = m' ∧ d = d' := by
  unfold ordinal at h
  rw [Nat.add_assoc, Nat.add_assoc] at h
  have hy := spans_year.unique (Nat.add_pos_right _ hd)
    ((monthStart_add_le hm hdm).trans_eq (monthStart_year y)) (Nat.add_pos_right _ hd')
    ((monthStart_add_le hm' hdm').trans_eq (monthStart_year y')) h
  obtain ⟨rfl, hrest⟩ := hy
  exact ⟨rfl, (spans_month _).unique hd hdm hd' hdm' hrest⟩

end Melis.Lib
