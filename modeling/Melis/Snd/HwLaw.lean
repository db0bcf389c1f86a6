import Melis.Snd.HwConstrains
import Mathlib.Tactic.Ring
import Mathlib.Tactic.Linarith

/-!
# When the parameters agree

What a request is taken to be is written with the numbers it has (`derived`), so that the check can
be followed step by step (`check_exact`). The period's time agrees with its size where the time was
given; from the size it is ten times too short, and from the bytes the quotient is turned over.
-/

namespace Melis.Snd

open Lib

variable {p q cons : PcmHwParams} {t t' : HwParam} {n : Nat} {ret : Int}

namespace PcmHwParams

@[simp] theorem value_set : (p.set t n).value t' = if t' = t then n else p.value t' := by
  unfold value set
  split
  next h => rfl
  next h => rfl

/-! ## What a request stands for -/

def frameBits (p : PcmHwParams) : Nat := p.value .SAMPLE_BITS * p.value .CHANNELS

def periodSize (p : PcmHwParams) : Nat :=
  if p.value .PERIOD_TIME ≠ 0 then p.value .RATE * p.value .PERIOD_TIME / 1000000
  else if p.value .PERIOD_SIZE ≠ 0 then p.value .PERIOD_SIZE
  else p.value .PERIOD_BYTES * 8 / p.frameBits

def periodTime (p : PcmHwParams) : Nat :=
  if p.value .PERIOD_TIME ≠ 0 then p.value .PERIOD_TIME
  else if p.value .PERIOD_SIZE ≠ 0 then p.value .PERIOD_SIZE * 100000 / p.value .RATE
  else 1000000 * p.value .RATE / p.periodSize

def periodBytes (p : PcmHwParams) : Nat :=
  if p.value .PERIOD_TIME ≠ 0 ∨ p.value .PERIOD_SIZE ≠ 0 then p.periodSize * p.frameBits / 8
  else p.value .PERIOD_BYTES

def periods (p : PcmHwParams) : Nat :=
  if p.value .BUFFER_TIME ≠ 0 then p.value .BUFFER_TIME / p.periodTime
  else if p.value .BUFFER_SIZE ≠ 0 then p.value .BUFFER_SIZE / p.periodSize
  else if p.value .PERIODS = 0 then 4 else p.value .PERIODS

/-- The period, in its three forms. -/
def setPeriod (p : PcmHwParams) (time size bytes : Nat) : PcmHwParams :=
  ((p.set .PERIOD_TIME time).set .PERIOD_SIZE size).set .PERIOD_BYTES bytes

/-- The buffer of so many periods. -/
def setPeriods (p : PcmHwParams) (n : Nat) : PcmHwParams :=
  (((p.set .PERIODS n).set .BUFFER_TIME (n * p.value .PERIOD_TIME)).set .BUFFER_SIZE
    (n * p.value .PERIOD_SIZE)).set .BUFFER_BYTES (n * p.value .PERIOD_BYTES)

/-- The whole request. -/
def derived (p : PcmHwParams) : PcmHwParams :=
  ((p.set .FRAME_BITS p.frameBits).setPeriod p.periodTime p.periodSize p.periodBytes).setPeriods
    p.periods

@[simp] theorem value_derived : p.derived.value t = match t with
    | .FRAME_BITS => p.frameBits
    | .PERIOD_TIME => p.periodTime
    | .PERIOD_SIZE => p.periodSize
    | .PERIOD_BYTES => p.periodBytes
    | .PERIODS => p.periods
    | .BUFFER_TIME => p.periods * p.periodTime
    | .BUFFER_SIZE => p.periods * p.periodSize
    | .BUFFER_BYTES => p.periods * p.periodBytes
    | t => p.value t := by
  cases t <;> simp [derived, setPeriods, setPeriod]

/-- No product for the period is too large, and no divisor is 0. -/
def PeriodFits (p : PcmHwParams) : Prop :=
  if p.value .PERIOD_TIME ≠ 0 then
    p.value .RATE * p.value .PERIOD_TIME < 2 ^ 32 ∧ p.periodSize * p.frameBits < 2 ^ 32
  else if p.value .PERIOD_SIZE ≠ 0 then
    p.value .PERIOD_SIZE * 100000 < 2 ^ 32 ∧ p.value .RATE ≠ 0 ∧ p.periodSize * p.frameBits < 2 ^ 32
  else
    p.value .PERIOD_BYTES * 8 < 2 ^ 32 ∧ p.frameBits ≠ 0 ∧ 1000000 * p.value .RATE < 2 ^ 32 ∧
      p.periodSize ≠ 0

structure Fits (p : PcmHwParams) : Prop where
  frame : p.frameBits < 2 ^ 32
  period : p.PeriodFits
  time : p.value .BUFFER_TIME ≠ 0 → p.periodTime ≠ 0
  size : p.value .BUFFER_TIME = 0 → p.value .BUFFER_SIZE ≠ 0 → p.periodSize ≠ 0
  buffer_time : p.periods * p.periodTime < 2 ^ 32
  buffer_size : p.periods * p.periodSize < 2 ^ 32
  buffer_bytes : p.periods * p.periodBytes < 2 ^ 32

/-! ## The steps -/

/-- Setting a value to what it is changes nothing. -/
theorem set_value (h : p.value t = n) : p.set t n = p := by
  subst h
  funext t'
  unfold set value
  split
  next h => rw [h]
  next h => rfl

theorem set_comm (h : t ≠ t') {m : Nat} : (p.set t n).set t' m = (p.set t' m).set t n := by
  funext u
  unfold set
  by_cases hu : u = t
  · subst hu
    simp [h]
  · by_cases hu' : u = t'
    · subst hu'
      simp [hu]
    · simp [hu, hu']

theorem updatePeriod_exact (hF : p.value .FRAME_BITS = p.frameBits) :
    (updatePeriod p).Exact q ↔
      p.PeriodFits ∧ q = p.setPeriod p.periodTime p.periodSize p.periodBytes := by
  unfold updatePeriod PeriodFits setPeriod
  by_cases htime : p.value .PERIOD_TIME ≠ 0
  · have hT : p.periodTime = p.value .PERIOD_TIME := if_pos htime
    have hS : p.periodSize = p.value .RATE * p.value .PERIOD_TIME / 1000000 := if_pos htime
    have hB : p.periodBytes = p.periodSize * p.frameBits / 8 := if_pos (Or.inl htime)
    rw [if_pos htime, if_pos htime, hT, set_value rfl, hB]
    simp [hF, ← hS, and_assoc]
  · by_cases hsize : p.value .PERIOD_SIZE ≠ 0
    · have hT : p.periodTime = p.value .PERIOD_SIZE * 100000 / p.value .RATE := by
        simp [periodTime, htime, hsize]
      have hS : p.periodSize = p.value .PERIOD_SIZE := by simp [periodSize, htime, hsize]
      have hB : p.periodBytes = p.periodSize * p.frameBits / 8 := if_pos (Or.inr hsize)
      rw [if_neg htime, if_pos hsize, if_neg htime, if_pos hsize, hB, hS,
        set_comm (t := .PERIOD_TIME) (by decide), set_value rfl]
      simp [hF, ← hT, and_assoc]
    · have hS : p.periodSize = p.value .PERIOD_BYTES * 8 / p.frameBits := by
        simp [periodSize, htime, hsize]
      have hT : p.periodTime = 1000000 * p.value .RATE / p.periodSize := by
        simp [periodTime, htime, hsize]
      have hB : p.periodBytes = p.value .PERIOD_BYTES := by
        simp only [periodBytes, htime, hsize, or_false, if_false]
      have hsame : ((p.set .PERIOD_TIME p.periodTime).set .PERIOD_SIZE p.periodSize).value
          .PERIOD_BYTES = p.periodBytes := by simp [hB]
      rw [if_neg htime, if_neg hsize, if_neg htime, if_neg hsize, set_value hsame,
        set_comm (t := .PERIOD_TIME) (by decide)]
      simp [hF, ← hS, ← hT, and_assoc, -Nat.div_eq_zero_iff]

theorem setBuffer_exact : (setBuffer p n).Exact q ↔
    (n * p.value .PERIOD_TIME < 2 ^ 32 ∧ n * p.value .PERIOD_SIZE < 2 ^ 32 ∧
      n * p.value .PERIOD_BYTES < 2 ^ 32) ∧ q = p.setPeriods n := by
  unfold setBuffer setPeriods
  simp [and_assoc]

/-- How many periods the buffer is to have. -/
theorem updateBuffer_exact (htime : p.value .PERIOD_TIME = q.periodTime)
    (hsize : p.value .PERIOD_SIZE = q.periodSize) (hbt : p.value .BUFFER_TIME = q.value .BUFFER_TIME)
    (hbs : p.value .BUFFER_SIZE = q.value .BUFFER_SIZE) (hn : p.value .PERIODS = q.value .PERIODS)
    {r : PcmHwParams} : (updateBuffer p).Exact r ↔
      ((q.value .BUFFER_TIME ≠ 0 → q.periodTime ≠ 0) ∧
        (q.value .BUFFER_TIME = 0 → q.value .BUFFER_SIZE ≠ 0 → q.periodSize ≠ 0)) ∧
      (setBuffer p q.periods).Exact r := by
  unfold updateBuffer periods
  rw [hbt, hbs, hn]
  by_cases ht : q.value .BUFFER_TIME ≠ 0
  · rw [if_pos ht, if_pos ht]
    simp only [Calc.exact_bind, Calc.exact_div, htime, and_assoc, exists_and_left, exists_eq_left]
    exact ⟨fun h => ⟨fun _ => h.1, fun h0 => absurd h0 ht, h.2⟩, fun h => ⟨h.1 ht, h.2.2⟩⟩
  · rw [if_neg ht, if_neg ht]
    by_cases hs : q.value .BUFFER_SIZE ≠ 0
    · rw [if_pos hs, if_pos hs]
      simp only [Calc.exact_bind, Calc.exact_div, hsize, and_assoc, exists_and_left, exists_eq_left]
      exact ⟨fun h => ⟨fun h0 => absurd h0 ht, fun _ _ => h.1, h.2⟩,
        fun h => ⟨h.2.1 (not_not.1 ht) hs, h.2.2⟩⟩
    · rw [if_neg hs, if_neg hs]
      exact ⟨fun h => ⟨⟨fun h0 => absurd h0 ht, fun _ h0 => absurd h0 hs⟩, h⟩, fun h => h.2⟩

/-- The numbers of a request do not depend on the frame bits it came with. -/
theorem set_frameBits (n : Nat) : (p.set .FRAME_BITS n).frameBits = p.frameBits ∧
    (p.set .FRAME_BITS n).periodSize = p.periodSize ∧
    (p.set .FRAME_BITS n).periodTime = p.periodTime ∧
    (p.set .FRAME_BITS n).periodBytes = p.periodBytes ∧
    ((p.set .FRAME_BITS n).PeriodFits ↔ p.PeriodFits) := by
  have hframe : (p.set .FRAME_BITS n).frameBits = p.frameBits := by simp [frameBits]
  have hsize : (p.set .FRAME_BITS n).periodSize = p.periodSize := by simp [periodSize, hframe]
  refine ⟨hframe, hsize, ?_, ?_, ?_⟩
  · simp [periodTime, hsize]
  · simp [periodBytes, hsize, hframe]
  · simp [PeriodFits, hsize, hframe]

theorem updates_exact (hframe : p.frameBits < 2 ^ 32) :
    (∃ r, (updatePeriod (p.set .FRAME_BITS p.frameBits)).Exact r ∧ (updateBuffer r).Exact q) ↔
      p.Fits ∧ q = p.derived := by
  obtain ⟨hF, hsize, htime, hbytes, hfits⟩ := p.set_frameBits p.frameBits
  have hperiod : ∀ r, (updatePeriod (p.set .FRAME_BITS p.frameBits)).Exact r ↔ p.PeriodFits ∧
      r = (p.set .FRAME_BITS p.frameBits).setPeriod p.periodTime p.periodSize p.periodBytes := by
    intro r
    rw [updatePeriod_exact (by simp [hF]), hsize, htime, hbytes, hfits]
  have hbuffer : (updateBuffer ((p.set .FRAME_BITS p.frameBits).setPeriod p.periodTime p.periodSize
      p.periodBytes)).Exact q ↔ ((p.value .BUFFER_TIME ≠ 0 → p.periodTime ≠ 0) ∧
        (p.value .BUFFER_TIME = 0 → p.value .BUFFER_SIZE ≠ 0 → p.periodSize ≠ 0)) ∧
      (p.periods * p.periodTime < 2 ^ 32 ∧ p.periods * p.periodSize < 2 ^ 32 ∧
        p.periods * p.periodBytes < 2 ^ 32) ∧ q = p.derived := by
    rw [updateBuffer_exact (q := p) (by simp [setPeriod]) (by simp [setPeriod])
      (by simp [setPeriod]) (by simp [setPeriod]) (by simp [setPeriod]), setBuffer_exact]
    simp [setPeriod, derived]
  constructor
  · rintro ⟨r, hr, hq⟩
    obtain ⟨hfit, rfl⟩ := (hperiod r).1 hr
    obtain ⟨⟨ht, hs⟩, ⟨hbt, hbs, hbb⟩, rfl⟩ := hbuffer.1 hq
    exact ⟨⟨hframe, hfit, ht, hs, hbt, hbs, hbb⟩, rfl⟩
  · rintro ⟨h, rfl⟩
    refine ⟨_, (hperiod _).2 ⟨h.period, rfl⟩, ?_⟩
    exact hbuffer.2 ⟨⟨h.time, h.size⟩, ⟨h.buffer_time, h.buffer_size, h.buffer_bytes⟩, rfl⟩

theorem check_exact : (snd_hw_constrains_check cons p).Exact (q, ret) ↔
    if (p .FORMAT).mask &&& (cons .FORMAT).mask = 0 then q = p ∧ ret = -1
    else p.Fits ∧ q = p.derived ∧
      ret = if checked.all (is_range_of_hw_constrains p.derived cons) then 0 else -1 := by
  unfold snd_hw_constrains_check
  split
  next => rw [Calc.exact_pure, Prod.mk.injEq]
  next =>
    have hlast : ∀ r : PcmHwParams, Calc.Exact
        (if checked.all (is_range_of_hw_constrains r cons) then pure (r, 0) else pure (r, -1) :
          Calc (PcmHwParams × Int)) (q, ret) ↔
        q = r ∧ ret = if checked.all (is_range_of_hw_constrains r cons) then 0 else -1 := by
      intro r
      split
      next => rw [Calc.exact_pure, Prod.mk.injEq]
      next => rw [Calc.exact_pure, Prod.mk.injEq]
    simp only [Calc.exact_bind, Calc.exact_mul, hlast]
    constructor
    · rintro ⟨bits, ⟨hframe, rfl⟩, r, hr, r', hr', rfl, rfl⟩
      obtain ⟨hfits, rfl⟩ := (updates_exact hframe).1 ⟨r, hr, hr'⟩
      exact ⟨hfits, rfl, rfl⟩
    · rintro ⟨hfits, rfl, rfl⟩
      obtain ⟨r, hr, hr'⟩ := (updates_exact hfits.frame).2 ⟨hfits, rfl⟩
      exact ⟨p.frameBits, ⟨hfits.frame, rfl⟩, r, hr, p.derived, hr', rfl, rfl⟩

end PcmHwParams

/-! ## What an accepted set is to satisfy -/

/-- A time and a number of frames, up to a unit for each of `n` periods. -/
def Correspond (n rate time size : Nat) : Prop :=
  time * rate ≤ (size + n) * 1000000 ∧ size * 1000000 ≤ (time + n) * rate

structure Consistent (q : PcmHwParams) : Prop where
  frame : q.value .FRAME_BITS = q.value .SAMPLE_BITS * q.value .CHANNELS
  period_bytes : q.value .PERIOD_BYTES * 8 = q.value .PERIOD_SIZE * q.value .FRAME_BITS
  buffer_bytes : q.value .BUFFER_BYTES * 8 = q.value .BUFFER_SIZE * q.value .FRAME_BITS
  buffer_size : q.value .BUFFER_SIZE = q.value .PERIODS * q.value .PERIOD_SIZE
  period_time : Correspond 1 (q.value .RATE) (q.value .PERIOD_TIME) (q.value .PERIOD_SIZE)
  buffer_time : Correspond (q.value .PERIODS) (q.value .RATE) (q.value .BUFFER_TIME)
    (q.value .BUFFER_SIZE)

/-- Each value is one of the hardware's: those of the intervals, and the access and the format that
the masks are taken for. -/
structure Inside (cons q : PcmHwParams) : Prop where
  interval : ∀ t, t ≠ .ACCESS → t ≠ .FORMAT → is_range_of_hw_constrains q cons t
  access : ∃ k ∈ pcm_ffs (q .ACCESS).mask, (cons .ACCESS).mask.testBit k
  format : ∃ k ∈ pcm_ffs (q .FORMAT).mask, (cons .FORMAT).mask.testBit k

/-- The period of a request in whole bytes, and its time from the size or the bytes as it is only
there: less than a microsecond, or a second. -/
def Whole (p : PcmHwParams) : Prop :=
  if p.value .PERIOD_TIME ≠ 0 then 8 ∣ p.periodSize * p.frameBits
  else if p.value .PERIOD_SIZE ≠ 0 then
    8 ∣ p.value .PERIOD_SIZE * p.frameBits ∧ p.value .PERIOD_SIZE * 1000000 ≤ p.value .RATE
  else p.value .PERIOD_BYTES * 8 = p.value .RATE * p.frameBits

/-- What is not compared is inside. -/
structure Unchecked (cons p : PcmHwParams) : Prop where
  sample_bits : is_range_of_hw_constrains p cons .SAMPLE_BITS
  frame_bits : (cons .FRAME_BITS).min ≤ p.frameBits ∧ p.frameBits ≤ (cons .FRAME_BITS).max
  access : ∃ k ∈ pcm_ffs (p .ACCESS).mask, (cons .ACCESS).mask.testBit k
  format : ∃ k ∈ pcm_ffs (p .FORMAT).mask, (cons .FORMAT).mask.testBit k

variable {r s time size bytes : Nat}

theorem Correspond.mul (h : Correspond 1 r time size) (n : Nat) :
    Correspond n r (n * time) (n * size) := by
  constructor
  · calc n * time * r = n * (time * r) := Nat.mul_assoc _ _ _
      _ ≤ n * ((size + 1) * 1000000) := Nat.mul_le_mul_left n h.1
      _ = (n * size + n) * 1000000 := by ring
  · calc n * size * 1000000 = n * (size * 1000000) := Nat.mul_assoc _ _ _
      _ ≤ n * ((time + 1) * r) := Nat.mul_le_mul_left n h.2
      _ = (n * time + n) * r := by ring

/-- The size from the time. -/
theorem correspond_of_time (r time : Nat) : Correspond 1 r time (r * time / 1000000) := by
  have hcomm : time * r = r * time := Nat.mul_comm _ _
  have hsucc : (time + 1) * r = r * time + r := by ring
  constructor
  · rw [hcomm]
    omega
  · rw [hsucc]
    omega

/-- The time from the size, with a nought too few. -/
theorem correspond_of_size : Correspond 1 r (s * 100000 / r) s ↔ s * 1000000 ≤ r := by
  have hle : s * 100000 / r * r ≤ s * 100000 := Nat.div_mul_le_self _ _
  generalize s * 100000 / r = q at hle ⊢
  have hsucc : (q + 1) * r = q * r + r := Nat.succ_mul _ _
  constructor
  · rintro ⟨-, h⟩
    by_cases hzero : q = 0
    · rw [hzero] at h
      omega
    · -- a time of one or more takes a rate of at most 100000 sizes
      have hone : r ≤ q * r := Nat.le_mul_of_pos_left r (Nat.pos_of_ne_zero hzero)
      rw [hsucc] at h
      omega
  · intro h
    unfold Correspond
    constructor
    · exact hle.trans (Nat.mul_le_mul (Nat.le_succ s) (by decide))
    · rw [hsucc]
      exact h.trans (Nat.le_add_left r _)

/-- The time from the bytes, with the size and the rate exchanged. -/
theorem eq_of_correspond (hs : s ≠ 0) (hr : 1000000 * r < 2 ^ 32)
    (h : Correspond 1 r (1000000 * r / s) s) : s = r := by
  obtain ⟨h1, h2⟩ := h
  have hle : 1000000 * r / s * s ≤ 1000000 * r := Nat.div_mul_le_self _ _
  have hlt : 1000000 * r < 1000000 * r / s * s + s := Nat.lt_div_mul_add (Nat.pos_of_ne_zero hs)
  generalize 1000000 * r / s = q at *
  have hsmall : r ≤ 4294 := by omega
  rcases Nat.lt_trichotomy s r with hsr | rfl | hsr
  · -- the time would have to be a second, for one frame less than the rate
    have hq : 1000000 ≤ q := by
      by_contra hq
      have hle' : (q + 1) * s ≤ 1000000 * s := Nat.mul_le_mul_right s (by omega)
      rw [Nat.succ_mul] at hle'
      omega
    have hqr : 1000000 * r ≤ q * r := Nat.mul_le_mul_right r hq
    obtain rfl : r = s + 1 := by omega
    have hqle : q ≤ 1000000 := by
      rw [Nat.mul_comm (s + 1)] at h1
      exact Nat.le_of_mul_le_mul_right h1 (Nat.succ_pos s)
    obtain rfl : q = 1000000 := Nat.le_antisymm hqle hq
    omega
  · rfl
  · -- the squares of the two would have to be closer than their product's millionth
    have hss : r * s + s ≤ s * s := by
      rw [← Nat.succ_mul]
      exact Nat.mul_le_mul_right s hsr
    have hrs : r * r + r ≤ r * s := Nat.mul_le_mul_left r hsr
    have hqrs : q * s * r ≤ 1000000 * r * r := Nat.mul_le_mul_right r hle
    have h2s : s * 1000000 * s ≤ (q + 1) * r * s := Nat.mul_le_mul_right s h2
    have hsmalls : r * s ≤ 4294 * s := Nat.mul_le_mul_right s hsmall
    nlinarith only [hss, hrs, hqrs, h2s, hsmalls, hsr]

/-! ## The law -/

theorem period_iff (h : p.PeriodFits) :
    (p.periodBytes * 8 = p.periodSize * p.frameBits ∧
      Correspond 1 (p.value .RATE) p.periodTime p.periodSize) ↔ Whole p := by
  unfold PcmHwParams.PeriodFits at h
  unfold Whole
  by_cases htime : p.value .PERIOD_TIME ≠ 0
  · have hB : p.periodBytes = p.periodSize * p.frameBits / 8 := if_pos (Or.inl htime)
    have hT : p.periodTime = p.value .PERIOD_TIME := if_pos htime
    have hS : p.periodSize = p.value .RATE * p.value .PERIOD_TIME / 1000000 := if_pos htime
    have hcorr : Correspond 1 (p.value .RATE) p.periodTime p.periodSize := by
      rw [hT, hS]
      exact correspond_of_time _ _
    rw [if_pos htime, and_iff_left hcorr, hB, Nat.dvd_iff_div_mul_eq]
  · rw [if_neg htime] at h ⊢
    by_cases hsize : p.value .PERIOD_SIZE ≠ 0
    · have hB : p.periodBytes = p.periodSize * p.frameBits / 8 := if_pos (Or.inr hsize)
      have hT : p.periodTime = p.value .PERIOD_SIZE * 100000 / p.value .RATE := by
        simp [PcmHwParams.periodTime, htime, hsize]
      have hS : p.periodSize = p.value .PERIOD_SIZE := by
        simp [PcmHwParams.periodSize, htime, hsize]
      rw [if_pos hsize, hB, hT, hS, correspond_of_size, Nat.dvd_iff_div_mul_eq]
    · rw [if_neg hsize] at h ⊢
      obtain ⟨-, hF, hrate, hne⟩ := h
      have hS : p.periodSize = p.value .PERIOD_BYTES * 8 / p.frameBits := by
        simp [PcmHwParams.periodSize, htime, hsize]
      have hT : p.periodTime = 1000000 * p.value .RATE / p.periodSize := by
        simp [PcmHwParams.periodTime, htime, hsize]
      have hB : p.periodBytes = p.value .PERIOD_BYTES := by
        simp only [PcmHwParams.periodBytes, htime, hsize, or_false, if_false]
      rw [hB, hT]
      constructor
      · rintro ⟨hbytes, hcorr⟩
        rw [hbytes, eq_of_correspond hne hrate hcorr]
      · intro hbytes
        have hsecond : p.periodSize = p.value .RATE := by
          rw [hS, hbytes, Nat.mul_div_cancel _ (Nat.pos_of_ne_zero hF)]
        rw [hsecond] at hne ⊢
        refine ⟨hbytes, ?_⟩
        rw [Nat.mul_div_cancel _ (Nat.pos_of_ne_zero hne)]
        unfold Correspond
        omega

/-- The buffer agrees where its periods do. -/
theorem consistent_iff (h : p.PeriodFits) : Consistent p.derived ↔ Whole p := by
  rw [← period_iff h]
  constructor
  · intro hc
    exact ⟨by simpa using hc.period_bytes, by simpa using hc.period_time⟩
  · rintro ⟨hbytes, htime⟩
    have hbuffer : p.periods * p.periodBytes * 8 = p.periods * p.periodSize * p.frameBits := by
      rw [Nat.mul_assoc, hbytes, Nat.mul_assoc]
    exact {
      frame := by simp [PcmHwParams.frameBits]
      period_bytes := by simpa using hbytes
      buffer_bytes := by simpa using hbuffer
      buffer_size := by simp
      period_time := by simpa using htime
      buffer_time := by simpa using htime.mul p.periods }

theorem mem_checked : t ∈ checked ↔ t ∉ [HwParam.ACCESS, .FORMAT, .SAMPLE_BITS, .FRAME_BITS] := by
  cases t <;> decide

/-- What the check compares, and what it leaves out. -/
theorem inside_iff (h : checked.all (is_range_of_hw_constrains p.derived cons)) :
    Inside cons p.derived ↔ Unchecked cons p := by
  have haccess : (p.derived .ACCESS).mask = (p .ACCESS).mask := p.value_derived
  have hformat : (p.derived .FORMAT).mask = (p .FORMAT).mask := p.value_derived
  have hbits : is_range_of_hw_constrains p.derived cons .SAMPLE_BITS =
      is_range_of_hw_constrains p cons .SAMPLE_BITS := by simp [is_range_of_hw_constrains]
  have hframe : is_range_of_hw_constrains p.derived cons .FRAME_BITS ↔
      (cons .FRAME_BITS).min ≤ p.frameBits ∧ p.frameBits ≤ (cons .FRAME_BITS).max := by
    simp [is_range_of_hw_constrains]
  constructor
  · rintro ⟨hinterval, ha, hf⟩
    rw [haccess] at ha
    rw [hformat] at hf
    exact ⟨hbits ▸ hinterval .SAMPLE_BITS (by decide) (by decide),
      hframe.1 (hinterval .FRAME_BITS (by decide) (by decide)), ha, hf⟩
  · rintro ⟨hs, hb, ha, hf⟩
    refine ⟨fun t hta htf => ?_, by rwa [haccess], by rwa [hformat]⟩
    by_cases ht : t ∈ checked
    · exact List.all_eq_true.1 h t ht
    · rw [mem_checked, not_not] at ht
      simp only [List.mem_cons, List.not_mem_nil, or_false] at ht
      rcases ht with rfl | rfl | rfl | rfl
      · exact absurd rfl hta
      · exact absurd rfl htf
      · exact hbits ▸ hs
      · exact hframe.2 hb

/-- The check meets no fault and accepts only what agrees and is inside, exactly where the request
is refused for its format, or where nothing is too large or 0 and, unless a value is outside,
the period is whole and what is not compared is inside. -/
theorem snd_hw_constrains_check_iff (cons p : PcmHwParams) :
    (∃ q ret, (snd_hw_constrains_check cons p).Exact (q, ret) ∧
      (ret = 0 → Consistent q ∧ Inside cons q)) ↔
    (p .FORMAT).mask &&& (cons .FORMAT).mask = 0 ∨ p.Fits ∧
      ((∀ t ∈ checked, is_range_of_hw_constrains p.derived cons t) →
        Whole p ∧ Unchecked cons p) := by
  simp only [PcmHwParams.check_exact]
  by_cases hformat : (p .FORMAT).mask &&& (cons .FORMAT).mask = 0
  · simp only [hformat, true_or, iff_true]
    exact ⟨p, -1, ⟨rfl, rfl⟩, fun h => absurd h (by decide)⟩
  · simp only [hformat, false_or, ← List.all_eq_true]
    constructor
    · rintro ⟨q, ret, ⟨hfits, rfl, rfl⟩, h⟩
      refine ⟨hfits, fun hall => ?_⟩
      obtain ⟨hc, hi⟩ := h (if_pos hall)
      exact ⟨(consistent_iff hfits.period).1 hc, (inside_iff hall).1 hi⟩
    · rintro ⟨hfits, h⟩
      refine ⟨p.derived, _, ⟨hfits, rfl, rfl⟩, fun hret => ?_⟩
      have hall : checked.all (is_range_of_hw_constrains p.derived cons) := by
        by_contra hall
        rw [if_neg hall] at hret
        exact absurd hret (by decide)
      obtain ⟨hw, hu⟩ := h hall
      exact ⟨(consistent_iff hfits.period).2 hw, (inside_iff hall).2 hu⟩

/-- 48000 frames a second in periods of 1024, where everything is allowed: the period is said to take
2133 microseconds and is accepted. -/
theorem snd_hw_constrains_check_not :
    let cons : PcmHwParams := fun
      | .ACCESS => ⟨8, 8⟩
      | .FORMAT => ⟨4, 4⟩
      | _ => ⟨0, 2 ^ 32 - 1⟩
    let p : PcmHwParams := fun
      | .ACCESS => ⟨8, 8⟩
      | .FORMAT => ⟨4, 4⟩
      | .SAMPLE_BITS => ⟨16, 16⟩
      | .CHANNELS => ⟨2, 2⟩
      | .RATE => ⟨48000, 48000⟩
      | .PERIOD_SIZE => ⟨1024, 1024⟩
      | .PERIODS => ⟨4, 4⟩
      | _ => ⟨0, 0⟩
    ¬ ∃ q ret, (snd_hw_constrains_check cons p).Exact (q, ret) ∧
      (ret = 0 → Consistent q ∧ Inside cons q) := by
  rintro cons p ⟨q, ret, ⟨hresult, -⟩, h⟩
  have hrun : (snd_hw_constrains_check cons p).result.map (fun r =>
      (r.1.value .RATE, r.1.value .PERIOD_TIME, r.1.value .PERIOD_SIZE, r.2)) =
      some (48000, 2133, 1024, 0) := by decide +kernel
  rw [hresult, Option.map_some, Option.some.injEq] at hrun
  simp only [Prod.mk.injEq] at hrun
  obtain ⟨hrate, htime, hsize, rfl⟩ := hrun
  have hcorr := (h rfl).1.period_time
  rw [hrate, htime, hsize] at hcorr
  exact absurd hcorr.2 (by decide)

end Melis.Snd
