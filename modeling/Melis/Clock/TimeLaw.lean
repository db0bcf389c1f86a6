import Mathlib.Tactic.Linarith
import Melis.Clock.AvsCounter

/-!
# What the AVS counter returns

`Counts` ties the bases to the history of the run; each call keeps it. The bound `K` on
`100 - adjust_ratio` and the bound `T` on the clock keep the products in a `long long`.
-/

namespace Melis.Clock

open Lib

variable {K T t0 t now : Int} {h : History} {s : CedarxAvscounterContext} {e : AvsEvent}
  {es js : List AvsEvent}

/-! ## Stretches -/

namespace Stretch

variable {x : Stretch} {r r' : Int}

theorem time_nonneg (hratio : x.ratio ≤ 100) (hrun : 0 ≤ x.running) : 0 ≤ x.time :=
  Int.tdiv_nonneg (mul_nonneg hrun (by omega)) (by decide)

theorem time_mono (hratio : x.ratio ≤ 100) (h0 : 0 ≤ r) (hle : r ≤ r') :
    (⟨x.ratio, r⟩ : Stretch).time ≤ (⟨x.ratio, r'⟩ : Stretch).time := by
  have hprod : r * (100 - x.ratio) ≤ r' * (100 - x.ratio) :=
    mul_le_mul_of_nonneg_right hle (by omega)
  have hnonneg : 0 ≤ r * (100 - x.ratio) := mul_nonneg h0 (by omega)
  unfold time
  dsimp only
  rw [Int.tdiv_eq_ediv_of_nonneg hnonneg, Int.tdiv_eq_ediv_of_nonneg (hnonneg.trans hprod)]
  exact Int.ediv_le_ediv (by decide) hprod

theorem hundred_time_le (hratio : 100 - K ≤ x.ratio ∧ x.ratio ≤ 100) (hrun : 0 ≤ x.running) :
    100 * x.time ≤ K * x.running := by
  have hnonneg : 0 ≤ x.running * (100 - x.ratio) := mul_nonneg hrun (by omega)
  have hprod : x.running * (100 - x.ratio) ≤ x.running * K :=
    mul_le_mul_of_nonneg_left (by omega) hrun
  unfold time
  rw [Int.tdiv_eq_ediv_of_nonneg hnonneg, mul_comm K]
  omega

end Stretch

/-! ## The bases -/

/-- `K` bounds the factor, `T` the clock, and their product fits. -/
structure Bounds (K T : Int) : Prop where
  le_factor : 100 ≤ K
  factor_lt : K < 2 ^ 31
  product_lt : K * T < 2 ^ 63

structure Counts (K : Int) (h : History) (s : CedarxAvscounterContext) : Prop where
  ratio : s.adjust_ratio = h.current.ratio
  ratio_le : 100 - K ≤ h.current.ratio ∧ h.current.ratio ≤ 100
  status : if h.runs then s.mStatus = .Executing else s.mStatus = .Idle ∨ s.mStatus = .Pause
  base : s.base_time = (h.finished.map Stretch.time).sum
  /-- The system time less the pauses, at the last instant. -/
  custom : (if h.runs then h.last else s.mSystemPauseBaseTime) - s.mSystemPauseDuration =
    s.sample_time + h.current.running
  pause_le : s.mSystemPauseBaseTime ≤ h.last
  duration_nonneg : 0 ≤ s.mSystemPauseDuration
  sample_nonneg : 0 ≤ s.sample_time
  running_nonneg : 0 ≤ h.current.running
  base_nonneg : 0 ≤ s.base_time
  base_le : 100 * s.base_time ≤ K * s.sample_time

theorem Bounds.counts_reset (hB : Bounds K T) (h0 : 0 ≤ now) :
    Counts K (.initial now) (avscounter_reset now) where
  ratio := rfl
  ratio_le := ⟨by have := hB.le_factor; show 100 - K ≤ 0; omega, by show (0 : Int) ≤ 100; decide⟩
  status := .inl rfl
  base := rfl
  custom := rfl
  pause_le := le_rfl
  duration_nonneg := le_rfl
  sample_nonneg := h0
  running_nonneg := le_rfl
  base_nonneg := le_rfl
  base_le := mul_nonneg (by have := hB.le_factor; omega) h0

namespace Counts

theorem runningAt_nonneg (hC : Counts K h s) (hnow : h.last ≤ now) : 0 ≤ h.runningAt now := by
  have hrun := hC.running_nonneg
  unfold History.runningAt
  split <;> omega

/-- The custom system time at `now`. -/
theorem custom_at (hC : Counts K h s) (now : Int) :
    (if s.mStatus = .Executing then now - s.mSystemPauseDuration
      else s.mSystemPauseBaseTime - s.mSystemPauseDuration) = s.sample_time + h.runningAt now := by
  have hstatus := hC.status
  have hcustom := hC.custom
  unfold History.runningAt
  cases hruns : h.runs with
  | true =>
    rw [hruns, if_pos rfl] at hstatus hcustom
    rw [if_pos hstatus, if_pos rfl]
    omega
  | false =>
    rw [hruns, if_neg Bool.false_ne_true] at hstatus hcustom
    have hne : s.mStatus ≠ .Executing := by
      rcases hstatus with hs | hs <;> rw [hs] <;> decide
    rw [if_neg hne, if_neg Bool.false_ne_true]
    omega

theorem custom_le (hC : Counts K h s) (hnow : h.last ≤ now) :
    s.sample_time + h.runningAt now ≤ now := by
  have hdur := hC.duration_nonneg
  have hpause := hC.pause_le
  rw [← hC.custom_at now]
  split <;> omega

/-- The counter at `now`, in hundredths. -/
theorem hundred_total_le (hC : Counts K h s) (hnow : h.last ≤ now) :
    0 ≤ h.total now ∧ 100 * h.total now ≤ K * (s.sample_time + h.runningAt now) := by
  have hrun := hC.runningAt_nonneg hnow
  have htime := Stretch.time_nonneg (x := h.currentAt now) hC.ratio_le.2 hrun
  have htime' := Stretch.hundred_time_le (x := h.currentAt now) hC.ratio_le hrun
  have hnonneg := hC.base_nonneg
  have hbase := hC.base_le
  have hcur : (h.currentAt now).running = h.runningAt now := rfl
  unfold History.total
  rw [← hC.base, mul_add 100, mul_add K]
  rw [hcur] at htime'
  exact ⟨by omega, by omega⟩

/-- **The counter returns the total of its history.** -/
theorem get_time_l (hC : Counts K h s) (hB : Bounds K T) (hnow : h.last ≤ now) (hT : now ≤ T) :
    avscounter_get_time_l s now = some (h.total now, s.sample_time + h.runningAt now) := by
  have hrun := hC.runningAt_nonneg hnow
  have hcustom := hC.custom_le hnow
  have hsample := hC.sample_nonneg
  obtain ⟨htotal, htotal'⟩ := hC.hundred_total_le hnow
  have hK := hB.le_factor
  have hratio := hC.ratio_le
  have hKT := hB.product_lt
  have hKlt := hB.factor_lt
  have hKcustom : K * (s.sample_time + h.runningAt now) ≤ K * T :=
    mul_le_mul_of_nonneg_left (hcustom.trans hT) (by omega)
  have hTlt : 100 * T ≤ K * T := mul_le_mul_of_nonneg_right hK (by omega)
  have hscaled : 0 ≤ h.runningAt now * (100 - h.current.ratio) := mul_nonneg hrun (by omega)
  have hscaled' : h.runningAt now * (100 - h.current.ratio) ≤ T * K :=
    mul_le_mul (by omega) (by omega) (by omega) (by omega)
  rw [mul_comm T K] at hscaled'
  have hcurr : (h.runningAt now * (100 - h.current.ratio)).tdiv 100 + s.base_time = h.total now := by
    rw [hC.base, add_comm]
    rfl
  unfold avscounter_get_time_l
  rw [hC.custom_at, int64_eq (by omega) (by omega), Option.bind_eq_bind, Option.bind_some,
    add_sub_cancel_left, int64_eq (by omega) (by omega), Option.bind_some, hC.ratio,
    intAdd_eq (by omega) (by omega), Option.bind_some, ← sub_eq_add_neg,
    int64_eq (by omega) (by omega), Option.bind_some, hcurr, int64_eq (by omega) (by omega)]
  rfl

theorem get_time (hC : Counts K h s) (hB : Bounds K T) (hnow : h.last ≤ now) (hT : now ≤ T) :
    avscounter_get_time s now = some (h.total now) := by
  rw [avscounter_get_time, hC.get_time_l hB hnow hT]
  rfl

/-! ## Calls -/

theorem start (hC : Counts K h s) (hB : Bounds K T) (hnow : h.last ≤ now) (hT : now ≤ T) :
    ∃ s', avscounter_start s now = some s' ∧
      Counts K { h with current := h.currentAt now, last := now, runs := true } s' := by
  have hstatus := hC.status
  have hcustom := hC.custom
  have hpause := hC.pause_le
  have hdur := hC.duration_nonneg
  have hsample := hC.sample_nonneg
  have hrun := hC.running_nonneg
  have hTlt : 100 * T ≤ K * T :=
    mul_le_mul_of_nonneg_right hB.le_factor (by split at hcustom <;> omega)
  have hKT := hB.product_lt
  have hrunning := hC.runningAt_nonneg hnow
  unfold avscounter_start
  cases hruns : h.runs with
  | true =>
    rw [hruns, if_pos rfl] at hstatus hcustom
    rw [hstatus, if_neg (by decide)]
    refine ⟨s, rfl, { hC with
      status := hstatus, custom := ?_, pause_le := hpause.trans hnow, running_nonneg := hrunning }⟩
    unfold History.currentAt History.runningAt
    rw [hruns]
    dsimp only
    rw [if_pos rfl, if_pos rfl]
    omega
  | false =>
    rw [hruns, if_neg Bool.false_ne_true] at hstatus hcustom
    rw [if_pos hstatus, int64_eq (by omega) (by omega), Option.bind_eq_bind, Option.bind_some,
      int64_eq (by omega) (by omega)]
    refine ⟨_, rfl, { hC with
      status := rfl, custom := ?_, pause_le := hpause.trans hnow, running_nonneg := hrunning,
      duration_nonneg := by dsimp only; omega }⟩
    unfold History.currentAt History.runningAt
    rw [hruns]
    dsimp only
    rw [if_pos rfl, if_neg Bool.false_ne_true]
    omega

theorem pause (hC : Counts K h s) (hnow : h.last ≤ now) :
    Counts K { h with current := h.currentAt now, last := now, runs := false }
      (avscounter_pause s now) := by
  have hstatus := hC.status
  have hcustom := hC.custom
  have hpause := hC.pause_le
  have hrunning := hC.runningAt_nonneg hnow
  unfold avscounter_pause
  cases hruns : h.runs with
  | true =>
    rw [hruns, if_pos rfl] at hstatus hcustom
    rw [hstatus]
    refine { hC with
      status := .inr rfl, custom := ?_, pause_le := le_rfl, running_nonneg := hrunning }
    unfold History.currentAt History.runningAt
    rw [hruns]
    dsimp only
    rw [if_pos rfl, if_neg Bool.false_ne_true]
    omega
  | false =>
    rw [hruns, if_neg Bool.false_ne_true] at hstatus hcustom
    have hcustom' : s.mSystemPauseBaseTime - s.mSystemPauseDuration =
        s.sample_time + (h.currentAt now).running := by
      unfold History.currentAt History.runningAt
      rw [hruns]
      dsimp only
      rw [if_neg Bool.false_ne_true]
      omega
    rcases hstatus with hs | hs
    · rw [hs]
      exact { hC with
        status := .inr rfl, custom := hcustom', pause_le := hpause.trans hnow
        running_nonneg := hrunning }
    · rw [hs]
      exact { hC with
        status := .inr hs, custom := hcustom', pause_le := hpause.trans hnow
        running_nonneg := hrunning }

/-- Time passes. -/
theorem passes (hC : Counts K h s) (hnow : h.last ≤ now) :
    Counts K { h with current := h.currentAt now, last := now } s := by
  have hcustom := hC.custom
  refine { hC with
    custom := ?_, pause_le := hC.pause_le.trans hnow, running_nonneg := hC.runningAt_nonneg hnow }
  unfold History.currentAt History.runningAt
  dsimp only
  split at hcustom
  · rename_i hruns
    rw [if_pos hruns, if_pos hruns]
    omega
  · rename_i hruns
    rw [if_neg hruns, if_neg hruns]
    omega

/-- **An adjustment closes the stretch.** -/
theorem adjust (hC : Counts K h s) (hB : Bounds K T) (hnow : h.last ≤ now) (hT : now ≤ T) {val : Int}
    (hval : 100 - K ≤ val ∧ val ≤ 100) :
    ∃ s', avscounter_adjust s now val = some s' ∧ Counts K (h.next ⟨now, .adjust val⟩) s' := by
  have hpass := hC.passes hnow
  unfold avscounter_adjust History.next
  rw [hC.ratio]
  dsimp only
  by_cases heq : h.current.ratio = val
  · rw [if_neg (not_not.2 heq), if_pos heq]
    exact ⟨s, rfl, hpass⟩
  · obtain ⟨hnonneg, hle⟩ := hC.hundred_total_le hnow
    have hrunning := hC.runningAt_nonneg hnow
    have hsample := hC.sample_nonneg
    rw [if_pos heq, if_neg heq, hC.get_time_l hB hnow hT]
    refine ⟨_, rfl, { hpass with
      ratio := rfl, ratio_le := hval, base := ?_, custom := ?_, sample_nonneg := ?_
      running_nonneg := le_rfl, base_nonneg := hnonneg, base_le := hle }⟩
    · rw [List.map_append, List.sum_append, List.map_singleton, List.sum_singleton]
      rfl
    · rw [hpass.custom]
      exact (Int.add_zero _).symm
    · exact Int.add_nonneg hsample hrunning

/-- **A call keeps the bases.** -/
theorem next (hC : Counts K h s) (hB : Bounds K T) (h0 : 0 ≤ h.last) (hnow : h.last ≤ e.now)
    (hT : e.now ≤ T) (hval : ∀ val, e.call = .adjust val → 100 - K ≤ val ∧ val ≤ 100) :
    ∃ s', avsNext s e = some s' ∧ Counts K (h.next e) s' := by
  obtain ⟨now, call⟩ := e
  cases call with
  | reset => exact ⟨_, rfl, hB.counts_reset (h0.trans hnow)⟩
  | start => exact hC.start hB hnow hT
  | pause => exact ⟨_, rfl, hC.pause hnow⟩
  | adjust val => exact hC.adjust hB hnow hT (hval val rfl)
  | get_time =>
    refine ⟨s, ?_, hC.passes hnow⟩
    unfold avsNext
    dsimp only
    rw [hC.get_time hB hnow hT]
    rfl

end Counts

/-! ## Totals -/

theorem History.total_mono (hratio : h.current.ratio ≤ 100) (hrun : 0 ≤ h.current.running)
    (hnow : h.last ≤ now) (ht : now ≤ t) : h.total now ≤ h.total t := by
  have h0 : 0 ≤ h.runningAt now := by
    unfold runningAt
    split <;> omega
  have hle : h.runningAt now ≤ h.runningAt t := by
    unfold runningAt
    split <;> omega
  exact Int.add_le_add_left (Stretch.time_mono (x := h.current) hratio h0 hle) _

theorem History.total_of_not_runs (hruns : h.runs = false) : h.total now = h.total t := by
  unfold total currentAt runningAt
  rw [hruns, if_neg Bool.false_ne_true, if_neg Bool.false_ne_true]

theorem History.runningAt_last : h.runningAt h.last = h.current.running := by
  unfold runningAt
  rw [sub_self, ite_self, Int.add_zero]

/-- **No call but a reset moves the total at its instant.** -/
theorem History.total_next (hcall : e.call ≠ .reset) : (h.next e).total e.now = h.total e.now := by
  have hat (h' : History) (hlast : h'.last = e.now) :
      h'.total e.now = (h'.finished.map Stretch.time).sum + h'.current.time := by
    unfold total currentAt
    rw [← hlast, runningAt_last]
  obtain ⟨now, call⟩ := e
  cases call with
  | reset => exact absurd rfl hcall
  | start => rw [hat _ rfl]; rfl
  | pause => rw [hat _ rfl]; rfl
  | get_time => rw [hat _ rfl]; rfl
  | adjust val =>
    unfold next
    dsimp only
    split_ifs
    · rw [hat _ rfl]
      rfl
    · rw [hat _ rfl]
      dsimp only
      rw [List.map_append, List.sum_append, List.map_singleton, List.sum_singleton]
      have hzero : (⟨val, 0⟩ : Stretch).time = 0 := by
        unfold Stretch.time
        rw [Int.zero_mul, Int.zero_tdiv]
      rw [hzero, Int.add_zero]
      rfl

/-! ## Runs -/

/-- The clock starts at `t0`, does not go back up to `now`, and the ratios are in range. -/
structure Clocked (K T t0 : Int) (es : List AvsEvent) (now : Int) : Prop where
  start : 0 ≤ t0
  sorted : (t0 :: es.map AvsEvent.now ++ [now]).Pairwise (· ≤ ·)
  le : now ≤ T
  ratio : ∀ e ∈ es, ∀ val, e.call = .adjust val → 100 - K ≤ val ∧ val ≤ 100

theorem History.next_last : (h.next e).last = e.now := by
  obtain ⟨now, call⟩ := e
  unfold next
  cases call with
  | adjust val =>
    dsimp only
    split <;> rfl
  | reset => rfl
  | start => rfl
  | pause => rfl
  | get_time => rfl

theorem Clocked.le_now (hC : Clocked K T t0 es now) : t0 ≤ now :=
  (List.pairwise_cons.1 hC.sorted).1 now (List.mem_append_right _ (List.mem_singleton_self now))

theorem Clocked.head (hC : Clocked K T t0 (e :: es) now) : t0 ≤ e.now ∧ e.now ≤ now := by
  have htail := List.pairwise_cons.1 hC.sorted
  have hrest := List.pairwise_cons.1 htail.2
  exact ⟨htail.1 e.now List.mem_cons_self,
    hrest.1 now (List.mem_append_right _ (List.mem_singleton_self now))⟩

theorem Clocked.tail (hC : Clocked K T t0 (e :: es) now) : Clocked K T e.now es now where
  start := hC.start.trans hC.head.1
  sorted := (List.pairwise_cons.1 hC.sorted).2
  le := hC.le
  ratio e' he' := hC.ratio e' (List.mem_cons_of_mem _ he')

/-- The clock up to a call, from it on, and from the one to the other. -/
theorem Clocked.split (hC : Clocked K T t0 (es ++ e :: js) now) :
    (t0 :: es.map AvsEvent.now).Pairwise (· ≤ ·) ∧
      (e.now :: js.map AvsEvent.now ++ [now]).Pairwise (· ≤ ·) ∧
      ∀ x ∈ t0 :: es.map AvsEvent.now, x ≤ e.now := by
  have hpair := hC.sorted
  rw [List.map_append, List.map_cons, ← List.cons_append, List.append_assoc,
    List.pairwise_append] at hpair
  exact ⟨hpair.1, hpair.2.1, fun x hx => hpair.2.2 x hx e.now List.mem_cons_self⟩

theorem Clocked.upTo (hC : Clocked K T t0 (es ++ e :: js) now) : Clocked K T t0 es e.now where
  start := hC.start
  sorted := by
    refine List.pairwise_append.2 ⟨hC.split.1, List.pairwise_singleton _ _, fun x hx y hy => ?_⟩
    rw [List.mem_singleton.1 hy]
    exact hC.split.2.2 x hx
  le := ((List.pairwise_cons.1 hC.split.2.1).1 now
    (List.mem_append_right _ (List.mem_singleton_self now))).trans hC.le
  ratio e' he' := hC.ratio e' (List.mem_append_left _ he')

theorem Clocked.since (hC : Clocked K T t0 (es ++ e :: js) now) : Clocked K T e.now js now where
  start := hC.start.trans (hC.split.2.2 t0 List.mem_cons_self)
  sorted := hC.split.2.1
  le := hC.le
  ratio e' he' := hC.ratio e' (List.mem_append_right _ (List.mem_cons_of_mem _ he'))

theorem Clocked.later (hC : Clocked K T t0 es now) (hle : now ≤ t) (hT : t ≤ T) :
    Clocked K T t0 es t where
  start := hC.start
  sorted := by
    have hpair := List.pairwise_append.1 hC.sorted
    refine List.pairwise_append.2 ⟨hpair.1, List.pairwise_singleton _ _, fun x hx y hy => ?_⟩
    rw [List.mem_singleton.1 hy]
    exact (hpair.2.2 x hx now (List.mem_singleton_self now)).trans hle
  le := hT
  ratio := hC.ratio

theorem Counts.run (hC : Counts K h s) (hB : Bounds K T) (hk : Clocked K T h.last es now) :
    ∃ s', avsCounter.run s es = some s' ∧ Counts K (es.foldl .next h) s' ∧
      (es.foldl .next h).last ≤ now := by
  induction es generalizing h s with
  | nil => exact ⟨s, rfl, hC, hk.le_now⟩
  | cons e es ih =>
    obtain ⟨hlast, hnow⟩ := hk.head
    obtain ⟨s', hs', hC'⟩ := hC.next hB hk.start hlast (hnow.trans hk.le)
      (hk.ratio e List.mem_cons_self)
    have htail := hk.tail
    rw [← History.next_last (h := h) (e := e)] at htail
    obtain ⟨s'', hrun, hC''⟩ := ih hC' htail
    exact ⟨s'', Machine.run_cons_eq_some.2 ⟨s', hs', hrun⟩, hC''⟩

/-- The total does not go back. -/
theorem Counts.total_le (hC : Counts K h s) (hB : Bounds K T) (hk : Clocked K T h.last js now)
    (hno : ∀ e ∈ js, e.call ≠ .reset) : h.total h.last ≤ (js.foldl .next h).total now := by
  induction js generalizing h s with
  | nil => exact History.total_mono hC.ratio_le.2 hC.running_nonneg le_rfl hk.le_now
  | cons e js ih =>
    obtain ⟨hlast, hnow⟩ := hk.head
    obtain ⟨s', hs', hC'⟩ := hC.next hB hk.start hlast (hnow.trans hk.le)
      (hk.ratio e List.mem_cons_self)
    have htail := hk.tail
    rw [← History.next_last (h := h) (e := e)] at htail
    calc h.total h.last ≤ h.total e.now :=
          History.total_mono hC.ratio_le.2 hC.running_nonneg le_rfl hlast
      _ = (h.next e).total (h.next e).last := by
          rw [History.next_last, History.total_next (hno e List.mem_cons_self)]
      _ ≤ _ := ih hC' htail fun e' he' => hno e' (List.mem_cons_of_mem _ he')

theorem history_append : history t0 (es ++ js) = js.foldl .next (history t0 es) :=
  List.foldl_append

/-- **What is returned is the total of the stretches.** -/
theorem timeAfter_eq (hB : Bounds K T) (hk : Clocked K T t0 es now) :
    timeAfter t0 es now = some ((history t0 es).total now) := by
  obtain ⟨s, hrun, hC, hlast⟩ := (hB.counts_reset hk.start).run hB hk
  unfold timeAfter
  rw [hrun, Option.bind_some]
  exact hC.get_time hB hlast hk.le

/-- The total of the stretches, no step back, no step at a call, none while it stands still. -/
theorem avs_time_law (hB : Bounds K T) (t0 : Int) (es : List AvsEvent) :
    (∀ t, Clocked K T t0 es t → timeAfter t0 es t = some ((history t0 es).total t)) ∧
    (∀ t js t', Clocked K T t0 (es ++ ⟨t, .get_time⟩ :: js) t' → (∀ e ∈ js, e.call ≠ .reset) →
      ∃ x y, timeAfter t0 es t = some x ∧
        timeAfter t0 (es ++ ⟨t, .get_time⟩ :: js) t' = some y ∧ x ≤ y) ∧
    (∀ t call, Clocked K T t0 (es ++ [⟨t, call⟩]) t → call ≠ .reset →
      timeAfter t0 (es ++ [⟨t, call⟩]) t = timeAfter t0 es t) ∧
    ∀ t t', Clocked K T t0 es t → t ≤ t' → t' ≤ T → (history t0 es).runs = false →
      timeAfter t0 es t' = timeAfter t0 es t := by
  refine ⟨fun t hk => timeAfter_eq hB hk, fun t js t' hk hno => ?_, fun t call hk hcall => ?_,
    fun t t' hk hle hT hruns => ?_⟩
  · refine ⟨_, _, timeAfter_eq hB hk.upTo, timeAfter_eq hB hk, ?_⟩
    obtain ⟨s, _, hC, hlast⟩ := (hB.counts_reset hk.start).run hB hk.upTo
    have hread : Counts K ((history t0 es).next ⟨t, .get_time⟩) s := hC.passes hlast
    have hsince := hk.since
    have hle := hread.total_le hB hsince hno
    rw [history_append, List.foldl_cons]
    exact (History.total_next (h := history t0 es) (e := ⟨t, .get_time⟩) nofun).symm.trans_le hle
  · rw [timeAfter_eq hB hk, timeAfter_eq hB hk.upTo, history_append, List.foldl_cons,
      List.foldl_nil]
    exact congrArg some (History.total_next (e := ⟨t, call⟩) hcall)
  · have hk' : Clocked K T t0 es t' := hk.later hle hT
    rw [timeAfter_eq hB hk', timeAfter_eq hB hk, History.total_of_not_runs hruns]

/-- Ten at the full rate and twenty at sixty percent, and then a pause. -/
theorem avs_time_law_slowed : timeAfter 0 [⟨5, .start⟩, ⟨15, .adjust 40⟩, ⟨35, .pause⟩] 90 = some 22 := by
  have hk : Clocked 200 100 0 [⟨5, .start⟩, ⟨15, .adjust 40⟩, ⟨35, .pause⟩] 90 :=
    { start := le_rfl
      sorted := by decide
      le := by decide
      ratio := by simp }
  have hB : Bounds 200 100 := ⟨by decide, by decide, by decide⟩
  exact ((avs_time_law hB 0 _).1 90 hk).trans (by decide)

/-- The factor of the lowest ratio is no `int`. -/
theorem lowest_ratio : timeAfter 0 [⟨0, .start⟩, ⟨0, .adjust (-2 ^ 31)⟩] 1 = none := by decide

end Melis.Clock
