import Melis.Clock.Speed

/-!
# What the speed settings promise

`speed_iff`: in which runs the speed asked for is the one that is set, the ratio of a counter
that runs keeps to it, and no ratio overflows.
-/

namespace Melis.Clock

open Lib

variable {s s' : SpeedState} {call : SpeedCall} {context context' : CedarxAvscounterContext}
  {r d nDstRatio val now : Int}

/-! ## The promises -/

/-- The ratio is within 3 of the speed asked for, and equal to it when the last difference to the
reference was within 50 ms. -/
structure OnSpeed (s : SpeedState) : Prop where
  near : -3 ≤ s.avs_counter.adjust_ratio - s.asked ∧ s.avs_counter.adjust_ratio - s.asked ≤ 3
  equal : ∀ d, s.lastDiff = some d → ¬ Apart d → s.avs_counter.adjust_ratio = s.asked

/-- A counter that runs is on speed. -/
def Keeps (s : SpeedState) : Prop := s.avs_counter.mStatus = .Executing → OnSpeed s

/-- `ClockGetConfig` returns the speed that `ClockSetConfig` was called with. -/
def Returns (_s : SpeedState) (call : SpeedCall) (s' : SpeedState) : Prop :=
  ∀ vps now, call = .setConfigVps vps now → ClockGetVps s' = vps

/-- The ratio for that difference overflows nowhere. -/
structure RatioFits (nDstRatio d : Int) : Prop where
  factor : -2 ^ 31 ≤ 100 - nDstRatio ∧ 100 - nDstRatio < 2 ^ 31
  product : -2 ^ 63 ≤ (100 - nDstRatio) * d ∧ (100 - nDstRatio) * d < 2 ^ 63
  precise : -2 ^ 63 ≤ nDstRatio - ((100 - nDstRatio) * d).tdiv AVS_ADJUST_PERIOD ∧
    nDstRatio - ((100 - nDstRatio) * d).tdiv AVS_ADJUST_PERIOD < 2 ^ 63
  excess : -2 ^ 31 ≤
      i32 (nDstRatio - ((100 - nDstRatio) * d).tdiv AVS_ADJUST_PERIOD) - nDstRatio ∧
    i32 (nDstRatio - ((100 - nDstRatio) * d).tdiv AVS_ADJUST_PERIOD) - nDstRatio < 2 ^ 31
  ratio : -2 ^ 31 ≤ clampRatio
      (i32 (nDstRatio - ((100 - nDstRatio) * d).tdiv AVS_ADJUST_PERIOD) - nDstRatio) + nDstRatio ∧
    clampRatio (i32 (nDstRatio - ((100 - nDstRatio) * d).tdiv AVS_ADJUST_PERIOD) - nDstRatio) +
      nDstRatio < 2 ^ 31

/-- A reference moves a counter that runs from a speed only if it is far away, and its ratio does
not overflow. -/
structure Follows (s : SpeedState) (d : Int) : Prop where
  fits : Apart d → RatioFits s.nDstRatio d
  keeps : s.avs_counter.mStatus = .Executing → ¬ Apart d → s.nDstRatio = 0

/-- When the calls keep the promises. -/
def SpeedSound (s : SpeedState) : SpeedCall → Prop
  | .setConfigVps vps _ => vps = s.nDstRatio
  | .adjustClock nTimestamp now _ => ∀ d, mediaTimediff s nTimestamp now = some d → Follows s d
  | .setState cmddata _ _ => cmddata = .Executing → s.state = .Pause →
    s.avs_counter.mStatus = .Idle ∨ s.avs_counter.mStatus = .Pause → OnSpeed s
  | _ => True

/-- The times of the counter and of the reference do not overflow. -/
def InTime (s : SpeedState) : SpeedCall → Prop
  | .adjustClock nTimestamp now later => (mediaTimediff s nTimestamp now).isSome ∧
    (avscounter_get_time_l s.avs_counter later).isSome
  | call => (speedNext s call).isSome

/-! ## Ratios -/

theorem clampRatio_bounds (x : Int) : -3 ≤ clampRatio x ∧ clampRatio x ≤ 3 := by
  unfold clampRatio
  dsimp only
  split <;> split <;> omega

theorem intAdd_some_iff {x y z : Int} :
    intAdd x y = some z ↔ (-2 ^ 31 ≤ x + y ∧ x + y < 2 ^ 31) ∧ x + y = z := by
  unfold intAdd
  split
  · rename_i h
    simp only [Option.some.injEq, iff_true_intro h, true_and]
  · rename_i h
    exact iff_of_false nofun fun hz => h hz.1

theorem int64_some_iff {x y : Int} :
    int64 x = some y ↔ (-2 ^ 63 ≤ x ∧ x < 2 ^ 63) ∧ x = y := by
  unfold int64
  split
  · rename_i h
    simp only [Option.some.injEq, iff_true_intro h, true_and]
  · rename_i h
    exact iff_of_false nofun fun hy => h hy.1

/-- A reference that is far away moves the ratio where nothing overflows, by at most 3. -/
theorem adjustRatio_apart (h : Apart d) (hfits : RatioFits nDstRatio d) :
    ∃ r, adjustRatio nDstRatio d = some r ∧ -3 ≤ r - nDstRatio ∧ r - nDstRatio ≤ 3 := by
  refine ⟨clampRatio (i32 (nDstRatio - ((100 - nDstRatio) * d).tdiv AVS_ADJUST_PERIOD) -
    nDstRatio) + nDstRatio, ?_, ?_⟩
  · unfold adjustRatio
    rw [if_pos h]
    simp only [Option.bind_eq_bind, Option.bind_eq_some_iff, intAdd_some_iff, int64_some_iff,
      ← Int.sub_eq_add_neg]
    exact ⟨_, ⟨hfits.factor, rfl⟩, _, ⟨hfits.product, rfl⟩, _, ⟨hfits.precise, rfl⟩, _,
      ⟨hfits.excess, rfl⟩, hfits.ratio, rfl⟩
  · have hbounds := clampRatio_bounds
      (i32 (nDstRatio - ((100 - nDstRatio) * d).tdiv AVS_ADJUST_PERIOD) - nDstRatio)
    rw [Int.add_sub_cancel]
    exact hbounds

theorem adjustRatio_fits (h : Apart d) (hr : adjustRatio nDstRatio d = some r) :
    RatioFits nDstRatio d := by
  unfold adjustRatio at hr
  rw [if_pos h] at hr
  simp only [Option.bind_eq_bind, Option.bind_eq_some_iff, intAdd_some_iff, int64_some_iff,
    ← Int.sub_eq_add_neg] at hr
  obtain ⟨_, ⟨hfactor, rfl⟩, _, ⟨hproduct, rfl⟩, _, ⟨hprecise, rfl⟩, _, ⟨hexcess, rfl⟩, hratio,
    -⟩ := hr
  exact ⟨hfactor, hproduct, hprecise, hexcess, hratio⟩

theorem adjustRatio_within (h : ¬ Apart d) : adjustRatio nDstRatio d = some 0 := if_neg h

/-! ## The counter -/

theorem adjust_eq (h : avscounter_adjust context now val = some context') :
    context'.adjust_ratio = val ∧ context'.mStatus = context.mStatus := by
  unfold avscounter_adjust at h
  split at h
  · simp only [Option.bind_eq_bind, Option.bind_eq_some_iff, Option.pure_def,
      Option.some.injEq] at h
    obtain ⟨_, -, rfl⟩ := h
    exact ⟨rfl, rfl⟩
  · rename_i hsame
    cases h
    exact ⟨not_not.1 hsame, rfl⟩

theorem adjust_isSome (h : (avscounter_get_time_l context now).isSome) (val : Int) :
    ∃ context', avscounter_adjust context now val = some context' := by
  obtain ⟨p, hp⟩ := Option.isSome_iff_exists.1 h
  unfold avscounter_adjust
  split
  · rw [hp]
    exact ⟨_, rfl⟩
  · exact ⟨_, rfl⟩

theorem start_eq (h : avscounter_start context now = some context') :
    context'.adjust_ratio = context.adjust_ratio := by
  unfold avscounter_start at h
  split at h
  · simp only [Option.bind_eq_bind, Option.bind_eq_some_iff, Option.pure_def,
      Option.some.injEq] at h
    obtain ⟨_, -, _, -, rfl⟩ := h
    rfl
  · cases h
    rfl

/-- A start has no effect on a counter that runs. -/
theorem start_status (h : avscounter_start context now = some context')
    (hidle : ¬ (context.mStatus = .Idle ∨ context.mStatus = .Pause)) : context' = context := by
  unfold avscounter_start at h
  rw [if_neg hidle] at h
  exact (Option.some.inj h).symm

theorem start_runs (h : avscounter_start context now = some context')
    (hidle : context.mStatus = .Idle ∨ context.mStatus = .Pause) :
    context'.mStatus = .Executing := by
  unfold avscounter_start at h
  rw [if_pos hidle] at h
  simp only [Option.bind_eq_bind, Option.bind_eq_some_iff, Option.pure_def,
    Option.some.injEq] at h
  obtain ⟨_, -, _, -, rfl⟩ := h
  rfl

theorem pause_stops (context : CedarxAvscounterContext) (now : Int) :
    (avscounter_pause context now).mStatus ≠ .Executing := by
  unfold avscounter_pause
  cases hstatus : context.mStatus <;> simp [hstatus]

/-! ## One call -/

/-- What holds between the calls: the speed asked for is the one that is set. -/
structure Speedy (s : SpeedState) : Prop where
  keeps : Keeps s
  asked : s.nDstRatio = s.asked

theorem Speedy.of_same (h : Speedy s) (hcounter : s'.avs_counter = s.avs_counter)
    (hratio : s'.nDstRatio = s.nDstRatio) (hasked : s'.asked = s.asked)
    (hdiff : s'.lastDiff = s.lastDiff) : Speedy s' := by
  refine ⟨fun hruns => ?_, (hratio.trans h.asked).trans hasked.symm⟩
  rw [hcounter] at hruns
  obtain ⟨hnear, hequal⟩ := h.keeps hruns
  refine ⟨?_, fun d hd hnot => ?_⟩
  · rw [hcounter, hasked]
    exact hnear
  · rw [hcounter, hasked]
    exact hequal d (hdiff.symm.trans hd) hnot

theorem exact_of_kept (hsound : SpeedSound s call) (hs : speed.next s call = some s')
    (hcall : ∀ vps now, call ≠ .setConfigVps vps now) (h : Speedy s') :
    speed.Exact Speedy Keeps Returns SpeedSound s call :=
  .kept hsound s' hs (fun vps now hc => absurd hc (hcall vps now)) h

theorem setConfigVps_exact (vps now : Int) (h : Speedy s) :
    speed.Exact Speedy Keeps Returns SpeedSound s (.setConfigVps vps now) := by
  have hnext : speed.next s (.setConfigVps vps now) = some { s with asked := vps } := by
    show (ClockSetVps s s.nDstRatio now).map _ = _
    rw [ClockSetVps, if_pos rfl]
    rfl
  by_cases hsound : vps = s.nDstRatio
  · refine .kept hsound _ hnext ?_ (h.of_same rfl rfl (hsound.trans h.asked) rfl)
    rintro _ _ ⟨⟩
    exact hsound.symm
  · refine .lost hsound fun s' hs hreturns _ => ?_
    cases hnext.symm.trans hs
    exact hsound (hreturns vps now rfl).symm

theorem setVps_exact (val now : Int) (h : Speedy s) (htime : InTime s (.setVps val now)) :
    speed.Exact Speedy Keeps Returns SpeedSound s (.setVps val now) := by
  obtain ⟨s', hs⟩ := Option.isSome_iff_exists.1 htime
  refine exact_of_kept trivial hs nofun ?_
  obtain ⟨t, ht, rfl⟩ := Option.map_eq_some_iff.1 hs
  unfold ClockSetVps at ht
  split at ht
  · rename_i heq
    cases ht
    exact h.of_same rfl rfl (heq.symm.trans h.asked) rfl
  · simp only [Option.bind_eq_bind, Option.bind_eq_some_iff, Option.pure_def,
      Option.some.injEq] at ht
    obtain ⟨context, hadjust, rfl⟩ := ht
    have hratio : context.adjust_ratio - val = 0 := by
      rw [(adjust_eq hadjust).1, Int.sub_self]
    refine ⟨fun _ => ⟨?_, fun _ _ _ => (adjust_eq hadjust).1⟩, rfl⟩
    show -3 ≤ context.adjust_ratio - val ∧ context.adjust_ratio - val ≤ 3
    omega

theorem adjustClock_exact (nTimestamp now later : Int) (h : Speedy s)
    (htime : InTime s (.adjustClock nTimestamp now later)) :
    speed.Exact Speedy Keeps Returns SpeedSound s (.adjustClock nTimestamp now later) := by
  obtain ⟨⟨d, hd⟩, hget⟩ := And.imp_left Option.isSome_iff_exists.1 htime
  have hsound : SpeedSound s (.adjustClock nTimestamp now later) ↔ Follows s d := by
    constructor
    · intro hall
      exact hall d hd
    · intro hf d' hd'
      cases hd.symm.trans hd'
      exact hf
  have hnext : speed.next s (.adjustClock nTimestamp now later) =
      (adjustRatio s.nDstRatio d).bind fun r =>
        (avscounter_adjust s.avs_counter later r).map fun avs_counter =>
          { s with avs_counter, lastDiff := some d } := by
    show ClockAdjustClock s nTimestamp now later = _
    unfold ClockAdjustClock
    rw [hd]
    simp only [Option.bind_eq_bind, Option.bind_some, Option.map_eq_bind]
    rfl
  -- the counter takes every ratio
  have hof (r : Int) (hr : adjustRatio s.nDstRatio d = some r) :
      ∃ context, speed.next s (.adjustClock nTimestamp now later) =
          some { s with avs_counter := context, lastDiff := some d } ∧
        context.adjust_ratio = r ∧ context.mStatus = s.avs_counter.mStatus := by
    obtain ⟨context, hadjust⟩ := adjust_isSome hget r
    refine ⟨context, ?_, adjust_eq hadjust⟩
    rw [hnext, hr, Option.bind_some, hadjust]
    rfl
  by_cases hapart : Apart d
  · by_cases hfits : RatioFits s.nDstRatio d
    · obtain ⟨r, hr, hnear⟩ := adjustRatio_apart hapart hfits
      obtain ⟨context, hs, hratio, -⟩ := hof r hr
      refine exact_of_kept (hsound.2 ⟨fun _ => hfits, fun _ hnot => absurd hapart hnot⟩) hs nofun
        ⟨fun _ => ⟨?_, ?_⟩, h.asked⟩
      · show -3 ≤ context.adjust_ratio - s.asked ∧ context.adjust_ratio - s.asked ≤ 3
        rw [hratio, ← h.asked]
        exact hnear
      · rintro _ ⟨⟩ hnot
        exact absurd hapart hnot
    · refine .lost (fun hs => hfits ((hsound.1 hs).fits hapart)) fun s' hs _ _ => ?_
      rw [hnext] at hs
      obtain ⟨r, hr, -⟩ := Option.bind_eq_some_iff.1 hs
      exact hfits (adjustRatio_fits hapart hr)
  · obtain ⟨context, hs, hratio, hstatus⟩ := hof 0 (adjustRatio_within hapart)
    by_cases hfollows : Follows s d
    · refine exact_of_kept (hsound.2 hfollows) hs nofun ⟨fun hruns => ?_, h.asked⟩
      have hzero : context.adjust_ratio = s.asked := by
        rw [hratio, ← h.asked, hfollows.keeps (hstatus.symm.trans hruns) hapart]
      refine ⟨?_, fun _ _ _ => hzero⟩
      show -3 ≤ context.adjust_ratio - s.asked ∧ context.adjust_ratio - s.asked ≤ 3
      omega
    · refine .lost (fun hs => hfollows (hsound.1 hs)) fun s' hs' _ hkeeps => hfollows ?_
      cases hs.symm.trans hs'
      refine ⟨fun hyes => absurd hyes hapart, fun hruns _ => ?_⟩
      have hequal := (hkeeps (hstatus.trans hruns)).equal d rfl hapart
      exact h.asked.trans (hequal.symm.trans hratio)

/-- The component starts to execute. -/
theorem executing_exact (now later : Int) (h : Speedy s)
    (htime : InTime s (.setState .Executing now later)) :
    speed.Exact Speedy Keeps Returns SpeedSound s (.setState .Executing now later) := by
  obtain ⟨s', hs⟩ := Option.isSome_iff_exists.1 htime
  have hset : setState s .Executing now later = some s' := hs
  unfold setState at hset
  cases hstate : s.state with
  | Idle =>
    rw [if_neg (by rw [hstate]; decide)] at hset
    simp only [hstate, if_true, true_or, Option.bind_eq_bind, Option.bind_eq_some_iff,
      Option.pure_def, Option.some.injEq] at hset
    obtain ⟨adjusted, hadjust, context, hstart, rfl⟩ := hset
    have hratio : context.adjust_ratio = s.asked := by
      rw [start_eq hstart, (adjust_eq hadjust).1, h.asked]
    have hnot : SpeedSound s (.setState .Executing now later) := fun _ hpause =>
      absurd (hstate.symm.trans hpause) nofun
    refine exact_of_kept hnot hs nofun ⟨fun _ => ⟨?_, fun _ _ _ => hratio⟩, h.asked⟩
    show -3 ≤ context.adjust_ratio - s.asked ∧ context.adjust_ratio - s.asked ≤ 3
    omega
  | Pause =>
    rw [if_neg (by rw [hstate]; decide)] at hset
    simp only [hstate, reduceCtorEq, if_false, or_true, if_true, Option.bind_eq_bind,
      Option.bind_some, Option.bind_eq_some_iff, Option.pure_def, Option.some.injEq] at hset
    obtain ⟨context, hstart, rfl⟩ := hset
    have hratio := start_eq hstart
    by_cases hstops : s.avs_counter.mStatus = .Idle ∨ s.avs_counter.mStatus = .Pause
    · by_cases hon : OnSpeed s
      · refine exact_of_kept (fun _ _ _ => hon) hs nofun ⟨fun _ => ?_, h.asked⟩
        refine ⟨?_, fun d hd hnot => hratio.trans (hon.equal d hd hnot)⟩
        show -3 ≤ context.adjust_ratio - s.asked ∧ context.adjust_ratio - s.asked ≤ 3
        rw [hratio]
        exact hon.near
      · refine .lost (fun hsound => hon (hsound rfl hstate hstops)) fun t ht _ hkeeps => hon ?_
        cases hs.symm.trans ht
        obtain ⟨hnear, hequal⟩ := hkeeps (start_runs hstart hstops)
        exact ⟨hratio ▸ hnear, fun d hd hnot => hratio.symm.trans (hequal d hd hnot)⟩
    · cases start_status hstart hstops
      exact exact_of_kept (fun _ _ hyes => absurd hyes hstops) hs nofun
        (h.of_same rfl rfl rfl rfl)
  | _ =>
    simp only [hstate, reduceCtorEq, if_false, if_true, or_self, Option.some.injEq] at hset
    cases hset
    refine exact_of_kept (fun _ hpause => ?_) hs nofun h
    exact absurd (hstate.symm.trans hpause) nofun

theorem setState_exact (cmddata : COMP_STATETYPE) (now later : Int) (h : Speedy s)
    (htime : InTime s (.setState cmddata now later)) :
    speed.Exact Speedy Keeps Returns SpeedSound s (.setState cmddata now later) := by
  by_cases hexec : cmddata = .Executing
  · cases hexec
    exact executing_exact now later h htime
  · obtain ⟨s', hs⟩ := Option.isSome_iff_exists.1 htime
    refine exact_of_kept (fun hyes => absurd hyes hexec) hs nofun ?_
    have hset : setState s cmddata now later = some s' := hs
    unfold setState at hset
    split at hset
    · cases hset
      exact h
    · cases cmddata with
      | Executing => exact absurd rfl hexec
      | Idle =>
        simp only [Option.some.injEq] at hset
        rw [← hset]
        split
        · exact ⟨nofun, h.asked⟩
        · exact ⟨nofun, h.asked⟩
      | Pause =>
        simp only at hset
        split at hset
        · cases hset
          exact ⟨fun hruns => absurd hruns (pause_stops s.avs_counter now), h.asked⟩
        · cases hset
          exact h
      | _ =>
        cases hset
        exact h.of_same rfl rfl rfl rfl

theorem speed_exact (h : Speedy s) (htime : InTime s call) :
    speed.Exact Speedy Keeps Returns SpeedSound s call := by
  cases call with
  | setConfigVps vps now => exact setConfigVps_exact vps now h
  | setVps val now => exact setVps_exact val now h htime
  | adjustClock nTimestamp now later => exact adjustClock_exact nTimestamp now later h htime
  | setState cmddata now later => exact setState_exact cmddata now later h htime
  | setBases WallTimeBase MediaTimeBase =>
    exact exact_of_kept trivial rfl nofun (h.of_same rfl rfl rfl rfl)

theorem speedy_init (now : Int) : Speedy (speedInit now) := ⟨nofun, rfl⟩

theorem upholds_speed_iff {calls : List SpeedCall} (h : Speedy s)
    (htime : speed.Meets InTime s calls) :
    speed.Upholds Keeps Returns s calls ↔ speed.Meets SpeedSound s calls :=
  Machine.upholds_iff_meets (fun _ h => h.keeps) (fun _ _ h ht => speed_exact h ht) h htime

/-- A run of calls on a new component keeps the promises just if its calls are sound. -/
theorem speed_iff (now : Int) (calls : List SpeedCall)
    (htime : speed.Meets InTime (speedInit now) calls) :
    speed.Upholds Keeps Returns (speedInit now) calls ↔
      speed.Meets SpeedSound (speedInit now) calls :=
  upholds_speed_iff (speedy_init now) htime

/-! ## Some runs -/

instance : DecidablePred OnSpeed := fun s =>
  have : Decidable (∀ d, s.lastDiff = some d → ¬ Apart d → s.avs_counter.adjust_ratio = s.asked) :=
    match s.lastDiff with
    | none => .isTrue nofun
    | some d => decidable_of_iff (¬ Apart d → s.avs_counter.adjust_ratio = s.asked)
      ⟨fun h _ hd => Option.some.inj hd ▸ h, fun h => h d rfl⟩
  decidable_of_iff (_ ∧ _) ⟨fun h => ⟨h.1, h.2⟩, fun h => ⟨h.near, h.equal⟩⟩

instance (nDstRatio d : Int) : Decidable (RatioFits nDstRatio d) :=
  decidable_of_iff (_ ∧ _ ∧ _ ∧ _ ∧ _)
    ⟨fun ⟨h1, h2, h3, h4, h5⟩ => ⟨h1, h2, h3, h4, h5⟩,
      fun ⟨h1, h2, h3, h4, h5⟩ => ⟨h1, h2, h3, h4, h5⟩⟩

instance (s : SpeedState) (d : Int) : Decidable (Follows s d) :=
  decidable_of_iff (_ ∧ _) ⟨fun h => ⟨h.1, h.2⟩, fun h => ⟨h.fits, h.keeps⟩⟩

instance (s : SpeedState) : ∀ call, Decidable (SpeedSound s call)
  | .setConfigVps vps _ => inferInstanceAs (Decidable (vps = s.nDstRatio))
  | .adjustClock nTimestamp now _ =>
    match h : mediaTimediff s nTimestamp now with
    | none => .isTrue fun _ hd => nomatch h.symm.trans hd
    | some d => decidable_of_iff (Follows s d)
      ⟨fun hf _ hd => Option.some.inj (h.symm.trans hd) ▸ hf, fun hall => hall d h⟩
  | .setState _ _ _ => inferInstanceAs (Decidable (_ → _ → _ → OnSpeed s))
  | .setVps _ _ => .isTrue trivial
  | .setBases _ _ => .isTrue trivial

instance (s : SpeedState) : ∀ call, Decidable (InTime s call)
  | .adjustClock _ _ _ => inferInstanceAs (Decidable (_ ∧ _))
  | .setConfigVps _ _ => inferInstanceAs (Decidable (Option.isSome _ = true))
  | .setVps _ _ => inferInstanceAs (Decidable (Option.isSome _ = true))
  | .setState _ _ _ => inferInstanceAs (Decidable (Option.isSome _ = true))
  | .setBases _ _ => inferInstanceAs (Decidable (Option.isSome _ = true))

/-- The speed is set to 40, and a reference that is a second ahead is followed. -/
theorem speed_iff_ahead : speed.Upholds Keeps Returns (speedInit 0)
    [.setState .Idle 0 0, .setVps 40 0, .setState .Executing 1000 1000,
      .adjustClock 3000000 1001000 1001000, .setState .Pause 2000000 2000000,
      .setConfigVps 40 2000000] :=
  (speed_iff 0 _ (by decide)).2 (by decide)

/-- A speed that `ClockSetConfig` is given is not the one that `ClockGetConfig` returns. -/
theorem speed_not : ¬ speed.Upholds Keeps Returns (speedInit 0) [.setConfigVps 40 0] := by
  rw [upholds_speed_iff (speedy_init 0) (by decide)]
  decide

end Melis.Clock
