import Melis.Snd.Transfer

/-!
# Runs of a stream

The updates that a run makes decide whether its ring stays sound. One that finds
the application passed has to stop the stream, and `snd_pcm_paused` overwrites the
state that says so.
-/

namespace Melis.Snd

open Lib

variable {α : Type} {c : Config α} {s : Substream α} {pos : Nat} {e : Env}

/-! ## Which updates hide nothing -/

/-- The call does not hide that the hardware has passed the application. -/
def CallQuiet (c : Config α) (s : Substream α) (e : Env) : Call α → Prop
  | .writei data => c.stream = .PLAYBACK → data ≠ [] → s.state = .RUNNING → ¬ Hidden c s e.pos
  | .readi size => c.stream = .CAPTURE → size ≠ 0 → ReadLooks c s size e → ¬ Hidden c s e.pos
  | .pause true => s.state = .RUNNING → ¬ Overtakes c s e.pos
  | .rewind frames => frames ≠ 0 → s.state = .RUNNING → ¬ Hidden c s e.pos
  | .hwsync => s.state = .RUNNING → ¬ Hidden c s e.pos
  | .start | .drop | .pause false | .drain | .prepare => True

/-- Where the hardware has passed the application, the step stops the stream. -/
def Quiet (c : Config α) (s : Substream α) : Input α → Prop
  | .elapsed pos => s.state = .RUNNING → ¬ Hidden c s pos
  | .call call e => s.pc = .idle → CallQuiet c s e call
  | .step _ => True

instance : Decidable (Overtakes c s pos) :=
  decidable_of_iff (c.stream = .PLAYBACK ∧ queued c s < advance c s pos ∨
    c.stream = .CAPTURE ∧ c.buffer_size < queued c s + advance c s pos) (by
      unfold Overtakes
      cases c.stream <;> simp)

instance : Decidable (Hidden c s pos) := inferInstanceAs (Decidable (_ ∧ _ ∧ _))

instance (size : Nat) : Decidable (ReadLooks c s size e) := inferInstanceAs (Decidable (_ ∨ _))

instance [DecidableEq α] : (call : Call α) → Decidable (CallQuiet c s e call)
  | .writei data => inferInstanceAs (Decidable (_ = _ → data ≠ [] → _ = _ → ¬ Hidden c s e.pos))
  | .readi size =>
    inferInstanceAs (Decidable (_ = _ → size ≠ 0 → ReadLooks c s size e → ¬ Hidden c s e.pos))
  | .pause true => inferInstanceAs (Decidable (_ = _ → ¬ Overtakes c s e.pos))
  | .rewind frames => inferInstanceAs (Decidable (frames ≠ 0 → _ = _ → ¬ Hidden c s e.pos))
  | .hwsync => inferInstanceAs (Decidable (_ = _ → ¬ Hidden c s e.pos))
  | .start | .drop | .pause false | .drain | .prepare => .isTrue trivial

instance [DecidableEq α] : (i : Input α) → Decidable (Quiet c s i)
  | .elapsed pos => inferInstanceAs (Decidable (_ = _ → ¬ Hidden c s pos))
  | .call call e => inferInstanceAs (Decidable (s.pc = .idle → CallQuiet c s e call))
  | .step _ => .isTrue trivial

theorem not_hidden (h : s.state = .RUNNING → ¬ Hidden c s pos) (hrun : snd_pcm_running c s = true) :
    ¬ Hidden c s pos := by
  intro hH
  simp only [snd_pcm_running, Bool.or_eq_true, Bool.and_eq_true, decide_eq_true_eq] at hrun
  rcases hrun with hrun | ⟨hd, _⟩
  · exact h hrun hH
  · exact hH.2.1 hd

theorem filled_of_running (h : snd_pcm_running c s = true) : s.state.Filled := by
  simp only [snd_pcm_running, Bool.or_eq_true, Bool.and_eq_true, decide_eq_true_eq] at h
  rcases h with hrun | ⟨hd, _⟩
  · rw [hrun]
    trivial
  · rw [hd]
    trivial

/-! ## They keep the ring -/

theorem update_hw_ptr0_pc (h : Inv c s) (pos : Nat) :
    (snd_pcm_update_hw_ptr0 c s pos).1.pc = s.pc := by
  rw [update_eq h.toInRange h.base]
  split
  · rfl
  · unfold snd_pcm_update_state xrun snd_pcm_stop
    dsimp only
    split_ifs <;> exact advanceTo_pc

theorem Inv.hw_sync (h : Inv c s) (hC : s.state = .RUNNING → ¬ Hidden c s pos) :
    Inv c (snd_pcm_hw_sync c s pos).1 := by
  unfold snd_pcm_hw_sync
  split
  · rename_i hd
    split
    · exact h
    · exact h.update (by rw [hd]; trivial) fun hH => hH.2.1 hd
  · rename_i hrun
    exact h.update (by rw [hrun]; trivial) (hC hrun)
  · exact h
  · exact h
  · exact h
  · exact h

theorem hw_sync_pc (h : Inv c s) : (snd_pcm_hw_sync c s pos).1.pc = s.pc := by
  unfold snd_pcm_hw_sync
  split
  · split
    · rfl
    · exact update_hw_ptr0_pc h pos
  · exact update_hw_ptr0_pc h pos
  · rfl
  · rfl
  · rfl
  · rfl

/-- An update that fails has stopped the stream; one that does not leaves the state. -/
theorem update_ok_state (h : Inv c s) {s' : Substream α}
    (hok : snd_pcm_update_hw_ptr0 c s pos = (s', .ok ())) : s'.state = s.state := by
  rw [update_eq h.toInRange h.base] at hok
  split at hok
  · cases hok
    rfl
  · unfold snd_pcm_update_state at hok
    split_ifs at hok
    · cases hok
    · cases hok
      exact advanceTo_state
    · cases hok
    · cases hok
      exact advanceTo_state

theorem rewindFrames_pc (frames : Nat) : (rewindFrames c s frames).1.pc = s.pc := by
  unfold rewindFrames
  split <;> rfl

theorem Inv.rewind (h : Inv c s) (frames : Nat)
    (hC : frames ≠ 0 → s.state = .RUNNING → ¬ Hidden c s pos) :
    Ringed c (ksnd_pcm_rewind c s frames pos).1 ∧ (ksnd_pcm_rewind c s frames pos).1.pc = s.pc := by
  have hplain (hs : ¬ Stopped s) : Ringed c (rewindFrames c s frames).1 ∧
      (rewindFrames c s frames).1.pc = s.pc := ⟨h.ringed.rewinds hs frames, rewindFrames_pc frames⟩
  -- what is left of the call once the pointer is up to date
  have hupdate (hrun : s.state.Filled) (hH : ¬ Hidden c s pos) (r : Substream α × Except Errno Nat)
      (hok : ∀ s' u, snd_pcm_update_hw_ptr0 c s pos = (s', .ok u) → r = rewindFrames c s' frames)
      (herr : ∀ s' err, snd_pcm_update_hw_ptr0 c s pos = (s', .error err) →
        r = (s', .error .EPIPE)) : Ringed c r.1 ∧ r.1.pc = s.pc := by
    have hInv := h.update hrun hH
    have hpc := update_hw_ptr0_pc h pos
    cases heq : snd_pcm_update_hw_ptr0 c s pos with
    | mk s' res =>
      rw [heq] at hInv hpc
      cases res with
      | ok u =>
        have hstate := update_ok_state h heq
        have hns : ¬ Stopped s' := not_stopped_of_filled (by rw [hstate]; exact hrun)
        rw [hok s' u heq]
        exact ⟨hInv.ringed.rewinds hns frames, (rewindFrames_pc frames).trans hpc⟩
      | error err =>
        rw [herr s' err heq]
        exact ⟨hInv.ringed, hpc⟩
  unfold ksnd_pcm_rewind
  dsimp only
  by_cases hz : frames = 0
  · rw [if_pos hz]
    exact ⟨h.ringed, rfl⟩
  rw [if_neg hz]
  split
  · rename_i hprep
    exact hplain (by rintro (hs | ⟨hs, _⟩) <;> cases hprep.symm.trans hs)
  · rename_i hd
    have hfilled : s.state.Filled := by
      rw [hd]
      trivial
    split
    · exact hplain (not_stopped_of_filled hfilled)
    · exact hupdate hfilled (fun hH => hH.2.1 hd) _ (fun s' u heq => by rw [heq])
        (fun s' err heq => by rw [heq])
  · rename_i hrun
    exact hupdate (by rw [hrun]; trivial) (hC hz hrun) _ (fun s' u heq => by rw [heq])
      (fun s' err heq => by rw [heq])
  · exact ⟨h.ringed, rfl⟩
  · exact ⟨h.ringed, rfl⟩
  · exact ⟨h.ringed, rfl⟩

theorem Ringed.reportedPaused (h : Ringed c { s with state := .PAUSED }) :
    Ringed c { s with state := .PAUSED, reported := true } := by
  have hk := h.kept (not_stopped_of_filled trivial)
  exact { h with opened := nofun, xrun := fun _ => rfl, kept := fun _ => { hk with } }

theorem Inv.paused_push (h : Inv c s) (hC : s.state = .RUNNING → ¬ Overtakes c s pos) :
    Ringed c (snd_pcm_paused c s true pos).1 ∧ (snd_pcm_paused c s true pos).1.pc = s.pc := by
  unfold snd_pcm_paused
  rw [if_pos rfl]
  by_cases hrun : s.state = .RUNNING
  · rw [if_neg (not_not.2 hrun)]
    refine ⟨?_, update_hw_ptr0_pc h pos⟩
    have hfilled : s.state.Filled := by
      rw [hrun]
      trivial
    rw [update_eq h.toInRange h.base]
    split
    · exact h.ringed.resume hfilled _ trivial
    have hlive := h.live_moves hfilled (hC hrun)
    have hring : Ringed c (advanceTo c s (advance c s pos)) :=
      { h.toCore.moves with kept := fun _ => hlive.toKept }
    have hpaused := hring.resume (by rw [advanceTo_state]; exact hfilled) .PAUSED trivial
    by_cases hstops : Stops c (advanceTo c s (advance c s pos))
    · obtain ⟨state, _, heq⟩ := update_state_stops hring.opened hstops
      rw [heq]
      exact hpaused.reportedPaused
    · rw [update_state_goes_on hstops]
      exact hpaused
  · rw [if_pos hrun]
    exact ⟨h.ringed, rfl⟩

theorem drop_pc : (ksnd_pcm_drop c s).1.pc = s.pc := by
  unfold ksnd_pcm_drop snd_pcm_stop
  dsimp only
  split_ifs
  · rfl
  · exact pc_paused_release
  · exact pc_paused_release
  · rfl
  · rfl

/-- A stream that is prepared does not run, so its position is not updated. -/
theorem prepare_pc : (ksnd_pcm_prepare c s e).1.pc = s.pc := by
  unfold ksnd_pcm_prepare snd_pcm_do_reset
  split_ifs <;> rfl

/-- **A quiet step keeps the ring.** -/
theorem Inv.step (h : Inv c s) {i : Input α} (hC : Quiet c s i) : Inv c (pcmStep c s i) := by
  cases i with
  | elapsed pos =>
    unfold pcmStep
    dsimp only
    split
    · rename_i hrun
      exact h.update (filled_of_running hrun) (not_hidden hC hrun)
    · exact h
  | call call e =>
    unfold pcmStep
    cases hpc : s.pc with
    | idle =>
      have hC := hC hpc
      dsimp only
      cases call with
      | writei data =>
        unfold doCall
        dsimp only
        cases hs : c.stream with
        | PLAYBACK => exact h.lib_write (hC hs) hpc
        | CAPTURE => exact h
      | readi size =>
        unfold doCall
        dsimp only
        cases hs : c.stream with
        | PLAYBACK => exact h
        | CAPTURE => exact h.lib_read hs (hC hs) hpc
      | start =>
        exact (h.ringed.do_start .RUNNING trivial e.ok).returned
          ((do_start_fields _ _).2.2.trans hpc) _
      | drop => exact h.ringed.drop.returned (drop_pc.trans hpc) _
      | pause enable =>
        cases enable with
        | true =>
          obtain ⟨hring, hpc'⟩ := h.paused_push hC
          exact hring.returned (hpc'.trans hpc) _
        | false => exact h.ringed.paused_release.returned (pc_paused_release.trans hpc) _
      | drain => exact h.drain hpc
      | prepare => exact h.ringed.prepare.returned (prepare_pc.trans hpc) _
      | rewind frames =>
        obtain ⟨hring, hpc'⟩ := h.rewind frames hC
        exact hring.returned (hpc'.trans hpc) _
      | hwsync => exact (h.hw_sync hC).ringed.returned ((hw_sync_pc h).trans hpc) _
    | loop data size xfer avail => exact h
    | wait data size xfer => exact h
    | sleep data size xfer => exact h
    | moved data size xfer avail frames => exact h
    | drain => exact h
  | step e =>
    have hlen (d : List α) (n : Nat) (hok : PcOk c s s.pc → c.stream = .PLAYBACK → d.length = n) :
        ¬ Stopped s → c.stream = .PLAYBACK → d.length = n := fun hs hp => hok (h.live hs).pc hp
    unfold pcmStep
    cases hpc : s.pc with
    | idle => exact h
    | loop data size xfer avail => exact h.stepLoop hpc
    | wait data size xfer =>
      rw [hpc] at hlen
      exact h.stepWait (hlen _ _ id)
    | sleep data size xfer =>
      rw [hpc] at hlen
      exact h.stepSleep (hlen _ _ id)
    | moved data size xfer avail frames => exact h.stepMoved hpc
    | drain =>
      dsimp only
      split_ifs
      · exact h.ringed.withPc .idle s.twake _ nofun fun _ => trivial
      · exact h.ringed.withPc .idle s.twake _ nofun fun _ => trivial
      · exact h

/-! ## The others lose it -/

/-- More is queued than the ring holds, and the stream goes on. -/
structure Lost (c : Config α) (s : Substream α) : Prop where
  filled : s.state.Filled
  queued_gt : c.buffer_size < queued c s

theorem Lost.not_ringOk (h : Lost c s) : ¬ RingOk c s := fun hok =>
  absurd (hok.queued_le (not_stopped_of_filled h.filled)) (Nat.not_le.2 h.queued_gt)

theorem lost_update (h : Inv c s) (hrun : s.state.Filled) (hH : Hidden c s pos) :
    Lost c (snd_pcm_update_hw_ptr0 c s pos).1 := by
  rw [h.update_hidden hrun hH]
  exact ⟨by rw [advanceTo_state]; exact hrun, (avail_of_overtakes h hrun hH.1).2⟩

theorem lost_beginLoop (h : Inv c s) (hrun : s.state = .RUNNING) (hH : Hidden c s pos)
    (data : List α) (size : Nat) : Lost c (beginLoop c s data size pos) := by
  have hset := h.setTwake (if c.sw.avail_min = 0 then 1 else c.sw.avail_min)
  have hlost := lost_update hset (show s.state.Filled by rw [hrun]; trivial) hH
  unfold beginLoop
  dsimp only
  rw [if_pos hrun]
  exact ⟨hlost.filled, hlost.queued_gt⟩

theorem lost_write (h : Inv c s) {data : List α} (hne : data ≠ []) (hrun : s.state = .RUNNING)
    (hH : Hidden c s e.pos) : Lost c (snd_pcm_lib_write c s data e) := by
  unfold snd_pcm_lib_write
  rw [if_neg hne, hrun]
  exact lost_beginLoop h hrun hH data data.length

theorem lost_read (h : Inv c s) (hs : c.stream = .CAPTURE) {size : Nat} (hne : size ≠ 0)
    (hlook : ReadLooks c s size e) (hH : Hidden c s e.pos) :
    Lost c (snd_pcm_lib_read c s size e) := by
  unfold snd_pcm_lib_read
  rw [if_neg hne]
  rcases hlook with hrun | ⟨hprep, hstart, hok⟩
  · rw [hrun]
    exact lost_beginLoop h hrun hH [] size
  · have hring := h.ringed.do_start .RUNNING trivial true
    rw [do_start_capture hs hprep, if_pos rfl] at hring
    rw [hprep]
    dsimp only
    rw [if_pos hstart, do_start_capture hs hprep, hok]
    have hInv : Inv c { s with state := .RUNNING } := by
      have hlive := h.live (by rintro (hx | ⟨hx, _⟩) <;> cases hprep.symm.trans hx)
      exact { hring with
        live := fun hns => { hring.kept hns with pc := hlive.pc }
        fits := h.fits }
    exact lost_beginLoop hInv rfl ⟨hH.1, nofun, hH.2.2⟩ [] size

theorem lost_rewind (h : Inv c s) {frames : Nat} (hne : frames ≠ 0) (hrun : s.state = .RUNNING)
    (hH : Hidden c s pos) : Lost c (ksnd_pcm_rewind c s frames pos).1 := by
  have hfilled : s.state.Filled := by
    rw [hrun]
    trivial
  have hlost := lost_update h hfilled hH
  rw [h.update_hidden hfilled hH] at hlost
  have havail : hw_avail c (advanceTo c s (advance c s pos)) ≤ 0 := by
    have hle := le_availPast hH.1
    unfold hw_avail
    rw [(avail_of_overtakes h hfilled hH.1).1]
    omega
  unfold ksnd_pcm_rewind
  dsimp only
  rw [if_neg hne, hrun, h.update_hidden hfilled hH]
  dsimp only
  unfold rewindFrames
  rw [if_pos havail]
  exact hlost

theorem update_state_ptrs : (snd_pcm_update_state c s).1.hw_ptr = s.hw_ptr ∧
    (snd_pcm_update_state c s).1.appl_ptr = s.appl_ptr := by
  unfold snd_pcm_update_state xrun snd_pcm_stop
  dsimp only
  split_ifs <;> exact ⟨rfl, rfl⟩

/-- The pause of a stream that the hardware has passed, even if it was stopped for it. -/
theorem lost_paused (h : Inv c s) (hrun : s.state = .RUNNING) (hO : Overtakes c s pos) :
    Lost c (snd_pcm_paused c s true pos).1 := by
  have hfilled : s.state.Filled := by
    rw [hrun]
    trivial
  have hgt := (avail_of_overtakes h hfilled hO).2
  obtain ⟨hh, ha⟩ := update_state_ptrs (c := c) (s := advanceTo c s (advance c s pos))
  unfold snd_pcm_paused
  rw [if_pos rfl, if_neg (not_not.2 hrun), update_eq h.toInRange h.base,
    if_neg (advance_ne_zero h hfilled hO)]
  exact ⟨trivial, hgt.trans_eq (queued_congr hh ha).symm⟩

theorem lost_step (h : Inv c s) {i : Input α} (hC : ¬ Quiet c s i) : Lost c (pcmStep c s i) := by
  cases i with
  | elapsed pos =>
    obtain ⟨hrun, hH⟩ := Classical.not_imp.1 hC
    have hfilled : s.state.Filled := by
      rw [hrun]
      trivial
    have hon : snd_pcm_running c s = true := by
      unfold snd_pcm_running
      rw [hrun]
      rfl
    unfold pcmStep
    dsimp only
    rw [if_pos hon]
    exact lost_update h hfilled (not_not.1 hH)
  | call call e =>
    obtain ⟨hpc, hC⟩ := Classical.not_imp.1 hC
    unfold pcmStep
    rw [hpc]
    dsimp only
    cases call with
    | writei data =>
      simp only [CallQuiet, Classical.not_imp, not_not] at hC
      obtain ⟨hs, hne, hrun, hH⟩ := hC
      unfold doCall
      rw [hs]
      exact lost_write h hne hrun hH
    | readi size =>
      simp only [CallQuiet, Classical.not_imp, not_not] at hC
      obtain ⟨hs, hne, hlook, hH⟩ := hC
      unfold doCall
      rw [hs]
      exact lost_read h hs hne hlook hH
    | start => exact absurd trivial hC
    | drop => exact absurd trivial hC
    | pause enable =>
      cases enable with
      | true =>
        obtain ⟨hrun, hO⟩ := Classical.not_imp.1 hC
        have hlost := lost_paused h hrun (not_not.1 hO)
        exact ⟨hlost.filled, hlost.queued_gt⟩
      | false => exact absurd trivial hC
    | drain => exact absurd trivial hC
    | prepare => exact absurd trivial hC
    | rewind frames =>
      simp only [CallQuiet, Classical.not_imp, not_not] at hC
      obtain ⟨hne, hrun, hH⟩ := hC
      have hlost := lost_rewind h hne hrun hH
      exact ⟨hlost.filled, hlost.queued_gt⟩
    | hwsync =>
      obtain ⟨hrun, hH⟩ := Classical.not_imp.1 hC
      have hlost := lost_update h (by rw [hrun]; trivial) (not_not.1 hH)
      unfold doCall snd_pcm_hw_sync
      rw [hrun]
      exact ⟨hlost.filled, hlost.queued_gt⟩
  | step e => exact absurd trivial hC

/-! ## Whole runs -/

/-- **A run keeps the ring just if every update that finds the application passed stops the
stream and leaves it so.** -/
theorem upholds_iff_quiet (dma : Nat → α) (is : List (Input α)) :
    (pcm c).Upholds (RingOk c) (fun _ _ _ => True) (opened dma) is ↔
      (pcm c).Meets (Quiet c) (opened dma) is := by
  refine Machine.upholds_iff_meets (I := Inv c) (L := fun _ _ => True) (fun _ h => h.ringOk) ?_
    (inv_opened dma) (Machine.meets_of_forall (P := fun _ => True) fun _ _ => trivial)
  intro s i h _
  by_cases hC : Quiet c s i
  · exact .kept hC _ rfl trivial (h.step hC)
  · refine .lost hC fun s' hs' _ => ?_
    cases hs'
    exact (lost_step h hC).not_ringOk

/-- Playback with four frames in the ring. -/
def fourFrames : HwParams where
  stream := .PLAYBACK
  period_size := 1
  buffer_size := 4
  min_align := 1
  size_pos := by decide
  size_le := by decide
  align_pos := Nat.one_pos

def playback (stop_threshold : Nat) : Config Nat where
  hw := fourFrames
  sw := { fourFrames.defaults with stop_threshold }
  silence := 0

/-- Four frames are written and three of them played. -/
def playThree : List (Input Nat) :=
  [.call .prepare {}, .call (.writei [5, 6, 7, 8]) {}, .step {}, .step {}, .elapsed 3]

/-- The pointers, the queue and the silence behind it, in every run whose updates hide nothing. -/
theorem pcm_ring (c : Config α) (dma : Nat → α) (is : List (Input α))
    (hm : (pcm c).Meets (Quiet c) (opened dma) is) :
    c.buffer_size ∣ c.boundary ∧
      (pcm c).Upholds (RingOk c) (fun _ _ _ => True) (opened dma) is :=
  ⟨c.hw.dvd_boundary, (upholds_iff_quiet dma is).2 hm⟩

theorem pcm_ring_played : 4 ∣ (playback 4).boundary ∧
    (pcm (playback 4)).Upholds (RingOk (playback 4)) (fun _ _ _ => True) (opened fun _ => 0)
      (playThree ++ [.call (.pause true) { pos := 3 }]) :=
  pcm_ring (playback 4) (fun _ => 0) _ (by decide +kernel)

/-- Two frames are played where one is left: nothing stops the stream where the threshold is the
boundary, and a pause takes the place of the stop where it is the ring. -/
theorem ring_passed :
    ¬ (pcm (playback (2 ^ 30))).Upholds (RingOk (playback (2 ^ 30))) (fun _ _ _ => True)
        (opened fun _ => 0) (playThree ++ [.elapsed 1]) ∧
      ¬ (pcm (playback 4)).Upholds (RingOk (playback 4)) (fun _ _ _ => True)
        (opened fun _ => 0) (playThree ++ [.call (.pause true) { pos := 1 }]) := by
  rw [upholds_iff_quiet, upholds_iff_quiet]
  decide +kernel

end Melis.Snd
