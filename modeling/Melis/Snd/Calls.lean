import Melis.Snd.PcmRing

/-!
# Calls keep the ring

The control calls, and the steps of a transfer, one lemma each. What a call needs to
know of the update it makes is in `Hidden`; a pause needs that nothing was passed.
-/

namespace Melis.Snd

open Lib

variable {α : Type} {c : Config α} {s : Substream α} {n pos : Nat} {e : Env} {pc : Pc α}

/-! ## Start -/

/-- Playback is silent behind the queue from the start on. -/
theorem kept_silence (hs : c.stream = .PLAYBACK) (hz : 0 < c.sw.silence_size) (hr : InRange c s)
    (hq : queued c s ≤ c.buffer_size)
    (hf : Ring.read s.dma c.buffer_size s.hw_ptr (queued c s) = s.queue) :
    Kept c (snd_pcm_playback_silence c s none) := by
  have hsize : ¬ c.sw.silence_size < c.boundary := by
    rcases c.sw.silence_ok with hzero | hB
    · omega
    · exact hB ▸ lt_irrefl _
  rw [silence_start hs hr hq hsize]
  refine ⟨hq, fun _ => ?_, fun _ _ _ => rfl⟩
  show Ring.read (Ring.write s.dma c.buffer_size s.appl_ptr
    (.replicate (c.buffer_size - queued c s) c.silence)) c.buffer_size s.hw_ptr (queued c s) = s.queue
  have happl : Ring.write s.dma c.buffer_size s.appl_ptr
      (.replicate (c.buffer_size - queued c s) c.silence) =
      Ring.write s.dma c.buffer_size (s.hw_ptr + queued c s)
        (.replicate (c.buffer_size - queued c s) c.silence) := by
    rw [appl_ptr_eq hs hr, ← Ring.write_mod, Nat.mod_mod_of_dvd _ c.hw.dvd_boundary, Ring.write_mod]
  rw [happl, Ring.read_write_of_disjoint, hf]
  rw [List.length_replicate]
  exact Ring.disjoint_region le_rfl (by omega)

theorem queued_congr {s' : Substream α} (hh : s'.hw_ptr = s.hw_ptr) (ha : s'.appl_ptr = s.appl_ptr) :
    queued c s' = queued c s := by
  unfold queued
  rw [hh, ha]

/-- A start leaves the pointers and the call under way. -/
theorem do_start_fields (state : PcmState) (ok : Bool) :
    (snd_pcm_do_start c s state ok).1.hw_ptr = s.hw_ptr ∧
      (snd_pcm_do_start c s state ok).1.appl_ptr = s.appl_ptr ∧
      (snd_pcm_do_start c s state ok).1.pc = s.pc := by
  unfold snd_pcm_do_start
  dsimp only
  split_ifs
  · exact ⟨rfl, rfl, rfl⟩
  · exact ⟨rfl, rfl, rfl⟩
  · exact ⟨rfl, rfl, rfl⟩
  · exact ⟨silence_hw_ptr _, silence_appl_ptr _, silence_pc _⟩
  · exact ⟨rfl, rfl, rfl⟩

theorem Ringed.do_start (h : Ringed c s) (state : PcmState) (hstate : state.Filled) (ok : Bool) :
    Ringed c (snd_pcm_do_start c s state ok).1 := by
  have hopen : state ≠ .OPEN := by
    rintro rfl
    exact hstate
  have hxrun : state ≠ .XRUN := by
    rintro rfl
    exact hstate
  unfold snd_pcm_do_start
  dsimp only
  split_ifs with hprep hdata hok hsil
  · exact h
  · exact h
  · exact h
  all_goals
    have hprep : s.state = .PREPARED := not_not.1 hprep
    have hkept : Kept c s := h.kept (by rintro (hs | ⟨hs, _⟩) <;> cases hprep.symm.trans hs)
  · have hk := kept_silence (s := { s with state }) hsil.1 hsil.2 ⟨h.hw_lt, h.appl_lt⟩ hkept.queued_le
      (hkept.frames hsil.1)
    exact {
      hw_lt := by rw [silence_hw_ptr]; exact h.hw_lt
      appl_lt := by rw [silence_appl_ptr]; exact h.appl_lt
      base := by rw [silence_hw_ptr_base, silence_hw_ptr]; exact h.base
      opened := by rw [silence_state]; exact hopen
      xrun := by rw [silence_state]; exact fun hx => absurd hx hxrun
      kept := fun _ => hk }
  · exact { h with
      opened := hopen
      xrun := fun hx => absurd hx hxrun
      kept := fun _ => { hkept with silence := fun hp hz => absurd ⟨hp, hz⟩ hsil } }

/-! ## Control -/

theorem Ringed.setState (h : Ringed c s) {state : PcmState} (hopen : state ≠ .OPEN)
    (hxrun : state = .XRUN → s.reported = true) (hfilled : state.Filled → s.state.Filled)
    (hstopped : ¬ Stopped { s with state } → ¬ Stopped s) : Ringed c { s with state } :=
  { h with
    opened := hopen
    xrun := hxrun
    kept := fun hs =>
      have hk := h.kept (hstopped hs)
      { hk with silence := fun hp hz hf => hk.silence hp hz (hfilled hf) } }

/-- The stream is set up again, and stays stopped if it was. -/
theorem Ringed.setup (h : Ringed c s) : Ringed c { s with state := .SETUP } := by
  refine h.setState nofun nofun False.elim fun hs hs' => hs ?_
  rcases hs' with hx | ⟨_, hreported⟩
  · exact .inr ⟨rfl, h.xrun hx⟩
  · exact .inr ⟨rfl, hreported⟩

theorem Ringed.resume (h : Ringed c s) (hstate : s.state.Filled) (state : PcmState)
    (hfilled : state.Filled) : Ringed c { s with state } := by
  have hns := not_stopped_of_filled hstate
  refine h.setState ?_ ?_ (fun _ => hstate) fun _ => hns
  · rintro rfl
    exact hfilled
  · rintro rfl
    exact hfilled.elim

theorem Ringed.paused_release (h : Ringed c s) :
    Ringed c (snd_pcm_paused c s false pos).1 := by
  unfold snd_pcm_paused
  rw [if_neg Bool.false_ne_true]
  split_ifs with hp
  · exact h
  · exact h.resume (by rw [not_not.1 hp]; trivial) _ trivial

theorem Ringed.drop (h : Ringed c s) : Ringed c (ksnd_pcm_drop c s).1 := by
  unfold ksnd_pcm_drop
  dsimp only
  split_ifs
  · exact h
  · unfold snd_pcm_stop
    split_ifs
    · exact h.paused_release
    · exact h.paused_release.setup
  · unfold snd_pcm_stop
    split_ifs
    · exact h
    · exact h.setup

theorem Ringed.prepare (h : Ringed c s) : Ringed c (ksnd_pcm_prepare c s e).1 := by
  unfold ksnd_pcm_prepare snd_pcm_do_reset
  split_ifs with hopen hrun hok
  · exact h
  · exact h
  · exact h
  · exact {
      hw_lt := boundary_pos c
      appl_lt := boundary_pos c
      base := (Nat.zero_sub _).symm
      opened := nofun
      xrun := nofun
      kept := fun _ => Kept.nil (boundary_pos c) rfl rfl id }

/-- A call that has returned. -/
theorem Ringed.returned (h : Ringed c s) (hpc : s.pc = .idle) (ret : Except Errno Nat) :
    Inv c { s with ret } := by
  have hInv := h.withPc .idle s.twake ret nofun fun _ => trivial
  rw [← hpc] at hInv
  exact hInv

theorem pc_paused_release : (snd_pcm_paused c s false pos).1.pc = s.pc := by
  unfold snd_pcm_paused
  rw [if_neg Bool.false_ne_true]
  split <;> rfl

theorem Ringed.drainPlayback (h : Ringed c s) (hpc : s.pc = .idle) (ok : Bool) :
    Ringed c (drainPlayback c s ok) ∧ (drainPlayback c s ok).pc = .idle := by
  unfold Snd.drainPlayback
  split
  · split_ifs
    · exact ⟨h.do_start .DRAINING trivial _, (do_start_fields _ _).2.2.trans hpc⟩
    · exact ⟨h.setup, hpc⟩
  · rename_i hrun
    exact ⟨h.resume (by rw [hrun]; trivial) _ trivial, hpc⟩
  · exact ⟨h.setup, hpc⟩
  · exact ⟨h, hpc⟩

theorem Ringed.drainCapture (h : Ringed c s) (hpc : s.pc = .idle) :
    Ringed c (drainCapture c s) ∧ (drainCapture c s).pc = .idle := by
  unfold Snd.drainCapture snd_pcm_stop
  rw [if_neg h.opened]
  split_ifs with hrun
  · exact ⟨h.resume (by rw [hrun]; trivial) _ trivial, hpc⟩
  · exact ⟨h.setup, hpc⟩
  · exact ⟨h, hpc⟩

theorem Inv.drain (h : Inv c s) (hpc : s.pc = .idle) : Inv c (ksnd_pcm_drain c s e) := by
  -- The state after a pause is released.
  have hreleased : ∃ s', (if s.state = .PAUSED then (snd_pcm_paused c s false 0).1 else s) = s' ∧
      Ringed c s' ∧ s'.pc = .idle := by
    refine ⟨_, rfl, ?_⟩
    split
    · exact ⟨h.ringed.paused_release, pc_paused_release.trans hpc⟩
    · exact ⟨h.ringed, hpc⟩
  obtain ⟨s', hs', h', hpc'⟩ := hreleased
  unfold ksnd_pcm_drain
  rw [hs']
  dsimp only
  by_cases hbad : s'.state = .OPEN ∨ s'.state = .DISCONNECTED ∨ s'.state = .SUSPENDED
  · rw [if_pos hbad]
    exact h'.returned hpc' _
  rw [if_neg hbad]
  cases c.stream with
  | PLAYBACK =>
    obtain ⟨hplay, hpc''⟩ := h'.drainPlayback hpc' e.ok
    dsimp only
    split_ifs
    · exact hplay.withPc _ (Snd.drainPlayback c s' e.ok).twake _ nofun fun _ => trivial
    · exact hplay.returned hpc'' _
  | CAPTURE =>
    obtain ⟨hcap, hpc''⟩ := h'.drainCapture hpc'
    exact hcap.returned hpc'' _

/-! ## Frames taken back -/

theorem hw_avail_eq (h : InRange c s) (hq : queued c s ≤ c.buffer_size) :
    hw_avail c s = match c.stream with
      | .PLAYBACK => (queued c s : Int)
      | .CAPTURE => c.buffer_size - queued c s := by
  unfold hw_avail avail
  cases hs : c.stream with
  | PLAYBACK =>
    dsimp only
    rw [playback_avail_eq hs h, if_pos hq]
    omega
  | CAPTURE =>
    dsimp only
    rw [capture_avail_eq hs h]

/-- `appl_ptr` taken back by `n`. -/
theorem appl_ptr_back {B a n : Nat} (ha : a < B) (hn : n ≤ B) :
    (if (a : Int) - n < 0 then (a : Int) - n + B else (a : Int) - n).toNat = (a + (B - n)) % B := by
  rw [mod_boundary ha (Nat.sub_le _ _)]
  split_ifs <;> omega

theorem Ringed.rewinds (h : Ringed c s) (hlive : ¬ Stopped s) (frames : Nat) :
    Ringed c (rewindFrames c s frames).1 := by
  have hk := h.kept hlive
  have hq := hk.queued_le
  have htwo := c.hw.two_mul_le_boundary
  have havail := hw_avail_eq h.toInRange hq
  unfold rewindFrames
  split_ifs with hz
  · exact h
  dsimp only
  set n := min frames (hw_avail c s).toNat with hn
  have hle : n ≤ c.buffer_size := by
    cases hs : c.stream <;> rw [hs] at havail <;> dsimp only at havail <;> omega
  have hnB : n ≤ c.boundary := (lt_boundary_of_le hle).le
  rw [appl_ptr_back h.appl_lt hnB]
  have hlt : (s.appl_ptr + (c.boundary - n)) % c.boundary < c.boundary :=
    Nat.mod_lt _ (boundary_pos c)
  refine { h with appl_lt := hlt, kept := fun _ => ?_ }
  cases hs : c.stream with
  | PLAYBACK =>
    rw [hs] at havail
    dsimp only at havail
    have hnq : n ≤ queued c s := by omega
    have hq' : queued c { s with
        appl_ptr := (s.appl_ptr + (c.boundary - n)) % c.boundary
        queue := s.queue.take (s.queue.length - n) } = queued c s - n := by
      unfold queued at hnq ⊢
      rw [hs] at hnq ⊢
      exact ahead_back_right h.hw_lt h.appl_lt hnq
    refine ⟨by omega, fun _ => ?_, fun hp hz hf => hk.silence hp hz hf⟩
    have hsplit := hk.frames hs
    have hlen : s.queue.length = queued c s := by rw [← hsplit, Ring.length_read]
    rw [hq']
    dsimp only
    rw [show queued c s = queued c s - n + n by omega, Ring.read_add] at hsplit
    rw [hlen, ← hsplit, List.take_left' (Ring.length_read ..)]
  | CAPTURE =>
    rw [hs] at havail
    dsimp only at havail
    have hnq : queued c s + n ≤ c.buffer_size := by omega
    have hq' : queued c { s with
        appl_ptr := (s.appl_ptr + (c.boundary - n)) % c.boundary
        queue := s.queue.take (s.queue.length - n) } = queued c s + n := by
      unfold queued at hnq ⊢
      rw [hs] at hnq ⊢
      exact ahead_back_left h.appl_lt h.hw_lt (lt_boundary_of_le hnq)
    exact ⟨by omega, fun hp => absurd (hs.symm.trans hp) nofun, fun hp hz hf => hk.silence hp hz hf⟩

end Melis.Snd
