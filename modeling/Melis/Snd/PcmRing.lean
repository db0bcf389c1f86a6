import Melis.Snd.Pointers

/-!
# The ring of a stream holds its queue

Until `snd_pcm_update_state` has stopped a stream, the frames between its pointers
fit the ring and, of playback, are those that were accepted and not played. A
step that updates the position keeps this just if the hardware has not passed the
application, or the stream is stopped for it and stays so.
-/

namespace Melis.Snd

open Lib

variable {α : Type} {c : Config α} {s : Substream α} {pos n : Nat}

/-! ## What is claimed of a state -/

/-- The stream was stopped because nothing is left to play, or nowhere to capture to. -/
def Stopped (s : Substream α) : Prop := s.state = .XRUN ∨ s.state = .SETUP ∧ s.reported = true

structure RingOk (c : Config α) (s : Substream α) : Prop extends InRange c s where
  queued_le : ¬ Stopped s → queued c s ≤ c.buffer_size
  frames : ¬ Stopped s → c.stream = .PLAYBACK →
    Ring.read s.dma c.buffer_size s.hw_ptr (queued c s) = s.queue

/-! ## Silence -/

theorem fillSilence_eq {dma : Nat → α} {ofs frames : Nat} (h : ofs < c.buffer_size) :
    fillSilence c dma ofs frames =
      Ring.write dma c.buffer_size ofs (.replicate frames c.silence) := by
  fun_induction fillSilence c dma ofs frames with
  | case1 dma ofs frames hpos transfer ih =>
    have hle : transfer ≤ frames ∧ ofs + transfer ≤ c.buffer_size := by
      unfold transfer
      split_ifs <;> omega
    have hwrap : (ofs + transfer) % c.buffer_size = 0 ∨ frames - transfer = 0 := by
      unfold transfer
      split_ifs
      · rw [Nat.add_sub_cancel' h.le, Nat.mod_self]
        exact .inl rfl
      · exact .inr (Nat.sub_self _)
    have hsplit : List.replicate frames c.silence =
        .replicate transfer c.silence ++ .replicate (frames - transfer) c.silence := by
      rw [List.replicate_append_replicate, Nat.add_sub_cancel' hle.1]
    have hfirst : Ring.write dma c.buffer_size ofs (.replicate transfer c.silence) =
        Memory.memcpy dma ofs (.replicate transfer c.silence) :=
      Ring.write_eq_memcpy (by rw [List.length_replicate]; exact hle.2)
    rw [ih c.hw.size_pos, hsplit, Ring.write_append, List.length_replicate, hfirst]
    rcases hwrap with hzero | hzero
    · rw [← Ring.write_mod _ _ (ofs + transfer), hzero]
    · rw [hzero]
      rfl
  | case2 dma ofs frames hpos =>
    have hzero : frames = 0 := by omega
    rw [hzero]
    rfl

/-- The silence behind the pointer follows it. -/
theorem silence_update (hfilled : s.silence_filled = c.buffer_size) (h : s.hw_ptr < c.boundary)
    (hn : n < c.buffer_size) (hsize : ¬ c.sw.silence_size < c.boundary) :
    snd_pcm_playback_silence c s (some ((s.hw_ptr + n) % c.boundary)) =
      { s with
        silence_filled := c.buffer_size
        silence_start := s.hw_ptr
        dma := Ring.write s.dma c.buffer_size s.hw_ptr (.replicate n c.silence) } := by
  have hB : n < c.boundary := by
    have htwo := c.hw.two_mul_le_boundary
    dsimp only [Config.buffer_size, Config.boundary] at *
    omega
  have hdelta := delta_eq h hB
  unfold snd_pcm_playback_silence
  rw [if_neg hsize]
  dsimp only
  rw [hdelta, if_neg (by omega)]
  have hrest : c.buffer_size - ((s.silence_filled : Int) - n).toNat = n := by omega
  have hfull : ((s.silence_filled : Int) - n).toNat + n = c.buffer_size := by omega
  dsimp only
  rw [hrest, hfull, fillSilence_eq (Nat.mod_lt _ c.hw.size_pos), Ring.write_mod]

/-- At a start all but the queue is silent. -/
theorem silence_start (hs : c.stream = .PLAYBACK) (h : InRange c s)
    (hq : queued c s ≤ c.buffer_size) (hsize : ¬ c.sw.silence_size < c.boundary) :
    snd_pcm_playback_silence c s none =
      { s with
        silence_filled := c.buffer_size
        silence_start := s.appl_ptr
        dma := Ring.write s.dma c.buffer_size s.appl_ptr
          (.replicate (c.buffer_size - queued c s) c.silence) } := by
  have havail : hw_avail c s = queued c s := by
    unfold hw_avail avail
    rw [hs]
    dsimp only
    rw [playback_avail_eq hs h, if_pos hq]
    omega
  have happl : (s.hw_ptr + queued c s) % c.boundary = s.appl_ptr := by
    unfold queued
    rw [hs]
    exact add_ahead h.hw_lt h.appl_lt
  unfold snd_pcm_playback_silence
  rw [if_neg hsize]
  dsimp only
  rw [havail, if_neg (by omega), Int.toNat_natCast, Nat.add_sub_cancel' hq, happl,
    fillSilence_eq (Nat.mod_lt _ c.hw.size_pos), Ring.write_mod]

/-! ## The invariant -/

/-- Where silence follows the pointer. -/
def PcmState.Filled : PcmState → Prop
  | .RUNNING | .PAUSED | .DRAINING => True
  | _ => False

/-- What a call under way knows. -/
def PcOk (c : Config α) (s : Substream α) : Pc α → Prop
  | .idle | .drain => True
  | .loop data size _ avail => match c.stream with
    | .PLAYBACK => data.length = size ∧ queued c s + avail ≤ c.buffer_size
    | .CAPTURE => avail ≤ queued c s
  | .wait data size _ | .sleep data size _ => c.stream = .PLAYBACK → data.length = size
  | .moved data size _ avail frames => frames ≤ avail ∧ match c.stream with
    | .PLAYBACK => data.length = size ∧ frames ≤ size ∧ queued c s + avail ≤ c.buffer_size ∧
        Ring.read s.dma c.buffer_size s.appl_ptr frames = data.take frames
    | .CAPTURE => avail ≤ queued c s

structure Kept (c : Config α) (s : Substream α) : Prop where
  queued_le : queued c s ≤ c.buffer_size
  frames : c.stream = .PLAYBACK →
    Ring.read s.dma c.buffer_size s.hw_ptr (queued c s) = s.queue
  silence : c.stream = .PLAYBACK → 0 < c.sw.silence_size → s.state.Filled →
    s.silence_filled = c.buffer_size

structure Live (c : Config α) (s : Substream α) : Prop extends Kept c s where
  pc : PcOk c s s.pc

/-- What holds of a stream that was stopped, too. -/
structure Core (c : Config α) (s : Substream α) : Prop extends InRange c s where
  base : s.hw_ptr_base = s.hw_ptr - s.hw_ptr % c.buffer_size
  opened : s.state ≠ .OPEN
  xrun : s.state = .XRUN → s.reported = true

/-- The invariant but for the call under way. -/
structure Ringed (c : Config α) (s : Substream α) : Prop extends Core c s where
  kept : ¬ Stopped s → Kept c s

/-- A transfer is no longer than the ring. -/
def PcFits (c : Config α) (pc : Pc α) : Prop :=
  ∀ data size xfer avail frames, pc = .moved data size xfer avail frames → frames ≤ c.buffer_size

structure Inv (c : Config α) (s : Substream α) : Prop extends Core c s where
  live : ¬ Stopped s → Live c s
  fits : PcFits c s.pc

theorem Inv.ringed (h : Inv c s) : Ringed c s :=
  { h with kept := fun hs => (h.live hs).toKept }

theorem Inv.ringOk (h : Inv c s) : RingOk c s :=
  { h.toInRange with
    queued_le := fun hs => (h.live hs).queued_le
    frames := fun hs => (h.live hs).frames }

/-- A call goes on elsewhere. -/
theorem Ringed.withPc (h : Ringed c s) (pc : Pc α) (twake : Nat) (ret : Except Errno Nat)
    (hfits : PcFits c pc) (hpc : ¬ Stopped s → PcOk c s pc) : Inv c { s with pc, twake, ret } :=
  { h with
    live := fun hs => { h.kept hs with pc := hpc hs }
    fits := hfits }

theorem boundary_pos (c : Config α) : 0 < c.boundary := by
  have htwo := c.hw.two_mul_le_boundary
  have hpos := c.hw.size_pos
  dsimp only [Config.boundary]
  omega

theorem queued_of_eq (hB : s.hw_ptr < c.boundary) (heq : s.appl_ptr = s.hw_ptr) :
    queued c s = 0 := by
  have hzero : ahead c.boundary s.hw_ptr s.hw_ptr = 0 := by
    rw [ahead_eq hB hB, if_pos le_rfl, Nat.sub_self]
  unfold queued
  rw [heq]
  cases c.stream <;> exact hzero

/-- Nothing is queued. -/
theorem Kept.nil (hB : s.hw_ptr < c.boundary) (heq : s.appl_ptr = s.hw_ptr) (hqueue : s.queue = [])
    (hstate : ¬ s.state.Filled) : Kept c s := by
  have hq := queued_of_eq (c := c) hB heq
  exact {
    queued_le := hq ▸ Nat.zero_le _
    frames := fun _ => by rw [hq, hqueue]; rfl
    silence := fun _ _ h => absurd h hstate }

theorem inv_opened (dma : Nat → α) : Inv c (opened dma) where
  hw_lt := boundary_pos c
  appl_lt := boundary_pos c
  base := (Nat.zero_sub _).symm
  opened := nofun
  xrun := nofun
  live _ := { Kept.nil (boundary_pos c) rfl rfl id with pc := trivial }
  fits := nofun

/-! ## The position moves on -/

/-- The hardware has passed the application. -/
def Overtakes (c : Config α) (s : Substream α) (pos : Nat) : Prop :=
  match c.stream with
  | .PLAYBACK => queued c s < advance c s pos
  | .CAPTURE => c.buffer_size < queued c s + advance c s pos

@[simp] theorem silence_hw_ptr (new : Option Nat) :
    (snd_pcm_playback_silence c s new).hw_ptr = s.hw_ptr := by
  unfold snd_pcm_playback_silence
  split <;> rfl

@[simp] theorem silence_hw_ptr_base (new : Option Nat) :
    (snd_pcm_playback_silence c s new).hw_ptr_base = s.hw_ptr_base := by
  unfold snd_pcm_playback_silence
  split <;> rfl

@[simp] theorem silence_appl_ptr (new : Option Nat) :
    (snd_pcm_playback_silence c s new).appl_ptr = s.appl_ptr := by
  unfold snd_pcm_playback_silence
  split <;> rfl

@[simp] theorem silence_state (new : Option Nat) :
    (snd_pcm_playback_silence c s new).state = s.state := by
  unfold snd_pcm_playback_silence
  split <;> rfl

@[simp] theorem silence_pc (new : Option Nat) : (snd_pcm_playback_silence c s new).pc = s.pc := by
  unfold snd_pcm_playback_silence
  split <;> rfl

@[simp] theorem silence_queue (new : Option Nat) :
    (snd_pcm_playback_silence c s new).queue = s.queue := by
  unfold snd_pcm_playback_silence
  split <;> rfl

@[simp] theorem advanceTo_hw_ptr : (advanceTo c s n).hw_ptr = (s.hw_ptr + n) % c.boundary := rfl

@[simp] theorem advanceTo_appl_ptr : (advanceTo c s n).appl_ptr = s.appl_ptr := by
  unfold advanceTo
  dsimp only
  split
  · exact silence_appl_ptr _
  · rfl

@[simp] theorem advanceTo_state : (advanceTo c s n).state = s.state := by
  unfold advanceTo
  dsimp only
  split
  · exact silence_state _
  · rfl

@[simp] theorem advanceTo_pc : (advanceTo c s n).pc = s.pc := by
  unfold advanceTo
  dsimp only
  split
  · exact silence_pc _
  · rfl

@[simp] theorem silence_reported (new : Option Nat) :
    (snd_pcm_playback_silence c s new).reported = s.reported := by
  unfold snd_pcm_playback_silence
  split <;> rfl

@[simp] theorem advanceTo_reported : (advanceTo c s n).reported = s.reported := by
  unfold advanceTo
  dsimp only
  split
  · exact silence_reported _
  · rfl

@[simp] theorem advanceTo_queue : (advanceTo c s n).queue = s.queue.drop n := by
  unfold advanceTo
  dsimp only
  split
  · rw [silence_queue]
  · rfl

/-- What an update does to the memory. -/
theorem advanceTo_dma (h : InRange c s) (hlive : Live c s) (hrun : s.state.Filled)
    (hn : n < c.buffer_size) :
    ((advanceTo c s n).dma = s.dma ∨
      (advanceTo c s n).dma =
        Ring.write s.dma c.buffer_size s.hw_ptr (.replicate n c.silence)) ∧
      (c.stream = .PLAYBACK → 0 < c.sw.silence_size →
        (advanceTo c s n).silence_filled = c.buffer_size) := by
  unfold advanceTo
  dsimp only
  by_cases hsil : c.stream = .PLAYBACK ∧ 0 < c.sw.silence_size
  · have hsize : ¬ c.sw.silence_size < c.boundary := by
      rcases c.sw.silence_ok with hzero | hB
      · omega
      · exact hB ▸ lt_irrefl _
    rw [if_pos hsil, silence_update (hlive.silence hsil.1 hsil.2 hrun) h.hw_lt hn hsize]
    exact ⟨.inr rfl, fun _ _ => rfl⟩
  · rw [if_neg hsil]
    exact ⟨.inl rfl, fun hs hz => absurd ⟨hs, hz⟩ hsil⟩

/-- A region between the new position and the end of the ring is not silenced. -/
theorem read_advanceTo (h : InRange c s) (hlive : Live c s) (hrun : s.state.Filled)
    (hn : n < c.buffer_size) {p m : Nat} (hp : s.hw_ptr + n ≤ p)
    (hm : p + m ≤ s.hw_ptr + c.buffer_size) :
    Ring.read (advanceTo c s n).dma c.buffer_size p m = Ring.read s.dma c.buffer_size p m := by
  rcases (advanceTo_dma h hlive hrun hn).1 with hdma | hdma
  · rw [hdma]
  · rw [hdma, Ring.read_write_of_disjoint]
    rw [List.length_replicate]
    exact (Ring.disjoint_region hp hm).symm

theorem lt_boundary (hn : n < 2 * c.buffer_size) : n < c.boundary :=
  hn.trans_le c.hw.two_mul_le_boundary

theorem size_pos (c : Config α) : 0 < c.buffer_size := c.hw.size_pos

theorem lt_boundary_of_le (hn : n ≤ c.buffer_size) : n < c.boundary :=
  lt_boundary (by have hpos := size_pos c; omega)

theorem appl_ptr_eq (hs : c.stream = .PLAYBACK) (h : InRange c s) :
    s.appl_ptr = (s.hw_ptr + queued c s) % c.boundary := by
  unfold queued
  rw [hs]
  exact (add_ahead h.hw_lt h.appl_lt).symm

theorem queued_advanceTo_playback (hs : c.stream = .PLAYBACK) (h : InRange c s)
    (hn : n < c.buffer_size) : queued c (advanceTo c s n) =
      if n ≤ queued c s then queued c s - n else c.boundary - (n - queued c s) := by
  unfold queued
  rw [hs, advanceTo_hw_ptr, advanceTo_appl_ptr]
  exact ahead_add_left h.hw_lt h.appl_lt (lt_boundary (by omega))

theorem queued_advanceTo_capture (hs : c.stream = .CAPTURE) (h : InRange c s)
    (hq : queued c s ≤ c.buffer_size) (hn : n < c.buffer_size) :
    queued c (advanceTo c s n) = queued c s + n := by
  unfold queued at hq ⊢
  rw [hs, advanceTo_hw_ptr, advanceTo_appl_ptr]
  rw [hs] at hq
  dsimp only at hq
  exact ahead_add_right h.appl_lt h.hw_lt (lt_boundary (by omega))

/-- **The hardware moves on without passing the application.** -/
theorem Live.moves (hlive : Live c s) (h : InRange c s) (hrun : s.state.Filled)
    (hn : n < c.buffer_size)
    (hroom : match c.stream with
      | .PLAYBACK => n ≤ queued c s
      | .CAPTURE => queued c s + n ≤ c.buffer_size) : Live c (advanceTo c s n) := by
  have hsilence := (advanceTo_dma h hlive hrun hn).2
  cases hs : c.stream with
  | PLAYBACK =>
    rw [hs] at hroom
    have hq := hlive.queued_le
    have hq' : queued c (advanceTo c s n) = queued c s - n := by
      rw [queued_advanceTo_playback hs h hn, if_pos hroom]
    refine ⟨⟨by omega, fun _ => ?_, fun hp hz _ => hsilence hp hz⟩, ?_⟩
    · have hsplit := hlive.frames hs
      rw [show queued c s = n + (queued c s - n) by omega, Ring.read_add] at hsplit
      rw [hq', advanceTo_hw_ptr, read_mod_boundary, read_advanceTo h hlive hrun hn le_rfl (by omega),
        advanceTo_queue, ← hsplit, List.drop_left' (Ring.length_read ..)]
    · have hpc := hlive.pc
      rw [advanceTo_pc]
      cases hcase : s.pc with
      | idle => trivial
      | drain => trivial
      | wait data size xfer =>
        rw [hcase] at hpc
        exact hpc
      | sleep data size xfer =>
        rw [hcase] at hpc
        exact hpc
      | loop data size xfer avail =>
        simp only [hcase, PcOk, hs] at hpc ⊢
        exact ⟨hpc.1, by omega⟩
      | moved data size xfer avail frames =>
        simp only [hcase, PcOk, hs] at hpc ⊢
        obtain ⟨hle, hlen, hsize, hfit, hread⟩ := hpc
        refine ⟨hle, hlen, hsize, by omega, ?_⟩
        rw [advanceTo_appl_ptr]
        rw [appl_ptr_eq hs h, read_mod_boundary] at hread ⊢
        rw [read_advanceTo h hlive hrun hn (by omega) (by omega)]
        exact hread
  | CAPTURE =>
    rw [hs] at hroom
    have hq' := queued_advanceTo_capture hs h hlive.queued_le hn
    refine ⟨⟨by omega, fun hp => absurd (hs.symm.trans hp) nofun,
      fun hp hz _ => hsilence hp hz⟩, ?_⟩
    have hpc := hlive.pc
    rw [advanceTo_pc]
    cases hcase : s.pc with
    | idle => trivial
    | drain => trivial
    | wait data size xfer => exact fun hp => absurd (hs.symm.trans hp) nofun
    | sleep data size xfer => exact fun hp => absurd (hs.symm.trans hp) nofun
    | loop data size xfer avail =>
      simp only [hcase, PcOk, hs] at hpc ⊢
      omega
    | moved data size xfer avail frames =>
      simp only [hcase, PcOk, hs] at hpc ⊢
      exact ⟨hpc.1, by omega⟩

/-! ## Updates -/

/-- What is available when the hardware has passed the application. -/
def availPast (c : Config α) (s : Substream α) (pos : Nat) : Nat :=
  match c.stream with
  | .PLAYBACK => c.buffer_size + (advance c s pos - queued c s)
  | .CAPTURE => queued c s + advance c s pos

/-- The hardware has passed the application, and the stream is not stopped for it. -/
def Hidden (c : Config α) (s : Substream α) (pos : Nat) : Prop :=
  Overtakes c s pos ∧ s.state ≠ .DRAINING ∧ availPast c s pos < c.sw.stop_threshold

/-- Where `snd_pcm_update_state` stops the stream. -/
def Stops (c : Config α) (s : Substream α) : Prop :=
  if s.state = .DRAINING then c.buffer_size ≤ avail c s else c.sw.stop_threshold ≤ avail c s

theorem update_state_stops (hopen : s.state ≠ .OPEN) (h : Stops c s) :
    ∃ state, (state = .XRUN ∨ state = .SETUP) ∧
      snd_pcm_update_state c s = ({ s with state, reported := true }, .error .EPIPE) := by
  unfold Stops at h
  unfold snd_pcm_update_state xrun snd_pcm_stop
  dsimp only
  rw [if_neg hopen, if_neg hopen]
  split_ifs at h ⊢
  · exact ⟨.SETUP, .inr rfl, rfl⟩
  · exact ⟨.XRUN, .inl rfl, rfl⟩

theorem update_state_goes_on (h : ¬ Stops c s) : snd_pcm_update_state c s = (s, .ok ()) := by
  unfold Stops at h
  unfold snd_pcm_update_state
  split_ifs at h ⊢ <;> rfl

/-- A stopped stream. -/
theorem Core.stop (h : Core c s) {state : PcmState} (hstate : state = .XRUN ∨ state = .SETUP) :
    Ringed c { s with state, reported := true } := by
  have hopen : state ≠ .OPEN := by
    rcases hstate with rfl | rfl <;> nofun
  have hstopped : Stopped { s with state, reported := true } := hstate.imp id fun h => ⟨h, rfl⟩
  exact { h with opened := hopen, xrun := fun _ => rfl, kept := fun hs => absurd hstopped hs }

theorem Core.stop_inv (h : Core c s) (hfits : PcFits c s.pc) {state : PcmState}
    (hstate : state = .XRUN ∨ state = .SETUP) : Inv c { s with state, reported := true } :=
  { h.stop hstate with
    live := fun hs => absurd (hstate.imp id fun h => ⟨h, rfl⟩) hs
    fits := hfits }

theorem Inv.update_state (h : Inv c s) : Inv c (snd_pcm_update_state c s).1 := by
  by_cases hstops : Stops c s
  · obtain ⟨state, hstate, heq⟩ := update_state_stops h.opened hstops
    rw [heq]
    exact h.toCore.stop_inv h.fits hstate
  · rw [update_state_goes_on hstops]
    exact h

theorem Core.moves (h : Core c s) : Core c (advanceTo c s n) where
  hw_lt := Nat.mod_lt _ ((Nat.zero_le _).trans_lt h.hw_lt)
  appl_lt := by
    rw [advanceTo_appl_ptr]
    exact h.appl_lt
  base := rfl
  opened := by
    rw [advanceTo_state]
    exact h.opened
  xrun := by
    rw [advanceTo_state, advanceTo_reported]
    exact h.xrun

theorem Inv.fits_moves (h : Inv c s) : PcFits c (advanceTo c s n).pc := by
  rw [advanceTo_pc]
  exact h.fits

theorem not_overtakes_iff : ¬ Overtakes c s pos ↔ match c.stream with
    | .PLAYBACK => advance c s pos ≤ queued c s
    | .CAPTURE => queued c s + advance c s pos ≤ c.buffer_size := by
  unfold Overtakes
  cases c.stream <;> exact Nat.not_lt

theorem not_stopped_of_filled (h : s.state.Filled) : ¬ Stopped s := by
  rintro (hs | ⟨hs, _⟩) <;> rw [hs] at h <;> exact h

/-- An update that passes nothing keeps the ring, whatever it finds then. -/
theorem Inv.live_moves (h : Inv c s) (hrun : s.state.Filled) (hC : ¬ Overtakes c s pos) :
    Live c (advanceTo c s (advance c s pos)) :=
  (h.live (not_stopped_of_filled hrun)).moves h.toInRange hrun (advance_lt c s pos)
    (not_overtakes_iff.1 hC)

/-- What is available behind an update that has passed the application. -/
theorem avail_of_overtakes (h : Inv c s) (hrun : s.state.Filled) (hO : Overtakes c s pos) :
    avail c (advanceTo c s (advance c s pos)) = availPast c s pos ∧
      c.buffer_size < queued c (advanceTo c s (advance c s pos)) := by
  have hq := (h.live (not_stopped_of_filled hrun)).queued_le
  have hn := advance_lt c s pos
  have htwo := c.hw.two_mul_le_boundary
  have hr := (h.toCore.moves (n := advance c s pos)).toInRange
  unfold Overtakes at hO
  unfold avail availPast
  cases hs : c.stream with
  | PLAYBACK =>
    rw [hs] at hO
    dsimp only at hO ⊢
    have hq' := queued_advanceTo_playback hs h.toInRange hn
    rw [if_neg (by omega)] at hq'
    rw [playback_avail_eq hs hr, hq']
    dsimp only [Config.buffer_size, Config.boundary] at *
    constructor
    · rw [if_neg (by omega)]
      omega
    · omega
  | CAPTURE =>
    rw [hs] at hO
    dsimp only at hO ⊢
    have hq' := queued_advanceTo_capture hs h.toInRange hq hn
    rw [capture_avail_eq hs hr, hq']
    exact ⟨rfl, hO⟩

theorem le_availPast (hO : Overtakes c s pos) : c.buffer_size ≤ availPast c s pos := by
  unfold Overtakes at hO
  unfold availPast
  cases hs : c.stream with
  | PLAYBACK => exact Nat.le_add_right _ _
  | CAPTURE =>
    rw [hs] at hO
    exact hO.le

theorem stops_moves (h : Inv c s) (hrun : s.state.Filled) (hO : Overtakes c s pos) :
    Stops c (advanceTo c s (advance c s pos)) ↔ ¬ Hidden c s pos := by
  have hle := le_availPast hO
  unfold Stops Hidden
  rw [(avail_of_overtakes h hrun hO).1, advanceTo_state]
  by_cases hd : s.state = .DRAINING
  · rw [if_pos hd]
    exact iff_of_true hle fun hC => hC.2.1 hd
  · rw [if_neg hd, ← not_lt]
    exact not_congr ⟨fun hlt => ⟨hO, hd, hlt⟩, fun hC => hC.2.2⟩

theorem advance_ne_zero (h : Inv c s) (hrun : s.state.Filled) (hO : Overtakes c s pos) :
    advance c s pos ≠ 0 := by
  have hq := (h.live (not_stopped_of_filled hrun)).queued_le
  unfold Overtakes at hO
  cases hs : c.stream <;> rw [hs] at hO <;> dsimp only at hO <;> omega

/-- **An update that hides nothing keeps the invariant.** -/
theorem Inv.update (h : Inv c s) (hrun : s.state.Filled) (hC : ¬ Hidden c s pos) :
    Inv c (snd_pcm_update_hw_ptr0 c s pos).1 := by
  rw [update_eq h.toInRange h.base]
  split
  · exact h
  by_cases hO : Overtakes c s pos
  · obtain ⟨state, hstate, heq⟩ := update_state_stops h.toCore.moves.opened
      ((stops_moves h hrun hO).2 hC)
    rw [heq]
    exact h.toCore.moves.stop_inv h.fits_moves hstate
  · have hInv : Inv c (advanceTo c s (advance c s pos)) :=
      { h.toCore.moves with live := fun _ => h.live_moves hrun hO, fits := h.fits_moves }
    exact hInv.update_state

/-- An update that hides that the hardware has passed the application. -/
theorem Inv.update_hidden (h : Inv c s) (hrun : s.state.Filled) (hC : Hidden c s pos) :
    snd_pcm_update_hw_ptr0 c s pos = (advanceTo c s (advance c s pos), .ok ()) := by
  rw [update_eq h.toInRange h.base, if_neg (advance_ne_zero h hrun hC.1),
    update_state_goes_on fun hstops => (stops_moves h hrun hC.1).1 hstops hC]

end Melis.Snd
