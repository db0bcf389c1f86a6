import Melis.Snd.Calls

/-!
# Transfers keep the ring

A write fills the ring behind `appl_ptr` and moves the pointer on later; between the
two the hardware may move on, and what a call under way knows (`PcOk`) says that
there is room for what it has written.
-/

namespace Melis.Snd

open Lib

variable {α : Type} {c : Config α} {s : Substream α} {n pos : Nat} {e : Env}
  {data : List α} {size xfer avail frames : Nat}

/-! ## Begin and end -/

theorem Inv.setRet (h : Inv c s) (ret : Except Errno Nat) : Inv c { s with ret } :=
  { h with
    live := fun hs => { h.live hs with pc := (h.live hs).pc }
    fits := h.fits }

theorem Ringed.endTransfer (h : Ringed c s) (xfer : Nat) (err : Option Errno) :
    Inv c (endTransfer c s xfer err) := by
  have hidle := h.withPc .idle 0 s.ret nofun fun _ => trivial
  unfold Snd.endTransfer
  dsimp only
  split
  · exact hidle.update_state.setRet _
  · exact hidle.setRet _

/-- What is available as the code reads it. -/
theorem pcOk_loop (hr : InRange c s) (hq : queued c s ≤ c.buffer_size)
    (hlen : c.stream = .PLAYBACK → data.length = size) :
    PcOk c s (.loop data size xfer (Snd.avail c s)) := by
  unfold PcOk Snd.avail
  cases hs : c.stream with
  | PLAYBACK =>
    refine ⟨hlen hs, ?_⟩
    dsimp only
    rw [playback_avail_eq hs hr, if_pos hq]
    omega
  | CAPTURE =>
    dsimp only
    rw [capture_avail_eq hs hr]

theorem Ringed.toLoop (h : Ringed c s) (hlen : c.stream = .PLAYBACK → data.length = size) :
    Inv c { s with pc := .loop data size xfer (Snd.avail c s) } :=
  h.withPc _ s.twake s.ret nofun fun hs => pcOk_loop h.toInRange (h.kept hs).queued_le hlen

theorem Inv.setTwake (h : Inv c s) (twake : Nat) : Inv c { s with twake } :=
  { h with
    live := fun hs => { h.live hs with pc := (h.live hs).pc }
    fits := h.fits }

theorem Inv.seen (h : Inv c s) (hC : s.state = .RUNNING → ¬ Hidden c s pos) :
    Inv c (if s.state = .RUNNING then (snd_pcm_update_hw_ptr0 c s pos).1 else s) := by
  split
  · rename_i hrun
    exact h.update (by rw [hrun]; trivial) (hC hrun)
  · exact h

theorem Inv.beginLoop (h : Inv c s) (hC : s.state = .RUNNING → ¬ Hidden c s pos)
    (hlen : c.stream = .PLAYBACK → data.length = size) :
    Inv c (beginLoop c s data size pos) :=
  ((h.setTwake (if c.sw.avail_min = 0 then 1 else c.sw.avail_min)).seen hC).ringed.toLoop hlen

theorem Inv.lib_write (h : Inv c s) (hC : data ≠ [] → s.state = .RUNNING → ¬ Hidden c s e.pos)
    (hpc : s.pc = .idle) : Inv c (snd_pcm_lib_write c s data e) := by
  unfold snd_pcm_lib_write
  split_ifs with hnil
  · exact h.ringed.returned hpc _
  split
  · exact h.beginLoop (hC hnil) fun _ => rfl
  · exact h.beginLoop (hC hnil) fun _ => rfl
  · exact h.beginLoop (hC hnil) fun _ => rfl
  · exact h.ringed.endTransfer _ _
  · exact h.ringed.endTransfer _ _
  · exact h.ringed.endTransfer _ _

/-- A capture stream is started without a look at the ring. -/
theorem do_start_capture (hs : c.stream = .CAPTURE) (hprep : s.state = .PREPARED) (ok : Bool) :
    snd_pcm_do_start c s .RUNNING ok =
      if ok then ({ s with state := .RUNNING }, .ok ()) else (s, .error .EDRV) := by
  unfold snd_pcm_do_start
  have hplay : ¬ c.stream = .PLAYBACK := by
    rw [hs]
    nofun
  dsimp only
  rw [if_neg (not_not.2 hprep), if_neg fun h => hplay h.1]
  cases ok with
  | true => simp only [Bool.not_true, Bool.false_eq_true, if_false, hplay, false_and, if_true]
  | false => rfl

/-- Where `snd_pcm_lib_read` updates the position. -/
def ReadLooks (c : Config α) (s : Substream α) (size : Nat) (e : Env) : Prop :=
  s.state = .RUNNING ∨ s.state = .PREPARED ∧ c.sw.start_threshold ≤ size ∧ e.ok = true

theorem Inv.lib_read (h : Inv c s) (hs : c.stream = .CAPTURE)
    (hC : size ≠ 0 → ReadLooks c s size e → ¬ Hidden c s e.pos) (hpc : s.pc = .idle) :
    Inv c (snd_pcm_lib_read c s size e) := by
  have hlen : c.stream = .PLAYBACK → ([] : List α).length = size := fun hp =>
    absurd (hs.symm.trans hp) nofun
  unfold snd_pcm_lib_read
  by_cases hz : size = 0
  · rw [if_pos hz]
    exact h.ringed.returned hpc _
  rw [if_neg hz]
  have hrun : s.state = .RUNNING → ¬ Hidden c s e.pos := fun hr => hC hz (.inl hr)
  split
  · rename_i hprep
    by_cases hstart : c.sw.start_threshold ≤ size
    · rw [if_pos hstart, do_start_capture hs hprep]
      cases hok : e.ok with
      | true =>
        have hstarted : Inv c { s with state := .RUNNING } := by
          have hring := h.ringed.do_start .RUNNING trivial true
          rw [do_start_capture hs hprep, if_pos rfl] at hring
          have hInv := hring.withPc .idle s.twake s.ret nofun fun _ => trivial
          rw [← hpc] at hInv
          exact hInv
        refine hstarted.beginLoop (fun _ hH => hC hz (.inr ⟨hprep, hstart, hok⟩) ?_) hlen
        exact ⟨hH.1, fun hd => absurd (hprep.symm.trans hd) nofun, hH.2.2⟩
      | false => exact h.ringed.endTransfer _ _
    · rw [if_neg hstart]
      exact h.beginLoop hrun hlen
  · exact h.beginLoop hrun hlen
  · exact h.beginLoop hrun hlen
  · exact h.beginLoop hrun hlen
  · exact h.ringed.endTransfer _ _
  · exact h.ringed.endTransfer _ _
  · exact h.ringed.endTransfer _ _

/-! ## The loop -/

/-- The frames that are copied at once. -/
theorem frames_le (c : Config α) (p size avail : Nat) {frames : Nat}
    (hdef : frames = if c.buffer_size - p % c.buffer_size < (if avail < size then avail else size)
      then c.buffer_size - p % c.buffer_size else if avail < size then avail else size) :
    frames ≤ avail ∧ frames ≤ size ∧ p % c.buffer_size + frames ≤ c.buffer_size := by
  have hlt : p % c.buffer_size < c.buffer_size := Nat.mod_lt _ (size_pos c)
  subst hdef
  split_ifs <;> omega

/-- What is written behind `appl_ptr` leaves the queue alone and is read back there. -/
theorem Live.copied (hlive : Live c s) (hr : InRange c s) (hs : c.stream = .PLAYBACK)
    (data : List α) (frames : Nat)
    (hfit : queued c s + frames ≤ c.buffer_size)
    (hcont : s.appl_ptr % c.buffer_size + frames ≤ c.buffer_size) (hlen : frames ≤ data.length) :
    Ring.read (Memory.memcpy s.dma (s.appl_ptr % c.buffer_size) (data.take frames)) c.buffer_size
        s.hw_ptr (queued c s) = s.queue ∧
      Ring.read (Memory.memcpy s.dma (s.appl_ptr % c.buffer_size) (data.take frames)) c.buffer_size
        s.appl_ptr frames = data.take frames := by
  have htake : (data.take frames).length = frames := by
    rw [List.length_take, Nat.min_eq_left hlen]
  have hwrite : Memory.memcpy s.dma (s.appl_ptr % c.buffer_size) (data.take frames) =
      Ring.write s.dma c.buffer_size s.appl_ptr (data.take frames) := by
    have hfits : s.appl_ptr % c.buffer_size + (data.take frames).length ≤ c.buffer_size := by
      rw [htake]
      exact hcont
    rw [← Ring.write_eq_memcpy hfits, Ring.write_mod]
  have hbehind : Ring.region c.buffer_size s.appl_ptr frames =
      Ring.region c.buffer_size (s.hw_ptr + queued c s) frames := by
    rw [appl_ptr_eq hs hr, ← Ring.region_mod, Nat.mod_mod_of_dvd _ c.hw.dvd_boundary,
      Ring.region_mod]
  rw [hwrite]
  constructor
  · rw [Ring.read_write_of_disjoint, hlive.frames hs]
    rw [htake, hbehind]
    exact Ring.disjoint_region le_rfl (by omega)
  · have hread : Ring.read (Ring.write s.dma c.buffer_size s.appl_ptr (data.take frames))
        c.buffer_size s.appl_ptr (data.take frames).length = data.take frames :=
      Ring.read_write (by rw [htake]; omega)
    rw [htake] at hread
    exact hread

theorem Ringed.stop_setup (h : Ringed c s) : Ringed c (snd_pcm_stop s .SETUP) := by
  unfold snd_pcm_stop
  rw [if_neg h.opened]
  exact h.setup

theorem Inv.stepLoop (h : Inv c s) (hpc : s.pc = .loop data size xfer avail) :
    Inv c (stepLoop c s data size xfer avail) := by
  have hlen : ¬ Stopped s → c.stream = .PLAYBACK → data.length = size := by
    intro hs hp
    have hok := (h.live hs).pc
    rw [hpc] at hok
    unfold PcOk at hok
    rw [hp] at hok
    exact hok.1
  unfold Snd.stepLoop
  by_cases hz : avail = 0
  · rw [if_pos hz]
    split_ifs
    · exact h.ringed.stop_setup.endTransfer _ _
    · exact h.ringed.withPc (.wait data size xfer) _ s.ret nofun hlen
  rw [if_neg hz]
  dsimp only
  set frames := if c.buffer_size - s.appl_ptr % c.buffer_size <
    (if avail < size then avail else size) then c.buffer_size - s.appl_ptr % c.buffer_size
    else if avail < size then avail else size with hdef
  obtain ⟨havail, hsize, hcont⟩ := frames_le c s.appl_ptr size avail hdef
  have hfits : ∀ d, PcFits c (.moved d size xfer avail frames : Pc α) := by
    rintro d data size xfer avail frames ⟨⟩
    omega
  cases hs : c.stream with
  | PLAYBACK =>
    refine { h with live := fun hstop => ?_, fits := hfits _ }
    have hlive := h.live hstop
    have hok := hlive.pc
    rw [hpc] at hok
    unfold PcOk at hok
    rw [hs] at hok
    dsimp only at hok
    obtain ⟨hread, hread'⟩ := hlive.copied h.toInRange hs data frames (by omega) hcont (by omega)
    refine { hlive with frames := fun _ => hread, pc := ⟨havail, ?_⟩ }
    rw [hs]
    exact ⟨hok.1, hsize, hok.2, hread'⟩
  | CAPTURE =>
    refine { h with live := fun hstop => ?_, fits := hfits _ }
    have hlive := h.live hstop
    have hok := hlive.pc
    rw [hpc] at hok
    unfold PcOk at hok
    rw [hs] at hok
    refine { hlive with pc := ⟨havail, ?_⟩ }
    rw [hs]
    exact hok

theorem Inv.stepWait (h : Inv c s)
    (hlen : ¬ Stopped s → c.stream = .PLAYBACK → data.length = size) :
    Inv c (stepWait c s data size xfer) := by
  unfold Snd.stepWait
  split
  · exact h.ringed.withPc _ s.twake s.ret nofun fun hs =>
      pcOk_loop h.toInRange (h.live hs).queued_le (hlen hs)
  · exact h.ringed.withPc (.sleep data size xfer) s.twake s.ret nofun hlen

theorem Inv.stepSleep (h : Inv c s)
    (hlen : ¬ Stopped s → c.stream = .PLAYBACK → data.length = size) :
    Inv c (stepSleep c s data size xfer e) := by
  have hwait : Inv c { s with pc := .wait data size xfer } :=
    h.ringed.withPc (.wait data size xfer) s.twake s.ret nofun hlen
  unfold Snd.stepSleep
  split
  · exact h.ringed.endTransfer _ _
  · exact h.ringed.endTransfer _ _
  · split_ifs with hp
    · exact h.ringed.endTransfer _ _
    · refine h.ringed.withPc (.loop data size xfer 0) s.twake s.ret nofun fun _ => ?_
      unfold PcOk
      cases hs : c.stream with
      | PLAYBACK => exact absurd hs hp
      | CAPTURE => exact Nat.zero_le _
  · exact h.ringed.endTransfer _ _
  · exact h.ringed.endTransfer _ _
  · exact h.ringed.endTransfer _ _
  · exact hwait
  · split_ifs
    · exact h.ringed.endTransfer _ _
    · exact hwait

/-! ## Behind a transfer -/

/-- The loop goes on, or ends. -/
theorem Ringed.again (h : Ringed c s)
    (hpc : ¬ Stopped s → PcOk c s (.loop data (size - frames) (xfer + frames) (avail - frames))) :
    Inv c (if size - frames = 0 then Snd.endTransfer c s (xfer + frames) none
      else { s with pc := .loop data (size - frames) (xfer + frames) (avail - frames) }) := by
  split
  · exact h.endTransfer _ _
  · exact h.withPc _ s.twake s.ret nofun hpc

/-- `appl_ptr` behind a transfer. -/
theorem appl_ptr_add (hr : InRange c s) (hle : frames ≤ c.buffer_size) :
    (if c.boundary ≤ s.appl_ptr + frames then s.appl_ptr + frames - c.boundary
      else s.appl_ptr + frames) = (s.appl_ptr + frames) % c.boundary :=
  (mod_boundary hr.appl_lt (lt_boundary_of_le hle).le).symm

/-- **What was written joins the queue.** -/
theorem Inv.written (h : Inv c s) (hs : c.stream = .PLAYBACK)
    (hpc : s.pc = .moved data size xfer avail frames) :
    Ringed c { s with
        appl_ptr := (s.appl_ptr + frames) % c.boundary
        queue := s.queue ++ data.take frames } ∧
      (¬ Stopped s → ∀ s', s'.hw_ptr = s.hw_ptr → s'.appl_ptr = (s.appl_ptr + frames) % c.boundary →
        PcOk c s' (.loop (data.drop frames) (size - frames) (xfer + frames) (avail - frames))) := by
  have hlt : (s.appl_ptr + frames) % c.boundary < c.boundary := Nat.mod_lt _ (boundary_pos c)
  have hpcOk : ¬ Stopped s → frames ≤ avail ∧ data.length = size ∧ frames ≤ size ∧
      queued c s + avail ≤ c.buffer_size ∧
        Ring.read s.dma c.buffer_size s.appl_ptr frames = data.take frames := by
    intro hstop
    have hok := (h.live hstop).pc
    rw [hpc] at hok
    unfold PcOk at hok
    rw [hs] at hok
    exact hok
  have hqueued : ¬ Stopped s → ∀ s', s'.hw_ptr = s.hw_ptr →
      s'.appl_ptr = (s.appl_ptr + frames) % c.boundary → queued c s' = queued c s + frames := by
    intro hstop s' hh ha
    obtain ⟨hle, _, _, hfit, _⟩ := hpcOk hstop
    have hB : queued c s + frames < c.boundary := lt_boundary_of_le (by omega)
    unfold queued at hB ⊢
    rw [hs] at hB ⊢
    rw [hh, ha]
    exact ahead_add_right h.hw_lt h.appl_lt hB
  refine ⟨{ h with appl_lt := hlt, kept := fun hstop => ?_ }, fun hstop s' hh ha => ?_⟩
  · obtain ⟨hle, _, _, hfit, hread⟩ := hpcOk hstop
    have hlive := h.live hstop
    have hq := hqueued hstop { s with
      appl_ptr := (s.appl_ptr + frames) % c.boundary
      queue := s.queue ++ data.take frames } rfl rfl
    refine ⟨by omega, fun _ => ?_, fun hp hz hf => hlive.silence hp hz hf⟩
    rw [appl_ptr_eq hs h.toInRange, read_mod_boundary] at hread
    rw [hq, Ring.read_add, hlive.frames hs, hread]
  · obtain ⟨hle, hlen, hsize, hfit, _⟩ := hpcOk hstop
    unfold PcOk
    rw [hs]
    refine ⟨by rw [List.length_drop, hlen], ?_⟩
    rw [hqueued hstop s' hh ha]
    omega

/-- What was read leaves the ring. -/
theorem Inv.readOut (h : Inv c s) (hs : c.stream = .CAPTURE)
    (hpc : s.pc = .moved data size xfer avail frames) :
    Ringed c { s with appl_ptr := (s.appl_ptr + frames) % c.boundary } ∧
      (¬ Stopped s → PcOk c { s with appl_ptr := (s.appl_ptr + frames) % c.boundary }
        (.loop data (size - frames) (xfer + frames) (avail - frames))) := by
  have hlt : (s.appl_ptr + frames) % c.boundary < c.boundary := Nat.mod_lt _ (boundary_pos c)
  have hle := h.fits data size xfer avail frames hpc
  have hqueued : ¬ Stopped s → frames ≤ avail ∧ avail ≤ queued c s ∧
      queued c { s with appl_ptr := (s.appl_ptr + frames) % c.boundary } = queued c s - frames := by
    intro hstop
    have hok := (h.live hstop).pc
    rw [hpc] at hok
    unfold PcOk at hok
    rw [hs] at hok
    refine ⟨hok.1, hok.2, ?_⟩
    have hq : frames ≤ queued c s := hok.1.trans hok.2
    unfold queued at hq ⊢
    rw [hs] at hq ⊢
    dsimp only at hq ⊢
    rw [ahead_add_left h.appl_lt h.hw_lt (lt_boundary_of_le hle), if_pos hq]
  refine ⟨{ h with appl_lt := hlt, kept := fun hstop => ?_ }, fun hstop => ?_⟩
  · obtain ⟨_, _, hq⟩ := hqueued hstop
    have hlive := h.live hstop
    have hqle := hlive.queued_le
    exact ⟨by omega, fun hp => absurd (hs.symm.trans hp) nofun, fun hp hz hf => hlive.silence hp hz hf⟩
  · obtain ⟨_, havail, hq⟩ := hqueued hstop
    unfold PcOk
    rw [hs]
    dsimp only
    omega

theorem Inv.stepMoved (h : Inv c s) (hpc : s.pc = .moved data size xfer avail frames) :
    Inv c (stepMoved c s data size xfer avail frames e) := by
  have happl := appl_ptr_add h.toInRange (h.fits data size xfer avail frames hpc)
  unfold Snd.stepMoved
  split
  · exact h.ringed.endTransfer _ _
  · exact h.ringed.endTransfer _ _
  dsimp only
  rw [happl]
  cases hs : c.stream with
  | CAPTURE =>
    obtain ⟨hring, hok⟩ := h.readOut hs hpc
    exact hring.again hok
  | PLAYBACK =>
    obtain ⟨hring, hok⟩ := h.written hs hpc
    dsimp only
    split
    · rename_i hstart
      have hns : ¬ Stopped s := by
        rintro (hx | ⟨hx, _⟩) <;> cases hstart.1.symm.trans hx
      obtain ⟨hh, ha, _⟩ := do_start_fields (c := c) (s := { s with
        appl_ptr := (s.appl_ptr + frames) % c.boundary
        queue := s.queue ++ data.take frames }) .RUNNING e.ok
      have hstarted := hring.do_start .RUNNING trivial e.ok
      split
      · rename_i s' _ heq
        rw [heq] at hh ha hstarted
        exact hstarted.again fun _ => hok hns s' hh ha
      · rename_i s' _ heq
        rw [heq] at hstarted
        exact hstarted.endTransfer _ _
    · exact hring.again fun hstop => hok hstop _ rfl rfl

end Melis.Snd
