import Mathlib.Data.List.Nodup
import Melis.Mpp.VideoBuffer

/-!
# What the manager promises

`manager_iff` says which runs keep the promises of the manager. That each node is on one list
and that valid frames leave in the order of their pushes holds whatever ids and addresses the
frames have, as long as no release overwrites a valid frame; which frame a release frees and
whether threads that wait are woken depends on the frames in use and on who empties the list.
-/

namespace Melis.Mpp.Vbm

open Lib Function

universe u

variable {α : Type u}

section

variable {s s' : VideoBufferManager α} {n m pick : Nat} {pFrame : FrameArg α} {frame : VideoFrame α}

/-! ## Frames -/

theorem releaseFrame_none (pick : Nat) (hf : found s (pFrame.frame s) = none) :
    vbmReleaseFrame s pFrame pick = ({ ret := -1, pFrame := some (pFrame.frame s) }, s) := by
  unfold vbmReleaseFrame
  dsimp only
  rw [hf]

/-- A frame in use is found, if not always in its own node. -/
theorem found_of_held (hn : n ∈ s.mUsingFrmList) (hheld : pFrame.held = some n) :
    found s (pFrame.frame s) ≠ none := by
  intro hnone
  have hframe : pFrame.frame s = s.mFrame n := by
    cases pFrame with
    | node k => cases hheld; rfl
    | copyOf k => cases hheld; rfl
    | other frame => cases hheld
  rw [hframe] at hnone
  simpa using List.find?_eq_none.1 hnone n hn

/-- What a release writes to the frame of a node. -/
theorem assign_mFrame : (s.assign frame pFrame).mFrame n = s.mFrame n ↔
    (pFrame = .node n → frame = s.mFrame n) := by
  cases pFrame with
  | node k =>
    by_cases hk : k = n
    · subst hk
      simp [VideoBufferManager.assign]
    · have hk' : n ≠ k := fun h => hk h.symm
      simp [VideoBufferManager.assign, hk, hk']
  | copyOf k => simp [VideoBufferManager.assign]
  | other frame => simp [VideoBufferManager.assign]

/-! ## Signals -/

/-- Threads that wait learn that the last frame in use is released. -/
def Signals (s : VideoBufferManager α) : Prop :=
  s.waiting = [] ∨ s.mbWaitUsingFrmEmptyFlag = true ∧ s.waiting.length = 1

/-- A release that has found the frame of `m`: what it moves, writes, and who goes on waiting. -/
structure Moved (s : VideoBufferManager α) (pFrame : FrameArg α) (pick m : Nat)
    (s' : VideoBufferManager α) : Prop where
  free : s'.mFreeFrmList = s.mFreeFrmList ++ [m]
  valid : s'.mValidFrmList = s.mValidFrmList
  inUse : s'.mUsingFrmList = s.mUsingFrmList.erase m
  frame : s'.mFrame = (s.assign (s.mFrame m) pFrame).mFrame
  log : s'.log = s.log
  waiting : s'.waiting =
    if s.mbWaitUsingFrmEmptyFlag = true ∧ s.mUsingFrmList.erase m = [] then
      s.waiting.eraseIdx (pick % s.waiting.length)
    else s.waiting

theorem Moved.woken_iff (hmoved : Moved s pFrame pick m s') (hone : s.mUsingFrmList = [m]) :
    s'.waiting = [] ↔ Signals s := by
  have hempty : s.mUsingFrmList.erase m = [] := by rw [hone, List.erase_cons_head]
  rw [hmoved.waiting]
  unfold Signals
  by_cases hflag : s.mbWaitUsingFrmEmptyFlag = true
  · rw [if_pos ⟨hflag, hempty⟩, and_iff_right hflag, ← List.length_eq_zero_iff,
      ← List.length_eq_zero_iff]
    have hlen : (s.waiting.eraseIdx (pick % s.waiting.length)).length =
      if pick % s.waiting.length < s.waiting.length then s.waiting.length - 1
      else s.waiting.length := List.length_eraseIdx
    split at hlen
    · omega
    · rename_i hge
      have hzero : s.waiting.length = 0 := by
        by_contra hpos
        exact hge (Nat.mod_lt _ (Nat.pos_of_ne_zero hpos))
      omega
  · rw [if_neg fun hc => hflag hc.1]
    exact ⟨.inl, fun hs => hs.resolve_right fun hc => hflag hc.1⟩

end

/-! ## The promises -/

variable [DecidableEq α]

/-- The nodes are on one list each, and the valid frames are those pushed and not taken yet. -/
structure Whole (frmNum : Nat) (s : VideoBufferManager α) : Prop where
  perm : (s.mFreeFrmList ++ s.mValidFrmList ++ s.mUsingFrmList).Perm (List.range frmNum)
  fifo : Queue.replay [] s.log = some (s.mValidFrmList.map s.mFrame)

/-- What a call promises to its caller and to the threads that wait. -/
structure Serves (s : VideoBufferManager α) (call : Call α) (s' : VideoBufferManager α) :
    Prop where
  /-- A release by the holder of a frame frees its node and no other, and returns its data. -/
  released : ∀ pFrame pick n, call = .releaseFrame pFrame pick → pFrame.held = some n →
    n ∈ s.mUsingFrmList →
      step s call = some ({ ret := 0, pFrame := some (s.mFrame n) }, s') ∧
        s'.mUsingFrmList = s.mUsingFrmList.erase n ∧ s'.mFreeFrmList = s.mFreeFrmList ++ [n] ∧
        s'.mValidFrmList = s.mValidFrmList ∧ s'.mFrame = s.mFrame
  /-- When a call empties the list of frames in use, nobody goes on waiting for that. -/
  woken : s.mUsingFrmList ≠ [] → s'.mUsingFrmList = [] → s'.waiting = []

/-- When the calls keep the promises. -/
def Sound (s : VideoBufferManager α) : Call α → Prop
  | .releaseFrame pFrame _ =>
    (∀ n ∈ s.mUsingFrmList, pFrame.held = some n → found s (pFrame.frame s) = some n) ∧
      (∀ n ∈ s.mValidFrmList, pFrame = .node n → ∀ m ∈ s.mUsingFrmList,
        found s (pFrame.frame s) = some m → s.mFrame m = s.mFrame n) ∧
      (s.mUsingFrmList.length = 1 → found s (pFrame.frame s) ≠ none → Signals s)
  | .getAllValidUsingFrame => s.mUsingFrmList.length = 1 → s.waiting = []
  | _ => True

instance (s : VideoBufferManager α) : Decidable (Signals s) := inferInstanceAs (Decidable (_ ∨ _))

instance (s : VideoBufferManager α) : ∀ call, Decidable (Sound s call)
  | .releaseFrame .. => inferInstanceAs (Decidable (_ ∧ _ ∧ _))
  | .getAllValidUsingFrame => inferInstanceAs (Decidable (_ → _))
  | .getValidFrame | .pushFrame .. | .getOldestUsingFrame | .getOldestValidFrame
  | .getSpecUsingFrameWithAddr .. | .usingFrmEmpty | .waitUsingFrmEmpty .. | .waitResumed .. =>
    .isTrue trivial

/-- The steps that there are: a thread that is in a wait makes no other call. -/
def Possible (s : VideoBufferManager α) : Call α → Prop
  | .waitUsingFrmEmpty t => t ∉ s.waiting ∧ t ∉ s.woken
  | .waitResumed t => t ∈ s.woken
  | _ => True

instance (s : VideoBufferManager α) : ∀ call, Decidable (Possible s call)
  | .waitUsingFrmEmpty .. => inferInstanceAs (Decidable (_ ∧ _))
  | .waitResumed .. => inferInstanceAs (Decidable (_ ∈ _))
  | .getValidFrame | .getAllValidUsingFrame | .releaseFrame .. | .pushFrame ..
  | .getOldestUsingFrame | .getOldestValidFrame | .getSpecUsingFrameWithAddr ..
  | .usingFrmEmpty => .isTrue trivial

variable {s s' : VideoBufferManager α} {frmNum n m pick t : Nat} {call : Call α}
  {pFrame : FrameArg α} {frame : VideoFrame α} {l : List Nat}

/-! ## The lists -/

theorem Whole.nodup (h : Whole frmNum s) :
    (s.mFreeFrmList ++ s.mValidFrmList ++ s.mUsingFrmList).Nodup :=
  h.perm.nodup_iff.2 List.nodup_range

/-- A node of one list is on no other. -/
theorem Whole.apart (h : Whole frmNum s) :
    s.mFreeFrmList.Disjoint s.mValidFrmList ∧ s.mFreeFrmList.Disjoint s.mUsingFrmList ∧
      s.mValidFrmList.Disjoint s.mUsingFrmList := by
  have hright := List.disjoint_of_nodup_append h.nodup
  rw [List.disjoint_append_left] at hright
  exact ⟨List.disjoint_of_nodup_append h.nodup.of_append_left, hright⟩

theorem Whole.listDel_free (h : Whole frmNum s) (hl : s.mFreeFrmList = n :: l) :
    s.listDel n = { s with mFreeFrmList := l } := by
  obtain ⟨hvalid, husing, -⟩ := h.apart
  have hn : n ∈ s.mFreeFrmList := hl ▸ List.mem_cons_self
  unfold VideoBufferManager.listDel
  rw [List.erase_of_not_mem (hvalid hn), List.erase_of_not_mem (husing hn), hl,
    List.erase_cons_head]

theorem Whole.listDel_valid (h : Whole frmNum s) (hl : s.mValidFrmList = n :: l) :
    s.listDel n = { s with mValidFrmList := l } := by
  obtain ⟨hfree, -, husing⟩ := h.apart
  have hn : n ∈ s.mValidFrmList := hl ▸ List.mem_cons_self
  unfold VideoBufferManager.listDel
  rw [List.erase_of_not_mem fun hf => hfree hf hn, List.erase_of_not_mem (husing hn), hl,
    List.erase_cons_head]

theorem Whole.listDel_using (h : Whole frmNum s) (hn : n ∈ s.mUsingFrmList) :
    s.listDel n = { s with mUsingFrmList := s.mUsingFrmList.erase n } := by
  obtain ⟨-, hfree, hvalid⟩ := h.apart
  unfold VideoBufferManager.listDel
  rw [List.erase_of_not_mem fun hf => hfree hf hn, List.erase_of_not_mem fun hv => hvalid hv hn]

/-! ## What a call leaves -/

/-- Nodes that only move, with the frames of the valid ones kept. -/
theorem Whole.of_perm (h : Whole frmNum s)
    (hperm : (s'.mFreeFrmList ++ s'.mValidFrmList ++ s'.mUsingFrmList).Perm
      (s.mFreeFrmList ++ s.mValidFrmList ++ s.mUsingFrmList))
    (hfifo : Queue.replay [] s'.log = some (s'.mValidFrmList.map s'.mFrame)) : Whole frmNum s' :=
  ⟨hperm.trans h.perm, hfifo⟩

theorem Whole.getValidFrame (h : Whole frmNum s) : Whole frmNum (vbmGetValidFrame s).2 := by
  unfold vbmGetValidFrame
  cases hl : s.mValidFrmList with
  | nil => exact h
  | cons n l =>
    have hfifo := h.fifo
    rw [hl] at hfifo
    dsimp only
    rw [h.listDel_valid hl]
    refine h.of_perm ?_ (Queue.replay_get hfifo)
    show (s.mFreeFrmList ++ l ++ (s.mUsingFrmList ++ [n])).Perm _
    rw [hl, List.perm_iff_count]
    intro a
    simp only [List.count_append, List.count_cons, List.count_nil]
    omega

theorem Whole.getAllValidUsingFrame (h : Whole frmNum s) :
    Whole frmNum (vbmGetAllValidUsingFrame s).2 := by
  unfold vbmGetAllValidUsingFrame
  cases hu : s.mUsingFrmList with
  | nil =>
    cases hl : s.mValidFrmList with
    | nil => exact h
    | cons n l =>
      have hfifo := h.fifo
      rw [hl] at hfifo
      dsimp only
      rw [h.listDel_valid hl]
      refine h.of_perm ?_ (Queue.replay_get hfifo)
      show (s.mFreeFrmList ++ [n] ++ l ++ s.mUsingFrmList).Perm _
      rw [hl, List.perm_iff_count]
      intro a
      simp only [List.count_append, List.count_cons, List.count_nil]
      omega
  | cons n l =>
    dsimp only
    rw [h.listDel_using (hu ▸ List.mem_cons_self), hu, List.erase_cons_head]
    refine h.of_perm ?_ h.fifo
    show (s.mFreeFrmList ++ [n] ++ s.mValidFrmList ++ l).Perm _
    rw [hu, List.perm_iff_count]
    intro a
    simp only [List.count_append, List.count_cons, List.count_nil]
    omega

theorem Whole.pushFrame (h : Whole frmNum s) : Whole frmNum (vbmPushFrame s pFrame).2 := by
  unfold vbmPushFrame
  cases hl : s.mFreeFrmList with
  | nil => exact h
  | cons n l =>
    have hn : n ∈ s.mFreeFrmList := hl ▸ List.mem_cons_self
    have hnot : ∀ m ∈ s.mValidFrmList, m ≠ n := by
      rintro m hm rfl
      exact h.apart.1 hn hm
    -- the frame of a free node is no valid one
    have hsame : s.mValidFrmList.map (update s.mFrame n (pFrame.frame s)) =
        s.mValidFrmList.map s.mFrame :=
      List.map_congr_left fun m hm => update_of_ne (hnot m hm) ..
    have hput : Whole frmNum { s with mFrame := update s.mFrame n (pFrame.frame s) } :=
      ⟨h.perm, h.fifo.trans (congrArg some hsame.symm)⟩
    dsimp only
    rw [← hl, hput.listDel_free hl]
    refine h.of_perm ?_ ?_
    · show (l ++ (s.mValidFrmList ++ [n]) ++ s.mUsingFrmList).Perm _
      rw [hl, List.perm_iff_count]
      intro a
      simp only [List.count_append, List.count_cons, List.count_nil]
      omega
    · show Queue.replay [] (s.log ++ [.put (pFrame.frame s)]) =
        some ((s.mValidFrmList ++ [n]).map (update s.mFrame n (pFrame.frame s)))
      rw [Queue.replay_put h.fifo, List.map_append, hsame, List.map_singleton, update_self]

theorem Whole.pushFrame_using (h : Whole frmNum s) :
    (vbmPushFrame s pFrame).2.mUsingFrmList = s.mUsingFrmList := by
  unfold vbmPushFrame
  cases hl : s.mFreeFrmList with
  | nil => rfl
  | cons n l =>
    have hn : n ∈ s.mFreeFrmList := hl ▸ List.mem_cons_self
    exact List.erase_of_not_mem (h.apart.2.1 hn)

/-! ## Releases -/

/-- What a release leaves before it signals. -/
theorem released_eq (h : Whole frmNum s) (hm : m ∈ s.mUsingFrmList) :
    ((s.assign (s.mFrame m) pFrame).listDel m).toFree m = { s with
      mFreeFrmList := s.mFreeFrmList ++ [m]
      mUsingFrmList := s.mUsingFrmList.erase m
      mFrame := (s.assign (s.mFrame m) pFrame).mFrame } := by
  have hdel := h.listDel_using hm
  cases pFrame with
  | node k => exact congrArg (fun t : VideoBufferManager α => { t with
      mFreeFrmList := t.mFreeFrmList ++ [m], mFrame := update s.mFrame k (s.mFrame m) }) hdel
  | copyOf k => exact congrArg (fun t => t.toFree m) hdel
  | other frame => exact congrArg (fun t => t.toFree m) hdel

theorem releaseFrame_some (pick : Nat) (h : Whole frmNum s)
    (hf : found s (pFrame.frame s) = some m) :
    (vbmReleaseFrame s pFrame pick).1 = { pFrame := some (s.mFrame m) } ∧
      Moved s pFrame pick m (vbmReleaseFrame s pFrame pick).2 := by
  unfold vbmReleaseFrame
  dsimp only
  rw [hf]
  dsimp only
  rw [released_eq h (found_mem hf)]
  refine ⟨rfl, ?_⟩
  dsimp only
  split
  · rename_i hempty
    exact ⟨rfl, rfl, rfl, rfl, rfl, (if_pos hempty).symm⟩
  · rename_i hnot
    exact ⟨rfl, rfl, rfl, rfl, rfl, (if_neg hnot).symm⟩

theorem Moved.whole_iff (hmoved : Moved s pFrame pick m s') (h : Whole frmNum s)
    (hm : m ∈ s.mUsingFrmList) :
    Whole frmNum s' ↔ ∀ n ∈ s.mValidFrmList, pFrame = .node n → s.mFrame m = s.mFrame n := by
  have hperm : (s'.mFreeFrmList ++ s'.mValidFrmList ++ s'.mUsingFrmList).Perm
      (s.mFreeFrmList ++ s.mValidFrmList ++ s.mUsingFrmList) := by
    rw [hmoved.free, hmoved.valid, hmoved.inUse, List.perm_iff_count]
    intro a
    have hcount : (s.mUsingFrmList.erase m).count a =
      s.mUsingFrmList.count a - if m == a then 1 else 0 := List.count_erase
    have hpos := List.count_pos_iff.2 hm
    simp only [List.count_append, List.count_cons, List.count_nil]
    split at hcount
    · rename_i heq
      obtain rfl : m = a := by simpa using heq
      simp only [beq_self_eq_true, if_true]
      omega
    · rename_i hne
      rw [if_neg hne]
      omega
  have hfifo : Queue.replay [] s'.log = some (s'.mValidFrmList.map s'.mFrame) ↔
      ∀ n ∈ s.mValidFrmList, pFrame = .node n → s.mFrame m = s.mFrame n := by
    rw [hmoved.log, hmoved.valid, hmoved.frame, h.fifo, Option.some.injEq, List.map_inj_left]
    refine forall₂_congr fun n _ => ?_
    rw [← assign_mFrame, eq_comm]
  rw [← hfifo]
  exact ⟨Whole.fifo, h.of_perm hperm⟩

/-! ## Steps -/

/-- A call that neither releases a frame nor empties the list of frames in use. -/
theorem exact_of_quiet (hsound : Sound s call) (hnext : manager.next s call = some s')
    (hwhole : Whole frmNum s') (hcall : ∀ pFrame pick, call ≠ .releaseFrame pFrame pick)
    (hwoken : s.mUsingFrmList ≠ [] → s'.mUsingFrmList = [] → s'.waiting = []) :
    manager.Exact (Whole frmNum) (Whole frmNum) Serves Sound s call := by
  refine .kept hsound s' hnext ⟨fun pFrame pick n heq => ?_, hwoken⟩ hwhole
  exact absurd heq (hcall pFrame pick)

theorem getAll_exact (h : Whole frmNum s) :
    manager.Exact (Whole frmNum) (Whole frmNum) Serves Sound s .getAllValidUsingFrame := by
  have hwhole := h.getAllValidUsingFrame
  have hnext : manager.next s .getAllValidUsingFrame =
    some (vbmGetAllValidUsingFrame s).2 := rfl
  cases hu : s.mUsingFrmList with
  | nil =>
    refine exact_of_quiet (fun hlen => ?_) hnext hwhole (fun _ _ h => nomatch h) fun hne => ?_
    · rw [hu] at hlen
      cases hlen
    · exact absurd hu hne
  | cons n l =>
    have heq : (vbmGetAllValidUsingFrame s).2 =
        { s with mFreeFrmList := s.mFreeFrmList ++ [n], mUsingFrmList := l } := by
      unfold vbmGetAllValidUsingFrame
      rw [hu]
      dsimp only
      rw [h.listDel_using (hu ▸ List.mem_cons_self), hu, List.erase_cons_head]
      rfl
    by_cases hsound : Sound s .getAllValidUsingFrame
    · refine exact_of_quiet hsound hnext hwhole (fun _ _ h => nomatch h) fun _ hempty => ?_
      rw [heq] at hempty ⊢
      apply hsound
      rw [hu]
      exact congrArg (· + 1) (congrArg List.length hempty)
    · refine .lost hsound fun s' hs hserves => ?_
      cases hnext.symm.trans hs
      obtain ⟨hlen, hwaiting⟩ := Classical.not_imp.1 hsound
      have hl : l = [] := by
        rw [hu] at hlen
        exact List.length_eq_zero_iff.1 (Nat.succ.inj hlen)
      have hwoken := hserves.woken (hu ▸ List.cons_ne_nil n l)
      rw [heq] at hwoken
      exact absurd (hwoken hl) hwaiting

theorem release_exact (h : Whole frmNum s) : manager.Exact (Whole frmNum) (Whole frmNum) Serves
    Sound s (.releaseFrame pFrame pick) := by
  have hnext : manager.next s (.releaseFrame pFrame pick) =
    some (vbmReleaseFrame s pFrame pick).2 := rfl
  cases hf : found s (pFrame.frame s) with
  | none =>
    have heq := releaseFrame_none pick hf
    have hnot : ∀ n ∈ s.mUsingFrmList, pFrame.held ≠ some n := fun n hn hheld =>
      found_of_held hn hheld hf
    rw [heq] at hnext
    refine .kept ⟨fun n hn hheld => absurd hheld (hnot n hn), fun n _ _ m _ hm => ?_, fun _ hm => ?_⟩
      s hnext ⟨?_, fun hne hempty => absurd hempty hne⟩ h
    · cases hf.symm.trans hm
    · exact absurd hf hm
    · rintro _ _ n ⟨⟩ hheld hn
      exact absurd hheld (hnot n hn)
  | some m =>
    obtain ⟨hreply, hmoved⟩ := releaseFrame_some pick h hf
    have hm := found_mem hf
    have hwhole := hmoved.whole_iff h hm
    have hone (hlen : s.mUsingFrmList.length = 1) : s.mUsingFrmList = [m] := by
      obtain ⟨a, ha⟩ := List.length_eq_one_iff.1 hlen
      rw [ha, List.mem_singleton] at hm
      rw [ha, hm]
    by_cases hsound : Sound s (.releaseFrame pFrame pick)
    · obtain ⟨hheld, hframe, hsignals⟩ := id hsound
      refine .kept hsound _ hnext ⟨?_, fun _ hempty => ?_⟩
        (hwhole.2 fun n hn hnode => hframe n hn hnode m hm hf)
      · rintro _ _ n ⟨⟩ hn huse
        cases hf.symm.trans (hheld n huse hn)
        refine ⟨?_, hmoved.inUse, hmoved.free, hmoved.valid, ?_⟩
        · show some (vbmReleaseFrame s pFrame pick) = _
          rw [← hreply]
        · rw [hmoved.frame]
          funext k
          apply assign_mFrame.2
          rintro rfl
          cases hn
          rfl
      · have hlen : s.mUsingFrmList.length = 1 := by
          have herase := List.length_erase_of_mem hm
          rw [← hmoved.inUse, hempty, List.length_nil] at herase
          have hpos := List.length_pos_of_mem hm
          omega
        exact (hmoved.woken_iff (hone hlen)).2 (hsignals hlen (by rw [hf]; exact nofun))
    · refine .lost hsound fun s' hs hserves hkept => ?_
      cases hnext.symm.trans hs
      apply hsound
      refine ⟨fun n hn hheld => ?_, fun n hn hnode k _ hk => ?_, fun hlen _ => ?_⟩
      · -- the lists say which node was freed
        have hinUse := (hserves.released pFrame pick n rfl hheld hn).2.1
        rw [hmoved.inUse] at hinUse
        have hnodup : s.mUsingFrmList.Nodup := h.nodup.of_append_right
        have hnot : m ∉ s.mUsingFrmList.erase n := by
          rw [← hinUse]
          exact hnodup.not_mem_erase
        by_contra hne
        have hmn : m ≠ n := fun heq => hne (heq ▸ hf)
        exact hnot ((List.mem_erase_of_ne hmn).2 hm)
      · cases hf.symm.trans hk
        exact hwhole.1 hkept n hn hnode
      · have hempty : s.mUsingFrmList.erase m = [] := by rw [hone hlen, List.erase_cons_head]
        apply (hmoved.woken_iff (hone hlen)).1
        exact hserves.woken (List.ne_nil_of_mem hm) (hmoved.inUse.trans hempty)

theorem Whole.waitLoop (h : Whole frmNum s) : Whole frmNum (waitLoop s t) := by
  obtain ⟨hfree, hvalid, hinUse, hframe, hlog⟩ := @waitLoop_lists α s t
  refine ⟨?_, ?_⟩
  · rw [hfree, hvalid, hinUse]
    exact h.perm
  · rw [hlog, hvalid, hframe]
    exact h.fifo

/-- What a call does where the promises were kept so far. -/
theorem step_exact (h : Whole frmNum s) (hpossible : Possible s call) :
    manager.Exact (Whole frmNum) (Whole frmNum) Serves Sound s call := by
  cases call with
  | getValidFrame =>
    refine exact_of_quiet trivial rfl h.getValidFrame (fun _ _ hc => nomatch hc) fun hne hempty => ?_
    unfold vbmGetValidFrame at hempty
    split at hempty
    · exact absurd hempty hne
    · exact absurd hempty (List.append_ne_nil_of_right_ne_nil _ (List.cons_ne_nil _ _))
  | getAllValidUsingFrame => exact getAll_exact h
  | releaseFrame pFrame pick => exact release_exact h
  | pushFrame pFrame =>
    refine exact_of_quiet trivial rfl h.pushFrame (fun _ _ hc => nomatch hc) fun hne hempty => ?_
    exact absurd (h.pushFrame_using.symm.trans hempty) hne
  | waitUsingFrmEmpty t =>
    have hnot : ¬ (t ∈ s.waiting ∨ t ∈ s.woken) := not_or.2 hpossible
    have hnext : manager.next s (.waitUsingFrmEmpty t) = some (vbmWaitUsingFrmEmpty s t) :=
      congrArg (Option.map Prod.snd) (if_neg hnot)
    have hflag : Whole frmNum { s with mbWaitUsingFrmEmptyFlag := true } := ⟨h.perm, h.fifo⟩
    refine exact_of_quiet trivial hnext hflag.waitLoop (fun _ _ hc => nomatch hc)
      fun hne hempty => ?_
    exact absurd (waitLoop_lists.2.2.1.symm.trans hempty) hne
  | waitResumed t =>
    have hnext : manager.next s (.waitResumed t) = some (vbmWaitResumed s t) :=
      congrArg (Option.map Prod.snd) (if_pos hpossible)
    have hwoken : Whole frmNum { s with woken := s.woken.erase t } := ⟨h.perm, h.fifo⟩
    refine exact_of_quiet trivial hnext hwoken.waitLoop (fun _ _ hc => nomatch hc)
      fun hne hempty => ?_
    exact absurd (waitLoop_lists.2.2.1.symm.trans hempty) hne
  | _ => exact exact_of_quiet trivial rfl h (fun _ _ hc => nomatch hc) fun hne hempty =>
      absurd hempty hne

theorem whole_create (zero : VideoFrame α) (frmNum : Nat) :
    Whole frmNum (videoBufMgrCreate zero frmNum) := by
  refine ⟨?_, rfl⟩
  show (List.range frmNum ++ [] ++ []).Perm _
  simp

theorem upholds_iff {calls : List (Call α)} (h : Whole frmNum s)
    (hpossible : manager.Meets Possible s calls) :
    manager.Upholds (Whole frmNum) Serves s calls ↔ manager.Meets Sound s calls :=
  Machine.upholds_iff_meets (fun _ h => h) (fun _ _ h hp => step_exact h hp) h hpossible

/-- A run of calls from a new manager on keeps the promises just if its calls are sound. -/
theorem manager_iff (zero : VideoFrame α) (frmNum : Nat) (calls : List (Call α))
    (hpossible : manager.Meets Possible (videoBufMgrCreate zero frmNum) calls) :
    manager.Upholds (Whole frmNum) Serves (videoBufMgrCreate zero frmNum) calls ↔
      manager.Meets Sound (videoBufMgrCreate zero frmNum) calls :=
  upholds_iff (whole_create zero frmNum) hpossible

/-- A frame with that address and id. -/
def sample (mpVirAddr mId : Nat) : VideoFrame Unit := ⟨mpVirAddr, mId, ()⟩

/-- Two frames go round while a thread waits for them. -/
theorem manager_iff_two : manager.Upholds (Whole 2) Serves (videoBufMgrCreate (sample 0 0) 2)
    [.pushFrame (.other (sample 8 1)), .pushFrame (.other (sample 16 2)), .getValidFrame,
      .getValidFrame, .waitUsingFrmEmpty 5, .releaseFrame (.node 1) 0,
      .releaseFrame (.copyOf 0) 0, .waitResumed 5] :=
  (manager_iff (sample 0 0) 2 _ (by decide)).2 (by decide)

/-- Two frames without an address are in use, and the second one is released. -/
theorem manager_not : ¬ manager.Upholds (Whole 2) Serves (videoBufMgrCreate (sample 0 0) 2)
    [.pushFrame (.other (sample 0 1)), .pushFrame (.other (sample 0 2)), .getValidFrame,
      .getValidFrame, .releaseFrame (.node 1) 0] := by
  rw [upholds_iff (whole_create _ _) (by decide)]
  decide

end Melis.Mpp.Vbm
