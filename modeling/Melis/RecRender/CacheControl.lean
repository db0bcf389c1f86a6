import Melis.RecRender.CacheLevel

/-!
# The thread that keeps the cache short

`RPCMControlCacheLevel` as steps of the machine, while the readers give back what
they hold (`Readers`). Each step of the thread uses up a rank (`Advance`), so the
thread returns; what it leaves is that of its last step.
-/

namespace Melis.RecRender

open Lib RsPacketCacheManager

variable {β : Type}

/-- While the thread runs, others give back packets that they hold. It pushes, gets and references
packets itself. -/
def Readers (s : State β) : Input β → Prop
  | .step => True
  | .wake _ => True
  | .release nId => ∀ e ∈ s.m.mUsingPacketList.find? (·.mId == nId), 1 < e.mRefCnt
  | _ => False

/-- The input is a step of the thread, and not a wait that goes on. -/
def Moves (s : State β) : Input β → Prop
  | .step => True
  | .wake timeout => timeout = true ∨ s.m.mWaitReleaseUsingPacketFlag = false
  | _ => False

instance (s : State β) : ∀ i, Decidable (Moves s i)
  | .step => .isTrue trivial
  | .wake _ => inferInstanceAs (Decidable (_ ∨ _))
  | .push .. => .isFalse id
  | .get => .isFalse id
  | .ref _ => .isFalse id
  | .release _ => .isFalse id
  | .releaseEarlist _ => .isFalse id
  | .control => .isFalse id

/-- How many steps may come before a packet is freed or the thread returns. -/
def Pc.rank : Pc → Nat
  | .idle => 0
  | .duration => 4
  | .query => 3
  | .release .. => 2
  | .wait .. => 1
  | .frames => 1

def State.level (s : State β) : Nat := 5 * s.m.live.length + s.pc.rank

/-- Where the thread is, it controls the level: it waits for the first packet until its own
reference is the last, and it looks at frames once the duration is short. -/
def Controlled (s : State β) : Prop :=
  match s.pc with
  | .release _ control => control = true
  | .wait node control => control = true ∧ ∃ e ∈ s.m.mUsingPacketList.head?, e.node = node ∧
      if s.m.mWaitReleaseUsingPacketFlag then s.m.mWaitReleaseUsingPacketId = e.mId
      else e.mRefCnt = 1
  | .frames => s.m.getDuration ≤ s.m.mCacheTime
  | _ => True

/-- What a step of the thread does: it comes nearer to its return, leaves the packets that are
held, and returns with success only after it looked at the frames. -/
structure Advance (s s' : State β) : Prop where
  level : s'.level < s.level
  controlled : Controlled s'
  held : ∀ e ∈ s.m.mUsingPacketList, 1 < e.mRefCnt → e ∈ s'.m.mUsingPacketList
  ended : s'.pc = .idle → s'.ret = .success →
    s.pc = .frames ∧ Shed s.m s'.m ∧ (KeyFirst s'.m ∨ HeldFirst s'.m)

section

variable {s s' : State β} {e : RecSinkPacket β} {es : List (RecSinkPacket β)}

/-! ## The steps of the thread -/

/-- A release that succeeds has freed a packet. -/
theorem advance_released {r : RsPacketCacheManager β × ErrorType} (hrank : 0 < s.pc.rank)
    (hkeeps : Keeps s.m r.1) (hless : r.2 = .success → r.1.live.length < s.m.live.length) :
    Advance s (s.released true r) := by
  have hle := hkeeps.le
  by_cases hok : r.2 = .success
  · have hpc : (s.released true r).pc = .duration := if_pos ⟨rfl, hok⟩
    have hlt := hless hok
    refine ⟨?_, ?_, hkeeps.held, ?_⟩
    · unfold State.level
      rw [hpc]
      show 5 * r.1.live.length + 4 < _
      omega
    · unfold Controlled
      rw [hpc]
      trivial
    · intro hidle
      rw [hpc] at hidle
      cases hidle
  · have hpc : (s.released true r).pc = .idle := if_neg fun h => hok h.2
    refine ⟨?_, ?_, hkeeps.held, fun _ hret => absurd hret hok⟩
    · unfold State.level
      rw [hpc]
      show 5 * r.1.live.length + 0 < _
      omega
    · unfold Controlled
      rw [hpc]
      trivial

/-- The thread releases the first packet of the using list, which no reader holds. -/
theorem advance_first (hnodup : (s.m.mUsingPacketList.map (·.node)).Nodup) (hrank : 0 < s.pc.rank)
    (husing : s.m.mUsingPacketList = e :: es) (hone : e.mRefCnt = 1) :
    Advance s (s.released true (s.m.releasePacket e.mId)) := by
  rcases shed_first hnodup husing hone with ⟨-, hshed, hes, hready⟩ | ⟨herr, hkeeps⟩
  · apply advance_released hrank hshed.keeps
    intro _
    unfold live
    rw [hes, hready, husing]
    simp
  · apply advance_released hrank hkeeps
    intro hok
    rw [herr] at hok
    cases hok

theorem advance_releaseEarlist {bForce : Bool}
    (hnodup : (s.m.mUsingPacketList.map (·.node)).Nodup) (hpc : s.pc = .release bForce true) :
    Advance s (s.releaseEarlistPacket bForce true) := by
  have hrank : 0 < s.pc.rank := by
    rw [hpc]
    exact Nat.two_pos
  -- a release that is refused ends the control
  have hrefused : ∀ err : ErrorType, err ≠ .success → Advance s (s.released true (s.m, err)) :=
    fun err hne => advance_released hrank (.refl s.m) fun hok => absurd hok hne
  unfold State.releaseEarlistPacket
  by_cases hfull : s.m.mIsFull = true
  · rw [if_pos hfull]
    cases husing : s.m.mUsingPacketList with
    | cons e es =>
      dsimp only
      by_cases hone : e.mRefCnt = 1
      · rw [if_pos hone]
        exact advance_first hnodup hrank husing hone
      · rw [if_neg hone]
        by_cases hforce : 1 < e.mRefCnt ∧ bForce = true
        · rw [if_pos hforce]
          refine ⟨?_, ⟨rfl, e, ?_, rfl, rfl⟩, fun _ he _ => he, nofun⟩
          · unfold State.level
            rw [hpc]
            exact Nat.lt_succ_self _
          · show e ∈ s.m.mUsingPacketList.head?
            simp [husing]
        · rw [if_neg hforce]
          apply hrefused
          split <;> exact nofun
    | nil =>
      cases hready : s.m.mReadyPacketList with
      | cons e es =>
        rcases shed_firstReady husing hready with ⟨-, hshed, hes, husing'⟩ | herr
        · apply advance_released hrank hshed.keeps
          intro _
          unfold live
          rw [hes, husing', husing, hready]
          simp
        · show Advance s (s.released true (s.m.releaseReadyPacket e.mId))
          rw [herr]
          exact hrefused _ nofun
      | nil => exact hrefused _ nofun
  · rw [if_neg hfull]
    exact hrefused _ nofun

theorem advance_step (hnodup : (s.m.mUsingPacketList.map (·.node)).Nodup) (hc : Controlled s)
    (hs : s.step = some s') : Advance s s' := by
  unfold State.step at hs
  unfold Controlled at hc
  cases hpc : s.pc with
  | duration =>
    rw [hpc] at hs
    obtain rfl := Option.some.inj hs
    by_cases hle : s.m.getDuration ≤ s.m.mCacheTime
    · rw [if_pos hle]
      refine ⟨?_, hle, fun _ he _ => he, nofun⟩
      unfold State.level
      rw [hpc]
      show _ + 1 < _ + 4
      exact Nat.add_lt_add_left (by decide) _
    · rw [if_neg hle]
      refine ⟨?_, trivial, fun _ he _ => he, nofun⟩
      unfold State.level
      rw [hpc]
      exact Nat.lt_succ_self _
  | query =>
    rw [hpc] at hs
    obtain rfl := Option.some.inj hs
    refine ⟨?_, rfl, fun _ he _ => he, nofun⟩
    unfold State.level
    rw [hpc]
    exact Nat.lt_succ_self _
  | release bForce control =>
    rw [hpc] at hs hc
    obtain rfl : control = true := hc
    obtain rfl := Option.some.inj hs
    exact advance_releaseEarlist hnodup hpc
  | frames =>
    rw [hpc] at hs
    obtain rfl := Option.some.inj hs
    obtain ⟨hkeeps, hdone⟩ := releaseFrames_spec hnodup
    refine ⟨?_, trivial, hkeeps.held, fun _ hret => ⟨hpc, hdone hret⟩⟩
    have hle := hkeeps.le
    unfold State.level
    rw [hpc]
    show 5 * s.m.releaseFrames.1.live.length + 0 < _ + 1
    omega
  | idle | wait =>
    rw [hpc] at hs
    exact nomatch hs

/-- A node has the id that its packet has. -/
theorem idOf_eq (h : s.m.Accounted) (he : e ∈ s.m.mUsingPacketList) : s.idOf e.node = e.mId := by
  have hmem : e ∈ s.m.mIdlePacketList ++ s.m.mReadyPacketList ++ s.m.mUsingPacketList :=
    List.mem_append_right _ he
  obtain ⟨x, hfind⟩ : ∃ x, (s.m.mIdlePacketList ++ s.m.mReadyPacketList ++
      s.m.mUsingPacketList).find? (·.node == e.node) = some x := by
    rw [← Option.isSome_iff_exists, List.find?_isSome]
    exact ⟨e, hmem, by simp⟩
  have hnode : x.node = e.node := by simpa using List.find?_some hfind
  obtain rfl := List.inj_on_of_nodup_map h.nodup (List.mem_of_find?_eq_some hfind) hmem hnode
  unfold State.idOf
  rw [hfind]

theorem RsPacketCacheManager.Accounted.nodup_using {m : RsPacketCacheManager β} (h : m.Accounted) :
    (m.mUsingPacketList.map (·.node)).Nodup :=
  (List.nodup_append.mp (List.map_append ▸ h.nodup)).2.1

theorem advance_wake {timeout : Bool} (h : s.m.Accounted) (hc : Controlled s)
    (hmoves : timeout = true ∨ s.m.mWaitReleaseUsingPacketFlag = false)
    (hs : s.wake timeout = some s') : Advance s s' := by
  unfold State.wake at hs
  unfold Controlled at hc
  cases hpc : s.pc with
  | wait node control =>
    rw [hpc] at hs hc
    obtain ⟨rfl, e, hhead, rfl, hwait⟩ := hc
    have hrank : 0 < s.pc.rank := by
      rw [hpc]
      exact Nat.one_pos
    dsimp only at hs
    cases timeout with
    | true =>
      obtain rfl := Option.some.inj hs
      exact advance_released hrank ((Keeps.refl s.m).waiting false _) nofun
    | false =>
      -- the last reader is gone, so the release frees the packet
      have hflag : s.m.mWaitReleaseUsingPacketFlag = false := hmoves.resolve_left nofun
      rw [hflag, if_neg Bool.false_ne_true] at hwait
      rw [hflag] at hs
      obtain rfl := Option.some.inj hs
      obtain ⟨es, husing⟩ := List.head?_eq_some_iff.mp hhead
      have hid : s.idOf e.node = e.mId := idOf_eq h (by simp [husing])
      rw [hid]
      exact advance_first h.nodup_using hrank husing hwait
  | idle | duration | query | release | frames =>
    rw [hpc] at hs
    exact nomatch hs

/-! ## The readers -/

theorem ptsRange_map {f : RecSinkPacket β → RecSinkPacket β}
    (hvideo : ∀ e, (f e).isVideo = e.isVideo) (hpts : ∀ e, (f e).mPts = e.mPts) :
    ptsRange (es.map f) = ptsRange es := by
  unfold ptsRange
  have hfun : (fun e => (f e).isVideo) = fun e : RecSinkPacket β => e.isVideo := funext hvideo
  rw [← List.map_reverse, List.find?_map, List.find?_map, Function.comp_def, hfun]
  cases es.find? (·.isVideo) with
  | none => rfl
  | some x =>
    cases es.reverse.find? (·.isVideo) with
    | none => rfl
    | some y => simp [hpts]

theorem getDuration_setRefCnt (m : RsPacketCacheManager β) (e : RecSinkPacket β) (n : Int) :
    (m.setRefCnt e n).getDuration = m.getDuration := by
  have hrange : ptsRange (m.setRefCnt e n).mUsingPacketList = ptsRange m.mUsingPacketList := by
    apply ptsRange_map
    · intro x
      split <;> rfl
    · intro x
      split <;> rfl
  unfold getDuration
  rw [hrange]
  rfl

/-- A reader's release counts the references of a packet down, or finds no packet. -/
theorem releasePacket_reader {m : RsPacketCacheManager β} {nId : Int}
    (hr : ∀ e ∈ m.mUsingPacketList.find? (·.mId == nId), 1 < e.mRefCnt) :
    (m.releasePacket nId).1 = m ∨ ∃ e ∈ m.mUsingPacketList, e.mId = nId ∧ 1 < e.mRefCnt ∧
      (m.releasePacket nId).1 =
        (m.setRefCnt e (e.mRefCnt - 1)).signalRelease nId (e.mRefCnt - 1) := by
  unfold releasePacket
  cases hfind : m.mUsingPacketList.find? (·.mId == nId) with
  | none => exact .inl rfl
  | some e =>
    have hheld : 1 < e.mRefCnt := hr e (by rw [hfind]; rfl)
    have hid : e.mId = nId := by simpa using List.find?_some hfind
    right
    refine ⟨e, List.mem_of_find?_eq_some hfind, hid, hheld, ?_⟩
    dsimp only
    rw [if_neg (by omega), if_pos (by omega)]

theorem setRefCnt_head {m : RsPacketCacheManager β} (husing : m.mUsingPacketList = e :: es)
    (x : RecSinkPacket β) (n : Int) :
    ∃ e' ∈ (m.setRefCnt x n).mUsingPacketList.head?, e'.node = e.node ∧ e'.mId = e.mId ∧
      e'.mRefCnt = if e.node = x.node then n else e.mRefCnt := by
  refine ⟨if e.node = x.node then { e with mRefCnt := n } else e, ?_, ?_⟩
  · simp [setRefCnt, husing]
  · split <;> exact ⟨rfl, rfl, rfl⟩

/-- The thread waits on for the first packet, or is told that it has the last reference of it. -/
theorem wait_reader {m : RsPacketCacheManager β} {x e' : RecSinkPacket β} (h : m.Accounted)
    (hx : x ∈ m.mUsingPacketList) (hheld : 1 < x.mRefCnt) (he : e ∈ m.mUsingPacketList)
    (hid : e'.mId = e.mId)
    (hcnt : e'.mRefCnt = if e.node = x.node then x.mRefCnt - 1 else e.mRefCnt)
    (hwait : if m.mWaitReleaseUsingPacketFlag then m.mWaitReleaseUsingPacketId = e.mId
      else e.mRefCnt = 1) :
    if ((m.setRefCnt x (x.mRefCnt - 1)).signalRelease x.mId
      (x.mRefCnt - 1)).mWaitReleaseUsingPacketFlag
    then ((m.setRefCnt x (x.mRefCnt - 1)).signalRelease x.mId
      (x.mRefCnt - 1)).mWaitReleaseUsingPacketId = e'.mId
    else e'.mRefCnt = 1 := by
  unfold signalRelease
  by_cases hflag : m.mWaitReleaseUsingPacketFlag = true
  · rw [if_pos hflag] at hwait
    by_cases hlast : (m.setRefCnt x (x.mRefCnt - 1)).mWaitReleaseUsingPacketFlag = true ∧
        x.mRefCnt - 1 = 1 ∧ (m.setRefCnt x (x.mRefCnt - 1)).mWaitReleaseUsingPacketId = x.mId
    · -- it is the packet that it waits for
      rw [if_pos hlast]
      obtain ⟨-, hone, hwaited⟩ := hlast
      have hids := (List.nodup_append.mp (List.map_append ▸ h.ids)).2.1
      obtain rfl := List.inj_on_of_nodup_map hids he hx (hwait.symm.trans hwaited)
      rw [if_pos rfl] at hcnt
      exact hcnt.trans hone
    · have hflag' : (m.setRefCnt x (x.mRefCnt - 1)).mWaitReleaseUsingPacketFlag = true := hflag
      rw [if_neg hlast, if_pos hflag', hid]
      exact hwait
  · -- what comes back is another packet
    rw [if_neg hflag] at hwait
    have hflag' : ¬ (m.setRefCnt x (x.mRefCnt - 1)).mWaitReleaseUsingPacketFlag = true := hflag
    have hne : e.node ≠ x.node := by
      intro hnode
      obtain rfl := List.inj_on_of_nodup_map h.nodup_using he hx hnode
      omega
    have hlast : ¬ ((m.setRefCnt x (x.mRefCnt - 1)).mWaitReleaseUsingPacketFlag = true ∧
        x.mRefCnt - 1 = 1 ∧ (m.setRefCnt x (x.mRefCnt - 1)).mWaitReleaseUsingPacketId = x.mId) :=
      fun hlast => hflag' hlast.1
    rw [if_neg hlast, if_neg hflag', hcnt, if_neg hne]
    exact hwait

/-- A reader that gives a packet back leaves the thread where it is. -/
theorem controlled_reader {nId : Int} (h : s.m.Accounted) (hc : Controlled s)
    (hr : Readers s (.release nId)) :
    Controlled (s.did (s.m.releasePacket nId)) ∧
      (s.did (s.m.releasePacket nId)).level = s.level := by
  rcases releasePacket_reader hr with hsame | ⟨x, hx, rfl, hheld, hrel⟩
  · have hs : s.did (s.m.releasePacket nId) = s.did (s.m, (s.m.releasePacket nId).2) := by
      unfold State.did
      rw [hsame]
    rw [hs]
    exact ⟨hc, rfl⟩
  have hm : (s.did (s.m.releasePacket x.mId)).m =
      (s.m.setRefCnt x (x.mRefCnt - 1)).signalRelease x.mId (x.mRefCnt - 1) := hrel
  have hpc : (s.did (s.m.releasePacket x.mId)).pc = s.pc := rfl
  obtain ⟨flag, id, hsignal⟩ := signalRelease_eq (m := s.m.setRefCnt x (x.mRefCnt - 1)) x.mId
    (x.mRefCnt - 1)
  constructor
  · unfold Controlled at hc ⊢
    rw [hpc]
    cases hpc : s.pc with
    | frames =>
      rw [hpc] at hc
      dsimp only at hc ⊢
      rw [hm, hsignal]
      show (s.m.setRefCnt x (x.mRefCnt - 1)).getDuration ≤ s.m.mCacheTime
      rw [getDuration_setRefCnt]
      exact hc
    | wait node control =>
      rw [hpc] at hc
      obtain ⟨hcontrol, e, hhead, hnode, hwait⟩ := hc
      obtain ⟨es, husing⟩ := List.head?_eq_some_iff.mp hhead
      have he : e ∈ s.m.mUsingPacketList := by simp [husing]
      obtain ⟨e', hhead', hnode', hid', hcnt⟩ := setRefCnt_head husing x (x.mRefCnt - 1)
      dsimp only
      refine ⟨hcontrol, e', ?_, hnode'.trans hnode, ?_⟩
      · rw [hm, hsignal]
        exact hhead'
      · rw [hm]
        exact wait_reader h hx hheld he hid' hcnt hwait
    | idle | duration | query => trivial
    | release bForce control =>
      rw [hpc] at hc
      exact hc
  · unfold State.level
    rw [hm, hsignal]
    simp [live, RsPacketCacheManager.waiting, setRefCnt, State.did]

/-! ## The run -/

theorem RsPacketCacheManager.Accounted.nodesOnly (h : s.m.Accounted) : s.m.nodesOnly = true := by
  unfold RsPacketCacheManager.nodesOnly
  rw [List.all_eq_true]
  intro e he
  have hmem := h.nodes.subset (List.mem_map_of_mem he)
  rw [List.mem_range'_1] at hmem
  simp only [bne_iff_ne, ne_eq]
  omega

/-- The invariant of the thread's run. -/
structure Controls (s : State β) : Prop where
  books : Books s.m
  controlled : Controlled s

variable {i : Input β}

/-- What the thread and the readers do at all. -/
theorem next_cases (hr : Readers s i) (hs : next s i = some s') :
    (i = .step ∧ s.step = some s') ∨ (∃ timeout, i = .wake timeout ∧ s.wake timeout = some s') ∨
      ∃ nId, i = .release nId ∧ s' = s.did (s.m.releasePacket nId) := by
  unfold next at hs
  split at hs
  · cases i with
    | step => exact .inl ⟨rfl, hs⟩
    | wake timeout => exact .inr (.inl ⟨timeout, rfl, hs⟩)
    | release nId => exact .inr (.inr ⟨nId, rfl, (Option.some.inj hs).symm⟩)
    | push | get | ref | releaseEarlist | control => exact hr.elim
  · cases hs

/-- A wait that goes on changes nothing. -/
theorem wake_waits (hflag : s.m.mWaitReleaseUsingPacketFlag = true)
    (hs : s.wake false = some s') : s' = s := by
  unfold State.wake at hs
  cases hpc : s.pc with
  | wait node control =>
    rw [hpc, hflag] at hs
    exact (Option.some.inj hs).symm
  | idle | duration | query | release | frames =>
    rw [hpc] at hs
    exact nomatch hs

theorem advance_next (h : Controls s) (hr : Readers s i) (hmoves : Moves s i)
    (hs : next s i = some s') : Advance s s' := by
  rcases next_cases hr hs with ⟨rfl, hstep⟩ | ⟨timeout, rfl, hwake⟩ | ⟨nId, rfl, -⟩
  · exact advance_step h.books.2.nodup_using h.controlled hstep
  · exact advance_wake h.books.2 h.controlled hmoves hwake
  · exact hmoves.elim

theorem controls_next (h : Controls s) (hr : Readers s i) (hs : next s i = some s') :
    Controls s' ∧ (if Moves s i then 1 else 0) + s'.level ≤ s.level := by
  have hbooks : Books s'.m := by
    refine books_kept.next h.books ?_ hs
    cases i with
    | push => exact hr.elim
    | get | ref | release | releaseEarlist | control | step | wake => trivial
  by_cases hmoves : Moves s i
  · have hadvance := advance_next h hr hmoves hs
    have hlevel := hadvance.level
    rw [if_pos hmoves]
    exact ⟨⟨hbooks, hadvance.controlled⟩, by omega⟩
  · rw [if_neg hmoves, Nat.zero_add]
    rcases next_cases hr hs with ⟨rfl, -⟩ | ⟨timeout, rfl, hwake⟩ | ⟨nId, rfl, rfl⟩
    · exact absurd trivial hmoves
    · cases timeout with
      | true => exact absurd (.inl rfl) hmoves
      | false =>
        obtain rfl := wake_waits (by simpa [Moves] using hmoves) hwake
        exact ⟨h, Nat.le_refl _⟩
    · obtain ⟨hcontrolled, hlevel⟩ := controlled_reader h.books.2 h.controlled hr
      exact ⟨⟨hbooks, hcontrolled⟩, Nat.le_of_eq hlevel⟩

/-- The thread can go on until it returns; from a wait at least by its timeout. -/
theorem exists_moves (h : Controls s) (hpc : s.pc ≠ .idle) :
    ∃ i s', Readers s i ∧ Moves s i ∧ next s i = some s' := by
  have hnodes := h.books.2.nodesOnly
  cases hpc' : s.pc with
  | idle => exact absurd hpc' hpc
  | wait node control =>
    have hwake : s.wake true =
        some (s.released control ({ s.m with mWaitReleaseUsingPacketFlag := false }, .timeout)) := by
      simp [State.wake, hpc']
    exact ⟨.wake true, _, trivial, .inl rfl, (if_pos hnodes).trans hwake⟩
  | duration | query | release | frames =>
    obtain ⟨s', hs'⟩ : ∃ s', s.step = some s' := by simp [State.step, hpc']
    exact ⟨.step, s', trivial, trivial, by simp [next, hnodes, hs']⟩

end

/-- A video packet of one byte. -/
def videoPacket (mFlags : Nat) (mPts : Int) : PushedPacket UInt8 :=
  ⟨0, mFlags, mPts, fun _ => 0, 1, fun _ => 0, 0⟩

end Melis.RecRender
