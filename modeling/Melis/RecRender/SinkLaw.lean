import Melis.RecRender.Sink

/-!
# When the sink sleeps

`sink_awake`: a run in which the thread sets its flag only while no packet has come, or a message is
queued, and in which the message for a thread that waits is stored, leaves it never blocked beside a
packet. `stuck_of_unheeded` says that every other run can go on to where it is.
-/

namespace Melis.RecSink

open Lib

variable {s s' t : Sink} {step : Step} {choice : Choice} {mallocs : Nat} {m : CompInternalMsgType}

/-- The packets in the valid list whose `RecSinkEmptyThisBuffer` has returned. -/
def Sink.returned (s : Sink) : List Nat :=
  if s.caller = none then s.mValidRSPacketList else s.mValidRSPacketList.dropLast

/-- The thread executes and is blocked beside a packet, and no message is queued. -/
structure Stuck (s : Sink) : Prop where
  executing : s.mStatus = .Executing
  blocked : s.pc = .blocked
  packet : s.returned ≠ []
  message : s.mReadyMessageList = []

/-- In `TMessage_WaitQueueNotEmpty`. -/
def Pc.Waits : Pc → Prop
  | .wait | .blocked | .woken => True
  | _ => False

instance : DecidablePred Pc.Waits := fun pc => by
  cases pc <;> first | exact .isTrue trivial | exact .isFalse id

/-- There is memory for one more message. -/
def Sink.Stores (s : Sink) (mallocs : Nat) : Prop :=
  s.idleMessages ≠ 0 ∨ MAX_MESSAGE_ELEMENTS ≤ mallocs

/-- When a step loses no wake-up: the flag is set while there is no packet, or a message is queued;
and the message that a packet is available finds memory, or a thread that needs none. -/
def Heeded (s : Sink) : Step → Prop
  | .thread _ => s.pc = .noPacket → s.caller = none → s.mStatus = .Executing →
    s.mValidRSPacketList = [] ∨ s.mReadyMessageList ≠ []
  | .putAvailable mallocs => s.pc.Waits → s.mStatus = .Executing →
    s.Stores mallocs ∨ s.mReadyMessageList ≠ []
  | _ => True

/-- A thread that waits has a message to come back for, or will get one with the next packet. -/
structure Awake (s : Sink) : Prop where
  waits : s.pc.Waits → s.mStatus = .Executing → s.mReadyMessageList ≠ [] ∨
    s.mNoInputPacketFlag = true ∧ s.returned = [] ∧ s.caller ≠ some .leaving
  /-- The packet of a caller is in the list. -/
  caller : s.caller ≠ none → s.mValidRSPacketList ≠ []

theorem Awake.not_stuck (h : Awake s) : ¬ Stuck s := by
  rintro ⟨hexecuting, hblocked, hpacket, hmessage⟩
  rcases h.waits (hblocked ▸ trivial) hexecuting with hne | ⟨-, hempty, -⟩
  · exact hne hmessage
  · exact hpacket hempty

/-! ## The message queue -/

/-- A message that is put changes neither the packets nor the flag. -/
structure Put (s : Sink) (m : CompInternalMsgType) (s' : Sink) : Prop where
  status : s'.mStatus = s.mStatus
  flag : s'.mNoInputPacketFlag = s.mNoInputPacketFlag
  valid : s'.mValidRSPacketList = s.mValidRSPacketList
  caller : s'.caller = s.caller
  waits : s'.pc.Waits ↔ s.pc.Waits
  grows : s.mReadyMessageList ≠ [] → s'.mReadyMessageList ≠ []

theorem put_message_put (s : Sink) (m : CompInternalMsgType) (mallocs : Nat) :
    Put s m (put_message s m mallocs) := by
  unfold put_message
  split
  · exact ⟨rfl, rfl, rfl, rfl, Iff.rfl, id⟩
  · refine ⟨rfl, rfl, rfl, rfl, ?_, fun _ => List.append_ne_nil_of_right_ne_nil _ nofun⟩
    dsimp only
    split
    · rename_i h
      rw [h.2]
      exact Iff.rfl
    · exact Iff.rfl

theorem put_message_stores (h : s.Stores mallocs) :
    (put_message s m mallocs).mReadyMessageList ≠ [] := by
  unfold put_message
  rw [if_neg]
  · exact List.append_ne_nil_of_right_ne_nil _ nofun
  · rintro ⟨hzero, hlt⟩
    rcases h with h | h
    · exact h hzero
    · omega

theorem put_message_fails (h : ¬ s.Stores mallocs) :
    put_message s m mallocs = { s with idleMessages := mallocs } := by
  obtain ⟨hzero, hlt⟩ := not_or.1 h
  exact if_pos ⟨not_not.1 hzero, Nat.lt_of_not_le hlt⟩

theorem Awake.put (h : Awake s) (hput : Put s m s') : Awake s' := by
  have hreturned : s'.returned = s.returned := by
    unfold Sink.returned
    rw [hput.caller, hput.valid]
  refine ⟨fun hwaits hexecuting => ?_, fun hcaller => ?_⟩
  · rcases h.waits (hput.waits.1 hwaits) (hput.status.symm.trans hexecuting) with hne | hflag
    · exact .inl (hput.grows hne)
    · rw [hput.flag, hreturned, hput.caller]
      exact .inr hflag
  · rw [hput.valid]
    exact h.caller (hput.caller ▸ hcaller)

/-! ## The callers -/

theorem Awake.emptyThisBuffer (h : Awake s) (hs : RecSinkEmptyThisBuffer s mallocs = some s') :
    Awake s' := by
  unfold RecSinkEmptyThisBuffer at hs
  split at hs
  · cases hs
  · rename_i hcaller
    have hnone : s.caller = none := not_not.1 hcaller
    generalize (if s.mIdleRSPacketList = [] then RecSinkIncreaseIdleRSPacketList s mallocs
      else (s.mIdleRSPacketList, s.packetNum, true)) = r at hs
    obtain ⟨idle, packetNum, memory⟩ := r
    match memory, idle with
    | false, _ =>
      cases hs
      exact ⟨h.waits, h.caller⟩
    | true, [] => cases hs
    | true, p :: idle =>
      cases hs
      refine ⟨fun hwaits hexecuting => ?_, fun _ => List.append_ne_nil_of_right_ne_nil _ nofun⟩
      rcases h.waits hwaits hexecuting with hne | ⟨hflag, hempty, -⟩
      · exact .inl hne
      · have hvalid : s.mValidRSPacketList = [] := by
          rw [Sink.returned, if_pos hnone] at hempty
          exact hempty
        refine .inr ⟨hflag, ?_, ?_⟩
        · simp [Sink.returned, hflag, hvalid]
        · simp [hflag]

theorem Awake.putAvailable (h : Awake s) (hheeded : Heeded s (.putAvailable mallocs))
    (hs : putAvailable s mallocs = some s') : Awake s' := by
  unfold RecSink.putAvailable at hs
  split at hs
  · rename_i hcaller
    cases hs
    have hput := put_message_put s .InputPacketAvailable mallocs
    refine ⟨fun hwaits hexecuting => .inl ?_, fun _ => ?_⟩
    · rcases hheeded (hput.waits.1 hwaits) (hput.status.symm.trans hexecuting) with hstores | hne
      · exact put_message_stores hstores
      · exact hput.grows hne
    · show (put_message s .InputPacketAvailable mallocs).mValidRSPacketList ≠ []
      rw [hput.valid]
      exact h.caller (by rw [hcaller]; nofun)
  · cases hs

theorem Awake.leave (h : Awake s) (hs : leave s = some s') : Awake s' := by
  unfold RecSink.leave at hs
  split at hs
  · rename_i hcaller
    cases hs
    refine ⟨fun hwaits hexecuting => ?_, fun hnone => absurd rfl hnone⟩
    rcases h.waits hwaits hexecuting with hne | ⟨-, -, hnot⟩
    · exact .inl hne
    · exact absurd hcaller hnot
  · cases hs

/-! ## The thread -/

/-- What the thread does where it does not wait. -/
theorem awake_of_active (hnot : ¬ s.pc.Waits) (hcaller : s.caller ≠ none →
    s.mValidRSPacketList ≠ []) : Awake s := ⟨fun h => absurd h hnot, hcaller⟩

theorem Awake.waitTest (h : Awake s) (hwaits : s.pc.Waits) : Awake (waitTest s) := by
  unfold RecSink.waitTest
  split
  · exact ⟨fun _ hexecuting => h.waits hwaits hexecuting, h.caller⟩
  · exact awake_of_active id h.caller

theorem process_spec (hpc : s.pc = .processMessage) (m : CompInternalMsgType) :
    ¬ (process s m).pc.Waits ∧ (process s m).caller = s.caller ∧
      (process s m).mValidRSPacketList = s.mValidRSPacketList := by
  have hnot : ¬ s.pc.Waits := by
    rw [hpc]
    exact id
  cases m with
  | SetState desState =>
    unfold process
    dsimp only
    split
    · exact ⟨hnot, rfl, rfl⟩
    · split
      · exact ⟨hnot, rfl, rfl⟩
      · split
        · exact ⟨id, rfl, rfl⟩
        · exact ⟨hnot, rfl, rfl⟩
      · split
        · exact ⟨hnot, rfl, rfl⟩
        · exact ⟨hnot, rfl, rfl⟩
      · split
        · exact ⟨hnot, rfl, rfl⟩
        · exact ⟨hnot, rfl, rfl⟩
      · exact ⟨hnot, rfl, rfl⟩
  | Stop => exact ⟨id, rfl, rfl⟩
  | _ => exact ⟨hnot, rfl, rfl⟩

theorem Awake.processMessage (h : Awake s) (hpc : s.pc = .processMessage) :
    Awake (processMessage s) := by
  unfold RecSink.processMessage
  split
  · rename_i m messages _
    obtain ⟨hnot, hcaller, hvalid⟩ := @process_spec
      { s with mReadyMessageList := messages, idleMessages := s.idleMessages + 1 } hpc m
    refine awake_of_active hnot ?_
    rw [hcaller, hvalid]
    exact h.caller
  · by_cases hexecuting : s.mStatus = .Executing
    · rw [if_pos hexecuting]
      exact awake_of_active id h.caller
    · exact ⟨fun _ hyes => absurd hyes hexecuting, h.caller⟩

/-- A step behind which the thread does not wait, and no caller has the mutex. -/
theorem awake_of_free (hnot : ¬ s.pc.Waits) (hfree : s.caller = none) : Awake s :=
  awake_of_active hnot fun hne => absurd hfree hne

theorem Awake.getRSPacket {found : Nat → Pc} {empty : Option Pc} (hfree : s.caller = none)
    (hfound : ∀ p, ¬ (found p).Waits) (hempty : ∀ pc ∈ empty, ¬ pc.Waits)
    (hs : RecSinkGetRSPacket s found empty = some s') : Awake s' := by
  unfold RecSinkGetRSPacket at hs
  split at hs
  · cases hs
    exact awake_of_free (hfound _) hfree
  · obtain ⟨pc, hpc, rfl⟩ := Option.map_eq_some_iff.1 hs
    exact awake_of_free (hempty pc hpc) hfree

theorem Awake.thread (h : Awake s) (hheeded : Heeded s (.thread choice))
    (hs : RecSinkThread s choice = some s') : Awake s' := by
  unfold RecSinkThread at hs
  split at hs
  next hpc => cases hs; exact h.processMessage hpc
  next p switched hpc =>
    unfold usePacket at hs
    split at hs
    · split at hs
      · cases hs
      · cases hs
        exact awake_of_active id h.caller
    · cases hs
      exact awake_of_active id h.caller
    · cases hs
      exact awake_of_active id h.caller
    · cases hs
  next hpc =>
    unfold RecSinkSwitchFile at hs
    split at hs
    · split at hs
      · cases hs
        exact awake_of_active id h.caller
      · cases hs
    · split at hs
      next hfree => cases hs; exact awake_of_free id hfree
      next => cases hs
    · cases hs
  next hpc => cases hs; exact h.waitTest (hpc ▸ trivial)
  next hpc => cases hs; exact h.waitTest (hpc ▸ trivial)
  next => cases hs
  next => cases hs
  all_goals obtain ⟨hfree, hs⟩ := Option.ite_none_right_eq_some.1 hs
  next => cases hs; exact awake_of_free id hfree
  next => cases hs; exact awake_of_free id hfree
  next => exact Awake.getRSPacket hfree (fun _ => id) (fun pc hpc => by cases hpc; exact id) hs
  next => exact Awake.getRSPacket hfree (fun _ => id) (fun pc hpc => by cases hpc) hs
  next => cases hs; exact awake_of_free id hfree
  next => cases hs; exact awake_of_free id hfree
  next hpc _ =>
    cases hs
    refine ⟨fun _ hexecuting => ?_, fun hne => absurd hfree hne⟩
    rcases hheeded hpc hfree hexecuting with hempty | hne
    · refine .inr ⟨rfl, ?_, by rw [hfree]; nofun⟩
      rw [Sink.returned, if_pos hfree]
      exact hempty
    · exact .inl hne

theorem Awake.next (h : Awake s) (hheeded : Heeded s step) (hs : sink.next s step = some s') :
    Awake s' := by
  cases step with
  | emptyThisBuffer mallocs => exact h.emptyThisBuffer hs
  | putAvailable mallocs => exact h.putAvailable hheeded hs
  | leave => exact h.leave hs
  | command m mallocs =>
    cases hs
    exact h.put (put_message_put s m mallocs)
  | reset =>
    obtain ⟨hloaded, hs⟩ := Option.ite_none_right_eq_some.1 hs
    cases hs
    refine ⟨fun _ hexecuting => ?_, h.caller⟩
    exact absurd (hloaded.symm.trans hexecuting) nofun
  | thread choice => exact h.thread hheeded hs
  | wake =>
    obtain ⟨hblocked, hs⟩ := Option.ite_none_right_eq_some.1 hs
    cases hs
    exact ⟨fun _ => h.waits (hblocked ▸ trivial), h.caller⟩

theorem awake_init : Awake RecSinkInit := awake_of_active id nofun

/-! ## Runs -/

/-- In a run whose steps lose no wake-up the thread is never stuck. -/
theorem sink_awake (steps : List Step) (hheeded : sink.Meets Heeded RecSinkInit steps)
    (hrun : sink.run RecSinkInit steps = some s) : ¬ Stuck s := by
  have hawake : Awake s :=
    Machine.run_inv (fun _ _ _ h hstep hs => h.next hstep hs) awake_init hheeded hrun
  exact hawake.not_stuck

/-- A thread that waits beside a packet without a message can become stuck. -/
theorem stuck_of_waits (hexecuting : s.mStatus = .Executing) (hwaits : s.pc.Waits)
    (hfree : s.caller = none) (hvalid : s.mValidRSPacketList ≠ [])
    (hmessage : s.mReadyMessageList = []) : ∃ steps t, sink.run s steps = some t ∧ Stuck t := by
  have hreturned : s.returned ≠ [] := by
    rw [Sink.returned, if_pos hfree]
    exact hvalid
  have htest : Stuck (waitTest s) := by
    unfold waitTest
    rw [if_pos hmessage]
    exact ⟨hexecuting, rfl, hreturned, hmessage⟩
  cases hpc : s.pc with
  | blocked => exact ⟨[], s, rfl, hexecuting, hpc, hreturned, hmessage⟩
  | wait =>
    refine ⟨[.thread .go], _, ?_, htest⟩
    show (RecSinkThread s .go).bind _ = _
    rw [RecSinkThread, hpc]
    rfl
  | woken =>
    refine ⟨[.thread .go], _, ?_, htest⟩
    show (RecSinkThread s .go).bind _ = _
    rw [RecSinkThread, hpc]
    rfl
  | _ =>
    rw [hpc] at hwaits
    exact hwaits.elim

/-- Behind every other step the thread can become stuck. -/
theorem stuck_of_unheeded (h : Awake s) (hunheeded : ¬ Heeded s step)
    (hs : sink.next s step = some s') : ∃ steps t, sink.run s' steps = some t ∧ Stuck t := by
  cases step with
  | thread choice =>
    simp only [Heeded, Classical.not_imp, not_or, not_not] at hunheeded
    obtain ⟨hpc, hfree, hexecuting, hvalid, hmessage⟩ := hunheeded
    have hnext : s' = { s with mNoInputPacketFlag := true, pc := .wait } := by
      have hthread : RecSinkThread s choice = some s' := hs
      rw [RecSinkThread, hpc] at hthread
      obtain ⟨-, hset⟩ := Option.ite_none_right_eq_some.1 hthread
      exact (Option.some.inj hset).symm
    subst hnext
    exact stuck_of_waits hexecuting trivial hfree hvalid hmessage
  | putAvailable mallocs =>
    simp only [Heeded, Classical.not_imp, not_or, not_not] at hunheeded
    obtain ⟨hwaits, hexecuting, hstores, hmessage⟩ := hunheeded
    obtain ⟨hputting, hs⟩ := Option.ite_none_right_eq_some.1 hs
    rw [put_message_fails hstores] at hs
    cases hs
    obtain ⟨steps, t, hrun, hstuck⟩ := @stuck_of_waits
      { s with idleMessages := mallocs, mNoInputPacketFlag := false, caller := none }
      hexecuting hwaits rfl (h.caller (by rw [hputting]; nofun)) hmessage
    exact ⟨.leave :: steps, t, hrun, hstuck⟩
  | _ => exact absurd trivial hunheeded

/-! ## A burst of packets -/

instance (s : Sink) (mallocs : Nat) : Decidable (s.Stores mallocs) :=
  inferInstanceAs (Decidable (_ ∨ _))

instance (s : Sink) : ∀ step, Decidable (Heeded s step)
  | .thread _ => inferInstanceAs (Decidable (_ → _ → _ → _ ∨ _))
  | .putAvailable _ => inferInstanceAs (Decidable (_ → _ → _ ∨ _))
  | .emptyThisBuffer _ | .leave | .command _ _ | .reset | .wake => .isTrue trivial

instance : DecidablePred Stuck := fun _ =>
  decidable_of_iff (_ ∧ _ ∧ _ ∧ _)
    ⟨fun ⟨h1, h2, h3, h4⟩ => ⟨h1, h2, h3, h4⟩, fun ⟨h1, h2, h3, h4⟩ => ⟨h1, h2, h3, h4⟩⟩

/-- The command to execute, and the thread up to where it has found no packet. -/
def started : List Step :=
  [.command (.SetState .Executing) 0, .thread .go, .thread .go, .thread .go]

/-- A packet comes when the thread is blocked, and wakes it. -/
theorem sink_awake_packet : ∃ s, sink.run RecSinkInit (started ++ [.thread .go, .thread .go,
    .emptyThisBuffer 0, .putAvailable 0, .leave, .thread .go]) = some s ∧ ¬ Stuck s := by
  obtain ⟨s, hs⟩ := Option.isSome_iff_exists.1 (by decide +kernel : (sink.run RecSinkInit (started ++
    [.thread .go, .thread .go, .emptyThisBuffer 0, .putAvailable 0, .leave, .thread .go])).isSome)
  exact ⟨s, hs, sink_awake _ (by decide +kernel) hs⟩

/-- A packet comes before the thread sets its flag. -/
theorem sink_not : ∃ s, sink.run RecSinkInit (started ++ [.emptyThisBuffer 0, .thread .go,
    .thread .go]) = some s ∧ Stuck s := by
  decide +kernel

end Melis.RecSink
