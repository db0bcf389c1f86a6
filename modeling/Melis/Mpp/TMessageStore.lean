import Mathlib.Data.List.Nodup
import Melis.Mpp.TMessage

/-!
# Nodes, copies and contents

`Store s` says that each node is on one list, that the count is right and that
each copy of data is with one ready node, or was freed or handed out, once.
`Logged s` says that the ready list is what the log leaves of the messages. The
functions of the queue keep both, whatever `malloc` answers.
-/

namespace Melis.Mpp

open Lib Function

variable {s s' : State} {n p t : Nat} {rest : List Nat}

/-- The copies of the ready nodes. -/
def State.copies (s : State) : List Nat := s.mReadyMessageList.filterMap fun n => (s.nodes n).mpData

structure Store (s : State) : Prop where
  lists : (s.mIdleMessageList ++ s.mReadyMessageList).Perm (List.range s.nodeNum)
  count : s.messageCount = s.mReadyMessageList.length
  copies : s.copies.Nodup
  held : ∀ p ∈ s.copies, p < s.copyNum ∧ s.freed p = 0 ∧ s.handed p = 0
  spent : ∀ p < s.copyNum, p ∉ s.copies → s.freed p + s.handed p = 1
  fresh : ∀ p, s.copyNum ≤ p → s.freed p = 0 ∧ s.handed p = 0

/-- First in, first out, and lost by a flush only. -/
def Logged (s : State) : Prop :=
  Queue.replay [] s.log = some (s.mReadyMessageList.map s.contentOf)

/-- The functions on the queue leave the threads alone. -/
structure QueueOnly (s s' : State) : Prop where
  mWaitMessageFlag : s'.mWaitMessageFlag = s.mWaitMessageFlag
  mutex : s'.mutex = s.mutex
  threads : s'.threads = s.threads
  threadNum : s'.threadNum = s.threadNum

theorem QueueOnly.refl (s : State) : QueueOnly s s := ⟨rfl, rfl, rfl, rfl⟩

theorem QueueOnly.trans {s'' : State} (h : QueueOnly s s') (h' : QueueOnly s' s'') :
    QueueOnly s s'' :=
  ⟨h'.mWaitMessageFlag.trans h.mWaitMessageFlag, h'.mutex.trans h.mutex,
    h'.threads.trans h.threads, h'.threadNum.trans h.threadNum⟩

/-- The ready messages are left alone too. -/
structure Kept (s s' : State) : Prop extends QueueOnly s s' where
  ready : s'.mReadyMessageList = s.mReadyMessageList
  log : s'.log = s.log
  content : ∀ n ∈ s.mReadyMessageList, s'.contentOf n = s.contentOf n

theorem Kept.refl (s : State) : Kept s s := ⟨.refl s, rfl, rfl, fun _ _ => rfl⟩

theorem Kept.trans {s'' : State} (h : Kept s s') (h' : Kept s' s'') : Kept s s'' :=
  ⟨h.toQueueOnly.trans h'.toQueueOnly, h'.ready.trans h.ready, h'.log.trans h.log, fun n hn =>
    (h'.content n (h.ready.symm ▸ hn)).trans (h.content n hn)⟩

theorem Kept.logged (h : Kept s s') (hl : Logged s) : Logged s' := by
  unfold Logged at hl ⊢
  rw [h.log, h.ready, List.map_congr_left h.content]
  exact hl

namespace Store

variable (h : Store s)

include h

theorem nodup : (s.mIdleMessageList ++ s.mReadyMessageList).Nodup :=
  h.lists.nodup_iff.2 List.nodup_range

theorem notMem_ready (hidle : s.mIdleMessageList = n :: rest) : n ∉ s.mReadyMessageList := by
  have hn := h.nodup
  rw [hidle] at hn
  exact fun hm => (List.nodup_cons.1 hn).1 (List.mem_append_right _ hm)

theorem notMem_rest (hready : s.mReadyMessageList = n :: rest) :
    n ∉ rest ∧ n ∉ s.mIdleMessageList := by
  have hn := List.nodup_append.1 h.nodup
  rw [hready] at hn
  exact ⟨(List.nodup_cons.1 hn.2.1).1, fun hm => hn.2.2 n hm n List.mem_cons_self rfl⟩

/-- A new node goes to the idle list. -/
theorem grow : Store { s with
    mIdleMessageList := s.mIdleMessageList ++ [s.nodeNum], nodeNum := s.nodeNum + 1 } where
  lists := by
    have hnew : (s.mIdleMessageList ++ [s.nodeNum] ++ s.mReadyMessageList).Perm
        (s.mIdleMessageList ++ s.mReadyMessageList ++ [s.nodeNum]) := by
      rw [List.append_assoc, List.append_assoc]
      exact List.perm_append_comm.append_left _
    change (s.mIdleMessageList ++ [s.nodeNum] ++ s.mReadyMessageList).Perm
      (List.range (s.nodeNum + 1))
    rw [List.range_succ]
    exact hnew.trans (h.lists.append_right _)
  count := h.count
  copies := h.copies
  held := h.held
  spent := h.spent
  fresh := h.fresh

/-- A node becomes ready, with no data or with a new copy. -/
theorem put (hidle : s.mIdleMessageList = n :: rest) (hidle' : s'.mIdleMessageList = rest)
    (hready : s'.mReadyMessageList = s.mReadyMessageList ++ [n]) (hnum : s'.nodeNum = s.nodeNum)
    (hcount : s'.messageCount = s.messageCount + 1) (hnodes : ∀ k ≠ n, s'.nodes k = s.nodes k)
    (hfreed : s'.freed = s.freed) (hhanded : s'.handed = s.handed)
    (hcopy : (s'.nodes n).mpData = none ∧ s'.copyNum = s.copyNum ∨
      (s'.nodes n).mpData = some s.copyNum ∧ s'.copyNum = s.copyNum + 1) : Store s' := by
  have hn := h.notMem_ready hidle
  have hsame : s.mReadyMessageList.filterMap (fun k => (s'.nodes k).mpData) = s.copies :=
    List.filterMap_congr fun k hk => by rw [hnodes k (ne_of_mem_of_not_mem hk hn)]
  have hcopies : s'.copies = s.copies ++ (s'.nodes n).mpData.toList := by
    unfold State.copies at hsame ⊢
    rw [hready, List.filterMap_append, hsame]
    cases hd : (s'.nodes n).mpData <;> simp [hd]
  refine ⟨?_, ?_, ?_, fun p hp => ?_, fun p hlt hp => ?_, fun p hle => ?_⟩
  · rw [hidle', hready, hnum, ← List.append_assoc]
    refine (List.perm_append_singleton n _).trans ?_
    rw [← List.cons_append, ← hidle]
    exact h.lists
  · rw [hcount, hready, h.count, List.length_append]
    rfl
  · rw [hcopies]
    rcases hcopy with ⟨hd, -⟩ | ⟨hd, -⟩
    · simpa [hd] using h.copies
    · rw [hd]
      refine List.nodup_append.2 ⟨h.copies, List.nodup_singleton _, fun p hp q hq => ?_⟩
      obtain rfl := List.mem_singleton.1 hq
      exact Nat.ne_of_lt (h.held p hp).1
  · rw [hfreed, hhanded]
    rw [hcopies, List.mem_append] at hp
    rcases hcopy with ⟨hd, hc⟩ | ⟨hd, hc⟩
    · rw [hd] at hp
      rw [hc]
      exact h.held p (hp.resolve_right List.not_mem_nil)
    · rw [hc]
      rcases hp with hp | hp
      · obtain ⟨hlt, hf⟩ := h.held p hp
        exact ⟨Nat.lt_succ_of_lt hlt, hf⟩
      · rw [hd] at hp
        obtain rfl := List.mem_singleton.1 hp
        exact ⟨Nat.lt_succ_self _, h.fresh _ (Nat.le_refl _)⟩
  · rw [hfreed, hhanded]
    rw [hcopies, List.mem_append, not_or] at hp
    rcases hcopy with ⟨hd, hc⟩ | ⟨hd, hc⟩
    · exact h.spent p (hc ▸ hlt) hp.1
    · rw [hc] at hlt
      rw [hd] at hp
      have hne : p ≠ s.copyNum := fun he => hp.2 (List.mem_singleton.2 he)
      exact h.spent p (Nat.lt_of_le_of_ne (Nat.le_of_lt_succ hlt) hne) hp.1
  · rw [hfreed, hhanded]
    refine h.fresh p ?_
    rcases hcopy with ⟨-, hc⟩ | ⟨-, hc⟩ <;> omega

/-- The first ready node becomes idle, and its copy is freed or handed out. -/
theorem pop (hready : s.mReadyMessageList = n :: rest) (hready' : s'.mReadyMessageList = rest)
    (hidle : s'.mIdleMessageList = s.mIdleMessageList ++ [n]) (hnum : s'.nodeNum = s.nodeNum)
    (hcount : s'.messageCount = s.messageCount - 1)
    (hnodes : ∀ k ≠ n, (s'.nodes k).mpData = (s.nodes k).mpData) (hcopyNum : s'.copyNum = s.copyNum)
    (hgone : ∀ p, (s.nodes n).mpData = some p →
      s'.freed p + s'.handed p = s.freed p + s.handed p + 1)
    (hother : ∀ p, (s.nodes n).mpData ≠ some p → s'.freed p = s.freed p ∧ s'.handed p = s.handed p) :
    Store s' := by
  obtain ⟨hn, -⟩ := h.notMem_rest hready
  have hcopies : s.copies = (s.nodes n).mpData.toList ++ s'.copies := by
    have hsame : rest.filterMap (fun k => (s'.nodes k).mpData) =
        rest.filterMap fun k => (s.nodes k).mpData :=
      List.filterMap_congr fun k hk => hnodes k (ne_of_mem_of_not_mem hk hn)
    unfold State.copies
    rw [hready, hready', hsame]
    cases hd : (s.nodes n).mpData <;> simp [hd]
  have hin : ∀ p ∈ s'.copies, p ∈ s.copies ∧ (s.nodes n).mpData ≠ some p := by
    intro p hp
    rw [hcopies]
    refine ⟨List.mem_append_right _ hp, fun hd => ?_⟩
    have hnodup := h.copies
    rw [hcopies, hd] at hnodup
    exact (List.nodup_cons.1 hnodup).1 hp
  refine ⟨?_, ?_, ?_, fun p hp => ?_, fun p hlt hp => ?_, fun p hle => ?_⟩
  · rw [hidle, hready', hnum, List.append_assoc, List.singleton_append, ← hready]
    exact h.lists
  · rw [hcount, h.count, hready, hready', List.length_cons]
    omega
  · have hnodup := h.copies
    rw [hcopies] at hnodup
    exact (List.nodup_append.1 hnodup).2.1
  · obtain ⟨hmem, hne⟩ := hin p hp
    obtain ⟨hf, hh⟩ := hother p hne
    rw [hcopyNum, hf, hh]
    exact h.held p hmem
  · rw [hcopyNum] at hlt
    by_cases hd : (s.nodes n).mpData = some p
    · have hmem : p ∈ s.copies := by
        rw [hcopies, hd]
        exact List.mem_cons_self
      obtain ⟨-, hf, hh⟩ := h.held p hmem
      rw [hgone p hd, hf, hh]
    · obtain ⟨hf, hh⟩ := hother p hd
      rw [hf, hh]
      refine h.spent p hlt fun hmem => ?_
      rw [hcopies, List.mem_append] at hmem
      rcases hmem with hmem | hmem
      · cases hd' : (s.nodes n).mpData with
        | none =>
          rw [hd'] at hmem
          cases hmem
        | some q =>
          rw [hd'] at hmem
          obtain rfl := List.mem_singleton.1 hmem
          exact hd hd'
      · exact hp hmem
  · rw [hcopyNum] at hle
    by_cases hd : (s.nodes n).mpData = some p
    · have hmem : p ∈ s.copies := by
        rw [hcopies, hd]
        exact List.mem_cons_self
      exact absurd (h.held p hmem).1 (Nat.not_lt.2 hle)
    · obtain ⟨hf, hh⟩ := hother p hd
      rw [hf, hh]
      exact h.fresh p hle

end Store

/-! ## The functions -/

theorem increaseIdle_spec (h : Store s) (left mallocs : Nat) :
    Store (State.increaseIdle left mallocs s).1 ∧ Kept s (State.increaseIdle left mallocs s).1 ∧
      (State.increaseIdle left mallocs s).2 = decide (left ≤ mallocs) ∧
        (State.increaseIdle left mallocs s).1.mIdleMessageList =
          s.mIdleMessageList ++ List.range' s.nodeNum (min left mallocs) := by
  induction left generalizing mallocs s with
  | zero => simp [State.increaseIdle, h, Kept.refl]
  | succ left ih =>
    cases mallocs with
    | zero => simp [State.increaseIdle, h, Kept.refl]
    | succ mallocs =>
      obtain ⟨hstore, hkept, hret, hidle⟩ := ih h.grow mallocs
      have hgrow : Kept s { s with
          mIdleMessageList := s.mIdleMessageList ++ [s.nodeNum], nodeNum := s.nodeNum + 1 } :=
        ⟨⟨rfl, rfl, rfl, rfl⟩, rfl, rfl, fun _ _ => rfl⟩
      refine ⟨hstore, hgrow.trans hkept, ?_, ?_⟩
      · rw [State.increaseIdle, hret]
        simp
      · rw [State.increaseIdle, hidle]
        simp [List.range'_succ, Nat.succ_min_succ]

/-- The put of a message finds a node and its memory. -/
def State.Stores (s : State) (m : MessageIn) (mallocs : Nat) (data : Bool) : Prop :=
  (s.mIdleMessageList = [] → maxMessageElements ≤ mallocs) ∧ (m.copied = none ∨ data = true)

instance (s : State) (m : MessageIn) (mallocs : Nat) (data : Bool) :
    Decidable (s.Stores m mallocs data) := inferInstanceAs (Decidable (_ ∧ _))

/-- The idle list after it has grown where it had to. -/
theorem grown_spec (h : Store s) (mallocs : Nat) :
    ∃ g, (if s.mIdleMessageList = [] then s.tMessageIncreaseIdleMessageList mallocs
        else (s, true)) = g ∧ Store g.1 ∧ Kept s g.1 ∧
      (g.2 = true ↔ (s.mIdleMessageList = [] → maxMessageElements ≤ mallocs)) ∧
        (g.2 = true → g.1.mIdleMessageList ≠ []) := by
  refine ⟨_, rfl, ?_⟩
  by_cases hidle : s.mIdleMessageList = []
  · obtain ⟨hstore, hkept, hret, hlist⟩ :=
      increaseIdle_spec h maxMessageElements mallocs
    rw [if_pos hidle]
    unfold State.tMessageIncreaseIdleMessageList
    refine ⟨hstore, hkept, ?_, fun hr => ?_⟩
    · rw [hret, decide_eq_true_iff]
      exact ⟨fun hle _ => hle, fun hle => hle hidle⟩
    · rw [hret, decide_eq_true_iff] at hr
      rw [hlist, hidle, Nat.min_eq_left hr]
      simp [maxMessageElements]
  · rw [if_neg hidle]
    exact ⟨h, .refl s, iff_of_true rfl fun he => absurd he hidle, fun _ => hidle⟩

/-- A node that is not ready is given another content. -/
theorem kept_setNode (hn : n ∉ s.mReadyMessageList) (m : Message) : Kept s (s.setNode n m) := by
  refine ⟨⟨rfl, rfl, rfl, rfl⟩, rfl, rfl, fun k hk => ?_⟩
  have hne : k ≠ n := ne_of_mem_of_not_mem hk hn
  have hnode : (s.setNode n m).nodes k = s.nodes k := update_of_ne hne ..
  unfold State.contentOf
  dsimp only
  rw [hnode]
  rfl

theorem store_setNode (h : Store s) (hn : n ∉ s.mReadyMessageList) (m : Message) :
    Store (s.setNode n m) := by
  have hcopies : (s.setNode n m).copies = s.copies :=
    List.filterMap_congr fun k hk => by
      have hne : k ≠ n := ne_of_mem_of_not_mem hk hn
      have hnode : (s.setNode n m).nodes k = s.nodes k := update_of_ne hne ..
      rw [hnode]
  obtain ⟨h1, h2, h3, h4, h5, h6⟩ := h
  rw [← hcopies] at h3 h4 h5
  exact ⟨h1, h2, h3, h4, h5, h6⟩

/-- What the copy to a node that is not ready leaves alone, and what it gives the node. -/
structure Copied (s : State) (n : Nat) (m : MessageIn) (s' : State) : Prop extends Kept s s' where
  idle : s'.mIdleMessageList = s.mIdleMessageList
  nodeNum : s'.nodeNum = s.nodeNum
  count : s'.messageCount = s.messageCount
  nodes : ∀ k ≠ n, s'.nodes k = s.nodes k
  freed : s'.freed = s.freed
  handed : s'.handed = s.handed
  content_eq : s'.contentOf n = m.content
  copy : (s'.nodes n).mpData = none ∧ s'.copyNum = s.copyNum ∨
    (s'.nodes n).mpData = some s.copyNum ∧ s'.copyNum = s.copyNum + 1

theorem tMessageDeepCopyMessage_spec (h : Store s) (hn : n ∉ s.mReadyMessageList) (m : MessageIn)
    (data : Bool) :
    ∃ s' ok, s.tMessageDeepCopyMessage n m data = (s', ok) ∧
      (ok = true ∧ (m.copied = none ∨ data = true) ∧ Copied s n m s' ∨
        ok = false ∧ ¬ (m.copied = none ∨ data = true) ∧ Store s' ∧ Kept s s') := by
  have hclear := kept_setNode hn ⟨m.command, m.para0, m.para1, none, 0⟩
  unfold State.tMessageDeepCopyMessage
  cases hc : m.copied with
  | none =>
    refine ⟨_, true, rfl, .inl ⟨rfl, .inl rfl, hclear, rfl, rfl, rfl, fun k hk => update_of_ne hk ..,
      rfl, rfl, ?_, .inl ⟨?_, rfl⟩⟩⟩
    · unfold State.contentOf MessageIn.content State.setNode
      simp [hc]
    · simp [State.setNode]
  | some bytes =>
    cases data with
    | false =>
      exact ⟨_, false, rfl, .inr ⟨rfl, by simp, store_setNode h hn _, hclear⟩⟩
    | true =>
      refine ⟨_, true, rfl, .inl ⟨rfl, .inr rfl, ⟨⟨rfl, rfl, rfl, rfl⟩, rfl, rfl, fun k hk => ?_⟩, rfl, rfl,
        rfl, fun k hk => ?_, rfl, rfl, ?_, .inr ⟨?_, rfl⟩⟩⟩
      · have hne : k ≠ n := ne_of_mem_of_not_mem hk hn
        unfold State.contentOf State.setNode
        dsimp only
        rw [update_of_ne hne, update_of_ne hne]
        cases hd : (s.nodes k).mpData with
        | none => rfl
        | some p =>
          have hp : p < s.copyNum := (h.held p (List.mem_filterMap.2 ⟨k, hk, hd⟩)).1
          rw [Option.map_some, Option.map_some, update_of_ne (Nat.ne_of_lt hp)]
      · exact (update_of_ne hk ..).trans (update_of_ne hk ..)
      · unfold State.contentOf MessageIn.content State.setNode
        simp [hc]
      · simp [State.setNode]

/-- A message is put, or nothing happens to the ready list. -/
theorem putMessageWithData_spec (h : Store s) (hl : Logged s) (m : MessageIn) (mallocs : Nat)
    (data : Bool) :
    ∃ s' ret, s.putMessageWithData m mallocs data = some (s', ret) ∧ Store s' ∧ Logged s' ∧
      QueueOnly s s' ∧
      (ret = 0 ∧ s.Stores m mallocs data ∧ s'.mReadyMessageList ≠ [] ∨
        ret = -1 ∧ ¬ s.Stores m mallocs data ∧ Kept s s') := by
  obtain ⟨g, hg, hstore, hkept, hret, hne⟩ := grown_spec h mallocs
  unfold State.putMessageWithData
  dsimp only
  rw [hg]
  by_cases hgrown : g.2 = true
  · obtain ⟨n, rest, hidle⟩ := List.exists_cons_of_ne_nil (hne hgrown)
    have hn := hstore.notMem_ready hidle
    obtain ⟨s', ok, hcopy, hspec⟩ := tMessageDeepCopyMessage_spec hstore hn m data
    rw [if_pos hgrown, hidle]
    dsimp only
    rw [hcopy]
    rcases hspec with ⟨rfl, hmem, hc⟩ | ⟨rfl, hmem, hstore', hkept'⟩
    · have hidle' : (s'.moveToReady n).mIdleMessageList = rest := by
        change s'.mIdleMessageList.erase n = rest
        rw [hc.idle, hidle, List.erase_cons_head]
      have hready' : (s'.moveToReady n).mReadyMessageList = g.1.mReadyMessageList ++ [n] := by
        change s'.mReadyMessageList.erase n ++ [n] = _
        rw [hc.ready, List.erase_of_not_mem hn]
      rw [if_pos rfl]
      refine ⟨_, 0, rfl, ?_, ?_, ?_, .inl ⟨rfl, ⟨hret.1 hgrown, hmem⟩, ?_⟩⟩
      · exact hstore.put hidle hidle' hready' hc.nodeNum (congrArg (· + 1) hc.count) hc.nodes
          hc.freed hc.handed hc.copy
      · have hlogged := hc.toKept.logged (hkept.logged hl)
        have hput := Queue.replay_put hlogged m.content
        unfold Logged
        dsimp only
        rw [hready', List.map_append, hput, hc.ready, ← hc.content_eq]
        rfl
      · obtain ⟨h1, h2, h3, h4⟩ := hkept.toQueueOnly.trans hc.toQueueOnly
        exact ⟨h1, h2, h3, h4⟩
      · change (s'.moveToReady n).mReadyMessageList ≠ []
        rw [hready']
        simp
    · rw [if_neg nofun]
      exact ⟨s', -1, rfl, hstore', hkept'.logged (hkept.logged hl),
        hkept.toQueueOnly.trans hkept'.toQueueOnly,
        .inr ⟨rfl, fun hs => hmem hs.2, hkept.trans hkept'⟩⟩
  · rw [if_neg hgrown]
    exact ⟨g.1, -1, rfl, hstore, hkept.logged hl, hkept.toQueueOnly,
      .inr ⟨rfl, fun hs => hgrown (hret.2 hs.1), hkept⟩⟩

theorem handOut_spec (s : State) (n : Nat) : ∃ handed, s.handOut n = { s with handed := handed } ∧
    (∀ p, (s.nodes n).mpData = some p → handed p = s.handed p + 1) ∧
      ∀ p, (s.nodes n).mpData ≠ some p → handed p = s.handed p := by
  unfold State.handOut
  cases hd : (s.nodes n).mpData with
  | none => exact ⟨s.handed, rfl, nofun, fun _ _ => rfl⟩
  | some q =>
    refine ⟨_, rfl, fun p hp => ?_, fun p hp => update_of_ne (fun he => hp (congrArg some he.symm)) ..⟩
    cases hp
    exact update_self ..

/-- The first message is handed out, if there is one. -/
theorem getMessage_spec (h : Store s) (hl : Logged s) :
    Store s.getMessage.1 ∧ Logged s.getMessage.1 ∧ QueueOnly s s.getMessage.1 ∧
      s.getMessage.1.mReadyMessageList = s.mReadyMessageList.tail := by
  unfold State.getMessage
  cases hready : s.mReadyMessageList with
  | nil => exact ⟨h, hl, .refl s, hready⟩
  | cons n rest =>
    obtain ⟨hn, hni⟩ := h.notMem_rest hready
    obtain ⟨handed, hhand, hgone, hother⟩ := handOut_spec s n
    have hready' : s.mReadyMessageList.erase n = rest := by
      rw [hready, List.erase_cons_head]
    have hidle' : s.mIdleMessageList.erase n ++ [n] = s.mIdleMessageList ++ [n] := by
      rw [List.erase_of_not_mem hni]
    dsimp only
    rw [hhand]
    refine ⟨?_, ?_, ⟨rfl, rfl, rfl, rfl⟩, hready'⟩
    · refine h.pop hready hready' hidle' rfl rfl (fun _ _ => rfl) rfl (fun p hp => ?_) fun p hp => ?_
      · exact congrArg (s.freed p + ·) (hgone p hp)
      · exact ⟨rfl, hother p hp⟩
    · unfold Logged at hl ⊢
      rw [hready, List.map_cons] at hl
      have hget := Queue.replay_get hl
      change Queue.replay [] (s.log ++ [.get (s.contentOf n)]) =
        some ((s.mReadyMessageList.erase n).map s.contentOf)
      rw [hget, hready']

theorem freeData_spec (s : State) (n : Nat) : ∃ nodes freed,
    s.freeData n = { s with nodes := nodes, freed := freed } ∧ (∀ k ≠ n, nodes k = s.nodes k) ∧
      (∀ p, (s.nodes n).mpData = some p → freed p = s.freed p + 1) ∧
        ∀ p, (s.nodes n).mpData ≠ some p → freed p = s.freed p := by
  unfold State.freeData
  dsimp only
  cases hd : (s.nodes n).mpData with
  | none => exact ⟨s.nodes, s.freed, rfl, fun _ _ => rfl, nofun, fun _ _ => rfl⟩
  | some q =>
    refine ⟨_, update s.freed q (s.freed q + 1), rfl, fun k hk => update_of_ne hk .., fun p hp => ?_,
      fun p hp => update_of_ne (fun he => hp (congrArg some he.symm)) ..⟩
    cases hp
    exact update_self ..

theorem flushLoop_spec {l : List Nat} (h : Store s) (hready : s.mReadyMessageList = l) :
    Store (State.flushLoop l s) ∧ QueueOnly s (State.flushLoop l s) ∧
      (State.flushLoop l s).mReadyMessageList = [] ∧ (State.flushLoop l s).log = s.log := by
  induction l generalizing s with
  | nil => exact ⟨h, .refl s, hready, rfl⟩
  | cons n rest ih =>
    obtain ⟨hn, hni⟩ := h.notMem_rest hready
    obtain ⟨nodes, freed, hfree, hnodes, hgone, hother⟩ := freeData_spec s n
    have hready' : s.mReadyMessageList.erase n = rest := by
      rw [hready, List.erase_cons_head]
    have hidle' : s.mIdleMessageList.erase n ++ [n] = s.mIdleMessageList ++ [n] := by
      rw [List.erase_of_not_mem hni]
    rw [State.flushLoop]
    dsimp only
    rw [hfree]
    have hstore : Store { (State.setNode { s with nodes := nodes, freed := freed } n
        { nodes n with mDataSize := 0 }).moveToIdle n with messageCount := s.messageCount - 1 } :=
      h.pop hready hready' hidle' rfl rfl
      (fun k hk => congrArg Message.mpData ((update_of_ne hk ..).trans (hnodes k hk))) rfl
      (fun p hp => by
        change freed p + s.handed p = _
        rw [hgone p hp]
        omega)
      fun p hp => ⟨hother p hp, rfl⟩
    obtain ⟨hstore', honly, hempty, hlog⟩ := ih hstore hready'
    refine ⟨hstore', ?_, hempty, hlog⟩
    obtain ⟨h1, h2, h3, h4⟩ := honly
    exact ⟨h1, h2, h3, h4⟩

theorem flushMessage_spec (h : Store s) (hl : Logged s) :
    Store s.flushMessage ∧ Logged s.flushMessage ∧ QueueOnly s s.flushMessage ∧
      s.flushMessage.mReadyMessageList = [] := by
  obtain ⟨⟨h1, h2, h3, h4, h5, h6⟩, ⟨g1, g2, g3, g4⟩, hempty, hlog⟩ := flushLoop_spec h rfl
  refine ⟨⟨h1, h2, h3, h4, h5, h6⟩, ?_, ⟨g1, g2, g3, g4⟩, hempty⟩
  have hflush := Queue.replay_flush hl
  unfold Logged State.flushMessage
  dsimp only
  rw [hlog, hempty]
  exact hflush

end Melis.Mpp
