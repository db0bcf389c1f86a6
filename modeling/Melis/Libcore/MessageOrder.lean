import Mathlib.Data.List.Perm.Subperm
import Melis.Libcore.AwMessageQueue

/-!
# Messages are received in the order in which they were posted

The nodes from the head on are the valid ones, and their messages are what was
posted and not yet taken off the list. Only the thread that holds the mutex changes
them, and what it does to them is one of `Effect`.
-/

namespace Melis.Libcore

open Lib Function

variable {α : Type} {n nMaxMessageNum : Nat} {s s' : MessageQueueContext α n} {t : Fin n}
  {i : Fin n × MqAct α}

/-! ## What is claimed -/

/-- The nodes from `pHead` on are `l`, and hold what was posted and has not gone. -/
structure Holds (nMaxMessageNum : Nat) (s : MessageQueueContext α n) (l : List Nat) : Prop where
  chain : Chain s.next s.pHead l
  nodup : l.Nodup
  valid : ∀ i < nMaxMessageNum, s.valid i = true ↔ i ∈ l
  lt : ∀ i ∈ l, i < nMaxMessageNum
  count : s.nCount = l.length
  posted : s.posted = s.gone.map Prod.fst ++ l.map s.msg

/-- What a step of a thread does to the messages. -/
inductive Effect (s : MessageQueueContext α n) (t : Fin n) (s' : MessageQueueContext α n) : Prop
  | post (m : α) (before : s.pc t = .postBody m) (behind : s'.pc t = .postSem)
    (posted : s'.posted = s.posted ++ [m]) (gone : s'.gone = s.gone)
  | get (m : α) (before : s.pc t = .getBody) (behind : s'.pc t = .idle (.msg m))
    (posted : s'.posted = s.posted) (gone : s'.gone = s.gone ++ [(m, true)])
  | flush (ms : List α) (before : s.pc t = .flushBody)
    (posted : s'.posted = s.posted) (gone : s'.gone = s.gone ++ ms.map fun m => (m, false))
  | none (post : ∀ m, s.pc t = .postBody m → s'.pc t ≠ .postSem)
    (get : ∀ m, s.pc t ≠ .idle (.msg m) → s'.pc t ≠ .idle (.msg m))
    (posted : s'.posted = s.posted) (gone : s'.gone = s.gone)

/-! ## The list -/

/-- A step that leaves the list alone. -/
theorem Holds.frame {l : List Nat} (h : Holds nMaxMessageNum s l) (hhead : s'.pHead = s.pHead)
    (hcount : s'.nCount = s.nCount) (hnext : s'.next = s.next) (hvalid : s'.valid = s.valid)
    (hmsg : s'.msg = s.msg) (hposted : s'.posted = s.posted) (hgone : s'.gone = s.gone) :
    Holds nMaxMessageNum s' l where
  chain := by rw [hhead, hnext]; exact h.chain
  nodup := h.nodup
  valid := by rw [hvalid]; exact h.valid
  lt := h.lt
  count := hcount.trans h.count
  posted := by rw [hposted, hgone, hmsg]; exact h.posted

theorem Holds.length_le {l : List Nat} (h : Holds nMaxMessageNum s l) : l.length ≤ nMaxMessageNum := by
  have hsub : l ⊆ List.range nMaxMessageNum := fun i hi => List.mem_range.2 (h.lt i hi)
  have hle := (List.subperm_of_subset h.nodup hsub).length_le
  rwa [List.length_range] at hle

/-- There is a free node while there are less messages than nodes. -/
theorem Holds.find_free {l : List Nat} (h : Holds nMaxMessageNum s l)
    (hcount : s.nCount < nMaxMessageNum) :
    ∃ i, (List.range nMaxMessageNum).find? (fun i => !s.valid i) = some i ∧ i < nMaxMessageNum ∧
      i ∉ l := by
  cases hf : (List.range nMaxMessageNum).find? (fun i => !s.valid i) with
  | some i =>
    have hlt := List.mem_range.1 (List.mem_of_find?_eq_some hf)
    have hfree := List.find?_some hf
    refine ⟨i, rfl, hlt, fun hm => ?_⟩
    rw [(h.valid i hlt).2 hm] at hfree
    cases hfree
  | none =>
    have hsub : List.range nMaxMessageNum ⊆ l := by
      intro i hi
      have hvalid := List.find?_eq_none.1 hf i hi
      exact (h.valid i (List.mem_range.1 hi)).1 (by simpa using hvalid)
    have hle := (List.subperm_of_subset List.nodup_range hsub).length_le
    rw [List.length_range, ← h.count] at hle
    omega

theorem map_update_of_notMem {f : Nat → α} {l : List Nat} {i : Nat} (hi : i ∉ l) (m : α) :
    l.map (update f i m) = l.map f :=
  List.map_congr_left fun _ hj => update_of_ne (ne_of_mem_of_not_mem hj hi) _ _

/-- **A post links a node behind the last.** -/
theorem Holds.post {l : List Nat} (h : Holds nMaxMessageNum s l) (m : α)
    (hcount : s.nCount < nMaxMessageNum) :
    ∃ s' l', AwMessageQueuePostMessage nMaxMessageNum s t m = some s' ∧
      Holds nMaxMessageNum s' l' ∧ s'.posted = s.posted ++ [m] ∧ s'.gone = s.gone ∧
      s'.nCount = s.nCount + 1 ∧ s'.sem = s.sem ∧ s'.mutex = none ∧
      s'.pc = update s.pc t .postSem := by
  obtain ⟨i, hfind, hlt, hil⟩ := h.find_free hcount
  have hlen := h.count
  have hchain : Chain (update s.next i none) s.pHead l := h.chain.update_of_notMem hil
  have hself : update s.next i none i = none := update_self ..
  have hvalid : ∀ j < nMaxMessageNum, update s.valid i true j = true ↔ j ∈ l ++ [i] := by
    intro j hj
    by_cases hji : j = i
    · subst hji
      rw [update_self]
      exact iff_of_true rfl (List.mem_append_right _ (List.mem_singleton_self j))
    · rw [update_of_ne hji, h.valid j hj, List.mem_append, List.mem_singleton,
        or_iff_left hji]
  have hnodup : (l ++ [i]).Nodup :=
    List.nodup_append.2 ⟨h.nodup, List.nodup_singleton i, fun a ha b hb => by
      rw [List.mem_singleton.1 hb]
      exact ne_of_mem_of_not_mem ha hil⟩
  have hlts : ∀ j ∈ l ++ [i], j < nMaxMessageNum := by
    intro j hj
    rcases List.mem_append.1 hj with hj | hj
    · exact h.lt j hj
    · rw [List.mem_singleton.1 hj]
      exact hlt
  have hmsgs : (l ++ [i]).map (update s.msg i m) = l.map s.msg ++ [m] := by
    rw [List.map_append, map_update_of_notMem hil, List.map_singleton, update_self]
  have hposted : s.posted ++ [m] = s.gone.map Prod.fst ++ (l ++ [i]).map (update s.msg i m) := by
    rw [hmsgs, h.posted, List.append_assoc]
  unfold AwMessageQueuePostMessage
  rw [if_neg (by omega), hfind]
  -- The walk to the last node, where there is one.
  cases l with
  | nil =>
    have hhead : s.pHead = none := hchain
    simp only [Option.bind_eq_bind, Option.bind_some, hhead]
    refine ⟨_, [i], rfl, ?_, rfl, rfl, rfl, rfl, rfl, rfl⟩
    exact {
      chain := ⟨rfl, hself⟩, nodup := hnodup, valid := hvalid, lt := hlts
      count := congrArg (· + 1) hlen, posted := hposted }
  | cons a l =>
    obtain ⟨l₀, p, hl₀⟩ : ∃ l₀ p, a :: l = l₀ ++ [p] :=
      ⟨_, _, (List.dropLast_append_getLast (List.cons_ne_nil a l)).symm⟩
    have hhead : s.pHead = some a := hchain.1
    rw [hhead, hl₀] at hchain
    have hlast : lastCell (update s.next i none) nMaxMessageNum a = some p := by
      refine lastCell_eq hchain ?_
      rw [hl₀, List.length_append, List.length_singleton] at hlen
      omega
    simp only [Option.bind_eq_bind, Option.bind_some, Option.map_some, hhead, hlast]
    refine ⟨_, (a :: l) ++ [i], rfl, ?_, rfl, rfl, rfl, rfl, rfl, rfl⟩
    rw [hl₀] at hil hlen hnodup hvalid hlts hposted ⊢
    exact {
      chain := chain_snoc hchain hself hil (hl₀ ▸ h.nodup)
      nodup := hnodup, valid := hvalid, lt := hlts
      count := by
        rw [List.length_append, List.length_singleton, ← hlen]
        rfl
      posted := hposted }

/-- **A get unlinks the first node.** -/
theorem Holds.get {l : List Nat} (h : Holds nMaxMessageNum s l) (hcount : s.nCount ≠ 0) :
    ∃ s' l' m, AwMessageQueueTryGetMessage s t = some s' ∧ Holds nMaxMessageNum s' l' ∧
      s'.posted = s.posted ∧ s'.gone = s.gone ++ [(m, true)] ∧ s'.nCount + 1 = s.nCount ∧
      s'.sem = s.sem ∧ s'.mutex = none ∧ s'.pc = update s.pc t (.idle (.msg m)) := by
  have hlen := h.count
  cases l with
  | nil => exact absurd hlen hcount
  | cons i l =>
    have hhead : s.pHead = some i := h.chain.1
    obtain ⟨hil, hnodup⟩ := List.nodup_cons.1 h.nodup
    rw [List.length_cons] at hlen
    unfold AwMessageQueueTryGetMessage
    rw [if_neg hcount]
    simp only [Option.bind_eq_bind, Option.bind_some, hhead]
    refine ⟨_, l, s.msg i, rfl, ?_, rfl, rfl, ?_, rfl, rfl, rfl⟩
    · exact {
        chain := h.chain.2
        nodup := hnodup
        valid := by
          intro j hj
          dsimp only [unlock, MessageQueueContext.goto]
          by_cases hji : j = i
          · subst hji
            rw [update_self]
            exact iff_of_false Bool.false_ne_true hil
          · rw [update_of_ne hji, h.valid j hj, List.mem_cons, or_iff_right hji]
        lt := fun j hj => h.lt j (List.mem_cons_of_mem i hj)
        count := by
          show s.nCount - 1 = l.length
          omega
        posted := by
          show s.posted = (s.gone ++ [(s.msg i, true)]).map Prod.fst ++ l.map s.msg
          rw [List.map_append, List.append_assoc, h.posted]
          rfl }
    · show s.nCount - 1 + 1 = s.nCount
      omega

theorem walkNodes_eq {next : Nat → Option Nat} {head : Option Nat} {l : List Nat} {fuel : Nat}
    (h : Chain next head l) (hle : l.length ≤ fuel) : walkNodes next fuel head = l := by
  induction l generalizing head fuel with
  | nil =>
    rw [chain_nil.1 h]
    cases fuel <;> rfl
  | cons i l ih =>
    cases fuel with
    | zero => exact absurd hle (Nat.not_succ_le_zero _)
    | succ fuel =>
      rw [h.1, walkNodes, ih h.2 (Nat.le_of_succ_le_succ hle)]

/-- **A flush drops the list.** -/
theorem Holds.flush {l : List Nat} (h : Holds nMaxMessageNum s l) :
    Holds nMaxMessageNum (AwMessageQueueFlush nMaxMessageNum s t) [] where
  chain := rfl
  nodup := List.nodup_nil
  valid i hi := by
    dsimp only [AwMessageQueueFlush]
    rw [if_pos hi]
    exact iff_of_false Bool.false_ne_true List.not_mem_nil
  lt := nofun
  count := rfl
  posted := by
    have hposted := h.posted
    dsimp only [AwMessageQueueFlush, MessageQueueContext.goto]
    rw [walkNodes_eq h.chain h.length_le, hposted, List.map_append, List.map_map, List.map_nil,
      List.append_nil]
    rfl

/-! ## The mutex -/

/-- The thread that holds the mutex is the one between lock and unlock. -/
def Excl (s : MessageQueueContext α n) : Prop := ∀ t, (s.pc t).Locked = true ↔ s.mutex = some t

theorem locked_resumed (p : Pc α) : p.resumed.Locked = p.Locked := by
  cases p <;> rfl

theorem Excl.moves (h : Excl s) {p : Pc α} (hpc : (s.pc t).Locked = p.Locked)
    (hs : s'.pc = update s.pc t p) (hmutex : s'.mutex = s.mutex) : Excl s' := by
  intro u
  rw [hs, hmutex]
  by_cases hu : u = t
  · subst hu
    rw [update_self, ← hpc]
    exact h u
  · rw [update_of_ne hu]
    exact h u

theorem Excl.unlocks (h : Excl s) {p : Pc α} (hpc : (s.pc t).Locked = true) (hp : p.Locked = false)
    (hs : s'.pc = update s.pc t p) (hmutex : s'.mutex = none) : Excl s' := by
  intro u
  rw [hs, hmutex]
  by_cases hu : u = t
  · subst hu
    rw [update_self, hp]
    exact iff_of_false Bool.false_ne_true nofun
  · rw [update_of_ne hu]
    refine iff_of_false (fun hlocked => hu ?_) nofun
    have hheld := (h u).1 hlocked
    rw [(h t).1 hpc] at hheld
    exact (Option.some.inj hheld).symm

theorem Excl.locks (h : Excl s) {p : Pc α} (hfree : s.mutex = none) (hp : p.Locked = true) :
    Excl { s.goto t p with mutex := some t } := by
  intro u
  dsimp only [MessageQueueContext.goto]
  by_cases hu : u = t
  · subst hu
    rw [update_self]
    exact iff_of_true hp rfl
  · rw [update_of_ne hu]
    refine iff_of_false (fun hlocked => ?_) fun he => hu (Option.some.inj he).symm
    have hheld := (h u).1 hlocked
    rw [hfree] at hheld
    cases hheld

/-! ## Steps -/

/-- The list is in order, and one thread at most is at it. -/
structure Ordered (nMaxMessageNum : Nat) (s : MessageQueueContext α n) : Prop where
  holds : ∃ l, Holds nMaxMessageNum s l
  excl : Excl s

theorem ordered_create (zero : α) : Ordered nMaxMessageNum (AwMessageQueueCreate n zero) where
  holds := ⟨[], rfl, List.nodup_nil, fun _ _ => iff_of_false Bool.false_ne_true List.not_mem_nil,
    nofun, rfl, rfl⟩
  excl _ := iff_of_false Bool.false_ne_true nofun

/-- A thread moves, and the list stays. -/
theorem Effect.quiet {p : Pc α} (hpc : s'.pc t = p) (hpost : ∀ m, s.pc t = .postBody m → p ≠ .postSem)
    (hget : ∀ m, s.pc t ≠ .idle (.msg m) → p ≠ .idle (.msg m)) (hposted : s'.posted = s.posted)
    (hgone : s'.gone = s.gone) : Effect s t s' := by
  refine .none (fun m hm => ?_) (fun m hm => ?_) hposted hgone
  · rw [hpc]
    exact hpost m hm
  · rw [hpc]
    exact hget m hm

theorem Effect.same : Effect s t s :=
  .none (fun _ hm h => nomatch hm.symm.trans h) (fun _ h => h) rfl rfl

theorem ordered_goto (h : Ordered nMaxMessageNum s) {p : Pc α} (hpc : (s.pc t).Locked = p.Locked)
    (hpost : p ≠ .postSem) (hget : ∀ m, p ≠ .idle (.msg m)) {sem : Sem (Fin n)} :
    Ordered nMaxMessageNum { s.goto t p with sem } ∧ Effect s t { s.goto t p with sem } := by
  obtain ⟨l, hl⟩ := h.holds
  refine ⟨⟨⟨l, hl.frame rfl rfl rfl rfl rfl rfl rfl⟩, h.excl.moves hpc rfl rfl⟩, ?_⟩
  exact .quiet (update_self ..) (fun _ _ => hpost) (fun m _ => hget m) rfl rfl

theorem ordered_lock (h : Ordered nMaxMessageNum s) {p : Pc α} (hp : p.Locked = true) :
    Ordered nMaxMessageNum (lock s t p) ∧ Effect s t (lock s t p) := by
  obtain ⟨l, hl⟩ := h.holds
  unfold lock
  split
  · rename_i hfree
    refine ⟨⟨⟨l, hl.frame rfl rfl rfl rfl rfl rfl rfl⟩, h.excl.locks hfree hp⟩, ?_⟩
    refine .quiet (update_self ..) (fun _ _ => ?_) (fun _ _ => ?_) rfl rfl
    · rintro rfl
      cases hp
    · rintro rfl
      cases hp
  · exact ⟨h, .same⟩

theorem ordered_unlock (h : Ordered nMaxMessageNum s) {p : Pc α} (hpc : (s.pc t).Locked = true)
    (hp : p.Locked = false) (hpost : p ≠ .postSem) (hget : ∀ m, p ≠ .idle (.msg m)) :
    Ordered nMaxMessageNum (unlock s t p) ∧ Effect s t (unlock s t p) := by
  obtain ⟨l, hl⟩ := h.holds
  refine ⟨⟨⟨l, hl.frame rfl rfl rfl rfl rfl rfl rfl⟩, h.excl.unlocks hpc hp rfl rfl⟩, ?_⟩
  exact .quiet (update_self ..) (fun _ _ => hpost) (fun m _ => hget m) rfl rfl

theorem ordered_semWait (h : Ordered nMaxMessageNum s) {got wait : Pc α}
    (hpc : (s.pc t).Locked = false) (hgot : got.Locked = false) (hwait : wait.Locked = false)
    (hpost : got ≠ .postSem ∧ wait ≠ .postSem)
    (hget : ∀ m, got ≠ .idle (.msg m) ∧ wait ≠ .idle (.msg m)) :
    Ordered nMaxMessageNum (semWait s t got wait) ∧ Effect s t (semWait s t got wait) := by
  unfold semWait
  split
  · exact ordered_goto h (hpc.trans hgot.symm) hpost.1 fun m => (hget m).1
  · exact ordered_goto h (hpc.trans hwait.symm) hpost.2 fun m => (hget m).2

theorem ordered_semPost (h : Ordered nMaxMessageNum s) {p : Pc α} (hpc : (s.pc t).Locked = p.Locked)
    (hbody : ∀ m, s.pc t ≠ .postBody m) (hret : ∀ m, (s.pc t).resumed ≠ .idle (.msg m))
    (hget : ∀ m, p ≠ .idle (.msg m)) :
    Ordered nMaxMessageNum (semPost s t p) ∧ Effect s t (semPost s t p) := by
  obtain ⟨l, hl⟩ := h.holds
  unfold semPost
  split
  · refine ⟨⟨⟨l, hl.frame rfl rfl rfl rfl rfl rfl rfl⟩, h.excl.moves hpc rfl rfl⟩, ?_⟩
    exact .quiet (update_self ..) (fun m hm => absurd hm (hbody m)) (fun m _ => hget m)
      rfl rfl
  · rename_i sem u _
    have hmoved : Excl (s.goto t p) := h.excl.moves hpc rfl rfl
    have hresumed : ((s.goto t p).pc u).Locked = (s.pc u).resumed.Locked := by
      rw [locked_resumed]
      show (update s.pc t p u).Locked = (s.pc u).Locked
      by_cases hu : u = t
      · subst hu
        rw [update_self, hpc]
      · rw [update_of_ne hu]
    refine ⟨⟨⟨l, hl.frame rfl rfl rfl rfl rfl rfl rfl⟩, hmoved.moves hresumed rfl rfl⟩, ?_⟩
    by_cases hu : t = u
    · subst hu
      exact .quiet (update_self ..) (fun m hm => absurd hm (hbody m))
        (fun m _ => hret m) rfl rfl
    · have hself : update (update s.pc t p) u (s.pc u).resumed t = p := by
        rw [update_of_ne hu, update_self]
      exact .quiet hself (fun m hm => absurd hm (hbody m)) (fun m _ => hget m) rfl rfl

/-- **A step keeps the order.** -/
theorem ordered_step (h : Ordered nMaxMessageNum s) (t : Fin n) :
    ∃ s', mqStep nMaxMessageNum s t = some s' ∧ Ordered nMaxMessageNum s' ∧ Effect s t s' := by
  obtain ⟨l, hl⟩ := h.holds
  unfold mqStep
  cases hpc : s.pc t with
  | idle ret => exact ⟨s, rfl, h, .same⟩
  | getWait timed => exact ⟨s, rfl, h, .same⟩
  | waitWait timed => exact ⟨s, rfl, h, .same⟩
  | postLock m => exact ⟨_, rfl, ordered_lock h rfl⟩
  | getLock => exact ⟨_, rfl, ordered_lock h rfl⟩
  | flushLock => exact ⟨_, rfl, ordered_lock h rfl⟩
  | postSem =>
    exact ⟨_, rfl, ordered_semPost h (by rw [hpc]; rfl) (by rw [hpc]; nofun) (by rw [hpc]; nofun) nofun⟩
  | waitPost =>
    exact ⟨_, rfl, ordered_semPost h (by rw [hpc]; rfl) (by rw [hpc]; nofun) (by rw [hpc]; nofun) nofun⟩
  | getSem timed =>
    exact ⟨_, rfl, ordered_semWait h (by rw [hpc]; rfl) rfl rfl ⟨nofun, nofun⟩ fun _ => ⟨nofun, nofun⟩⟩
  | waitSem timed =>
    exact ⟨_, rfl, ordered_semWait h (by rw [hpc]; rfl) rfl rfl ⟨nofun, nofun⟩ fun _ => ⟨nofun, nofun⟩⟩
  | waitRead => exact ⟨_, rfl, ordered_goto h (p := .idle (.code _)) (by rw [hpc]; rfl) nofun nofun⟩
  | flushTry => exact ⟨_, rfl, ordered_goto h (p := .flushValue) (by rw [hpc]; rfl) nofun nofun⟩
  | flushValue =>
    refine ⟨_, rfl, ?_⟩
    split
    · exact ordered_unlock h (by rw [hpc]; rfl) rfl nofun nofun
    · exact ordered_goto h (p := .flushTry) (by rw [hpc]; rfl) nofun nofun
  | postBody m =>
    have hlocked : (s.pc t).Locked = true := by
      rw [hpc]
      rfl
    by_cases hfull : nMaxMessageNum ≤ s.nCount
    · refine ⟨_, if_pos hfull, ordered_unlock h hlocked rfl nofun nofun⟩
    · obtain ⟨s', l', hs', hl', hposted, hgone, -, -, hmutex, hpc'⟩ :=
        hl.post (t := t) m (Nat.lt_of_not_le hfull)
      refine ⟨s', hs', ⟨⟨l', hl'⟩, h.excl.unlocks hlocked rfl hpc' hmutex⟩, ?_⟩
      exact .post m hpc (by rw [hpc', update_self]) hposted hgone
  | getBody =>
    have hlocked : (s.pc t).Locked = true := by
      rw [hpc]
      rfl
    by_cases hzero : s.nCount = 0
    · refine ⟨_, if_pos hzero, ordered_unlock h hlocked rfl nofun nofun⟩
    · obtain ⟨s', l', m, hs', hl', hposted, hgone, -, -, hmutex, hpc'⟩ := hl.get (t := t) hzero
      refine ⟨s', hs', ⟨⟨l', hl'⟩, h.excl.unlocks hlocked rfl hpc' hmutex⟩, ?_⟩
      exact .get m hpc (by rw [hpc', update_self]) hposted hgone
  | flushBody =>
    refine ⟨_, rfl, ⟨⟨[], hl.flush⟩, ?_⟩, ?_⟩
    · refine h.excl.moves (p := .flushValue) ?_ rfl rfl
      rw [hpc]
      rfl
    · refine .flush (l.map s.msg) hpc rfl ?_
      dsimp only [AwMessageQueueFlush]
      rw [walkNodes_eq hl.chain hl.length_le, List.map_map]
      rfl

theorem ordered_next (h : Ordered nMaxMessageNum s) (i : Fin n × MqAct α) :
    ∃ s', mqNext nMaxMessageNum s i = some s' ∧ Ordered nMaxMessageNum s' ∧ Effect s i.1 s' := by
  obtain ⟨t, act⟩ := i
  unfold mqNext
  cases act with
  | step => exact ordered_step h t
  | timeout =>
    refine ⟨_, rfl, ?_⟩
    unfold mqTimeout
    split
    · rename_i hpc
      exact ordered_goto h (p := .idle (.code _)) (by rw [hpc]; rfl) nofun nofun
    · rename_i hpc
      exact ordered_goto h (p := .idle (.code _)) (by rw [hpc]; rfl) nofun nofun
    · exact ⟨h, .same⟩
  | call c =>
    dsimp only
    cases hpc : s.pc t with
    | idle ret =>
      refine ⟨_, rfl, ordered_goto h ?_ ?_ ?_⟩
      · rw [hpc]
        cases c <;> rfl
      · cases c <;> nofun
      · cases c <;> nofun
    | _ => exact ⟨s, rfl, h, .same⟩

end Melis.Libcore
