import Melis.Lib.Threads
import Melis.Libcore.MessageOrder

/-!
# No wake-up is lost

A signal is in the semaphore, or with a thread that is about to give it or has taken
it. There are at least as many signals as messages. A flush leaves no more than one
per thread besides, so the value of the semaphore stays in its range.
-/

namespace Melis.Libcore

open Lib Function

variable {α : Type} {n nMaxMessageNum : Nat} {s s' : MessageQueueContext α n} {t u : Fin n}
  {i : Fin n × MqAct α} {p : Pc α}

/-! ## Signals -/

namespace Pc

/-- The thread has a signal: to give, or to take a message for. -/
def signal : Pc α → Nat
  | .postSem | .getLock | .getBody | .waitPost => 1
  | _ => 0

/-- In the loop of a flush. -/
def Draining : Pc α → Bool
  | .flushValue | .flushTry => true
  | _ => false

theorem signal_le (p : Pc α) : p.signal ≤ 1 := by
  cases p <;> first | exact Nat.le_refl 1 | exact Nat.zero_le 1

theorem locked_of_draining (h : p.Draining = true) : p.Locked = true := by
  cases p <;> first | rfl | exact h

theorem signal_resumed (h : p.Suspended = true) : p.signal = 0 ∧ p.resumed.signal = 1 := by
  cases p <;> first | exact ⟨rfl, rfl⟩ | cases h

theorem not_suspended_resumed (p : Pc α) : p.resumed.Suspended = false := by
  cases p <;> rfl

theorem not_draining_resumed (h : p.Suspended = true) : p.resumed.Draining = false := by
  cases p <;> first | rfl | cases h

end Pc

/-- The signals that the threads have. -/
def held (s : MessageQueueContext α n) : Nat := threadSum Pc.signal s.pc

/-- All signals. -/
def signals (s : MessageQueueContext α n) : Nat := s.sem.value + held s

theorem held_le (s : MessageQueueContext α n) : held s ≤ n := by
  have hle : held s ≤ Fintype.card (Fin n) := threadSum_le Pc.signal_le
  rwa [Fintype.card_fin] at hle

theorem held_update (hpc : s'.pc = update s.pc t p) :
    held s' + (s.pc t).signal = held s + p.signal := by
  unfold held
  rw [hpc]
  exact threadSum_update

/-- The threads that are suspended are those on the semaphore, and then its value is 0. -/
structure Parked (s : MessageQueueContext α n) : Prop where
  mem : ∀ u, u ∈ s.sem.suspended ↔ (s.pc u).Suspended = true
  nodup : s.sem.suspended.Nodup
  value : s.sem.suspended ≠ [] → s.sem.value = 0

structure Signalled (nMaxMessageNum : Nat) (s : MessageQueueContext α n) : Prop where
  ge : s.nCount ≤ signals s
  le : signals s ≤ nMaxMessageNum + n
  /-- Where no flush is under way. -/
  le_count : (∀ t, (s.pc t).Draining = false) → signals s ≤ s.nCount + n
  drained : ∀ t, (s.pc t).Draining = true → s.nCount = 0

/-! ## A thread moves -/

theorem Parked.moves (h : Parked s) (hpc : (s.pc t).Suspended = false) (hp : p.Suspended = false)
    (hs : s'.pc = update s.pc t p) (hsem : s'.sem = s.sem) : Parked s' where
  mem u := by
    rw [hs, hsem]
    by_cases hu : u = t
    · subst hu
      rw [update_self, h.mem u, hpc, hp]
    · rw [update_of_ne hu]
      exact h.mem u
  nodup := by rw [hsem]; exact h.nodup
  value := by rw [hsem]; exact h.value

theorem not_draining (hs : s'.pc = update s.pc t p) (hp : p.Draining = false)
    (h : (s'.pc u).Draining = true) : u ≠ t ∧ (s.pc u).Draining = true := by
  rw [hs] at h
  by_cases hu : u = t
  · subst hu
    rw [update_self, hp] at h
    cases h
  · rw [update_of_ne hu] at h
    exact ⟨hu, h⟩

/-- The signals are the same, and the thread is not in a flush. -/
theorem Signalled.moves (h : Signalled nMaxMessageNum s) (hpc : (s.pc t).Draining = false)
    (hp : p.Draining = false) (hs : s'.pc = update s.pc t p)
    (hcount : s'.nCount = s.nCount) (hsignals : signals s' = signals s) :
    Signalled nMaxMessageNum s' where
  ge := by rw [hcount, hsignals]; exact h.ge
  le := by rw [hsignals]; exact h.le
  le_count hno := by
    rw [hcount, hsignals]
    refine h.le_count fun u => ?_
    by_cases hu : u = t
    · subst hu
      exact hpc
    · have hno := hno u
      rw [hs, update_of_ne hu] at hno
      exact hno
  drained u hu := by
    rw [hcount]
    exact h.drained u (not_draining hs hp hu).2

theorem signals_eq (hs : s'.pc = update s.pc t p)
    (hvalue : s'.sem.value + p.signal = s.sem.value + (s.pc t).signal) : signals s' = signals s := by
  have hheld := held_update hs
  unfold signals
  omega

/-- A thread holds the mutex, so no other is in a flush. -/
theorem Excl.not_draining (h : Excl s) (ht : (s.pc t).Locked = true) (hu : u ≠ t) :
    (s.pc u).Draining = false := by
  cases hd : (s.pc u).Draining with
  | false => rfl
  | true =>
    have hheld := (h u).1 (Pc.locked_of_draining hd)
    rw [(h t).1 ht] at hheld
    exact absurd (Option.some.inj hheld).symm hu

/-! ## The semaphore -/

theorem parked_semWait (h : Parked s) {got wait : Pc α} (hpc : (s.pc t).Suspended = false)
    (hgot : got.Suspended = false) (hwait : wait.Suspended = true) :
    Parked (semWait s t got wait) := by
  unfold semWait Sem.take
  split_ifs with hpos
  · have hnil : s.sem.suspended = [] := by
      by_contra hne
      have hzero := h.value hne
      omega
    exact {
      mem := fun u => by
        show u ∈ s.sem.suspended ↔ (update s.pc t got u).Suspended = true
        by_cases hu : u = t
        · subst hu
          rw [update_self, h.mem u, hpc, hgot]
        · rw [update_of_ne hu]
          exact h.mem u
      nodup := h.nodup
      value := fun hne => absurd hnil hne }
  · have hnot : t ∉ s.sem.suspended := fun hm => by
      rw [h.mem t, hpc] at hm
      cases hm
    exact {
      mem := fun u => by
        show u ∈ s.sem.suspended ++ [t] ↔ (update s.pc t wait u).Suspended = true
        rw [List.mem_append, List.mem_singleton]
        by_cases hu : u = t
        · subst hu
          rw [update_self]
          exact iff_of_true (.inr rfl) hwait
        · rw [update_of_ne hu, or_iff_left hu]
          exact h.mem u
      nodup := List.nodup_append.2 ⟨h.nodup, List.nodup_singleton t, fun a ha b hb => by
        rw [List.mem_singleton.1 hb]
        exact ne_of_mem_of_not_mem ha hnot⟩
      value := fun _ => Nat.eq_zero_of_not_pos hpos }

theorem signalled_semWait (h : Signalled nMaxMessageNum s) {got wait : Pc α}
    (hpc : (s.pc t).signal = 0 ∧ (s.pc t).Draining = false)
    (hgot : got.signal = 1 ∧ got.Draining = false) (hwait : wait.signal = 0 ∧ wait.Draining = false) :
    Signalled nMaxMessageNum (semWait s t got wait) := by
  obtain ⟨hpc, hpcd⟩ := hpc
  obtain ⟨hgot, hgotd⟩ := hgot
  obtain ⟨hwait, hwaitd⟩ := hwait
  unfold semWait Sem.take
  split_ifs with hpos
  · refine h.moves (t := t) (p := got) hpcd hgotd rfl rfl (signals_eq rfl ?_)
    show s.sem.value - 1 + got.signal = _
    omega
  · refine h.moves (t := t) (p := wait) hpcd hwaitd rfl rfl (signals_eq rfl ?_)
    show s.sem.value + wait.signal = _
    omega

theorem Sem.release_nil {τ : Type} {sem : Sem τ} (h : sem.suspended = []) :
    sem.release = ({ sem with value := (sem.value + 1) % 2 ^ 16 }, none) := by
  unfold Sem.release
  rw [h]

theorem Sem.release_cons {τ : Type} {sem : Sem τ} {t : τ} {rest : List τ}
    (h : sem.suspended = t :: rest) : sem.release = ({ sem with suspended := rest }, some t) := by
  unfold Sem.release
  rw [h]

/-- **A signal goes to the first thread that waits, or into the value.** -/
theorem wakes_semPost (hP : Parked s) (h : Signalled nMaxMessageNum s)
    (hN : nMaxMessageNum + n < 2 ^ 16) (hpc : (s.pc t).signal = 1 ∧ (s.pc t).Suspended = false ∧
      (s.pc t).Draining = false) (hp : p.signal = 0 ∧ p.Suspended = false ∧ p.Draining = false) :
    Parked (semPost s t p) ∧ Signalled nMaxMessageNum (semPost s t p) := by
  obtain ⟨hpc, hpcs, hpcd⟩ := hpc
  obtain ⟨hp, hps, hpd⟩ := hp
  unfold semPost
  by_cases hsusp : s.sem.suspended = []
  · rw [Sem.release_nil hsusp]
    dsimp only
    have hle := h.le
    have hone := le_threadSum Pc.signal s.pc t
    have hmod : (s.sem.value + 1) % 2 ^ 16 = s.sem.value + 1 := by
      refine Nat.mod_eq_of_lt ?_
      unfold signals held at hle
      omega
    constructor
    · exact {
        mem := fun u => by
          show u ∈ s.sem.suspended ↔ (update s.pc t p u).Suspended = true
          by_cases hu : u = t
          · subst hu
            rw [update_self, hP.mem u, hpcs, hps]
          · rw [update_of_ne hu]
            exact hP.mem u
        nodup := hP.nodup
        value := fun hne => absurd hsusp hne }
    · refine h.moves (t := t) (p := p) hpcd hpd rfl rfl (signals_eq rfl ?_)
      show (s.sem.value + 1) % 2 ^ 16 + p.signal = _
      omega
  · obtain ⟨u, rest, hsusp⟩ := List.exists_cons_of_ne_nil hsusp
    rw [Sem.release_cons hsusp]
    dsimp only
    have hu : (s.pc u).Suspended = true := (hP.mem u).1 (by rw [hsusp]; exact List.mem_cons_self)
    have hut : u ≠ t := by
      rintro rfl
      rw [hpcs] at hu
      cases hu
    have hzero : s.sem.value = 0 := hP.value (by rw [hsusp]; nofun)
    have hnodup : (u :: rest).Nodup := hsusp ▸ hP.nodup
    have hpcu : (s.goto t p).pc u = s.pc u := update_of_ne hut ..
    obtain ⟨hres, hres'⟩ := Pc.signal_resumed hu
    constructor
    · exact {
        mem := fun v => by
          show v ∈ rest ↔
            (update (update s.pc t p) u (s.pc u).resumed v).Suspended = true
          by_cases hv : v = u
          · subst hv
            rw [update_self, Pc.not_suspended_resumed]
            exact iff_of_false (List.nodup_cons.1 hnodup).1 Bool.false_ne_true
          · rw [update_of_ne hv]
            have hmem := hP.mem v
            rw [hsusp, List.mem_cons, or_iff_right hv] at hmem
            by_cases hvt : v = t
            · subst hvt
              rw [update_self, hmem, hpcs, hps]
            · rw [update_of_ne hvt]
              exact hmem
        nodup := (List.nodup_cons.1 hnodup).2
        value := fun _ => hzero }
    · -- As if the value went up and down again.
      have hgo : Signalled nMaxMessageNum
          { s.goto t p with sem := { s.sem with value := s.sem.value + 1 } } := by
        refine h.moves (t := t) (p := p) hpcd hpd rfl rfl (signals_eq rfl ?_)
        show s.sem.value + 1 + p.signal = _
        omega
      have hdrain : ((s.goto t p).pc u).Draining = false := by
        rw [hpcu]
        cases hcase : s.pc u <;> first | rfl | (rw [hcase] at hu; cases hu)
      refine hgo.moves (t := u) (p := (s.pc u).resumed) hdrain (Pc.not_draining_resumed hu) rfl rfl
        (signals_eq rfl ?_)
      show s.sem.value + (s.pc u).resumed.signal = s.sem.value + 1 + ((s.goto t p).pc u).signal
      rw [hpcu]
      omega

/-! ## Steps -/

structure Wakes (nMaxMessageNum : Nat) (s : MessageQueueContext α n) : Prop where
  parked : Parked s
  signalled : Signalled nMaxMessageNum s

theorem wakes_create (zero : α) : Wakes nMaxMessageNum (AwMessageQueueCreate n zero) := by
  have hheld : held (AwMessageQueueCreate n zero) = 0 := threadSum_eq_zero.2 fun _ => rfl
  have hsignals : signals (AwMessageQueueCreate n zero) = 0 := by
    unfold signals
    rw [hheld]
    rfl
  exact {
    parked := ⟨fun _ => iff_of_false List.not_mem_nil Bool.false_ne_true, List.nodup_nil,
      fun h => absurd rfl h⟩
    signalled := {
      ge := Nat.zero_le _
      le := by rw [hsignals]; exact Nat.zero_le _
      le_count := fun _ => by rw [hsignals]; exact Nat.zero_le _
      drained := fun _ _ => rfl } }

/-- The phases differ in nothing that counts. -/
structure Pc.Alike (p q : Pc α) : Prop where
  signal : p.signal = q.signal
  suspended : p.Suspended = false ∧ q.Suspended = false
  draining : p.Draining = false ∧ q.Draining = false

theorem Wakes.moves (h : Wakes nMaxMessageNum s) (hp : p.Alike (s.pc t))
    (hs : s'.pc = update s.pc t p) (hsem : s'.sem = s.sem)
    (hcount : s'.nCount = s.nCount) : Wakes nMaxMessageNum s' where
  parked := h.parked.moves hp.suspended.2 hp.suspended.1 hs hsem
  signalled := h.signalled.moves hp.draining.2 hp.draining.1 hs hcount
    (signals_eq hs (by rw [hsem, hp.signal]))

theorem Wakes.lock (h : Wakes nMaxMessageNum s) (hp : p.Alike (s.pc t)) :
    Wakes nMaxMessageNum (lock s t p) := by
  unfold Libcore.lock
  split
  · exact h.moves hp rfl rfl rfl
  · exact h

theorem Wakes.post (h : Wakes nMaxMessageNum s) (ho : Ordered nMaxMessageNum s) {m : α}
    (hpc : s.pc t = .postBody m) {l : List Nat} (hl : Holds nMaxMessageNum s l)
    (hfull : s.nCount < nMaxMessageNum) :
    ∃ s', AwMessageQueuePostMessage nMaxMessageNum s t m = some s' ∧ Wakes nMaxMessageNum s' := by
  obtain ⟨s', l', hs', -, -, -, hcount, hsem, -, hpc'⟩ := hl.post (t := t) m hfull
  have hlocked : (s.pc t).Locked = true := by
    rw [hpc]
    rfl
  -- The mutex is held, so no flush is under way.
  have hno (u : Fin n) : (s.pc u).Draining = false := by
    by_cases hu : u = t
    · rw [hu, hpc]
      rfl
    · exact ho.excl.not_draining hlocked hu
  have hle := h.signalled.le_count hno
  have hge := h.signalled.ge
  have hone : (s.pc t).signal = 0 := by
    rw [hpc]
    rfl
  have hheld := held_update hpc'
  have hpost : (Pc.postSem : Pc α).signal = 1 := rfl
  have hsignals : signals s' = signals s + 1 := by
    unfold signals
    rw [hsem]
    omega
  refine ⟨s', hs', h.parked.moves (by rw [hpc]; rfl) rfl hpc' hsem, ?_⟩
  exact {
    ge := by omega
    le := by omega
    le_count := fun _ => by omega
    drained := fun u hu => by
      have hu := (not_draining hpc' rfl hu).2
      rw [hno u] at hu
      cases hu }

theorem Wakes.get (h : Wakes nMaxMessageNum s) (hpc : s.pc t = .getBody) {l : List Nat}
    (hl : Holds nMaxMessageNum s l) :
    ∃ s', AwMessageQueueTryGetMessage s t = some s' ∧ Wakes nMaxMessageNum s' := by
  have hone : (s.pc t).signal = 1 := by
    rw [hpc]
    rfl
  have hsusp : (s.pc t).Suspended = false := by
    rw [hpc]
    rfl
  have hge := h.signalled.ge
  have hle := h.signalled.le
  -- What a get leaves where it takes its signal, and a message if there is one.
  have hleaves {s' : MessageQueueContext α n} {p : Pc α} (hp : p.signal = 0 ∧ p.Draining = false)
      (hpc' : s'.pc = update s.pc t p) (hsem : s'.sem = s.sem)
      (hcount : s'.nCount = s.nCount - 1) : Signalled nMaxMessageNum s' := by
    have hheld := held_update hpc'
    have hp0 := hp.1
    have hsignals : signals s' + 1 = signals s := by
      unfold signals
      rw [hsem]
      omega
    exact {
      ge := by omega
      le := by omega
      le_count := fun hno => by
        have hle := h.signalled.le_count fun u => by
          by_cases hu : u = t
          · rw [hu, hpc]
            rfl
          · have hno := hno u
            rw [hpc', update_of_ne hu] at hno
            exact hno
        omega
      drained := fun u hu => by
        have hzero := h.signalled.drained u (not_draining hpc' hp.2 hu).2
        omega }
  by_cases hzero : s.nCount = 0
  · refine ⟨_, if_pos hzero, h.parked.moves hsusp rfl rfl rfl, hleaves ⟨rfl, rfl⟩ rfl rfl ?_⟩
    show s.nCount = s.nCount - 1
    omega
  · obtain ⟨s', l', m, hs', -, -, -, hcount, hsem, -, hpc'⟩ := hl.get (t := t) hzero
    refine ⟨s', hs', h.parked.moves hsusp rfl hpc' hsem, hleaves ⟨rfl, rfl⟩ hpc' hsem ?_⟩
    omega

theorem Wakes.flush (h : Wakes nMaxMessageNum s) (hpc : s.pc t = .flushBody) :
    Wakes nMaxMessageNum (AwMessageQueueFlush nMaxMessageNum s t) := by
  have hsignals : signals (AwMessageQueueFlush nMaxMessageNum s t) = signals s :=
    signals_eq (p := .flushValue) rfl (by rw [hpc]; rfl)
  refine ⟨h.parked.moves (p := .flushValue) (by rw [hpc]; rfl) rfl rfl rfl, ?_⟩
  exact {
    ge := Nat.zero_le _
    le := by rw [hsignals]; exact h.signalled.le
    le_count := fun hno => by
      have hself := hno t
      dsimp only [AwMessageQueueFlush, MessageQueueContext.goto] at hself
      rw [update_self] at hself
      cases hself
    drained := fun _ _ => rfl }

/-- The flush goes on. -/
theorem Wakes.drains (h : Wakes nMaxMessageNum s) (hpc : (s.pc t).Draining = true)
    (hp : p.Draining = true) {value : Nat} (hvalue : value ≤ s.sem.value) :
    Wakes nMaxMessageNum { s.goto t p with sem := { s.sem with value } } := by
  have hcount := h.signalled.drained t hpc
  have hle := h.signalled.le
  have hzero : s.sem.suspended ≠ [] → value = 0 := fun hne => by
    have hz := h.parked.value hne
    omega
  have hphase {q : Pc α} (hq : q.Draining = true) : q.signal = 0 ∧ q.Suspended = false := by
    cases q <;> first | exact ⟨rfl, rfl⟩ | cases hq
  have hmoves : Parked (s.goto t p) := h.parked.moves (hphase hpc).2 (hphase hp).2 rfl rfl
  have hheld : held (s.goto t p) + (s.pc t).signal = held s + p.signal := held_update rfl
  have hpc0 := (hphase hpc).1
  have hp0 := (hphase hp).1
  have hsignals : signals { s.goto t p with sem := { s.sem with value } } = value + held s := by
    have hsame : held { s.goto t p with sem := { s.sem with value } } = held (s.goto t p) := rfl
    unfold signals
    rw [hsame]
    dsimp only
    omega
  refine ⟨⟨hmoves.mem, hmoves.nodup, hzero⟩, ?_⟩
  unfold signals at hle
  exact {
    ge := by
      show s.nCount ≤ _
      omega
    le := by
      rw [hsignals]
      omega
    le_count := fun hno => by
      have hself := hno t
      dsimp only [MessageQueueContext.goto] at hself
      rw [update_self, hp] at hself
      cases hself
    drained := fun _ _ => hcount }

/-- The flush ends with no signal left in the semaphore. -/
theorem Wakes.drained (h : Wakes nMaxMessageNum s) (hpc : s.pc t = .flushValue)
    (hzero : s.sem.value = 0) : Wakes nMaxMessageNum (unlock s t (.idle (.code 0))) := by
  have hcount := h.signalled.drained t (by rw [hpc]; rfl)
  have hsignals : signals (unlock s t (.idle (.code 0))) = signals s :=
    signals_eq (p := .idle (.code 0)) rfl (by rw [hpc]; rfl)
  have hle := h.signalled.le
  have hheld := held_le s
  refine ⟨h.parked.moves (p := .idle (.code 0)) (by rw [hpc]; rfl) rfl rfl rfl, ?_⟩
  exact {
    ge := by
      show s.nCount ≤ _
      omega
    le := by rw [hsignals]; exact hle
    le_count := fun _ => by
      rw [hsignals]
      unfold signals
      show _ ≤ s.nCount + n
      omega
    drained := fun _ _ => hcount }

theorem wakes_step (ho : Ordered nMaxMessageNum s) (h : Wakes nMaxMessageNum s)
    (hN : nMaxMessageNum + n < 2 ^ 16) (t : Fin n) :
    ∃ s', mqStep nMaxMessageNum s t = some s' ∧ Wakes nMaxMessageNum s' := by
  obtain ⟨l, hl⟩ := ho.holds
  have hwait {got wait : Pc α} (hpc : (s.pc t).signal = 0 ∧ (s.pc t).Suspended = false ∧
      (s.pc t).Draining = false) (hgot : got.signal = 1 ∧ got.Suspended = false ∧ got.Draining = false)
      (hw : wait.signal = 0 ∧ wait.Suspended = true ∧ wait.Draining = false) :
      Wakes nMaxMessageNum (semWait s t got wait) :=
    ⟨parked_semWait h.parked hpc.2.1 hgot.2.1 hw.2.1, signalled_semWait h.signalled
      ⟨hpc.1, hpc.2.2⟩ ⟨hgot.1, hgot.2.2⟩ ⟨hw.1, hw.2.2⟩⟩
  have hpost {p : Pc α} (hpc : (s.pc t).signal = 1 ∧ (s.pc t).Suspended = false ∧
      (s.pc t).Draining = false) (hp : p.signal = 0 ∧ p.Suspended = false ∧ p.Draining = false) :
      Wakes nMaxMessageNum (semPost s t p) := by
    obtain ⟨hP, hS⟩ := wakes_semPost h.parked h.signalled hN hpc hp
    exact ⟨hP, hS⟩
  unfold mqStep
  cases hpc : s.pc t with
  | idle ret => exact ⟨s, rfl, h⟩
  | getWait timed => exact ⟨s, rfl, h⟩
  | waitWait timed => exact ⟨s, rfl, h⟩
  | postLock m => exact ⟨_, rfl, h.lock (by rw [hpc]; exact ⟨rfl, ⟨rfl, rfl⟩, rfl, rfl⟩)⟩
  | getLock => exact ⟨_, rfl, h.lock (by rw [hpc]; exact ⟨rfl, ⟨rfl, rfl⟩, rfl, rfl⟩)⟩
  | flushLock => exact ⟨_, rfl, h.lock (by rw [hpc]; exact ⟨rfl, ⟨rfl, rfl⟩, rfl, rfl⟩)⟩
  | postSem => exact ⟨_, rfl, hpost (by rw [hpc]; exact ⟨rfl, rfl, rfl⟩) ⟨rfl, rfl, rfl⟩⟩
  | waitPost => exact ⟨_, rfl, hpost (by rw [hpc]; exact ⟨rfl, rfl, rfl⟩) ⟨rfl, rfl, rfl⟩⟩
  | getSem timed =>
    exact ⟨_, rfl, hwait (by rw [hpc]; exact ⟨rfl, rfl, rfl⟩) ⟨rfl, rfl, rfl⟩ ⟨rfl, rfl, rfl⟩⟩
  | waitSem timed =>
    exact ⟨_, rfl, hwait (by rw [hpc]; exact ⟨rfl, rfl, rfl⟩) ⟨rfl, rfl, rfl⟩ ⟨rfl, rfl, rfl⟩⟩
  | waitRead =>
    exact ⟨_, rfl, h.moves (p := .idle (.code _)) (t := t)
      (by rw [hpc]; exact ⟨rfl, ⟨rfl, rfl⟩, rfl, rfl⟩) rfl rfl rfl⟩
  | flushTry =>
    refine ⟨_, rfl, ?_⟩
    unfold Sem.trytake
    split
    · exact h.drains (p := .flushValue) (by rw [hpc]; rfl) rfl (Nat.sub_le _ _)
    · exact h.drains (p := .flushValue) (by rw [hpc]; rfl) rfl le_rfl
  | flushValue =>
    refine ⟨_, rfl, ?_⟩
    split
    · rename_i hzero
      exact h.drained hpc hzero
    · exact h.drains (p := .flushTry) (by rw [hpc]; rfl) rfl le_rfl
  | postBody m =>
    by_cases hfull : nMaxMessageNum ≤ s.nCount
    · refine ⟨_, if_pos hfull, h.moves (p := .idle (.code (-1))) (t := t) ?_ rfl rfl rfl⟩
      rw [hpc]
      exact ⟨rfl, ⟨rfl, rfl⟩, rfl, rfl⟩
    · exact h.post ho hpc hl (Nat.lt_of_not_le hfull)
  | getBody => exact h.get hpc hl
  | flushBody => exact ⟨_, rfl, h.flush hpc⟩

theorem wakes_timeout (h : Wakes nMaxMessageNum s) (t : Fin n) :
    Wakes nMaxMessageNum (mqTimeout s t) := by
  have hleaves (hpc : (s.pc t).signal = 0 ∧ (s.pc t).Draining = false) : Wakes nMaxMessageNum
      { s.goto t (.idle (.code (-1))) with
        sem := { s.sem with suspended := s.sem.suspended.filter (· ≠ t) } } := by
    obtain ⟨hpc, hpcd⟩ := hpc
    refine ⟨?_, h.signalled.moves (t := t) (p := .idle (.code (-1))) hpcd rfl rfl rfl
      (signals_eq rfl ?_)⟩
    · exact {
        mem := fun u => by
          show u ∈ s.sem.suspended.filter (· ≠ t) ↔
            (update s.pc t (.idle (.code (-1))) u).Suspended = true
          rw [List.mem_filter, decide_eq_true_eq, h.parked.mem u]
          by_cases hu : u = t
          · subst hu
            rw [update_self]
            exact iff_of_false (fun h => h.2 rfl) Bool.false_ne_true
          · rw [update_of_ne hu]
            exact and_iff_left hu
        nodup := h.parked.nodup.filter _
        value := fun hne => h.parked.value fun hnil => hne (by
          show s.sem.suspended.filter (· ≠ t) = []
          rw [hnil]
          rfl) }
    · rw [hpc]
      rfl
  unfold mqTimeout
  split
  · rename_i hpc
    exact hleaves (by rw [hpc]; exact ⟨rfl, rfl⟩)
  · rename_i hpc
    exact hleaves (by rw [hpc]; exact ⟨rfl, rfl⟩)
  · exact h

theorem wakes_next (ho : Ordered nMaxMessageNum s) (h : Wakes nMaxMessageNum s)
    (hN : nMaxMessageNum + n < 2 ^ 16) (i : Fin n × MqAct α) :
    ∃ s', mqNext nMaxMessageNum s i = some s' ∧ Wakes nMaxMessageNum s' := by
  obtain ⟨t, act⟩ := i
  unfold mqNext
  cases act with
  | step => exact wakes_step ho h hN t
  | timeout => exact ⟨_, rfl, wakes_timeout h t⟩
  | call c =>
    dsimp only
    cases hpc : s.pc t with
    | idle ret =>
      refine ⟨_, rfl, h.moves (p := c.pc) (t := t) ?_ rfl rfl rfl⟩
      rw [hpc]
      cases c <;> exact ⟨rfl, ⟨rfl, rfl⟩, rfl, rfl⟩
    | _ => exact ⟨s, rfl, h⟩

/-! ## Runs -/

/-- No thread stays on the semaphore while there is a message whose post has returned. -/
def Woken (s : MessageQueueContext α n) : Prop :=
  (∃ t, (s.pc t).Suspended = true) → (∀ t, (s.pc t).signal = 0) → s.nCount = 0

theorem Wakes.woken (h : Wakes nMaxMessageNum s) : Woken s := by
  rintro ⟨t, ht⟩ hnone
  have hzero := h.parked.value (List.ne_nil_of_mem ((h.parked.mem t).2 ht))
  have hheld : held s = 0 := threadSum_eq_zero.2 hnone
  have hge := h.signalled.ge
  unfold signals at hge
  omega

/-- What holds of the queue in every state. -/
structure QueueOk (nMaxMessageNum : Nat) (s : MessageQueueContext α n) : Prop where
  holds : ∃ l, Holds nMaxMessageNum s l ∧ l.length ≤ nMaxMessageNum
  woken : nMaxMessageNum + n < 2 ^ 16 → Woken s

/-- The list, the order of the messages, and the wake-ups, for every schedule. -/
theorem message_queue_law (α : Type) (n nMaxMessageNum : Nat) (zero : α)
    (is : List (Fin n × MqAct α)) :
    (messageQueue α n nMaxMessageNum).Upholds (QueueOk nMaxMessageNum)
      (fun s i s' => Effect s i.1 s') (AwMessageQueueCreate n zero) is := by
  refine Machine.upholds_of_inv (C := fun _ _ => True)
    (I := fun s => Ordered nMaxMessageNum s ∧
      (nMaxMessageNum + n < 2 ^ 16 → Wakes nMaxMessageNum s)) ?_ ?_
    ⟨ordered_create zero, fun _ => wakes_create zero⟩ (Machine.meets_of_forall fun _ _ => trivial)
  · rintro s ⟨ho, hw⟩
    obtain ⟨l, hl⟩ := ho.holds
    exact ⟨⟨l, hl, hl.length_le⟩, fun hN => (hw hN).woken⟩
  · rintro s i ⟨ho, hw⟩ -
    obtain ⟨s', hs', ho', heffect⟩ := ordered_next ho i
    refine ⟨s', hs', heffect, ho', fun hN => ?_⟩
    obtain ⟨s'', hs'', hw'⟩ := wakes_next ho (hw hN) hN i
    cases hs'.symm.trans hs''
    exact hw'

/-! ## A value that wraps -/

/-- `k` messages were posted and none was taken, and no call is under way. -/
structure Settled (nMaxMessageNum k : Nat) (s : MessageQueueContext α n) : Prop where
  holds : ∃ l, Holds nMaxMessageNum s l
  idle : ∀ t, ∃ ret, s.pc t = .idle ret
  mutex : s.mutex = none
  count : s.nCount = k
  sem : s.sem = ⟨k % 2 ^ 16, []⟩

/-- The inputs of one post. -/
def postInputs (t : Fin n) (m : α) : List (Fin n × MqAct α) :=
  [(t, .call (.post m)), (t, .step), (t, .step), (t, .step)]

theorem Settled.post {k : Nat} (h : Settled nMaxMessageNum k s) (hk : k < nMaxMessageNum)
    (t : Fin n) (m : α) :
    ∃ s', (messageQueue α n nMaxMessageNum).run s (postInputs t m) = some s' ∧
      Settled nMaxMessageNum (k + 1) s' := by
  obtain ⟨l, hl⟩ := h.holds
  obtain ⟨ret, hret⟩ := h.idle t
  let s₁ := s.goto t (.postLock m)
  let s₂ : MessageQueueContext α n := { s₁.goto t (.postBody m) with mutex := some t }
  have hl₂ : Holds nMaxMessageNum s₂ l := hl.frame rfl rfl rfl rfl rfl rfl rfl
  obtain ⟨s₃, l', hs₃, hl', -, -, hcount, hsem, hmutex, hpc⟩ :=
    hl₂.post (t := t) m (h.count.trans_lt hk)
  have h₁ : mqNext nMaxMessageNum s (t, .call (.post m)) = some s₁ := by
    dsimp only [mqNext]
    rw [hret]
    rfl
  have h₂ : mqNext nMaxMessageNum s₁ (t, .step) = some s₂ := by
    have hpc₁ : s₁.pc t = .postLock m := update_self ..
    dsimp only [mqNext, mqStep]
    rw [hpc₁]
    exact congrArg some (if_pos h.mutex)
  have h₃ : mqNext nMaxMessageNum s₂ (t, .step) = some s₃ := by
    have hpc₂ : s₂.pc t = .postBody m := update_self ..
    dsimp only [mqNext, mqStep]
    rw [hpc₂]
    exact hs₃
  have hsem₃ : s₃.sem = ⟨k % 2 ^ 16, []⟩ := hsem.trans h.sem
  let s₄ : MessageQueueContext α n :=
    { s₃.goto t (.idle (.code 0)) with sem := ⟨(k % 2 ^ 16 + 1) % 2 ^ 16, []⟩ }
  have h₄ : mqNext nMaxMessageNum s₃ (t, .step) = some s₄ := by
    have hpc₃ : s₃.pc t = .postSem := by rw [hpc, update_self]
    dsimp only [mqNext, mqStep, semPost, Sem.release]
    rw [hpc₃, hsem₃]
  refine ⟨s₄, ?_, ⟨l', hl'.frame rfl rfl rfl rfl rfl rfl rfl⟩, fun u => ?_, hmutex, ?_, ?_⟩
  · exact Machine.run_cons_eq_some.2 ⟨s₁, h₁, Machine.run_cons_eq_some.2 ⟨s₂, h₂,
      Machine.run_cons_eq_some.2 ⟨s₃, h₃, Machine.run_cons_eq_some.2 ⟨s₄, h₄, rfl⟩⟩⟩⟩
  · dsimp only [s₄, MessageQueueContext.goto]
    by_cases hu : u = t
    · exact ⟨_, by rw [hu, update_self]⟩
    · obtain ⟨ret, hret⟩ := h.idle u
      refine ⟨ret, ?_⟩
      dsimp only [s₂, s₁, MessageQueueContext.goto] at hpc
      rw [update_of_ne hu, hpc, update_of_ne hu, update_of_ne hu,
        update_of_ne hu, hret]
  · exact hcount.trans (congrArg (· + 1) h.count)
  · show (⟨(k % 2 ^ 16 + 1) % 2 ^ 16, []⟩ : Sem (Fin n)) = _
    rw [Nat.mod_add_mod]

theorem settled_posts {k : Nat} (zero : α) (t : Fin n) (hk : k ≤ nMaxMessageNum) :
    ∃ is s, (messageQueue α n nMaxMessageNum).run (AwMessageQueueCreate n zero) is = some s ∧
      Settled nMaxMessageNum k s := by
  induction k with
  | zero =>
    exact ⟨[], _, rfl, (ordered_create zero).holds, fun _ => ⟨_, rfl⟩, rfl, rfl, rfl⟩
  | succ k ih =>
    obtain ⟨is, s, hrun, hs⟩ := ih (Nat.le_of_succ_le hk)
    obtain ⟨s', hrun', hs'⟩ := hs.post hk t zero
    exact ⟨is ++ postInputs t zero, s', Machine.run_append_eq_some.2 ⟨s, hrun, hrun'⟩, hs'⟩

/-- With 65536 messages listed the value is 0 again, and a get waits. -/
theorem get_waits : ∃ is s,
    (messageQueue Unit 2 (2 ^ 16)).run (AwMessageQueueCreate 2 ()) is = some s ∧ ¬ Woken s := by
  obtain ⟨is, s, hrun, hs⟩ := settled_posts (n := 2) () 0 (le_refl (2 ^ 16))
  obtain ⟨ret, hret⟩ := hs.idle 1
  let s₁ : MessageQueueContext Unit 2 := s.goto 1 (.getSem false)
  let s₂ : MessageQueueContext Unit 2 := { s₁.goto 1 (.getWait false) with sem := ⟨0, [1]⟩ }
  have h₁ : mqNext (2 ^ 16) s (1, .call (.get false)) = some s₁ := by
    dsimp only [mqNext]
    rw [hret]
    rfl
  have h₂ : mqNext (2 ^ 16) s₁ (1, .step) = some s₂ := by
    have hpc₁ : s₁.pc 1 = .getSem false := by
      dsimp only [s₁, MessageQueueContext.goto]
      rw [update_self]
    have hsem₁ : s₁.sem = ⟨0, []⟩ := hs.sem
    dsimp only [mqNext, mqStep, semWait, Sem.take]
    rw [hpc₁, hsem₁]
    rfl
  have hpc₂ : s₂.pc = update s₁.pc 1 (.getWait false) := rfl
  have hself : (s₂.pc 1).Suspended = true := by
    rw [hpc₂, update_self]
    rfl
  have hnone : ∀ u, (s₂.pc u).signal = 0 := by
    intro u
    by_cases hu : u = 1
    · rw [hu, hpc₂, update_self]
      rfl
    · obtain ⟨ret, hret⟩ := hs.idle u
      have hpc₁ : s₁.pc = update s.pc 1 (.getSem false) := rfl
      rw [hpc₂, update_of_ne hu, hpc₁, update_of_ne hu, hret]
      rfl
  refine ⟨is ++ [(1, .call (.get false)), (1, .step)], s₂, ?_, fun hw => ?_⟩
  · exact Machine.run_append_eq_some.2 ⟨s, hrun, Machine.run_cons_eq_some.2 ⟨s₁, h₁,
      Machine.run_cons_eq_some.2 ⟨s₂, h₂, rfl⟩⟩⟩
  · have hcount : s.nCount = 0 := hw ⟨1, hself⟩ hnone
    rw [hs.count] at hcount
    cases hcount

end Melis.Libcore
