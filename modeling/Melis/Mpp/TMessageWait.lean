import Melis.Mpp.TMessageStore

/-!
# The threads at the queue

The waits share one flag: a wait sets it when it begins and clears it when it
ends, and a put that finds it clear sends no signal. `Heard` is when that loses
no wake-up: a put that stores a message finds the flag set or no thread
blocked, and a signal finds no more than one. `tmessage_good_iff` says that the
runs that never leave a thread blocked beside a ready message are just these.
-/

namespace Melis.Mpp

open Lib Function

variable {s s' : State} {t u n : Nat}

/-- The thread has the mutex. -/
def Pc.holds : Pc → Bool
  | .signal _ | .unlock _ | .wait _ => true
  | _ => false

structure Threads (s : State) : Prop where
  holder : ∀ t, (s.threads t).holds = true ↔ s.mutex = some t
  saw : ∀ t timed, s.threads t = .wait timed → s.mReadyMessageList = []
  stored : ∀ t ret, s.threads t = .signal ret → s.mReadyMessageList ≠ []
  within : ∀ t, s.threadNum ≤ t → s.threads t = .out

/-- No thread is blocked beside a ready message, but for the time until the signal of the put that
holds the mutex. -/
def Awake (s : State) : Prop :=
  (∀ t ret, s.threads t ≠ .signal ret) → s.mReadyMessageList ≠ [] → ∀ t, s.isBlocked t = false

structure Good (s : State) : Prop where
  store : Store s
  logged : Logged s
  awake : Awake s

structure Inv (s : State) : Prop where
  store : Store s
  logged : Logged s
  threads : Threads s

/-- The message that an operation puts. -/
def Op.message : Op → Option MessageIn
  | .putMessage m => some m.withoutData
  | .putMessageWithData m => some m
  | _ => none

/-- A put that fails leaves the ready messages as they are. -/
def FailedPutKeeps (s : State) (i : Step) (s' : State) : Prop :=
  ∀ t mallocs data op, i = .lock t mallocs data → s.threads t = .lock op → op.message.isSome →
    s'.threads t = .unlock (-1) → s'.mReadyMessageList = s.mReadyMessageList ∧ s'.log = s.log ∧
      ∀ n ∈ s.mReadyMessageList, s'.contentOf n = s.contentOf n

/-- The thread is where it can do this next. -/
def Enabled (s : State) : Step → Bool
  | .call t _ => t < s.threadNum && match s.threads t with
    | .out => true
    | _ => false
  | .lock t _ _ => s.mutex.isNone && match s.threads t with
    | .lock _ => true
    | _ => false
  | .signal t woken => (match s.threads t with
    | .signal _ => true
    | _ => false) && match woken with
    | some w => w < s.threadNum && s.isBlocked w
    | none => ∀ u < s.threadNum, s.isBlocked u = false
  | .unlock t => match s.threads t with
    | .unlock _ => true
    | _ => false
  | .block t => match s.threads t with
    | .wait _ => true
    | _ => false
  | .wake t => t < s.threadNum && s.isBlocked t
  | .relock t => s.mutex.isNone && match s.threads t with
    | .relock _ => true
    | _ => false

/-- A put that stores a message finds the flag set or no thread blocked; a signal finds no two. -/
def Heard (s : State) : Step → Prop
  | .lock t mallocs data => match s.threads t with
    | .lock op => ∀ m ∈ op.message, s.Stores m mallocs data →
      s.mWaitMessageFlag = true ∨ ∀ u < s.threadNum, s.isBlocked u = false
    | _ => True
  | .signal _ _ => ∀ u < s.threadNum, ∀ v < s.threadNum,
    s.isBlocked u = true → s.isBlocked v = true → u = v
  | _ => True

/-! ## One operation with the mutex -/

/-- What an operation has done when it comes to the mutex or the condition again. -/
structure Done (s : State) (op : Op) (mallocs : Nat) (data : Bool) (s' : State) (pc : Pc) :
    Prop where
  store : Store s'
  logged : Logged s'
  threads : s'.threads = s.threads
  threadNum : s'.threadNum = s.threadNum
  holds : pc.holds = true
  saw : ∀ timed, pc = .wait timed → s'.mReadyMessageList = []
  stored : ∀ ret, pc = .signal ret → s'.mReadyMessageList ≠ []
  grows : s'.mReadyMessageList ≠ [] → s.mReadyMessageList = [] →
    ∃ m ∈ op.message, s.Stores m mallocs data
  puts : ∀ m ∈ op.message, s.Stores m mallocs data → s'.mReadyMessageList ≠ [] ∧
    pc = if s.mWaitMessageFlag then .signal 0 else .unlock 0
  fails : ∀ m ∈ op.message, ¬ s.Stores m mallocs data → pc = .unlock (-1) ∧ Kept s s'

theorem store_flag (h : Store s) (b : Bool) : Store { s with mWaitMessageFlag := b } := by
  obtain ⟨h1, h2, h3, h4, h5, h6⟩ := h
  exact ⟨h1, h2, h3, h4, h5, h6⟩

theorem waitTest_spec (h : Store s) (hl : Logged s) (timed : Bool) :
    ∃ s' pc, s.waitTest timed = (s', pc) ∧ Store s' ∧ Logged s' ∧ s'.threads = s.threads ∧
      s'.threadNum = s.threadNum ∧ pc.holds = true ∧ s'.mReadyMessageList = s.mReadyMessageList ∧
        (∀ timed, pc = .wait timed → s'.mReadyMessageList = []) ∧ ∀ ret, pc ≠ .signal ret := by
  unfold State.waitTest
  split
  · rename_i hempty
    exact ⟨s, _, rfl, h, hl, rfl, rfl, rfl, rfl, fun _ _ => hempty, nofun⟩
  · exact ⟨_, _, rfl, store_flag h false, hl, rfl, rfl, rfl, rfl, nofun, nofun⟩

theorem putBody_spec (h : Store s) (hl : Logged s) {op : Op} {m : MessageIn}
    (hm : op.message = some m) (mallocs : Nat) (data : Bool) :
    ∃ s' pc, State.body.putBody mallocs data s m = some (s', pc) ∧ Done s op mallocs data s' pc := by
  obtain ⟨s', ret, hput, hstore, hlogged, honly, hspec⟩ := putMessageWithData_spec h hl m mallocs data
  have hmem : ∀ m', m' ∈ op.message ↔ m' = m := by
    intro m'
    rw [hm, Option.mem_some_iff]
    exact eq_comm
  unfold State.body.putBody
  rw [hput, Option.map_some]
  refine ⟨s', _, rfl, hstore, hlogged, honly.threads, honly.threadNum, ?_, ?_, ?_, ?_, ?_, ?_⟩
  · dsimp only
    split <;> rfl
  · dsimp only
    split <;> exact nofun
  · intro ret' hpc
    rcases hspec with ⟨-, -, hne⟩ | ⟨rfl, -, -⟩
    · exact hne
    · rw [if_neg (by simp)] at hpc
      cases hpc
  · intro hne hempty
    rcases hspec with ⟨-, hs, -⟩ | ⟨-, -, hkept⟩
    · exact ⟨m, hm, hs⟩
    · rw [hkept.ready] at hne
      exact absurd hempty hne
  · intro m' hm' hs
    obtain rfl := (hmem m').1 hm'
    rcases hspec with ⟨rfl, -, hne⟩ | ⟨-, hns, -⟩
    · refine ⟨hne, ?_⟩
      dsimp only
      rw [honly.mWaitMessageFlag]
      by_cases hf : s.mWaitMessageFlag = true
      · rw [if_pos ⟨rfl, hf⟩, if_pos hf]
      · rw [if_neg fun h => hf h.2, if_neg hf]
    · exact absurd hs hns
  · intro m' hm' hs
    obtain rfl := (hmem m').1 hm'
    rcases hspec with ⟨-, hs', -⟩ | ⟨rfl, -, hkept⟩
    · exact absurd hs' hs
    · exact ⟨if_neg (by simp), hkept⟩

theorem body_spec (h : Store s) (hl : Logged s) (mallocs : Nat) (data : Bool) (op : Op) :
    ∃ s' pc, s.body mallocs data op = some (s', pc) ∧ Done s op mallocs data s' pc := by
  cases op with
  | putMessage m => exact putBody_spec h hl rfl mallocs data
  | putMessageWithData m => exact putBody_spec h hl rfl mallocs data
  | getMessage =>
    obtain ⟨hstore, hlogged, honly, htail⟩ := getMessage_spec h hl
    refine ⟨_, _, rfl, hstore, hlogged, honly.threads, honly.threadNum, rfl, nofun, nofun, ?_, nofun,
      nofun⟩
    intro hne hempty
    rw [htail, hempty] at hne
    exact absurd rfl hne
  | flushMessage =>
    obtain ⟨hstore, hlogged, honly, hempty⟩ := flushMessage_spec h hl
    exact ⟨_, _, rfl, hstore, hlogged, honly.threads, honly.threadNum, rfl, nofun, nofun,
      fun hne => absurd hempty hne, nofun, nofun⟩
  | getMessageCount =>
    exact ⟨_, _, rfl, h, hl, rfl, rfl, rfl, nofun, nofun, fun hne he => absurd he hne, nofun, nofun⟩
  | waitQueueNotEmpty timeout =>
    obtain ⟨s', pc, hwait, hstore, hlogged, hthreads, hnum, hholds, hready, hsaw, hsignal⟩ :=
      waitTest_spec (store_flag h true) hl (timeout ≠ 0)
    refine ⟨s', pc, congrArg some hwait, hstore, hlogged, hthreads, hnum, hholds, hsaw,
      fun ret hpc => absurd hpc (hsignal ret), fun hne he => ?_, nofun, nofun⟩
    rw [hready] at hne
    exact absurd he hne

/-! ## One step -/

theorem isBlocked_eq (s : State) (u : Nat) : s.isBlocked u = true ↔ ∃ timed, s.threads u = .blocked timed := by
  unfold State.isBlocked
  split
  · rename_i timed heq
    exact iff_of_true rfl ⟨timed, heq⟩
  · rename_i hne
    exact iff_of_false nofun fun ⟨timed, heq⟩ => hne timed heq

namespace Threads

variable (h : Threads s)

include h

theorem holder_none (hm : s.mutex = none) (t : Nat) : (s.threads t).holds = false := by
  rw [← Bool.not_eq_true, h.holder t, hm]
  exact nofun

theorem holder_eq (ht : (s.threads t).holds = true) (hu : (s.threads u).holds = true) : t = u :=
  Option.some.inj (((h.holder t).1 ht).symm.trans ((h.holder u).1 hu))

/-- A thread takes the mutex. -/
theorem take {pc : Pc} (hm : s.mutex = none) (hpc : pc.holds = true) (u : Nat) :
    (update s.threads t pc u).holds = true ↔ some t = some u := by
  by_cases hut : u = t
  · subst hut
    rw [update_self]
    exact iff_of_true hpc rfl
  · rw [update_of_ne hut, h.holder_none hm]
    exact iff_of_false nofun fun he => hut (Option.some.inj he).symm

/-- A thread gives the mutex back. -/
theorem release {pc : Pc} (ht : (s.threads t).holds = true) (hpc : pc.holds = false) (u : Nat) :
    (update s.threads t pc u).holds = true ↔ none = some u := by
  refine iff_of_false ?_ nofun
  by_cases hut : u = t
  · subst hut
    rw [update_self, hpc]
    exact nofun
  · rw [update_of_ne hut]
    exact fun hu => hut (h.holder_eq hu ht)

/-- A thread neither takes it nor gives it back. -/
theorem stay {pc : Pc} (hpc : pc.holds = (s.threads t).holds) (u : Nat) :
    (update s.threads t pc u).holds = true ↔ s.mutex = some u := by
  rw [← h.holder u]
  by_cases hut : u = t
  · subst hut
    rw [update_self, hpc]
  · rw [update_of_ne hut]

theorem lt_threadNum (ht : s.threads t ≠ .out) : t < s.threadNum :=
  Nat.lt_of_not_le fun hle => ht (h.within t hle)

theorem move {pc : Pc} (ht : t < s.threadNum) (hth : s'.threads = update s.threads t pc)
    (hnum : s'.threadNum = s.threadNum)
    (hholder : ∀ u, (update s.threads t pc u).holds = true ↔ s'.mutex = some u)
    (hready : s'.mReadyMessageList = s.mReadyMessageList ∨ s.mutex = none)
    (hsaw : ∀ timed, pc = .wait timed → s'.mReadyMessageList = [])
    (hstored : ∀ ret, pc = .signal ret → s'.mReadyMessageList ≠ []) : Threads s' := by
  have hother : ∀ u ≠ t, (s.threads u).holds = true →
      s'.mReadyMessageList = s.mReadyMessageList := by
    intro u _ hu
    refine hready.resolve_right fun hm => ?_
    rw [h.holder_none hm] at hu
    cases hu
  refine ⟨fun u => ?_, fun u timed hu => ?_, fun u ret hu => ?_, fun u hle => ?_⟩
  · rw [hth]
    exact hholder u
  · rw [hth] at hu
    by_cases hut : u = t
    · subst hut
      rw [update_self] at hu
      exact hsaw timed hu
    · rw [update_of_ne hut] at hu
      rw [hother u hut (by rw [hu]; rfl)]
      exact h.saw u timed hu
  · rw [hth] at hu
    by_cases hut : u = t
    · subst hut
      rw [update_self] at hu
      exact hstored ret hu
    · rw [update_of_ne hut] at hu
      rw [hother u hut (by rw [hu]; rfl)]
      exact h.stored u ret hu
  · rw [hnum] at hle
    have hut : u ≠ t := by
      rintro rfl
      exact absurd ht (Nat.not_lt.2 hle)
    rw [hth, update_of_ne hut]
    exact h.within u hle

end Threads

/-- A thread that has no signal to send moves on, and blocks only where nothing is ready. -/
theorem Awake.move {pc : Pc} (h : Awake s) (hth : s'.threads = update s.threads t pc)
    (hready : s'.mReadyMessageList ≠ [] → s.mReadyMessageList ≠ [])
    (ht : ∀ ret, s.threads t ≠ .signal ret)
    (hpc : ∀ timed, pc = .blocked timed → s'.mReadyMessageList = []) : Awake s' := by
  intro hno hne u
  have hno' : ∀ v ret, s.threads v ≠ .signal ret := by
    intro v ret hv
    have hvt : v ≠ t := by
      rintro rfl
      exact ht ret hv
    refine hno v ret ?_
    rw [hth, update_of_ne hvt]
    exact hv
  rw [← Bool.not_eq_true, isBlocked_eq, hth]
  rintro ⟨timed, hu⟩
  by_cases hut : u = t
  · subst hut
    rw [update_self] at hu
    exact hne (hpc timed hu)
  · rw [update_of_ne hut] at hu
    have hfree := h hno' (hready hne) u
    rw [← Bool.not_eq_true, isBlocked_eq] at hfree
    exact hfree ⟨timed, hu⟩

/-- Only the threads, the mutex and the flag change. -/
theorem store_threads (h : Store s) (mutex : Option Nat) (threads : Nat → Pc) :
    Store { s with mutex := mutex, threads := threads } := by
  obtain ⟨h1, h2, h3, h4, h5, h6⟩ := h
  exact ⟨h1, h2, h3, h4, h5, h6⟩

/-- The step is allowed, and it keeps what is right just if no wake-up is lost by it. -/
def Exactly (s : State) (i : Step) : Prop :=
  queue.Exact (fun s => Inv s ∧ Awake s) Good FailedPutKeeps Heard s i

section Steps

variable (h : Inv s) (ha : Awake s)

include h ha

theorem exact_call {op : Op} (hpc : s.threads t = .out) (hlt : t < s.threadNum) :
    Exactly s (.call t op) := by
  have hnext : queue.next s (.call t op) = some (s.setThread t (.lock op)) := by
    change s.call t op = _
    unfold State.call
    rw [hpc]
    exact if_pos hlt
  refine .kept trivial _ hnext (fun _ _ _ _ hi => nomatch hi) ⟨⟨?_, h.logged, ?_⟩, ?_⟩
  · exact store_threads h.store s.mutex _
  · exact h.threads.move hlt rfl rfl (h.threads.stay (by rw [hpc]; rfl)) (.inl rfl) nofun nofun
  · exact ha.move rfl id (by rw [hpc]; exact nofun) nofun

theorem exact_unlock {ret : Int} (hpc : s.threads t = .unlock ret) : Exactly s (.unlock t) := by
  have hnext : queue.next s (.unlock t) = some ({ s with mutex := none }.setThread t .out) := by
    change s.unlock t = _
    unfold State.unlock
    rw [hpc]
  have hlt := h.threads.lt_threadNum (by rw [hpc]; exact nofun)
  refine .kept trivial _ hnext (fun _ _ _ _ hi => nomatch hi) ⟨⟨?_, h.logged, ?_⟩, ?_⟩
  · exact store_threads h.store none _
  · exact h.threads.move hlt rfl rfl (h.threads.release (by rw [hpc]; rfl) rfl) (.inl rfl) nofun nofun
  · exact ha.move rfl id (by rw [hpc]; exact nofun) nofun

/-- A wait blocks after it has seen that nothing is ready. -/
theorem exact_block {timed : Bool} (hpc : s.threads t = .wait timed) : Exactly s (.block t) := by
  have hnext : queue.next s (.block t) =
      some ({ s with mutex := none }.setThread t (.blocked timed)) := by
    change s.block t = _
    unfold State.block
    rw [hpc]
  have hlt := h.threads.lt_threadNum (by rw [hpc]; exact nofun)
  have hempty := h.threads.saw t timed hpc
  refine .kept trivial _ hnext (fun _ _ _ _ hi => nomatch hi) ⟨⟨?_, h.logged, ?_⟩, ?_⟩
  · exact store_threads h.store none _
  · exact h.threads.move hlt rfl rfl (h.threads.release (by rw [hpc]; rfl) rfl) (.inl rfl) nofun nofun
  · exact ha.move rfl id (by rw [hpc]; exact nofun) fun _ _ => hempty

omit ha in
theorem wake_eq {timed : Bool} (hpc : s.threads t = .blocked timed) :
    s.wake t = some (s.setThread t (.relock timed)) := by
  unfold State.wake
  rw [hpc]
  exact if_pos (h.threads.lt_threadNum (by rw [hpc]; exact nofun))

theorem exact_wake {timed : Bool} (hpc : s.threads t = .blocked timed) : Exactly s (.wake t) := by
  have hlt := h.threads.lt_threadNum (by rw [hpc]; exact nofun)
  refine .kept trivial _ (wake_eq h hpc) (fun _ _ _ _ hi => nomatch hi) ⟨⟨?_, h.logged, ?_⟩, ?_⟩
  · exact store_threads h.store s.mutex _
  · exact h.threads.move hlt rfl rfl (h.threads.stay (by rw [hpc]; rfl)) (.inl rfl) nofun nofun
  · exact ha.move rfl id (by rw [hpc]; exact nofun) nofun

omit ha in
/-- A woken wait tests again or ends. -/
theorem rewait_spec (timed : Bool) : ∃ s' pc, s.rewait timed = (s', pc) ∧ Store s' ∧ Logged s' ∧
    s'.threads = s.threads ∧ s'.threadNum = s.threadNum ∧ pc.holds = true ∧
      s'.mReadyMessageList = s.mReadyMessageList ∧
        (∀ timed, pc = .wait timed → s'.mReadyMessageList = []) ∧ ∀ ret, pc ≠ .signal ret := by
  unfold State.rewait
  split
  · exact ⟨_, _, rfl, store_flag h.store false, h.logged, rfl, rfl, rfl, rfl, nofun, nofun⟩
  · exact waitTest_spec h.store h.logged false

theorem exact_relock {timed : Bool} (hm : s.mutex = none) (hpc : s.threads t = .relock timed) :
    Exactly s (.relock t) := by
  obtain ⟨s₁, pc, hre, hstore, hlogged, hth, hnum, hholds, hready, hsaw, hsignal⟩ :=
    rewait_spec h timed
  have hnext : queue.next s (.relock t) = some ({ s₁ with mutex := some t }.setThread t pc) := by
    change s.relock t = _
    unfold State.relock
    rw [hm, hpc]
    dsimp only
    rw [hre]
  have hlt := h.threads.lt_threadNum (by rw [hpc]; exact nofun)
  have hth' : update s₁.threads t pc = update s.threads t pc := by rw [hth]
  refine .kept trivial _ hnext (fun _ _ _ _ hi => nomatch hi) ⟨⟨?_, hlogged, ?_⟩, ?_⟩
  · exact store_threads hstore (some t) _
  · exact h.threads.move hlt hth' hnum (h.threads.take hm hholds) (.inl hready) hsaw
      fun ret he => absurd he (hsignal ret)
  · refine ha.move hth' (fun hne => hready ▸ hne) (by rw [hpc]; exact nofun) fun timed he => ?_
    rw [he] at hholds
    cases hholds

omit ha in
/-- No blocked thread is left after the signal just if there were no two. -/
theorem exact_signal {ret : Int} {woken : Option Nat} (hpc : s.threads t = .signal ret)
    (hwoken : match woken with
      | some w => s.isBlocked w = true
      | none => ∀ u < s.threadNum, s.isBlocked u = false) : Exactly s (.signal t woken) := by
  have hlt := h.threads.lt_threadNum (by rw [hpc]; exact nofun)
  have hready := h.threads.stored t ret hpc
  have hblocked : ∀ u, s.isBlocked u = true → u < s.threadNum := by
    intro u hu
    obtain ⟨timed, hu⟩ := (isBlocked_eq s u).1 hu
    exact h.threads.lt_threadNum (by rw [hu]; exact nofun)
  cases woken with
  | none =>
    have hnext : queue.next s (.signal t none) = some (s.setThread t (.unlock ret)) := by
      change s.signal t none = _
      unfold State.signal State.condSignal
      rw [hpc]
      dsimp only
      rw [if_pos hwoken]
      rfl
    have hnone : ∀ u, s.isBlocked u = false := fun u => by
      rw [← Bool.not_eq_true]
      intro hu
      rw [hwoken u (hblocked u hu)] at hu
      cases hu
    have hheard : Heard s (.signal t none) := fun u _ v _ hu => by
      rw [hnone u] at hu
      cases hu
    refine .kept hheard _ hnext (fun _ _ _ _ hi => nomatch hi) ⟨⟨?_, h.logged, ?_⟩, fun _ _ u => ?_⟩
    · exact store_threads h.store s.mutex _
    · exact h.threads.move hlt rfl rfl (h.threads.stay (by rw [hpc]; rfl)) (.inl rfl) nofun nofun
    · rw [← Bool.not_eq_true, isBlocked_eq]
      rintro ⟨timed, hu⟩
      change update s.threads t (.unlock ret) u = .blocked timed at hu
      by_cases hut : u = t
      · subst hut
        rw [update_self] at hu
        cases hu
      · rw [update_of_ne hut] at hu
        have hfree := hnone u
        rw [← Bool.not_eq_true, isBlocked_eq] at hfree
        exact hfree ⟨timed, hu⟩
  | some w =>
    obtain ⟨timed, hw⟩ := (isBlocked_eq s w).1 hwoken
    have hne : t ≠ w := by
      rintro rfl
      rw [hpc] at hw
      cases hw
    obtain ⟨s', hs'⟩ : ∃ s', s' = (s.setThread w (.relock timed)).setThread t (.unlock ret) := ⟨_, rfl⟩
    have hnext : queue.next s (.signal t (some w)) = some s' := by
      change s.signal t (some w) = _
      unfold State.signal State.condSignal
      rw [hpc]
      dsimp only
      rw [wake_eq h hw, hs']
      rfl
    have hpc₁ : (s.setThread w (.relock timed)).threads t = .signal ret :=
      (update_of_ne hne ..).trans hpc
    have hth₁ : Threads (s.setThread w (.relock timed)) :=
      h.threads.move (hblocked w hwoken) rfl rfl (h.threads.stay (by rw [hw]; rfl)) (.inl rfl) nofun nofun
    have hth : Threads s' := by
      rw [hs']
      exact hth₁.move hlt rfl rfl (hth₁.stay (by rw [hpc₁]; rfl)) (.inl rfl) nofun nofun
    have hinv : Inv s' := by
      refine ⟨?_, ?_, hth⟩ <;> rw [hs']
      · exact store_threads h.store s.mutex _
      · exact h.logged
    have hleft : ∀ u, s'.isBlocked u = true ↔ s.isBlocked u = true ∧ u ≠ w := by
      intro u
      rw [isBlocked_eq, isBlocked_eq, hs']
      change (∃ b, update (update s.threads w (.relock timed)) t (.unlock ret) u = .blocked b) ↔ _
      by_cases hut : u = t
      · subst hut
        rw [update_self, hpc]
        simp
      · rw [update_of_ne hut]
        by_cases huw : u = w
        · subst huw
          rw [update_self]
          simp
        · rw [update_of_ne huw]
          simp [huw]
    -- the thread that sends the signal has the mutex, so no other one is about to
    have hself : s'.threads t = .unlock ret := by
      rw [hs']
      exact update_self ..
    have hholds : (s'.threads t).holds = true := by
      rw [hself]
      rfl
    have hno : ∀ u ret, s'.threads u ≠ .signal ret := by
      intro u ret' hu
      obtain rfl := hth.holder_eq hholds (u := u) (by rw [hu]; rfl)
      cases hself.symm.trans hu
    have hready' : s'.mReadyMessageList ≠ [] := by
      rw [hs']
      exact hready
    by_cases hheard : Heard s (.signal t (some w))
    · refine .kept hheard s' hnext (fun _ _ _ _ hi => nomatch hi) ⟨hinv, fun _ _ u => ?_⟩
      rw [← Bool.not_eq_true, hleft]
      rintro ⟨hu, huw⟩
      exact huw (hheard u (hblocked u hu) w (hblocked w hwoken) hu hwoken)
    · refine .lost hheard fun s'' hs'' _ hgood => hheard fun u _ v _ hu hv => ?_
      obtain rfl := Option.some.inj (hnext.symm.trans hs'')
      have hall : ∀ u, s.isBlocked u = true → u = w := by
        intro u hu
        by_contra huw
        have hfree := hgood.awake hno hready' u
        rw [(hleft u).2 ⟨hu, huw⟩] at hfree
        cases hfree
      rw [hall u hu, hall v hv]

theorem exact_lock {op : Op} {mallocs : Nat} {data : Bool} (hm : s.mutex = none)
    (hpc : s.threads t = .lock op) : Exactly s (.lock t mallocs data) := by
  obtain ⟨s₁, pc, hbody, hdone⟩ := body_spec h.store h.logged mallocs data op
  obtain ⟨s', hs'⟩ : ∃ s', s' = { s₁ with mutex := some t }.setThread t pc := ⟨_, rfl⟩
  have hnext : queue.next s (.lock t mallocs data) = some s' := by
    change s.lock t mallocs data = _
    unfold State.lock
    rw [hm, hpc]
    dsimp only
    rw [hbody, hs']
    rfl
  have hlt := h.threads.lt_threadNum (by rw [hpc]; exact nofun)
  have hth : s'.threads = update s.threads t pc := by
    rw [hs', ← hdone.threads]
    rfl
  have hready : s'.mReadyMessageList = s₁.mReadyMessageList := by rw [hs']; rfl
  have hinv : Inv s' := by
    refine ⟨?_, ?_, ?_⟩
    · rw [hs']
      exact store_threads hdone.store (some t) _
    · rw [hs']
      exact hdone.logged
    · refine h.threads.move hlt hth ?_ ?_ (.inr hm) ?_ ?_
      · rw [hs']
        exact hdone.threadNum
      · rw [hs']
        exact h.threads.take hm hdone.holds
      · rw [hready]
        exact hdone.saw
      · rw [hready]
        exact hdone.stored
  have hno : ∀ u ret, s.threads u ≠ .signal ret := by
    intro u ret hu
    have hfree := h.threads.holder_none hm u
    rw [hu] at hfree
    cases hfree
  have hself : s'.threads t = pc := by
    rw [hth, update_self]
  have hblocked : ∀ u, s'.isBlocked u = s.isBlocked u := by
    intro u
    unfold State.isBlocked
    rw [hth]
    by_cases hut : u = t
    · subst hut
      rw [update_self, hpc]
      have hholds := hdone.holds
      cases pc <;> first | rfl | cases hholds
    · rw [update_of_ne hut]
  have hop : ∀ op', s.threads t = .lock op' → op' = op := fun op' ho =>
    Pc.lock.inj (ho.symm.trans hpc)
  have hheard_iff : Heard s (.lock t mallocs data) ↔ ∀ m ∈ op.message, s.Stores m mallocs data →
      s.mWaitMessageFlag = true ∨ ∀ u < s.threadNum, s.isBlocked u = false := by
    unfold Heard
    dsimp only
    rw [hpc]
  by_cases hputs : ∃ m ∈ op.message, s.Stores m mallocs data
  · obtain ⟨m, hmsg, hstores⟩ := hputs
    obtain ⟨hne, hpc'⟩ := hdone.puts m hmsg hstores
    have hkeeps : FailedPutKeeps s (.lock t mallocs data) s' := by
      rintro t' _ _ op' hi - - hfail
      cases hi
      rw [hself, hpc'] at hfail
      split at hfail <;> cases hfail
    by_cases hflag : s.mWaitMessageFlag = true
    · refine .kept (hheard_iff.2 fun _ _ _ => .inl hflag) s' hnext hkeeps ⟨hinv, fun hno' => ?_⟩
      rw [if_pos hflag] at hpc'
      exact absurd (hself.trans hpc') (hno' t 0)
    · have hno' : ∀ u ret, s'.threads u ≠ .signal ret := by
        intro u ret hu
        rw [hth] at hu
        by_cases hut : u = t
        · subst hut
          rw [update_self, hpc', if_neg hflag] at hu
          cases hu
        · rw [update_of_ne hut] at hu
          exact hno u ret hu
      by_cases hall : ∀ u < s.threadNum, s.isBlocked u = false
      · refine .kept (hheard_iff.2 fun _ _ _ => .inr hall) s' hnext hkeeps ⟨hinv, fun _ _ u => ?_⟩
        rw [hblocked]
        by_contra hu
        obtain ⟨timed, hb⟩ := (isBlocked_eq s u).1 (by simpa using hu)
        exact hu (hall u (h.threads.lt_threadNum (by rw [hb]; exact nofun)))
      · refine .lost (fun hheard => ?_) fun s'' hs'' _ hgood => hall fun u _ => ?_
        · exact ((hheard_iff.1 hheard) m hmsg hstores).elim hflag hall
        · obtain rfl := Option.some.inj (hnext.symm.trans hs'')
          rw [← hblocked]
          exact hgood.awake hno' (hready ▸ hne) u
  · refine .kept (hheard_iff.2 fun m hmsg hs => absurd ⟨m, hmsg, hs⟩ hputs) s' hnext ?_
      ⟨hinv, fun _ hne u => ?_⟩
    · rintro t' _ _ op' hi ho hsome -
      cases hi
      obtain rfl := hop op' ho
      obtain ⟨m, hmsg⟩ := Option.isSome_iff_exists.1 hsome
      obtain ⟨-, hkept⟩ := hdone.fails m hmsg fun hs => hputs ⟨m, hmsg, hs⟩
      rw [hs']
      exact ⟨hkept.ready, hkept.log, hkept.content⟩
    · rw [hblocked]
      refine ha hno (fun he => hputs (hdone.grows ?_ he)) u
      exact hready ▸ hne

end Steps

theorem step_exact (h : Inv s ∧ Awake s) {i : Step} (he : Enabled s i = true) : Exactly s i := by
  obtain ⟨h, ha⟩ := h
  cases i with
  | call t op =>
    obtain ⟨hlt, hpc⟩ := Bool.and_eq_true_iff.1 he
    split at hpc
    · exact exact_call h ha ‹_› (of_decide_eq_true hlt)
    · cases hpc
  | lock t mallocs data =>
    obtain ⟨hm, hpc⟩ := Bool.and_eq_true_iff.1 he
    split at hpc
    · exact exact_lock h ha (Option.isNone_iff_eq_none.1 hm) ‹_›
    · cases hpc
  | signal t woken =>
    obtain ⟨hpc, hwoken⟩ := Bool.and_eq_true_iff.1 he
    split at hpc
    · refine exact_signal h ‹_› ?_
      cases woken with
      | none => exact of_decide_eq_true hwoken
      | some w => exact (Bool.and_eq_true_iff.1 hwoken).2
    · cases hpc
  | unlock t =>
    simp only [Enabled] at he
    split at he
    · exact exact_unlock h ha ‹_›
    · cases he
  | block t =>
    simp only [Enabled] at he
    split at he
    · exact exact_block h ha ‹_›
    · cases he
  | wake t =>
    obtain ⟨timed, hpc⟩ := (isBlocked_eq s t).1 (Bool.and_eq_true_iff.1 he).2
    exact exact_wake h ha hpc
  | relock t =>
    obtain ⟨hm, hpc⟩ := Bool.and_eq_true_iff.1 he
    split at hpc
    · exact exact_relock h ha (Option.isNone_iff_eq_none.1 hm) ‹_›
    · cases hpc

/-! ## Runs -/

instance (s : State) : (i : Step) → Decidable (Heard s i)
  | .lock t mallocs data =>
    match hpc : s.threads t with
    | .lock op =>
      have : Decidable (∀ m ∈ op.message, s.Stores m mallocs data →
          s.mWaitMessageFlag = true ∨ ∀ u < s.threadNum, s.isBlocked u = false) := inferInstance
      decidable_of_iff _ (by unfold Heard; dsimp only; rw [hpc] : _ ↔ Heard s (.lock t mallocs data))
    | .out | .signal _ | .unlock _ | .wait _ | .blocked _ | .relock _ =>
      .isTrue (by unfold Heard; dsimp only; rw [hpc]; trivial)
  | .signal _ _ => inferInstanceAs (Decidable (∀ u < s.threadNum, ∀ v < s.threadNum,
    s.isBlocked u = true → s.isBlocked v = true → u = v))
  | .call .. | .unlock _ | .block _ | .wake _ | .relock _ => .isTrue trivial

theorem emptyQueue_store (threadNum : Nat) : Store (emptyQueue threadNum) :=
  ⟨List.Perm.nil, rfl, List.nodup_nil, nofun, nofun, fun _ _ => ⟨rfl, rfl⟩⟩

/-- A new queue. -/
theorem messageCreate_inv {threadNum mallocs : Nat} (h : messageCreate threadNum mallocs = some s) :
    Inv s ∧ Awake s := by
  obtain ⟨hstore, hkept, -, -⟩ :=
    increaseIdle_spec (emptyQueue_store threadNum) maxMessageElements mallocs
  unfold messageCreate State.tMessageIncreaseIdleMessageList at h
  dsimp only at h
  split at h
  · obtain rfl := Option.some.inj h
    have hout := hkept.threads
    refine ⟨⟨hstore, hkept.logged rfl, fun t => ?_, fun t timed ht => ?_, fun t ret ht => ?_,
      fun t _ => ?_⟩, fun _ _ u => ?_⟩
    · rw [hkept.mutex, hout]
      exact iff_of_false nofun nofun
    · rw [hout] at ht
      cases ht
    · rw [hout] at ht
      cases ht
    · rw [hout]
      rfl
    · unfold State.isBlocked
      rw [hout]
      rfl
  · cases h

theorem upholds_iff_heard (h : Inv s ∧ Awake s) {is : List Step}
    (he : queue.Meets (fun s i => Enabled s i = true) s is) :
    queue.Upholds Good FailedPutKeeps s is ↔ queue.Meets Heard s is :=
  Machine.upholds_iff_meets (fun _ hs => ⟨hs.1.store, hs.1.logged, hs.2⟩)
    (fun _ _ hs hi => step_exact hs hi) h he

/-- A run stays good just if no wake-up is lost. -/
theorem tmessage_good_iff {threadNum mallocs : Nat}
    (hc : messageCreate threadNum mallocs = some s) {is : List Step}
    (he : queue.Meets (fun s i => Enabled s i = true) s is) :
    queue.Upholds Good FailedPutKeeps s is ↔ queue.Meets Heard s is :=
  upholds_iff_heard (messageCreate_inv hc) he

/-- A queue for `threadNum` threads. -/
def newQueue (threadNum : Nat) : State :=
  ((emptyQueue threadNum).tMessageIncreaseIdleMessageList maxMessageElements).1

/-- Thread 1 waits for the message that thread 0 puts, and gets it. -/
def oneWaiter : List Step :=
  [.call 1 (.waitQueueNotEmpty 0), .lock 1 0 true, .block 1,
    .call 0 (.putMessageWithData ⟨3, 0, 0, some [1, 2], 2⟩), .lock 0 0 true, .signal 0 (some 1),
    .unlock 0, .relock 1, .unlock 1, .call 1 .getMessage, .lock 1 0 true, .unlock 1]

theorem tmessage_good_oneWaiter : queue.Upholds Good FailedPutKeeps (newQueue 2) oneWaiter :=
  by
  have hnew : messageCreate 2 maxMessageElements = some (newQueue 2) := rfl
  exact (tmessage_good_iff hnew (by decide)).2 (by decide)

/-- Threads 1 and 2 wait. The first put wakes thread 1, which clears the flag when it leaves; the
second put sends no signal. -/
def twoWaiters : List Step :=
  [.call 1 (.waitQueueNotEmpty 0), .lock 1 0 true, .block 1, .call 2 (.waitQueueNotEmpty 0),
    .lock 2 0 true, .block 2, .call 0 (.putMessage ⟨3, 0, 0, none, 0⟩), .lock 0 0 true,
    .signal 0 (some 1), .unlock 0, .relock 1, .unlock 1, .call 0 (.putMessage ⟨4, 0, 0, none, 0⟩),
    .lock 0 0 true, .unlock 0]

theorem tmessage_lost_wakeup :
    queue.Meets (fun s i => Enabled s i = true) (newQueue 3) twoWaiters ∧
      ¬ queue.Upholds Good FailedPutKeeps (newQueue 3) twoWaiters := by
  have he : queue.Meets (fun s i => Enabled s i = true) (newQueue 3) twoWaiters := by decide
  have hnew : messageCreate 3 maxMessageElements = some (newQueue 3) := rfl
  refine ⟨he, fun hup => ?_⟩
  have hheard := (upholds_iff_heard (messageCreate_inv hnew) he).1 hup
  revert hheard
  decide

end Melis.Mpp
