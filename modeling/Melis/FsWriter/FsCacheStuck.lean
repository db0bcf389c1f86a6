import Melis.FsWriter.FsCacheRing

/-!
# Waits of the writer with a thread

A muxer that finds too little space asks the thread to write, and waits for a
signal. The signal is lost if the thread gives it before the wait begins, and the
thread gives none if it finds less than a block in the ring. `Ahead` says that a
signal is still to come; the muxer is not stuck if this holds whenever it begins
to wait, and it can get stuck whenever it does not.
-/

namespace Melis.FsWriter

open Lib

variable {σ β : Type}

/-- The muxer waits for a signal, and the thread for a start. -/
def Stuck (s : State σ β) : Prop :=
  (∃ buf, s.client = .wait buf) ∧ s.thread = .down ∧ s.ctx.writeStartSem = 0

/-- A look of the thread at the ring finds something to hand over. -/
def Finds (s : State σ β) : Prop :=
  s.ctx.writePtr < s.ctx.readPtr ∨ s.ctx.readPtr + writeBlockSize ≤ s.ctx.writePtr

/-- The thread has something in hand. -/
def Thread.hands : Thread → Bool
  | hand .. | store .. | signal .. => true
  | _ => false

/-- The thread has still to give a signal. -/
def Ahead (s : State σ β) : Prop :=
  s.thread.hands = true ∨ (s.thread = .loop ∨ s.ctx.writeStartSem ≠ 0) ∧ Finds s

/-- The muxer begins to wait only if there is a signal ahead. -/
def WaitsAhead (s : State σ β) : Input β → Prop
  | .client => ∀ buf, s.client = .enter buf → Ahead s
  | _ => True

/-- How many steps the thread has to its wait, if it finds nothing. -/
def State.stepsToDown (s : State σ β) : Nat :=
  7 * s.ctx.writeStartSem +
    match s.thread with
    | .loop => 6
    | .lock => 5
    | .flag | .clear => 4
    | .unlock => 3
    | .exit => 2
    | _ => 0

section

variable {S : StreamOps σ β} {s s' : State σ β} {i : Input β} {buf : List β}

theorem Ahead.not_stuck (h : Ahead s) : ¬ Stuck s := by
  rintro ⟨-, ht, hsem⟩
  rcases h with hh | ⟨hl | hs, -⟩
  · rw [ht] at hh
    cases hh
  · rw [ht] at hl
    cases hl
  · exact hs hsem

/-- While the muxer is in a write, the thread handles no flush and no end. -/
theorem Control.of_wait (h : Control s) (hc : s.client = .wait buf) :
    s.thread.flushes = false ∧ s.thread.exits = false ∧ s.ctx.threadExitFlag = false ∧
      (s.thread ≠ .clear → s.ctx.flushFlag = false) ∧
        (s.thread.locks = false → s.ctx.flushLock = false) := by
  obtain ⟨h1, h2, h3, h4, h5, h6, h7⟩ := h
  rw [hc] at h1 h2 h3 h4 h5 h7
  refine ⟨?_, ?_, ?_, ?_, ?_⟩ <;>
    grind [Client.locks, Client.awaits, Client.flushes, Client.exits]

theorem loopLook_finds (h : Finds s) :
    (loopLook s.ctx.cacheSize s.ctx.readPtr s.ctx.writePtr).hands = true := by
  unfold loopLook
  dsimp only
  rcases h with hlt | hle
  · rw [if_neg (by omega)]
    split <;> rfl
  · have hpos : 0 < (s.ctx.writePtr - s.ctx.readPtr) / writeBlockSize :=
      Nat.div_pos (by omega) (by decide)
    rw [if_pos (by omega), if_pos hpos]
    rfl

theorem loopLook_lock (h : ¬ Finds s) :
    loopLook s.ctx.cacheSize s.ctx.readPtr s.ctx.writePtr = .lock := by
  unfold Finds at h
  have hzero : (s.ctx.writePtr - s.ctx.readPtr) / writeBlockSize = 0 :=
    Nat.div_eq_of_lt (by omega)
  unfold loopLook
  dsimp only
  rw [if_pos (by omega), if_neg (by omega)]

/-- The signal stays ahead of a muxer that waits for it. -/
theorem Ahead.threadStep (h : Ahead s) (hctl : Control s) (hc : s.client = .wait buf)
    (hs : s.threadStep S = some s') : (∃ buf, s'.client = .load buf) ∨ Ahead s' := by
  obtain ⟨hflush, hexits, hflag, hnoflush, -⟩ := hctl.of_wait hc
  cases ht : s.thread with
  | loop =>
    obtain ⟨-, hfinds⟩ : _ ∧ Finds s := by
      rcases h with hh | h
      · rw [ht] at hh
        cases hh
      · exact h
    simp only [State.threadStep, ht] at hs
    cases hs
    exact .inr (.inl (loopLook_finds hfinds))
  | hand stage rd n newRd rest =>
    simp only [State.threadStep, ht] at hs
    cases hs
    exact .inr (.inl rfl)
  | store stage newRd rest =>
    simp only [State.threadStep, ht] at hs
    cases hs
    exact .inr (.inl rfl)
  | signal stage newRd rest =>
    simp only [State.threadStep, ht, hc] at hs
    cases hs
    exact .inl ⟨buf, rfl⟩
  | down =>
    obtain ⟨-, hfinds⟩ : _ ∧ Finds s := by
      rcases h with hh | h
      · rw [ht] at hh
        cases hh
      · exact h
    simp only [State.threadStep, ht] at hs
    split at hs
    · cases hs
    · cases hs
      exact .inr (.inr ⟨.inl rfl, hfinds⟩)
  | exit =>
    simp only [State.threadStep, ht, hflag] at hs
    cases hs
    rcases h with hh | ⟨hl | hsem, hfinds⟩
    · rw [ht] at hh
      cases hh
    · rw [ht] at hl
      cases hl
    · exact .inr (.inr ⟨.inr hsem, hfinds⟩)
  | _ =>
    simp only [State.threadStep, ht] at hs
    simp only [ht, Thread.flushes, Thread.exits] at hflush hexits
    grind [Ahead, Thread.hands, Finds]

/-- Where the muxer waits, a signal is ahead. -/
def WaitAhead (s : State σ β) : Prop := ∀ buf, s.client = .wait buf → Ahead s

theorem WaitAhead.next (h : WaitAhead s) (hctl : Control s) (hm : WaitsAhead s i)
    (hs : FsWriter.next S s i = some s') : WaitAhead s' := by
  cases i with
  | client =>
    cases hc : s.client with
    | enter buf =>
      have hahead : Ahead s := hm buf hc
      simp only [FsWriter.next, State.clientStep, hc] at hs
      cases hs
      exact fun _ _ => hahead
    | after c r =>
      obtain ⟨stream, -, -, -, hfin⟩ := finish_eq (S := S) (s := s) c r
      simp only [FsWriter.next, State.clientStep, hc, hfin] at hs
      cases hs
      exact fun _ hw => by cases hw
    | _ =>
      simp only [FsWriter.next, State.clientStep, hc] at hs
      grind [WaitAhead, State.ret]
  | thread =>
    have hclient : s'.client = s.client ∨ ∀ buf, s'.client ≠ .wait buf := by
      cases ht : s.thread with
      | signal stage newRd rest =>
        simp only [FsWriter.next, State.threadStep, ht] at hs
        grind
      | _ =>
        simp only [FsWriter.next, State.threadStep, ht] at hs
        grind
    intro buf hc
    rcases hclient with he | hne
    · rw [he] at hc
      rcases (h buf hc).threadStep hctl hc hs with ⟨buf', hl⟩ | hahead
      · rw [he, hc] at hl
        cases hl
      · exact hahead
    · exact absurd hc (hne buf)
  | call c =>
    obtain ⟨-, ⟨-, rfl⟩ | ⟨buf, -, -, rfl⟩ | ⟨-, rfl⟩⟩ := call_cases hs <;> exact fun _ hw => by cases hw
  | destroy =>
    obtain ⟨-, rfl⟩ := destroy_cases hs
    exact fun _ hw => by cases hw
  | wake =>
    obtain ⟨buf, -, rfl⟩ := wake_cases hs
    exact fun _ hw => by cases hw

/-- A run whose waits all have a signal ahead does not get stuck. -/
theorem cacheThread_not_stuck (S : StreamOps σ β) (st : σ) (callback : Bool) (cache : Nat → β)
    (nCacheSize : Nat) (is : List (Input β)) (s : State σ β)
    (hm : (cacheThread S).Meets WaitsAhead
      (initFsCacheThreadContext (.opened st callback) cache nCacheSize) is)
    (hr : (cacheThread S).run
      (initFsCacheThreadContext (.opened st callback) cache nCacheSize) is = some s) :
    ¬ Stuck s := by
  have h0 : Control (initFsCacheThreadContext (.opened st callback) cache nCacheSize) ∧
      WaitAhead (initFsCacheThreadContext (.opened st callback) cache nCacheSize) :=
    ⟨init_control _ _ _, nofun⟩
  obtain ⟨-, hwait⟩ : Control s ∧ WaitAhead s :=
    Machine.run_inv (I := fun s => Control s ∧ WaitAhead s)
      (fun _ _ _ h hi hs => ⟨h.1.next hs, h.2.next h.1 hi hs⟩) h0 hm hr
  intro hstuck
  obtain ⟨buf, hc⟩ := hstuck.1
  exact (hwait buf hc).not_stuck hstuck

/-! ## The condition is exact -/

theorem not_ahead (hh : s.thread.hands = false)
    (hf : s.thread = .loop ∨ s.ctx.writeStartSem ≠ 0 → ¬ Finds s) : ¬ Ahead s := by
  rintro (h | ⟨hl, h⟩)
  · rw [hh] at h
    cases h
  · exact hf hl h

/-- A step of a thread that finds nothing brings it closer to its wait. -/
theorem stuck_step (hctl : Control s) (hc : s.client = .wait buf) (h : ¬ Ahead s)
    (hstuck : ¬ Stuck s) :
    ∃ s', s.threadStep S = some s' ∧ s'.client = .wait buf ∧ ¬ Ahead s' ∧
      s'.stepsToDown < s.stepsToDown := by
  obtain ⟨hflush, hexits, hflag, hnoflush, hlock⟩ := hctl.of_wait hc
  have hhands : s.thread.hands = false := by
    by_contra hh
    exact h (.inl (by simpa using hh))
  have hmore : s.thread = .loop ∨ s.ctx.writeStartSem ≠ 0 → ¬ Finds s := fun hl hf =>
    h (.inr ⟨hl, hf⟩)
  cases ht : s.thread with
  | loop =>
    have hnone := hmore (.inl ht)
    refine ⟨{ s with thread := .lock }, ?_, hc, ?_, ?_⟩
    · simp only [State.threadStep, ht, loopLook_lock hnone]
    · exact not_ahead rfl fun _ => hnone
    · simp [State.stepsToDown, ht]
  | down =>
    have hsem : s.ctx.writeStartSem ≠ 0 := fun hz => hstuck ⟨⟨buf, hc⟩, ht, hz⟩
    have hnone := hmore (.inr hsem)
    refine ⟨{ s with
      thread := .loop, ctx := { s.ctx with writeStartSem := s.ctx.writeStartSem - 1 } }, ?_, hc,
      ?_, ?_⟩
    · simp only [State.threadStep, ht, if_neg hsem]
    · exact not_ahead rfl fun _ => hnone
    · simp only [State.stepsToDown, ht]
      omega
  | lock =>
    rw [ht] at hlock
    refine ⟨{ s with thread := .flag, ctx := { s.ctx with flushLock := true } }, ?_, hc, ?_, ?_⟩
    · simp [State.threadStep, ht, hlock rfl]
    · exact not_ahead rfl fun hl => hmore (.inr (hl.resolve_left (by rintro ⟨⟩)))
    · simp [State.stepsToDown, ht]
  | flag =>
    have hoff := hnoflush (by rw [ht]; exact by rintro ⟨⟩)
    refine ⟨{ s with thread := .unlock }, ?_, hc, ?_, ?_⟩
    · simp [State.threadStep, ht, hoff]
    · exact not_ahead rfl fun hl => hmore (.inr (hl.resolve_left (by rintro ⟨⟩)))
    · simp [State.stepsToDown, ht]
  | clear =>
    refine ⟨{ s with thread := .unlock, ctx := { s.ctx with flushFlag := false } }, ?_, hc, ?_, ?_⟩
    · simp [State.threadStep, ht]
    · exact not_ahead rfl fun hl => hmore (.inr (hl.resolve_left (by rintro ⟨⟩)))
    · simp [State.stepsToDown, ht]
  | unlock =>
    refine ⟨{ s with thread := .exit, ctx := { s.ctx with flushLock := false } }, ?_, hc, ?_, ?_⟩
    · simp [State.threadStep, ht]
    · exact not_ahead rfl fun hl => hmore (.inr (hl.resolve_left (by rintro ⟨⟩)))
    · simp [State.stepsToDown, ht]
  | exit =>
    refine ⟨{ s with thread := .down }, ?_, hc, ?_, ?_⟩
    · simp [State.threadStep, ht, hflag]
    · exact not_ahead rfl fun hl => hmore (.inr (hl.resolve_left (by rintro ⟨⟩)))
    · simp [State.stepsToDown, ht]
  | _ =>
    rw [ht] at hhands hflush hexits
    grind [Thread.hands, Thread.flushes, Thread.exits]

/-- Whenever the muxer waits with no signal ahead, it gets stuck if the thread
goes on. -/
theorem stuck_of_not_ahead (hctl : Control s) (hc : s.client = .wait buf) (h : ¬ Ahead s) :
    ∃ n s', (cacheThread S).run s (List.replicate n .thread) = some s' ∧ Stuck s' := by
  induction hk : s.stepsToDown using Nat.strong_induction_on generalizing s with
  | h k ih =>
    by_cases hstuck : Stuck s
    · exact ⟨0, s, rfl, hstuck⟩
    · obtain ⟨t, hs, hct, hnot, hlt⟩ := stuck_step (S := S) hctl hc h hstuck
      obtain ⟨n, s', hr, hst⟩ := ih _ (hk ▸ hlt) (hctl.threadStep hs) hct hnot rfl
      refine ⟨n + 1, s', ?_, hst⟩
      exact Machine.run_cons_eq_some.2 ⟨t, hs, hr⟩

end

/-! ## Two writes -/

/-- The muxer writes what fits and is less than a block, then more than is free. -/
def twoWrites (buf buf' : List β) : List (Input β) :=
  [.call (.write buf), .client, .client, .client, .client] ++
    [.call (.write buf'), .client, .client, .client]

theorem semUpUnique_ne_zero (v : Nat) : semUpUnique v ≠ 0 := by
  unfold semUpUnique
  split <;> omega

theorem freeSections_start {n m : Nat} (h : m < n) :
    freeSections n 0 m = (n - m - 1, n - m - 1) := by
  simp only [freeSections]
  rw [if_pos (Nat.zero_le m), if_neg (Nat.lt_irrefl 0), if_pos (by omega), Nat.zero_add]

theorem nextWritePtr_start {n m : Nat} (h : m < n) :
    nextWritePtr n 0 0 (n - 0 - 1) m = m := by
  simp only [nextWritePtr]
  rw [if_pos (Nat.le_refl 0), if_pos (by omega), if_neg (by omega), Nat.zero_add]

section

variable (S : StreamOps σ β) (st : σ) (callback : Bool) (cache : Nat → β) {nCacheSize : Nat}
  {buf buf' : List β}

/-- The muxer waits in the second write. -/
theorem twoWrites_run (hne : buf ≠ []) (hne' : buf' ≠ []) (hfit : buf.length < nCacheSize)
    (hbig : nCacheSize ≤ buf.length + buf'.length) :
    ∃ s, (cacheThread S).run
      (initFsCacheThreadContext (.opened st callback) cache nCacheSize)
        (twoWrites buf buf') = some s ∧
      s.client = .wait buf' ∧ s.thread = .down ∧ s.ctx.readPtr = 0 ∧
      s.ctx.writePtr = buf.length := by
  obtain ⟨x, xs, rfl⟩ := List.exists_cons_of_ne_nil hne
  obtain ⟨y, ys, rfl⟩ := List.exists_cons_of_ne_nil hne'
  have hfree := freeSections_start (by omega : 0 < nCacheSize)
  have hroom : (x :: xs).length ≤ nCacheSize - 0 - 1 := by omega
  have hfull : ¬ (y :: ys).length ≤ nCacheSize - (x :: xs).length - 1 := by omega
  simp only [twoWrites, List.cons_append, List.nil_append, Machine.run_cons, next, State.call,
    initFsCacheThreadContext, Option.bind_some, State.clientStep, hfree, hroom,
    nextWritePtr_start hfit, if_true, State.ret, freeSections_start hfit, hfull, if_false,
    Machine.run_nil]
  exact ⟨_, rfl, rfl, rfl, rfl, rfl⟩

/-- The first write starts the thread if it is a block. -/
theorem twoWrites_waitsAhead (hne : buf ≠ []) (hne' : buf' ≠ []) (hfit : buf.length < nCacheSize)
    (hbig : nCacheSize ≤ buf.length + buf'.length) (hblock : writeBlockSize ≤ buf.length) :
    (cacheThread S).Meets WaitsAhead
      (initFsCacheThreadContext (.opened st callback) cache nCacheSize) (twoWrites buf buf') := by
  obtain ⟨x, xs, rfl⟩ := List.exists_cons_of_ne_nil hne
  obtain ⟨y, ys, rfl⟩ := List.exists_cons_of_ne_nil hne'
  have hfree := freeSections_start (by omega : 0 < nCacheSize)
  have hroom : (x :: xs).length ≤ nCacheSize - 0 - 1 := by omega
  have hfull : ¬ (y :: ys).length ≤ nCacheSize - (x :: xs).length - 1 := by omega
  simp only [twoWrites, List.cons_append, List.nil_append, Machine.meets_cons, next, State.call,
    initFsCacheThreadContext, Option.some.injEq, forall_eq', State.clientStep, hfree, hroom,
    nextWritePtr_start hfit, if_true, State.ret, freeSections_start hfit, hfull, if_false,
    Machine.meets_nil, WaitsAhead, reduceCtorEq, false_implies, implies_true, true_and, and_true]
  rintro buf -
  refine .inr ⟨.inr (semUpUnique_ne_zero _), .inr ?_⟩
  dsimp only
  omega

/-- The thread finds less than a block, and the muxer waits for good. -/
theorem twoWrites_stuck (hne : buf ≠ []) (hne' : buf' ≠ []) (hfit : buf.length < nCacheSize)
    (hbig : nCacheSize ≤ buf.length + buf'.length) (hblock : buf.length < writeBlockSize) :
    ∃ n s, (cacheThread S).run
      (initFsCacheThreadContext (.opened st callback) cache nCacheSize)
        (twoWrites buf buf' ++ List.replicate n .thread) = some s ∧ Stuck s := by
  obtain ⟨s, hs, hc, ht, hrd, hwt⟩ := twoWrites_run S st callback cache hne hne' hfit hbig
  have hnot : ¬ Ahead s := by
    refine not_ahead (by rw [ht]; rfl) fun _ => ?_
    unfold Finds
    omega
  obtain ⟨n, s', hn, hstuck⟩ := stuck_of_not_ahead (S := S) (inv_of_run hs).control hc hnot
  exact ⟨n, s', Machine.run_append_eq_some.2 ⟨s, hs, hn⟩, hstuck⟩

end

theorem exists_length (n : Nat) : ∃ buf : List UInt8, buf.length = n :=
  ⟨List.replicate n 0, List.length_replicate⟩

theorem cacheThread_not_stuck_wait :
    ∃ is s, (cacheThread fileOps).run
        (initFsCacheThreadContext (.opened ⟨[], 0⟩ false) (fun _ => 0) (256 * 1024)) is = some s ∧
      (∃ buf, s.client = .wait buf) ∧ ¬ Stuck s := by
  obtain ⟨buf, hbuf⟩ := exists_length (200 * 1024)
  obtain ⟨buf', hbuf'⟩ := exists_length (100 * 1024)
  have hne : buf ≠ [] := List.ne_nil_of_length_pos (by omega)
  have hne' : buf' ≠ [] := List.ne_nil_of_length_pos (by omega)
  have hfit : buf.length < 256 * 1024 := by omega
  have hbig : 256 * 1024 ≤ buf.length + buf'.length := by omega
  have hblock : writeBlockSize ≤ buf.length := by
    rw [hbuf]
    decide
  obtain ⟨s, hs, hc, -⟩ := twoWrites_run fileOps ⟨[], 0⟩ false (fun _ => 0) hne hne' hfit hbig
  exact ⟨_, s, hs, ⟨_, hc⟩, cacheThread_not_stuck _ _ _ _ _ _ _
    (twoWrites_waitsAhead fileOps _ _ _ hne hne' hfit hbig hblock) hs⟩

/-- A write of 200 KiB does not return if the ring of 256 KiB holds 100 KiB. -/
theorem cacheThread_stuck :
    ∃ is s, (∀ buf, .call (.write buf) ∈ is → buf.length ≤ 256 * 1024) ∧
      (cacheThread fileOps).run
        (initFsCacheThreadContext (.opened ⟨[], 0⟩ false) (fun _ => 0) (256 * 1024)) is = some s ∧
      Stuck s := by
  obtain ⟨buf, hbuf⟩ := exists_length (100 * 1024)
  obtain ⟨buf', hbuf'⟩ := exists_length (200 * 1024)
  have hne : buf ≠ [] := List.ne_nil_of_length_pos (by omega)
  have hne' : buf' ≠ [] := List.ne_nil_of_length_pos (by omega)
  have hblock : buf.length < writeBlockSize := by
    rw [hbuf]
    decide
  obtain ⟨n, s, hs, hstuck⟩ := twoWrites_stuck fileOps ⟨[], 0⟩ false (fun _ => 0) hne hne'
    (by omega : buf.length < 256 * 1024) (by omega) hblock
  refine ⟨_, s, ?_, hs, hstuck⟩
  intro b hm
  have hb : b = buf ∨ b = buf' := by simpa [twoWrites] using hm
  rcases hb with rfl | rfl <;> omega

end Melis.FsWriter
