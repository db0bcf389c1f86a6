import Melis.FsWriter.FsCache

/-!
# The ring of the writer with a thread

`Control` says which of the two holds the flush lock, and how far a flush is;
`Data` says what the ring holds, and what the two have in hand. Both are kept by
every step of either, so the bytes are handed over in order
(`cacheThread_exact`).
-/

namespace Melis.FsWriter

open Lib Function

variable {σ β : Type}

/-! ## The flush -/

/-- The muxer holds the flush lock. -/
def Client.locks : Client β → Bool
  | flushSet _ | flushUp _ | flushUnlock _ => true
  | _ => false

/-- The muxer has asked for a flush and waits for its end. -/
def Client.awaits : Client β → Bool
  | flushDown _ => true
  | _ => false

/-- The muxer has asked for a flush, or waits for its end. -/
def Client.flushes : Client β → Bool
  | flushUp _ | flushUnlock _ | flushDown _ => true
  | _ => false

/-- The muxer waits for the end of the thread. -/
def Client.exits : Client β → Bool
  | exitUp | exitJoin | destroyed => true
  | _ => false

/-- The thread handles a flush. -/
def Thread.flushes : Thread → Bool
  | flushLook | hand .flush .. | store .flush .. | signal .flush .. | reset | up => true
  | _ => false

/-- The thread holds the flush lock. -/
def Thread.locks : Thread → Bool
  | flag | clear | unlock => true
  | t => t.flushes

/-- The thread ends. -/
def Thread.exits : Thread → Bool
  | exitLook | hand .exit .. | store .exit .. | signal .exit .. | done => true
  | _ => false

/-- The lock is held by one of the two, and the flag and the semaphore say how
far a flush is. -/
structure Control (s : State σ β) : Prop where
  lock : s.ctx.flushLock = (s.client.locks || s.thread.locks)
  exclusive : s.client.locks = true → s.thread.locks = false
  flushing : s.thread.flushes = true →
    s.client.awaits = true ∧ s.ctx.flushFlag = true ∧ s.ctx.flushDoneSem = 0
  clearing : s.thread = .clear → s.ctx.flushFlag = true ∧
    (s.client.awaits = true ∧ s.ctx.flushDoneSem = 1 ∨
      s.client.flushes = false ∧ s.ctx.flushDoneSem = 0)
  between : s.thread.flushes = false → s.thread ≠ .clear →
    s.ctx.flushFlag = true ∧ s.ctx.flushDoneSem = 0 ∧ s.client.flushes = true ∨
      s.ctx.flushFlag = false ∧ s.ctx.flushDoneSem = 1 ∧ s.client.awaits = true ∨
      s.ctx.flushFlag = false ∧ s.ctx.flushDoneSem = 0 ∧ s.client.flushes = false
  exiting : s.thread.exits = true → s.ctx.threadExitFlag = true
  exits : s.ctx.threadExitFlag = true → s.client.exits = true

section

variable {S : StreamOps σ β} {s s' : State σ β} {i : Input β}

theorem finish_eq (c : Call β) (r : Int) :
    ∃ stream r', stream.writeError = s.ctx.stream.writeError ∧
      stream.events = .ret c r' :: s.ctx.stream.events ∧
      s.finish S c r = { s with client := .idle, ctx := { s.ctx with stream := stream } } := by
  refine ⟨(s.finish S c r).ctx.stream, ?_⟩
  cases c <;> exact ⟨_, rfl, rfl, rfl⟩

theorem call_cases {c : Call β} (hs : s.call c = some s') :
    s.client = .idle ∧
      (c = .write [] ∧ s' = s.ret c 0 ∨
        (∃ buf, c = .write buf ∧ buf ≠ [] ∧ s' = { s with client := .load buf }) ∨
        (∀ buf, c ≠ .write buf) ∧ s' = { s with client := .flush c }) := by
  unfold State.call at hs
  cases hc : s.client with
  | idle =>
    rw [hc] at hs
    refine ⟨rfl, ?_⟩
    cases c with
    | write buf =>
      cases buf with
      | nil =>
        cases hs
        exact .inl ⟨rfl, rfl⟩
      | cons b bs =>
        cases hs
        exact .inr (.inl ⟨_, rfl, nofun, rfl⟩)
    | _ =>
      cases hs
      exact .inr (.inr ⟨nofun, rfl⟩)
  | _ =>
    rw [hc] at hs
    cases hs

theorem destroy_cases (hs : next S s .destroy = some s') :
    s.client = .idle ∧ s' = { s with client := .exit } := by
  simp only [FsWriter.next] at hs
  cases hc : s.client with
  | idle =>
    rw [hc] at hs
    cases hs
    exact ⟨rfl, rfl⟩
  | _ =>
    rw [hc] at hs
    cases hs

theorem wake_cases (hs : next S s .wake = some s') :
    ∃ buf, s.client = .wait buf ∧ s' = { s with client := .load buf } := by
  simp only [FsWriter.next] at hs
  cases hc : s.client with
  | wait buf =>
    rw [hc] at hs
    cases hs
    exact ⟨buf, rfl, rfl⟩
  | _ =>
    rw [hc] at hs
    cases hs

/-- The two places say the same about a flush and the end. -/
def Client.Like (c c' : Client β) : Prop :=
  c'.locks = c.locks ∧ c'.awaits = c.awaits ∧ c'.flushes = c.flushes ∧ c'.exits = c.exits

def Thread.Like (t t' : Thread) : Prop :=
  t'.locks = t.locks ∧ t'.flushes = t.flushes ∧ t'.exits = t.exits ∧ (t' = .clear ↔ t = .clear)

theorem Client.Like.rfl {c : Client β} : c.Like c := ⟨Eq.refl _, Eq.refl _, Eq.refl _, Eq.refl _⟩

theorem Thread.Like.rfl {t : Thread} : t.Like t := ⟨Eq.refl _, Eq.refl _, Eq.refl _, Iff.rfl⟩

/-- Only the lock, the flags, the semaphore and the two places count. -/
theorem Control.congr (h : Control s)
    (hctx : s'.ctx.flushLock = s.ctx.flushLock ∧ s'.ctx.flushFlag = s.ctx.flushFlag ∧
      s'.ctx.flushDoneSem = s.ctx.flushDoneSem ∧ s'.ctx.threadExitFlag = s.ctx.threadExitFlag)
    (hc : s.client.Like s'.client) (ht : s.thread.Like s'.thread) : Control s' := by
  obtain ⟨e1, e2, e3, e4⟩ := hctx
  obtain ⟨c1, c2, c3, c4⟩ := hc
  obtain ⟨t1, t2, t3, t4⟩ := ht
  refine ⟨?_, ?_, ?_, ?_, ?_, ?_, ?_⟩
  · rw [e1, c1, t1]
    exact h.lock
  · rw [c1, t1]
    exact h.exclusive
  · rw [t2, c2, e2, e3]
    exact h.flushing
  · rw [t4, e2, c2, e3, c3]
    exact h.clearing
  · rw [t2, ne_eq, t4, e2, e3, c3, c2]
    exact h.between
  · rw [t3, e4]
    exact h.exiting
  · rw [e4, c4]
    exact h.exits

theorem Control.clientStep (h : Control s) (hs : s.clientStep S = some s') : Control s' := by
  obtain ⟨h1, h2, h3, h4, h5, h6, h7⟩ := id h
  cases hc : s.client with
  | idle => simp [State.clientStep, hc] at hs
  | wait buf => simp [State.clientStep, hc] at hs
  | destroyed => simp [State.clientStep, hc] at hs
  | after c r =>
    obtain ⟨stream, -, -, -, hfin⟩ := finish_eq (S := S) (s := s) c r
    simp only [State.clientStep, hc, hfin] at hs
    cases hs
    refine h.congr ⟨rfl, rfl, rfl, rfl⟩ ?_ .rfl
    rw [hc]
    exact ⟨rfl, rfl, rfl, rfl⟩
  | flushLock c =>
    simp only [State.clientStep, hc] at hs
    rw [hc] at h1 h3 h4 h5 h7
    split at hs
    · cases hs
    · rename_i hfree
      cases hs
      have hl : s.thread.locks = false := by
        rw [h1] at hfree
        simpa [Client.locks] using hfree
      exact ⟨rfl, fun _ => hl, h3, h4, h5, h6, h7⟩
  | flushSet c =>
    simp only [State.clientStep, hc] at hs
    rw [hc] at h1 h2 h3 h5 h7
    cases hs
    have hclear : s.thread ≠ .clear := by
      intro ht
      rw [ht] at h2
      cases h2 rfl
    refine ⟨h1, h2, fun ht => absurd (h3 ht).1 nofun, fun ht => absurd ht hclear, ?_, h6, h7⟩
    intro hf hne
    rcases h5 hf hne with ⟨-, hsem, -⟩ | ⟨-, -, ha⟩ | ⟨-, hsem, -⟩
    · exact .inl ⟨rfl, hsem, rfl⟩
    · cases ha
    · exact .inl ⟨rfl, hsem, rfl⟩
  | flushUnlock c =>
    simp only [State.clientStep, hc] at hs
    rw [hc] at h2 h3 h5 h7
    cases hs
    have hclear : s.thread ≠ .clear := by
      intro ht
      rw [ht] at h2
      cases h2 rfl
    refine ⟨(h2 rfl).symm, nofun, fun ht => absurd (h3 ht).1 nofun, fun ht => absurd ht hclear,
      ?_, h6, h7⟩
    intro hf hne
    rcases h5 hf hne with hwaits | ⟨-, -, ha⟩ | ⟨-, -, hn⟩
    · exact .inl hwaits
    · cases ha
    · cases hn
  | flushDown c =>
    simp only [State.clientStep, hc] at hs
    rw [hc] at h1 h3 h4 h5 h7
    split at hs
    · cases hs
    · rename_i hsem
      cases hs
      refine ⟨h1, nofun, fun ht => absurd (h3 ht).2.2 hsem, ?_, ?_, h6, h7⟩
      · intro ht
        obtain ⟨hflag, ⟨-, hone⟩ | ⟨hn, -⟩⟩ := h4 ht
        · exact ⟨hflag, .inr ⟨rfl, by dsimp only; omega⟩⟩
        · cases hn
      · intro hf hne
        rcases h5 hf hne with ⟨-, hzero, -⟩ | ⟨hflag, hone, -⟩ | ⟨-, hzero, -⟩
        · exact absurd hzero hsem
        · exact .inr (.inr ⟨hflag, by dsimp only; omega, rfl⟩)
        · exact absurd hzero hsem
  | exit =>
    simp only [State.clientStep, hc] at hs
    rw [hc] at h1 h3 h4 h5
    cases hs
    exact ⟨h1, nofun, h3, h4, h5, fun _ => rfl, fun _ => rfl⟩
  | _ =>
    simp only [State.clientStep, hc] at hs
    first
      | cases hs
        refine h.congr ⟨rfl, rfl, rfl, rfl⟩ ?_ .rfl
        rw [hc]
        exact ⟨rfl, rfl, rfl, rfl⟩
      | split at hs <;> cases hs <;>
        · refine h.congr ⟨rfl, rfl, rfl, rfl⟩ ?_ .rfl
          rw [hc]
          exact ⟨rfl, rfl, rfl, rfl⟩

theorem loopLook_like (size rd wt : Nat) : Thread.loop.Like (loopLook size rd wt) := by
  unfold loopLook
  dsimp only
  split <;> split <;> exact ⟨rfl, rfl, rfl, by simp⟩

theorem lookAll_flush_like (size rd wt : Nat) : Thread.flushLook.Like (lookAll .flush size rd wt) := by
  unfold lookAll
  split_ifs <;> exact ⟨rfl, rfl, rfl, by simp [Stage.next]⟩

theorem lookAll_exit_like (size rd wt : Nat) : Thread.exitLook.Like (lookAll .exit size rd wt) := by
  unfold lookAll
  split_ifs <;> exact ⟨rfl, rfl, rfl, by simp [Stage.next]⟩

/-- Once the thread has the lock, a muxer that asked for a flush waits for its end. -/
theorem Client.awaits_of_flushes {c : Client β} (h : c.flushes = true) (hl : c.locks = false) :
    c.awaits = true := by
  cases c <;> simp_all [flushes, locks, awaits]

theorem Control.threadStep (h : Control s) (hs : s.threadStep S = some s') : Control s' := by
  obtain ⟨h1, h2, h3, h4, h5, h6, h7⟩ := id h
  cases ht : s.thread with
  | done => simp [State.threadStep, ht] at hs
  | loop =>
    simp only [State.threadStep, ht] at hs
    cases hs
    refine h.congr ⟨rfl, rfl, rfl, rfl⟩ .rfl ?_
    rw [ht]
    exact loopLook_like _ _ _
  | flushLook =>
    simp only [State.threadStep, ht] at hs
    cases hs
    refine h.congr ⟨rfl, rfl, rfl, rfl⟩ .rfl ?_
    rw [ht]
    exact lookAll_flush_like _ _ _
  | exitLook =>
    simp only [State.threadStep, ht] at hs
    cases hs
    refine h.congr ⟨rfl, rfl, rfl, rfl⟩ .rfl ?_
    rw [ht]
    exact lookAll_exit_like _ _ _
  | signal stage newRd rest =>
    simp only [State.threadStep, ht] at hs
    cases hs
    refine h.congr ⟨rfl, rfl, rfl, rfl⟩ ?_ ?_
    · dsimp only
      cases s.client <;> exact ⟨rfl, rfl, rfl, rfl⟩
    · rw [ht]
      dsimp only
      cases stage <;> split <;> exact ⟨rfl, rfl, rfl, by simp [Stage.next]⟩
  | lock =>
    simp only [State.threadStep, ht] at hs
    rw [ht] at h1 h5
    split at hs
    · cases hs
    · rename_i hfree
      cases hs
      refine ⟨(Bool.or_true _).symm, fun hl => ?_, nofun, nofun, fun _ _ => h5 rfl nofun, nofun, h7⟩
      rw [h1, hl] at hfree
      exact absurd rfl hfree
  | flag =>
    simp only [State.threadStep, ht] at hs
    rw [ht] at h1 h2 h5
    cases hs
    cases hflag : s.ctx.flushFlag with
    | false => exact ⟨h1, h2, nofun, nofun, fun _ _ => h5 rfl nofun, nofun, h7⟩
    | true =>
      refine ⟨h1, h2, fun _ => ?_, nofun, nofun, nofun, h7⟩
      have hl : s.client.locks = false := Bool.eq_false_iff.2 fun hl => absurd (h2 hl) nofun
      rcases h5 rfl nofun with ⟨-, hsem, hfl⟩ | ⟨hn, -⟩ | ⟨hn, -⟩
      · exact ⟨Client.awaits_of_flushes hfl hl, hflag, hsem⟩
      · rw [hflag] at hn
        cases hn
      · rw [hflag] at hn
        cases hn
  | up =>
    simp only [State.threadStep, ht] at hs
    rw [ht] at h1 h2 h3
    cases hs
    obtain ⟨ha, hflag, hsem⟩ := h3 rfl
    refine ⟨h1, h2, nofun, fun _ => ⟨hflag, .inl ⟨ha, ?_⟩⟩, fun _ hne => absurd rfl hne, nofun, h7⟩
    dsimp only
    omega
  | clear =>
    simp only [State.threadStep, ht] at hs
    rw [ht] at h1 h2
    cases hs
    refine ⟨h1, h2, nofun, nofun, fun _ _ => ?_, nofun, h7⟩
    obtain ⟨-, ⟨ha, hsem⟩ | ⟨hn, hsem⟩⟩ := h4 ht
    · exact .inr (.inl ⟨rfl, hsem, ha⟩)
    · exact .inr (.inr ⟨rfl, hsem, hn⟩)
  | unlock =>
    simp only [State.threadStep, ht] at hs
    rw [ht] at h2 h5
    cases hs
    have hl : s.client.locks = false := Bool.eq_false_iff.2 fun hl => absurd (h2 hl) nofun
    refine ⟨?_, fun _ => rfl, nofun, nofun, fun _ _ => h5 rfl nofun, nofun, h7⟩
    dsimp only
    rw [hl]
    rfl
  | exit =>
    simp only [State.threadStep, ht] at hs
    rw [ht] at h1 h5
    cases hs
    cases hflag : s.ctx.threadExitFlag with
    | false => exact ⟨h1, fun _ => rfl, nofun, nofun, fun _ _ => h5 rfl nofun, nofun, h7⟩
    | true =>
      exact ⟨h1, fun _ => rfl, nofun, nofun, fun _ _ => h5 rfl nofun, fun _ => hflag, h7⟩
  | reset =>
    simp only [State.threadStep, ht] at hs
    cases hs
    refine h.congr ?_ .rfl ?_
    · dsimp only
      split <;> exact ⟨rfl, rfl, rfl, rfl⟩
    · rw [ht]
      exact ⟨rfl, rfl, rfl, by simp⟩
  | down =>
    simp only [State.threadStep, ht] at hs
    split at hs
    · cases hs
    · cases hs
      refine h.congr ⟨rfl, rfl, rfl, rfl⟩ .rfl ?_
      rw [ht]
      exact ⟨rfl, rfl, rfl, by simp⟩
  | hand stage rd n newRd rest =>
    simp only [State.threadStep, ht] at hs
    cases hs
    refine h.congr ⟨rfl, rfl, rfl, rfl⟩ .rfl ?_
    rw [ht]
    cases stage <;> exact ⟨rfl, rfl, rfl, by simp⟩
  | store stage newRd rest =>
    simp only [State.threadStep, ht] at hs
    cases hs
    refine h.congr ⟨rfl, rfl, rfl, rfl⟩ .rfl ?_
    rw [ht]
    cases stage <;> exact ⟨rfl, rfl, rfl, by simp⟩

theorem Control.next (h : Control s) (hs : next S s i = some s') : Control s' := by
  cases i with
  | client => exact h.clientStep hs
  | thread => exact h.threadStep hs
  | call c =>
    obtain ⟨hc, ⟨-, rfl⟩ | ⟨buf, -, -, rfl⟩ | ⟨-, rfl⟩⟩ := call_cases hs <;>
    · refine h.congr ⟨rfl, rfl, rfl, rfl⟩ ?_ .rfl
      rw [hc]
      exact ⟨rfl, rfl, rfl, rfl⟩
  | destroy =>
    obtain ⟨hc, rfl⟩ := destroy_cases hs
    refine h.congr ⟨rfl, rfl, rfl, rfl⟩ ?_ .rfl
    rw [hc]
    exact ⟨rfl, rfl, rfl, rfl⟩
  | wake =>
    obtain ⟨buf, hc, rfl⟩ := wake_cases hs
    refine h.congr ⟨rfl, rfl, rfl, rfl⟩ ?_ .rfl
    rw [hc]
    exact ⟨rfl, rfl, rfl, rfl⟩

end

/-! ## The bytes -/

/-- What the thread has in hand, with `lag` bytes handed over behind which the
read pointer is not moved yet, and `used` bytes behind those. -/
def Thread.InHand (size readPtr lag used : Nat) : Thread → Prop
  | hand stage rd n newRd rest =>
    lag = 0 ∧ rd = readPtr ∧ 0 < n ∧ n ≤ used ∧ rd + n ≤ size ∧ newRd = (rd + n) % size ∧
      (stage = .loop → rest = 0) ∧ (stage ≠ .loop → n + rest = used) ∧ (0 < rest → newRd = 0)
  | store stage newRd rest =>
    newRd = (readPtr + lag) % size ∧
      (stage = .loop → rest = 0) ∧ (stage ≠ .loop → rest = used) ∧ (0 < rest → newRd = 0)
  | signal stage newRd rest =>
    lag = 0 ∧ newRd = readPtr ∧
      (stage = .loop → rest = 0) ∧ (stage ≠ .loop → rest = used) ∧ (0 < rest → newRd = 0)
  | reset | up => lag = 0 ∧ used = 0
  | _ => lag = 0

/-- What the muxer has in hand. -/
def Client.InHand (size writePtr lag used : Nat) (cache : Nat → β) : Client β → Prop
  | load buf | kick buf | enter buf | wait buf => buf ≠ []
  | copy buf wt section2 newWt freeSize =>
    wt = writePtr ∧ lag + used + freeSize < size ∧ buf.length ≤ freeSize ∧
      newWt = (writePtr + buf.length) % size ∧
      (buf.length ≤ section2 ∧ wt + buf.length ≤ size ∨
        section2 < buf.length ∧ wt + section2 = size)
  | publish buf newWt freeSize =>
    lag + used + freeSize < size ∧ buf.length ≤ freeSize ∧
      newWt = (writePtr + buf.length) % size ∧ Ring.read cache size writePtr buf.length = buf
  | flushCheck _ => lag = 0 ∧ used = 0
  | after _ r => r = 0 ∧ lag = 0 ∧ used = 0
  | _ => True

structure Data (s : State σ β) (lag used : Nat) : Prop where
  fits : lag + used < s.ctx.cacheSize ∧ s.ctx.readPtr < s.ctx.cacheSize ∨
    s.ctx.cacheSize = 0 ∧ s.ctx.readPtr = 0 ∧ lag = 0 ∧ used = 0
  writePtr : s.ctx.writePtr = (s.ctx.readPtr + lag + used) % s.ctx.cacheSize
  content : s.handed ++ Ring.read s.ctx.cache s.ctx.cacheSize (s.ctx.readPtr + lag) used =
    s.accepted
  thread : s.thread.InHand s.ctx.cacheSize s.ctx.readPtr lag used
  client : s.client.InHand s.ctx.cacheSize s.ctx.writePtr lag used s.ctx.cache
  flushed : 0 < s.ctx.flushDoneSem → lag = 0 ∧ used = 0

section

variable {S : StreamOps σ β} {s s' : State σ β} {i : Input β} {lag used size rd wt n p : Nat}
  {cache : Nat → β} {buf : List β}

theorem memcpy_eq (h : p + buf.length ≤ size) : memcpy cache p buf = Ring.write cache size p buf := by
  induction buf generalizing cache p with
  | nil => rfl
  | cons x xs ih =>
    rw [List.length_cons] at h
    have hp : p % size = p := Nat.mod_eq_of_lt (by omega)
    rw [memcpy, Ring.write, hp]
    exact ih (by omega)

theorem place_eq (h : buf.length ≤ n ∧ p + buf.length ≤ size ∨ n < buf.length ∧ p + n = size)
    (hfit : buf.length ≤ size) : place cache p n buf = Ring.write cache size p buf := by
  unfold place
  rcases h with ⟨hle, hend⟩ | ⟨hlt, hend⟩
  · rw [if_pos hle]
    exact memcpy_eq hend
  · have htake : (buf.take n).length = n := by
      rw [List.length_take]
      omega
    have hdrop : (buf.drop n).length ≤ size := by
      rw [List.length_drop]
      omega
    have hzero := Ring.write_mod (Ring.write cache size p (buf.take n)) size size (buf.drop n)
    have happ := Ring.write_append cache size p (buf.take n) (buf.drop n)
    rw [Nat.mod_self] at hzero
    rw [List.take_append_drop, htake, hend] at happ
    rw [if_neg (by omega), memcpy_eq (by omega : p + (buf.take n).length ≤ size),
      memcpy_eq (by omega : 0 + (buf.drop n).length ≤ size), hzero, happ]

/-- The ring wraps around if the write pointer is behind the read pointer. -/
theorem used_eq (hfit : used < size) (hrd : rd < size) (hwt : wt = (rd + used) % size) :
    rd ≤ wt ∧ wt = rd + used ∨ wt < rd ∧ wt + size = rd + used := by
  rcases Nat.lt_or_ge (rd + used) size with hlt | hge
  · rw [Nat.mod_eq_of_lt hlt] at hwt
    exact .inl ⟨by omega, hwt⟩
  · rw [Nat.mod_eq_sub_mod hge, Nat.mod_eq_of_lt (by omega)] at hwt
    exact .inr ⟨by omega, by omega⟩

theorem freeSections_cases (hrd : rd < size) (hwt : wt < size) :
    rd ≤ wt ∧ 0 < rd ∧ freeSections size rd wt = (size - wt, rd - 1 + (size - wt)) ∨
      rd = 0 ∧ freeSections size rd wt = (size - wt - 1, size - wt - 1) ∨
      wt < rd ∧ freeSections size rd wt = (rd - wt - 1, rd - wt - 1) := by
  unfold freeSections
  by_cases hle : rd ≤ wt
  · rw [if_pos hle]
    rcases Nat.eq_zero_or_pos rd with rfl | hpos
    · refine .inr (.inl ⟨rfl, ?_⟩)
      dsimp only
      rw [if_neg (Nat.lt_irrefl 0), if_pos (by omega), Nat.zero_add]
    · exact .inl ⟨hle, hpos, if_pos hpos⟩
  · exact .inr (.inr ⟨by omega, if_neg hle⟩)

theorem freeSections_spec (hfit : used < size) (hrd : rd < size) (hwt : wt = (rd + used) % size) :
    used + (freeSections size rd wt).2 + 1 = size ∧
      ∀ n ≤ (freeSections size rd wt).2,
        nextWritePtr size rd wt (freeSections size rd wt).1 n = (wt + n) % size ∧
          (n ≤ (freeSections size rd wt).1 ∧ wt + n ≤ size ∨
            (freeSections size rd wt).1 < n ∧ wt + (freeSections size rd wt).1 = size) := by
  have hused := used_eq hfit hrd hwt
  have hlt : wt < size := by
    rw [hwt]
    exact Nat.mod_lt _ (by omega)
  have hwrap : ∀ n ≤ size, (if size ≤ wt + n then wt + n - size else wt + n) = (wt + n) % size := by
    intro n hn
    have := Ring.wrap_add (p := wt) (by omega : 0 < size) hn
    rwa [Nat.mod_eq_of_lt hlt] at this
  unfold nextWritePtr
  rcases freeSections_cases hrd hlt with ⟨hle, hpos, he⟩ | ⟨hzero, he⟩ | ⟨hle, he⟩
  · rw [he]
    dsimp only
    refine ⟨by omega, fun n hn => ?_⟩
    rw [← hwrap n (by omega), if_pos hle]
    split_ifs <;> omega
  · rw [he]
    dsimp only
    refine ⟨by omega, fun n hn => ?_⟩
    rw [← hwrap n (by omega)]
    split_ifs <;> omega
  · rw [he]
    dsimp only
    refine ⟨by omega, fun n hn => ?_⟩
    rw [← hwrap n (by omega)]
    split_ifs <;> omega

/-- The bytes handed over lie in one piece. -/
theorem slice_eq (h : rd + n ≤ size) :
    ((List.range n).map fun i => cache (rd + i)) = Ring.read cache size rd n := by
  unfold Ring.read
  apply List.map_congr_left
  intro i hi
  rw [Nat.mod_eq_of_lt]
  have := List.mem_range.1 hi
  omega

theorem loopLook_inHand (hfit : used < size) (hrd : rd < size) (hwt : wt = (rd + used) % size) :
    (loopLook size rd wt).InHand size rd 0 used := by
  have hpos : 0 < writeBlockSize := by decide
  have hlt : wt < size := by
    rw [hwt]
    exact Nat.mod_lt _ (by omega)
  have hblocks : ∀ m, 0 < m / writeBlockSize → 0 < writeBlockSize * (m / writeBlockSize) ∧
      writeBlockSize * (m / writeBlockSize) ≤ m := fun m hm =>
    ⟨Nat.mul_pos hpos hm, Nat.mul_div_le m writeBlockSize⟩
  have hmod : ∀ n, rd + n < size → rd + n = (rd + n) % size := fun n hn =>
    (Nat.mod_eq_of_lt hn).symm
  unfold loopLook
  dsimp only
  rcases used_eq hfit hrd hwt with ⟨hle, he⟩ | ⟨hlt', he⟩
  · rw [if_pos hle]
    split
    · rename_i hk
      obtain ⟨h0, h1⟩ := hblocks _ hk
      exact ⟨rfl, rfl, h0, by omega, by omega, hmod _ (by omega), fun _ => rfl, nofun, nofun⟩
    · rfl
  · rw [if_neg (by omega)]
    split
    · rename_i hk
      obtain ⟨h0, h1⟩ := hblocks _ hk
      refine ⟨rfl, rfl, h0, by omega, by omega, ?_, fun _ => rfl, nofun, nofun⟩
      split
      · rename_i hend
        rw [hend, Nat.mod_self]
      · exact hmod _ (by omega)
    · refine ⟨rfl, rfl, by omega, by omega, by omega, ?_, fun _ => rfl, nofun, nofun⟩
      rw [Nat.add_sub_cancel' (by omega), Nat.mod_self]

theorem lookAll_inHand {stage : Stage} (hstage : stage ≠ .loop) (hfit : used < size)
    (hrd : rd < size) (hwt : wt = (rd + used) % size) :
    (lookAll stage size rd wt).InHand size rd 0 used := by
  have hlt : wt < size := by
    rw [hwt]
    exact Nat.mod_lt _ (by omega)
  unfold lookAll
  rcases used_eq hfit hrd hwt with ⟨hle, he⟩ | ⟨hlt', he⟩
  · rw [if_pos hle]
    split
    · refine ⟨rfl, rfl, by omega, by omega, by omega, ?_, fun h => absurd h hstage,
        fun _ => by omega, nofun⟩
      exact (Nat.mod_eq_of_lt (by omega)).symm
    · cases stage with
      | loop => exact absurd rfl hstage
      | flush => exact ⟨rfl, by omega⟩
      | exit => rfl
  · rw [if_neg (by omega), if_pos (by omega)]
    refine ⟨rfl, rfl, by omega, by omega, by omega, ?_, fun h => absurd h hstage,
      fun _ => by omega, fun _ => rfl⟩
    rw [Nat.add_sub_cancel' (by omega), Nat.mod_self]

theorem Data.fits_of_free (h : Data s lag used) (hpos : 0 < s.ctx.cacheSize) :
    lag + used < s.ctx.cacheSize ∧ s.ctx.readPtr < s.ctx.cacheSize := by
  rcases h.fits with hf | ⟨hz, -⟩
  · exact hf
  · omega

/-- The thread has nothing in hand for a flush or the exit while the muxer writes. -/
theorem Control.stage_loop (h : Control s) (hf : s.client.flushes = false)
    (he : s.client.exits = false) :
    s.thread.flushes = false ∧ s.thread.exits = false ∧ s.ctx.flushDoneSem = 0 := by
  have hawaits : s.client.awaits = false := by
    cases hc : s.client <;> simp_all [Client.flushes, Client.awaits]
  obtain ⟨h1, h2, h3, h4, h5, h6, h7⟩ := h
  grind

/-- What the thread has in hand for its loop does not depend on what lies behind. -/
theorem Thread.InHand.mono {t : Thread} {readPtr used' : Nat}
    (h : t.InHand size readPtr lag used) (hle : used ≤ used') (hf : t.flushes = false)
    (he : t.exits = false) : t.InHand size readPtr lag used' := by
  cases t with
  | hand stage rd n newRd rest =>
    obtain rfl : stage = .loop := by cases stage <;> simp_all [Thread.flushes, Thread.exits]
    obtain ⟨h1, h2, h3, h4, h5, h6, h7, -, h9⟩ := h
    exact ⟨h1, h2, h3, h4.trans hle, h5, h6, h7, nofun, h9⟩
  | store stage newRd rest =>
    obtain rfl : stage = .loop := by cases stage <;> simp_all [Thread.flushes, Thread.exits]
    obtain ⟨h1, h2, -, h4⟩ := h
    exact ⟨h1, h2, nofun, h4⟩
  | signal stage newRd rest =>
    obtain rfl : stage = .loop := by cases stage <;> simp_all [Thread.flushes, Thread.exits]
    obtain ⟨h1, h2, h3, -, h5⟩ := h
    exact ⟨h1, h2, h3, nofun, h5⟩
  | reset => cases hf
  | up => cases hf
  | _ => exact h

theorem Data.load (h : Data s lag used) (hc : s.client = .load buf)
    (hs : s.clientStep S = some s') : Data s' lag used := by
  have hne : buf ≠ [] := by
    have := h.client
    rwa [hc] at this
  have hlen := List.length_pos_of_ne_nil hne
  simp only [State.clientStep, hc] at hs
  split at hs
  · rename_i hroom
    cases hs
    have hpos : 0 < s.ctx.cacheSize := by
      rcases h.fits with ⟨hf, -⟩ | ⟨hsize, hrd, rfl, rfl⟩
      · omega
      · have hwt := h.writePtr
        rw [hrd, hsize] at hwt
        rw [hsize, hrd, hwt] at hroom
        change buf.length ≤ 0 at hroom
        omega
    obtain ⟨hfit, hrd⟩ := h.fits_of_free hpos
    have hwt := h.writePtr
    rw [Nat.add_assoc] at hwt
    obtain ⟨hfree, hnext⟩ := freeSections_spec hfit hrd hwt
    obtain ⟨hnew, hpieces⟩ := hnext _ hroom
    have hspace : lag + used + (freeSections s.ctx.cacheSize s.ctx.readPtr s.ctx.writePtr).2 <
        s.ctx.cacheSize := by omega
    exact { h with client := ⟨rfl, hspace, hroom, hnew, hpieces⟩ }
  · cases hs
    exact { h with client := hne }

theorem Data.copy {section2 newWt freeSize : Nat} (h : Data s lag used)
    (hc : s.client = .copy buf wt section2 newWt freeSize) (hs : s.clientStep S = some s') :
    Data s' lag used := by
  have hin := h.client
  rw [hc] at hin
  obtain ⟨rfl, hfree, hlen, hnew, hpieces⟩ := hin
  obtain ⟨hfit, hrd⟩ := h.fits_of_free (by omega)
  have hplace := @place_eq _ _ _ _ s.ctx.cache _ hpieces (by omega)
  have hring : Ring.write s.ctx.cache s.ctx.cacheSize s.ctx.writePtr buf =
      Ring.write s.ctx.cache s.ctx.cacheSize (s.ctx.readPtr + lag + used) buf := by
    rw [h.writePtr, Ring.write_mod]
  have hdisj : Disjoint (Ring.region s.ctx.cacheSize (s.ctx.readPtr + lag) used)
      (Ring.region s.ctx.cacheSize (s.ctx.readPtr + lag + used) buf.length) :=
    Ring.disjoint_region le_rfl (by omega)
  simp only [State.clientStep, hc, hplace] at hs
  cases hs
  refine { h with content := ?_, client := ⟨hfree, hlen, hnew, ?_⟩ }
  · dsimp only
    rw [hring, Ring.read_write_of_disjoint hdisj]
    exact h.content
  · exact Ring.read_write (by omega)

/-- The bytes copied are the next ones in the ring. -/
theorem Data.publish {newWt freeSize : Nat} (h : Data s lag used) (hctl : Control s)
    (hc : s.client = .publish buf newWt freeSize) (hs : s.clientStep S = some s') :
    Data s' lag (used + buf.length) := by
  have hin := h.client
  rw [hc] at hin
  obtain ⟨hfree, hlen, hnew, hread⟩ := hin
  obtain ⟨hfit, hrd⟩ := h.fits_of_free (by omega)
  obtain ⟨hflush, hexit, hsem⟩ := hctl.stage_loop (by rw [hc]; rfl) (by rw [hc]; rfl)
  simp only [State.clientStep, hc] at hs
  cases hs
  refine ⟨.inl ⟨by dsimp only; omega, hrd⟩, ?_, ?_, ?_, trivial, ?_⟩
  · dsimp only
    rw [hnew, h.writePtr, Nat.mod_add_mod, Nat.add_assoc _ used]
  · dsimp only
    rw [Ring.read_add, ← List.append_assoc, h.content, ← Ring.read_mod, ← h.writePtr, hread]
  · exact h.thread.mono (Nat.le_add_right _ _) hflush hexit
  · intro hdone
    dsimp only at hdone
    omega

theorem Data.flush {c : Call β} (h : Data s lag used) (hc : s.client = .flush c)
    (hs : s.clientStep S = some s') : Data s' lag used := by
  simp only [State.clientStep, hc] at hs
  split at hs
  · rename_i he
    cases hs
    refine { h with client := ⟨rfl, ?_⟩ }
    rcases h.fits with ⟨hf, hrd⟩ | ⟨-, -, hlag, hused⟩
    · have hwt := h.writePtr
      rw [Nat.add_assoc] at hwt
      have := used_eq hf hrd hwt
      omega
    · exact ⟨hlag, hused⟩
  · cases hs
    exact { h with client := trivial }

theorem Data.flushDown {c : Call β} (h : Data s lag used) (hc : s.client = .flushDown c)
    (hs : s.clientStep S = some s') : Data s' lag used := by
  simp only [State.clientStep, hc] at hs
  split at hs
  · cases hs
  · rename_i hsem
    cases hs
    have hempty := h.flushed (by omega)
    exact { h with client := hempty, flushed := fun _ => hempty }

theorem Data.flushCheck {c : Call β} (h : Data s lag used) (hc : s.client = .flushCheck c)
    (hs : s.clientStep S = some s') : Data s' lag used := by
  have hempty := h.client
  rw [hc] at hempty
  obtain ⟨rfl, rfl⟩ := hempty
  have heq : s.ctx.readPtr = s.ctx.writePtr := by
    rw [h.writePtr]
    rcases h.fits with ⟨-, hrd⟩ | ⟨hsize, hrd, -, -⟩
    · exact (Nat.mod_eq_of_lt hrd).symm
    · rw [hrd, hsize]
  simp only [State.clientStep, hc] at hs
  cases hs
  exact { h with client := ⟨if_neg (not_not.2 heq), rfl, rfl⟩ }

theorem Data.clientStep (h : Data s lag used) (hctl : Control s)
    (hs : s.clientStep S = some s') : ∃ used', Data s' lag used' := by
  cases hc : s.client with
  | idle => simp [State.clientStep, hc] at hs
  | wait buf => simp [State.clientStep, hc] at hs
  | destroyed => simp [State.clientStep, hc] at hs
  | load buf => exact ⟨used, h.load hc hs⟩
  | copy buf wt section2 newWt freeSize => exact ⟨used, h.copy hc hs⟩
  | publish buf newWt freeSize => exact ⟨_, h.publish hctl hc hs⟩
  | flush c => exact ⟨used, h.flush hc hs⟩
  | flushDown c => exact ⟨used, h.flushDown hc hs⟩
  | flushCheck c => exact ⟨used, h.flushCheck hc hs⟩
  | after c r =>
    obtain ⟨stream, -, -, -, hfin⟩ := finish_eq (S := S) (s := s) c r
    simp only [State.clientStep, hc, hfin] at hs
    cases hs
    exact ⟨used, { h with client := trivial }⟩
  | kick buf =>
    have hne := h.client
    rw [hc] at hne
    simp only [State.clientStep, hc] at hs
    cases hs
    exact ⟨used, { h with client := hne }⟩
  | enter buf =>
    have hne := h.client
    rw [hc] at hne
    simp only [State.clientStep, hc] at hs
    cases hs
    exact ⟨used, { h with client := hne }⟩
  | flushLock c =>
    simp only [State.clientStep, hc] at hs
    split at hs
    · cases hs
    · cases hs
      exact ⟨used, { h with client := trivial }⟩
  | exitJoin =>
    simp only [State.clientStep, hc] at hs
    split at hs
    · cases hs
      exact ⟨used, { h with client := trivial }⟩
    · cases hs
  | _ =>
    simp only [State.clientStep, hc] at hs
    cases hs
    exact ⟨used, { h with client := trivial }⟩

/-- The ring, as a look at it sees it. -/
theorem Data.ring (h : Data s 0 used) :
    used < s.ctx.cacheSize ∧ s.ctx.readPtr < s.ctx.cacheSize ∧
        s.ctx.writePtr = (s.ctx.readPtr + used) % s.ctx.cacheSize ∨
      s.ctx.cacheSize = 0 ∧ s.ctx.readPtr = 0 ∧ s.ctx.writePtr = 0 ∧ used = 0 := by
  have hwt := h.writePtr
  rw [Nat.add_zero] at hwt
  rcases h.fits with ⟨hfit, hrd⟩ | ⟨hsize, hrd, -, rfl⟩
  · rw [Nat.zero_add] at hfit
    exact .inl ⟨hfit, hrd, hwt⟩
  · rw [hrd, hsize] at hwt
    exact .inr ⟨hsize, hrd, hwt, rfl⟩

theorem Data.loop (h : Data s lag used) (ht : s.thread = .loop) (hs : s.threadStep S = some s') :
    Data s' lag used := by
  have hin := h.thread
  rw [ht] at hin
  obtain rfl : lag = 0 := hin
  simp only [State.threadStep, ht] at hs
  cases hs
  refine { h with thread := ?_ }
  rcases h.ring with ⟨hfit, hrd, hwt⟩ | ⟨hsize, hrd, hwt, rfl⟩
  · exact loopLook_inHand hfit hrd hwt
  · dsimp only
    rw [hsize, hrd, hwt]
    rfl

theorem Data.look {stage : Stage} (h : Data s 0 used) (hstage : stage ≠ .loop) :
    (lookAll stage s.ctx.cacheSize s.ctx.readPtr s.ctx.writePtr).InHand s.ctx.cacheSize
      s.ctx.readPtr 0 used := by
  rcases h.ring with ⟨hfit, hrd, hwt⟩ | ⟨hsize, hrd, hwt, rfl⟩
  · exact lookAll_inHand hstage hfit hrd hwt
  · rw [hsize, hrd, hwt]
    cases stage with
    | loop => exact absurd rfl hstage
    | flush => exact ⟨rfl, rfl⟩
    | exit => rfl

/-- Bytes in use go to the stream. -/
theorem Data.hand {stage : Stage} {newRd rest : Nat} (h : Data s lag used)
    (ht : s.thread = .hand stage rd n newRd rest) (hs : s.threadStep S = some s') :
    Data s' n (used - n) := by
  have hin := h.thread
  rw [ht] at hin
  obtain ⟨rfl, rfl, hn0, hn, hend, hnew, hloop, hall, hrest⟩ := hin
  have hpos : 0 < s.ctx.cacheSize := by omega
  obtain ⟨hfit, hrd⟩ := h.fits_of_free hpos
  have hsum : n + (used - n) = used := by omega
  -- nobody waits for a flush that is over while there are bytes
  have hbusy : ¬(0 = 0 ∧ used = 0) := by omega
  simp only [State.threadStep, ht] at hs
  cases hs
  refine ⟨.inl ⟨by dsimp only; omega, hrd⟩, ?_, ?_, ⟨hnew, hloop, ?_, hrest⟩, ?_, ?_⟩
  · dsimp only
    rw [h.writePtr]
    congr 1
    omega
  · dsimp only
    rw [slice_eq hend, List.append_assoc, ← Ring.read_add, hsum]
    exact h.content
  · intro hne
    have := hall hne
    omega
  · have hcl := h.client
    dsimp only
    generalize s.client = c at hcl ⊢
    cases c with
    | copy buf wt section2 newWt freeSize =>
      obtain ⟨h1, h2, h3⟩ := hcl
      exact ⟨h1, by omega, h3⟩
    | publish buf newWt freeSize =>
      obtain ⟨h1, h2⟩ := hcl
      exact ⟨by omega, h2⟩
    | flushCheck c => exact absurd hcl hbusy
    | after c r => exact absurd hcl.2 hbusy
    | _ => exact hcl
  · intro hdone
    exact absurd (h.flushed hdone) hbusy

theorem Data.store {stage : Stage} {newRd rest : Nat} (h : Data s lag used)
    (ht : s.thread = .store stage newRd rest) (hs : s.threadStep S = some s') :
    Data s' 0 used := by
  have hin := h.thread
  rw [ht] at hin
  obtain ⟨hnew, hloop, hall, hrest⟩ := hin
  simp only [State.threadStep, ht] at hs
  cases hs
  have hcont : Ring.read s.ctx.cache s.ctx.cacheSize (newRd + 0) used =
      Ring.read s.ctx.cache s.ctx.cacheSize (s.ctx.readPtr + lag) used := by
    rw [Nat.add_zero, hnew, Ring.read_mod]
  refine ⟨?_, ?_, ?_, ⟨rfl, rfl, hloop, hall, hrest⟩, ?_, ?_⟩
  · rcases h.fits with ⟨hfit, hrd⟩ | ⟨hsize, hrd, rfl, rfl⟩
    · refine .inl ⟨by dsimp only; omega, ?_⟩
      dsimp only
      rw [hnew]
      exact Nat.mod_lt _ (by omega)
    · refine .inr ⟨hsize, ?_, rfl, rfl⟩
      dsimp only
      rw [hnew, hsize, hrd]
  · dsimp only
    rw [h.writePtr, Nat.add_zero, hnew, Nat.mod_add_mod]
  · dsimp only
    rw [hcont]
    exact h.content
  · have hcl := h.client
    dsimp only
    generalize s.client = c at hcl ⊢
    cases c with
    | copy buf wt section2 newWt freeSize =>
      obtain ⟨h1, h2, h3⟩ := hcl
      exact ⟨h1, by omega, h3⟩
    | publish buf newWt freeSize =>
      obtain ⟨h1, h2⟩ := hcl
      exact ⟨by omega, h2⟩
    | flushCheck c => exact ⟨rfl, hcl.2⟩
    | after c r => exact ⟨hcl.1, rfl, hcl.2.2⟩
    | _ => exact hcl
  · intro hdone
    exact ⟨rfl, (h.flushed hdone).2⟩

theorem Data.signal {stage : Stage} {newRd rest : Nat} (h : Data s lag used)
    (ht : s.thread = .signal stage newRd rest) (hs : s.threadStep S = some s') :
    Data s' lag used := by
  have hin := h.thread
  rw [ht] at hin
  obtain ⟨rfl, rfl, hloop, hall, hrest⟩ := hin
  simp only [State.threadStep, ht] at hs
  cases hs
  refine { h with thread := ?_, client := ?_ }
  · by_cases hr : 0 < rest
    · have hne : stage ≠ .loop := by
        intro he
        have := hloop he
        omega
      have hused := hall hne
      have hzero := hrest hr
      have hfit : used < s.ctx.cacheSize := by
        rcases h.fits with ⟨hfit, -⟩ | ⟨-, -, -, hu⟩ <;> omega
      dsimp only
      rw [if_pos hr]
      refine ⟨rfl, rfl, hr, by omega, by omega, ?_, fun he => absurd he hne, fun _ => by omega,
        nofun⟩
      exact (Nat.mod_eq_of_lt (by omega)).symm
    · dsimp only
      rw [if_neg hr]
      cases stage with
      | loop => rfl
      | flush =>
        have := hall nofun
        exact ⟨rfl, by omega⟩
      | exit => rfl
  · have hcl := h.client
    dsimp only
    generalize s.client = c at hcl ⊢
    cases c <;> exact hcl

/-- After a flush the pointers go back to the start. -/
theorem Data.reset (h : Data s lag used) (hctl : Control s) (ht : s.thread = .reset)
    (hs : s.threadStep S = some s') : Data s' lag used := by
  have hin := h.thread
  rw [ht] at hin
  obtain ⟨rfl, rfl⟩ := hin
  have hawaits := (hctl.flushing (by rw [ht]; rfl)).1
  have heq : s.ctx.readPtr = s.ctx.writePtr := by
    rcases h.ring with ⟨-, hrd, hwt⟩ | ⟨-, hrd, hwt, -⟩
    · rw [hwt, Nat.add_zero, Nat.mod_eq_of_lt hrd]
    · rw [hrd, hwt]
  simp only [State.threadStep, ht, if_pos heq] at hs
  cases hs
  refine ⟨?_, ?_, ?_, ⟨rfl, rfl⟩, ?_, fun _ => ⟨rfl, rfl⟩⟩
  · rcases h.fits with ⟨hfit, hrd⟩ | ⟨hsize, -, -, -⟩
    · exact .inl ⟨hfit, by dsimp only; omega⟩
    · exact .inr ⟨hsize, rfl, rfl, rfl⟩
  · exact (Nat.zero_mod _).symm
  · exact h.content
  · dsimp only
    generalize s.client = c at hawaits ⊢
    cases c with
    | flushDown c => trivial
    | _ => cases hawaits

theorem Data.threadStep (h : Data s lag used) (hctl : Control s)
    (hs : s.threadStep S = some s') : ∃ lag' used', Data s' lag' used' := by
  cases ht : s.thread with
  | loop => exact ⟨_, _, h.loop ht hs⟩
  | hand stage rd n newRd rest => exact ⟨_, _, h.hand ht hs⟩
  | store stage newRd rest => exact ⟨_, _, h.store ht hs⟩
  | signal stage newRd rest => exact ⟨_, _, h.signal ht hs⟩
  | reset => exact ⟨_, _, h.reset hctl ht hs⟩
  | down =>
    have hin := h.thread
    rw [ht] at hin
    simp only [State.threadStep, ht] at hs
    split at hs
    · cases hs
    · cases hs
      exact ⟨lag, used, { h with thread := hin }⟩
  | lock =>
    have hin := h.thread
    rw [ht] at hin
    simp only [State.threadStep, ht] at hs
    split at hs
    · cases hs
    · cases hs
      exact ⟨lag, used, { h with thread := hin }⟩
  | flag =>
    have hin := h.thread
    rw [ht] at hin
    simp only [State.threadStep, ht] at hs
    cases hs
    refine ⟨lag, used, { h with thread := ?_ }⟩
    dsimp only
    split <;> exact hin
  | exit =>
    have hin := h.thread
    rw [ht] at hin
    simp only [State.threadStep, ht] at hs
    cases hs
    refine ⟨lag, used, { h with thread := ?_ }⟩
    dsimp only
    split <;> exact hin
  | flushLook =>
    have hin := h.thread
    rw [ht] at hin
    obtain rfl : lag = 0 := hin
    simp only [State.threadStep, ht] at hs
    cases hs
    exact ⟨0, used, { h with thread := h.look nofun }⟩
  | exitLook =>
    have hin := h.thread
    rw [ht] at hin
    obtain rfl : lag = 0 := hin
    simp only [State.threadStep, ht] at hs
    cases hs
    exact ⟨0, used, { h with thread := h.look nofun }⟩
  | up =>
    have hin := h.thread
    rw [ht] at hin
    simp only [State.threadStep, ht] at hs
    cases hs
    exact ⟨lag, used, { h with thread := hin.1, flushed := fun _ => hin }⟩
  | clear =>
    have hin := h.thread
    rw [ht] at hin
    simp only [State.threadStep, ht] at hs
    cases hs
    exact ⟨lag, used, { h with thread := hin }⟩
  | unlock =>
    have hin := h.thread
    rw [ht] at hin
    simp only [State.threadStep, ht] at hs
    cases hs
    exact ⟨lag, used, { h with thread := hin }⟩
  | done => simp [State.threadStep, ht] at hs

end

/-! ## Whole runs -/

/-- The bytes of a write whose pointer is moved and that has not returned. -/
def Client.published : Client β → List β
  | notify buf _ => buf
  | _ => []

/-- The call for which the muxer flushes, or has flushed. -/
def Client.flushesFor : Client β → Option (Call β)
  | flush c | flushLock c | flushSet c | flushUp c | flushUnlock c | flushDown c | flushCheck c
  | after c _ => some c
  | _ => none

/-- The events say the same of the stream and of the muxer as the ghosts do. -/
structure Told (s : State σ β) : Prop where
  written : s.ctx.stream.writeError ≠ EIO → written s.ctx.stream.events = s.handed
  taken : taken s.ctx.stream.events ++ s.client.published = s.accepted
  call : ∀ buf, s.client.flushesFor ≠ some (.write buf)

/-- How many bytes the thread has handed over behind which it has not moved the
read pointer. -/
def State.lag (s : State σ β) : Nat :=
  match s.thread with
  | .store _ newRd _ => (newRd + s.ctx.cacheSize - s.ctx.readPtr) % s.ctx.cacheSize
  | _ => 0

/-- How many bytes there are from the read pointer to the write pointer. -/
def State.used (s : State σ β) : Nat :=
  (s.ctx.writePtr + s.ctx.cacheSize - s.ctx.readPtr) % s.ctx.cacheSize

section

variable {S : StreamOps σ β} {s s' : State σ β} {i : Input β} {lag used size rd wt n p : Nat}
  {cache : Nat → β} {buf : List β}

/-- The distance of two pointers. -/
theorem sub_mod_size (hrd : rd < size) (hn : n < size) :
    ((rd + n) % size + size - rd) % size = n := by
  rcases Nat.lt_or_ge (rd + n) size with hlt | hge
  · rw [Nat.mod_eq_of_lt hlt, show rd + n + size - rd = n + size by omega, Nat.add_mod_right,
      Nat.mod_eq_of_lt hn]
  · have hmod : (rd + n) % size = rd + n - size := by
      rw [Nat.mod_eq_sub_mod hge, Nat.mod_eq_of_lt (by omega)]
    rw [hmod, show rd + n - size + size - rd = n by omega, Nat.mod_eq_of_lt hn]

theorem Data.lag_eq (h : Data s lag used) : s.lag = lag := by
  have hin := h.thread
  unfold State.lag
  cases ht : s.thread with
  | store stage newRd rest =>
    rw [ht] at hin
    dsimp only
    rw [hin.1]
    rcases h.fits with ⟨hfit, hrd⟩ | ⟨hsize, hrd, rfl, -⟩
    · exact sub_mod_size hrd (by omega)
    · rw [hsize, hrd]
  | _ =>
    rw [ht] at hin
    first
      | exact hin.symm
      | exact hin.1.symm

theorem Data.used_eq (h : Data s lag used) : s.used = lag + used := by
  unfold State.used
  rw [h.writePtr]
  rcases h.fits with ⟨hfit, hrd⟩ | ⟨hsize, hrd, rfl, rfl⟩
  · rw [Nat.add_assoc]
    exact sub_mod_size hrd hfit
  · rw [hsize, hrd]

theorem Data.next (h : Data s lag used) (hctl : Control s) (hs : next S s i = some s') :
    ∃ lag' used', Data s' lag' used' := by
  cases i with
  | client => exact ⟨lag, h.clientStep hctl hs⟩
  | thread => exact h.threadStep hctl hs
  | call c =>
    obtain ⟨-, ⟨-, rfl⟩ | ⟨buf, -, hne, rfl⟩ | ⟨-, rfl⟩⟩ := call_cases hs
    · exact ⟨lag, used, { h with client := trivial }⟩
    · exact ⟨lag, used, { h with client := hne }⟩
    · exact ⟨lag, used, { h with client := trivial }⟩
  | destroy =>
    obtain ⟨-, rfl⟩ := destroy_cases hs
    exact ⟨lag, used, { h with client := trivial }⟩
  | wake =>
    obtain ⟨buf, hc, rfl⟩ := wake_cases hs
    have hne := h.client
    rw [hc] at hne
    exact ⟨lag, used, { h with client := hne }⟩

theorem Told.threadStep (h : Told s) (hs : s.threadStep S = some s') : Told s' := by
  cases ht : s.thread with
  | hand stage rd n newRd rest =>
    simp only [State.threadStep, ht] at hs
    cases hs
    refine { h with written := ?_, taken := ?_ }
    · intro he
      dsimp only at he ⊢
      rcases fileWriter_events S s.ctx.stream ((List.range n).map fun i => s.ctx.cache (rd + i)) with
        ⟨heio, hsame⟩ | ⟨hne, hev⟩
      · rw [hsame] at he
        exact absurd heio he
      · rw [hev, FsWriter.written, h.written hne]
    · have htaken := h.taken
      dsimp only
      rcases fileWriter_events S s.ctx.stream ((List.range n).map fun i => s.ctx.cache (rd + i)) with
        ⟨-, hsame⟩ | ⟨-, hev⟩
      · rw [hsame]
        exact htaken
      · rw [hev]
        exact htaken
  | signal stage newRd rest =>
    simp only [State.threadStep, ht] at hs
    cases hs
    have htaken := h.taken
    have hcall := h.call
    refine { h with taken := ?_, call := ?_ }
    · dsimp only
      generalize s.client = c at htaken ⊢
      cases c <;> exact htaken
    · dsimp only
      generalize s.client = c at hcall ⊢
      cases c with
      | wait buf => exact nofun
      | _ => exact hcall
  | _ =>
    simp only [State.threadStep, ht] at hs
    grind [Told]

theorem Told.clientStep (h : Told s) (hs : s.clientStep S = some s') : Told s' := by
  obtain ⟨hw, ht, hcall⟩ := h
  cases hc : s.client with
  | after c r =>
    rw [hc] at ht hcall
    obtain ⟨stream, r', herr, hev, hfin⟩ := finish_eq (S := S) (s := s) c r
    simp only [State.clientStep, hc, hfin] at hs
    cases hs
    refine ⟨?_, ?_, nofun⟩
    · intro he
      dsimp only at he ⊢
      rw [hev]
      exact hw (herr ▸ he)
    · dsimp only
      rw [hev, taken_ret fun buf he => hcall buf (congrArg some he)]
      exact ht
  | notify buf freeSize =>
    rw [hc] at ht
    simp only [State.clientStep, hc] at hs
    cases hs
    refine ⟨hw, ?_, nofun⟩
    change FsWriter.taken (.ret (.write buf) buf.length :: s.ctx.stream.events) ++ [] = s.accepted
    rw [taken_ret_write, List.append_nil]
    exact ht
  | _ =>
    simp only [State.clientStep, hc] at hs
    rw [hc] at ht
    apply Told.mk <;> grind [Client.flushesFor, Client.published]

theorem Told.next (h : Told s) (hs : next S s i = some s') : Told s' := by
  cases i with
  | client => exact h.clientStep hs
  | thread => exact h.threadStep hs
  | call c =>
    have htaken := h.taken
    obtain ⟨hc, ⟨rfl, rfl⟩ | ⟨buf, -, hne, rfl⟩ | ⟨hne, rfl⟩⟩ := call_cases hs
    · rw [hc] at htaken
      refine ⟨h.written, ?_, nofun⟩
      change (FsWriter.taken s.ctx.stream.events ++ []) ++ [] = s.accepted
      rw [List.append_nil]
      exact htaken
    · rw [hc] at htaken
      exact ⟨h.written, htaken, nofun⟩
    · rw [hc] at htaken
      exact ⟨h.written, htaken, fun buf he => hne buf (Option.some.inj he)⟩
  | destroy =>
    have htaken := h.taken
    obtain ⟨hc, rfl⟩ := destroy_cases hs
    rw [hc] at htaken
    exact ⟨h.written, htaken, nofun⟩
  | wake =>
    have htaken := h.taken
    obtain ⟨buf, hc, rfl⟩ := wake_cases hs
    rw [hc] at htaken
    exact ⟨h.written, htaken, nofun⟩

theorem init_control (stream : Stream σ β) (cache : Nat → β) (nCacheSize : Nat) :
    Control (initFsCacheThreadContext stream cache nCacheSize) :=
  ⟨rfl, nofun, nofun, nofun, fun _ _ => .inr (.inr ⟨rfl, rfl, rfl⟩), nofun, nofun⟩

theorem init_data (stream : Stream σ β) (cache : Nat → β) (nCacheSize : Nat) :
    Data (initFsCacheThreadContext stream cache nCacheSize) 0 0 := by
  refine ⟨?_, (Nat.zero_mod _).symm, rfl, rfl, trivial, fun _ => ⟨rfl, rfl⟩⟩
  rcases Nat.eq_zero_or_pos nCacheSize with h | h
  · exact .inr ⟨h, rfl, rfl, rfl⟩
  · exact .inl ⟨h, h⟩

theorem init_told (st : σ) (callback : Bool) (cache : Nat → β) (nCacheSize : Nat) :
    Told (initFsCacheThreadContext (.opened st callback) cache nCacheSize) :=
  ⟨fun _ => rfl, rfl, nofun⟩

/-- What the muxer does to the stream. -/
theorem clientStep_stream (hs : s.clientStep S = some s') :
    (∀ c r, s.client ≠ .after c r) ∧ s'.ctx.stream = s.ctx.stream ∨
      (∃ buf freeSize, s.client = .notify buf freeSize ∧
        s'.ctx.stream = s.ctx.stream.ret (.write buf) buf.length) ∨
      ∃ c r, s.client = .after c r ∧ s' = s.finish S c r := by
  cases hc : s.client with
  | after c r =>
    simp only [State.clientStep, hc] at hs
    cases hs
    exact .inr (.inr ⟨c, r, rfl, rfl⟩)
  | notify buf freeSize =>
    simp only [State.clientStep, hc] at hs
    cases hs
    exact .inr (.inl ⟨buf, freeSize, rfl, rfl⟩)
  | _ =>
    simp only [State.clientStep, hc] at hs
    grind

/-- What the thread does to the stream. -/
theorem threadStep_stream (hs : s.threadStep S = some s') :
    s'.ctx.stream = s.ctx.stream ∧ s'.handed = s.handed ∨
      ∃ buf, s'.ctx.stream = (fileWriter S s.ctx.stream buf).1 ∧ s'.handed = s.handed ++ buf := by
  cases ht : s.thread with
  | hand stage rd n newRd rest =>
    simp only [State.threadStep, ht] at hs
    cases hs
    exact .inr ⟨_, rfl, rfl⟩
  | _ =>
    simp only [State.threadStep, ht] at hs
    grind

/-- A flush returns once everything is handed over. -/
theorem Data.flush_ret {r : Int} (h : Data s lag used) (hs : FsWriter.next S s i = some s')
    (hev : s'.ctx.stream.events = .ret .flush r :: s.ctx.stream.events) :
    r = 0 ∧ s'.handed = s'.accepted := by
  have hself : s'.ctx.stream ≠ s.ctx.stream := by
    intro he
    rw [he] at hev
    exact List.cons_ne_self _ _ hev.symm
  cases i with
  | client =>
    rcases clientStep_stream hs with ⟨-, he⟩ | ⟨buf, freeSize, -, he⟩ | ⟨c, r', hc, rfl⟩
    · exact absurd he hself
    · rw [he] at hev
      injection hev with he
      cases he
    · have hin := h.client
      rw [hc] at hin
      obtain ⟨rfl, rfl, rfl⟩ := hin
      have hcontent := h.content
      rw [Ring.read, List.range_zero, List.map_nil, List.append_nil] at hcontent
      cases c with
      | flush =>
        injection hev with he
        injection he with _ he
        exact ⟨he.symm, hcontent⟩
      | _ =>
        injection hev with he
        cases he
  | thread =>
    rcases threadStep_stream hs with ⟨he, -⟩ | ⟨buf, he, -⟩
    · exact absurd he hself
    · rcases fileWriter_events S s.ctx.stream buf with ⟨-, hsame⟩ | ⟨-, hw⟩
      · exact absurd (he.trans hsame) hself
      · rw [he, hw] at hev
        injection hev with he
        cases he
  | call c =>
    obtain ⟨-, ⟨rfl, rfl⟩ | ⟨buf, -, -, rfl⟩ | ⟨-, rfl⟩⟩ := call_cases hs
    · injection hev with he
      cases he
    · exact absurd rfl hself
    · exact absurd rfl hself
  | destroy =>
    obtain ⟨-, rfl⟩ := destroy_cases hs
    exact absurd rfl hself
  | wake =>
    obtain ⟨buf, -, rfl⟩ := wake_cases hs
    exact absurd rfl hself

/-- What every step keeps. -/
structure Inv (s : State σ β) : Prop where
  control : Control s
  data : ∃ lag used, Data s lag used
  told : Told s

theorem Inv.next (h : Inv s) (hs : FsWriter.next S s i = some s') : Inv s' := by
  obtain ⟨hctl, ⟨lag, used, hd⟩, htold⟩ := h
  exact ⟨hctl.next hs, hd.next hctl hs, htold.next hs⟩

theorem inv_of_run {st : σ} {callback : Bool} {nCacheSize : Nat} {is : List (Input β)}
    (hr : (cacheThread S).run
      (initFsCacheThreadContext (.opened st callback) cache nCacheSize) is = some s) : Inv s := by
  have h0 : Inv (initFsCacheThreadContext (.opened st callback) cache nCacheSize) :=
    ⟨init_control _ _ _, ⟨0, 0, init_data _ _ _⟩, init_told _ _ _ _⟩
  exact Machine.run_keeps (fun _ _ _ h hs => h.next hs) h0 hr

/-- Over every run of the muxer and the thread, the bytes handed to the stream
and those in the ring are the bytes accepted, in order; the ring never fills up;
and a flush returns without an error once all of them are handed over. -/
theorem cacheThread_exact (S : StreamOps σ β) (st : σ) (callback : Bool) (cache : Nat → β)
    (nCacheSize : Nat) (is : List (Input β)) (s : State σ β)
    (hr : (cacheThread S).run
      (initFsCacheThreadContext (.opened st callback) cache nCacheSize) is = some s) :
    taken s.ctx.stream.events ++ s.client.published = s.accepted ∧
      (s.ctx.stream.writeError ≠ EIO → written s.ctx.stream.events = s.handed) ∧
      s.handed ++
        Ring.read s.ctx.cache s.ctx.cacheSize (s.ctx.readPtr + s.lag) (s.used - s.lag) =
          s.accepted ∧
      s.lag ≤ s.used ∧ s.used ≤ s.ctx.cacheSize - 1 ∧
      ∀ i s' r, next S s i = some s' →
        s'.ctx.stream.events = .ret .flush r :: s.ctx.stream.events →
          r = 0 ∧ s'.handed = s'.accepted := by
  obtain ⟨-, ⟨lag, used, hd⟩, htold⟩ := inv_of_run hr
  rw [hd.lag_eq, hd.used_eq, Nat.add_sub_cancel_left]
  refine ⟨htold.taken, htold.written, hd.content, Nat.le_add_right _ _, ?_, ?_⟩
  · rcases hd.fits with ⟨hfit, -⟩ | ⟨-, -, rfl, rfl⟩ <;> omega
  · intro i s' r hs hev
    exact hd.flush_ret hs hev
/-- Three bytes go into a ring of eight and are flushed. -/
def threeBytes : List (Input UInt8) :=
  [[.call (.write [1, 2, 3])], .replicate 4 .client, [.call .flush], .replicate 5 .client,
    .replicate 10 .thread, .replicate 2 .client].flatten

theorem cacheThread_exact_three :
    ∃ s, (cacheThread fileOps).run
        (initFsCacheThreadContext (.opened ⟨[], 0⟩ false) (fun _ => 0) 8) threeBytes = some s ∧
      s.client = .after .flush 0 ∧
      taken s.ctx.stream.events ++ s.client.published = s.accepted ∧
      s.handed ++
        Ring.read s.ctx.cache s.ctx.cacheSize (s.ctx.readPtr + s.lag) (s.used - s.lag) =
          s.accepted := by
  obtain ⟨s, hs, hc⟩ := Option.map_eq_some_iff.1
    (show ((cacheThread fileOps).run
      (initFsCacheThreadContext (.opened ⟨[], 0⟩ false) (fun _ => 0) 8) threeBytes).map
        (fun s => s.client) = some (.after .flush 0) by decide +kernel)
  have hex := cacheThread_exact fileOps ⟨[], 0⟩ false (fun _ => 0) 8 threeBytes s hs
  exact ⟨s, hs, hc, hex.1, hex.2.2.1⟩

end

end Melis.FsWriter
