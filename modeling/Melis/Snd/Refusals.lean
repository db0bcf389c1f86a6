import Melis.Snd.Control

/-!
# Refused calls

A call is refused where it returns at once with one of the errors that stand for a wrong state.
Under the lock this is read off from the errors of what is done there; the lock itself is
taken and released together (`locked_orderly`), except in `ksnd_pcm_hw_free`.
-/

namespace Melis.Snd

open Lib

variable {α β : Type} {c : Config α} {s s' : Substream α} {k k' k'' : Cpu α} {e : Env} {err : Errno}
  {ret : Ret} {pos : Nat}

/-- The errors for a wrong state; with `EPIPE` only where the stream had stopped before. -/
def Refusal (state : PcmState) (err : Errno) : Prop :=
  err = .EBADFD ∨ err = .EBUSY ∨ err = .ESTRPIPE ∨ err = .EPIPE ∧ state = .XRUN

/-- The state and both pointers are left. -/
structure Untouched (s s' : Substream α) : Prop where
  state : s'.state = s.state
  hw_ptr : s'.hw_ptr = s.hw_ptr
  appl_ptr : s'.appl_ptr = s.appl_ptr

/-- The lock was released as often as it was taken, and interrupts are as they were. -/
structure Balanced (k k' : Cpu α) : Prop where
  irq : k'.irq = k.irq
  count : k'.taken + k.released = k.taken + k'.released

/-- The call returned without a sleep. -/
def Op.atOnce : Op α → Prop
  | .drain turns => turns = []
  | .readi _ turns => turns = []
  | .writei _ turns => turns = []
  | _ => True

theorem Untouched.refl : Untouched s s := ⟨rfl, rfl, rfl⟩

theorem Balanced.refl : Balanced k k := ⟨rfl, rfl⟩

theorem Balanced.trans (h : Balanced k k') (h' : Balanced k' k'') : Balanced k k'' where
  irq := h'.irq.trans h.irq
  count := by
    have h1 := h.count
    have h2 := h'.count
    omega

/-! ## What is done under the lock -/

theorem update_state_error (h : (snd_pcm_update_state c s).2 = .error err) : err = .EPIPE := by
  unfold snd_pcm_update_state at h
  split_ifs at h
  all_goals cases h
  all_goals rfl

theorem update_hw_ptr0_error (h : (snd_pcm_update_hw_ptr0 c s pos).2 = .error err) :
    err = .EPIPE := by
  unfold snd_pcm_update_hw_ptr0 at h
  dsimp only at h
  split_ifs at h
  all_goals first
    | cases h
    | exact update_state_error h

theorem do_start_error {state : PcmState} {ok : Bool}
    (h : (snd_pcm_do_start c s state ok).2 = .error err) :
    (snd_pcm_do_start c s state ok).1 = s := by
  unfold snd_pcm_do_start at h ⊢
  dsimp only at h ⊢
  split_ifs at h ⊢
  all_goals rfl

theorem paused_error {push : Bool} (h : (snd_pcm_paused c s push pos).2 = .error err) :
    (snd_pcm_paused c s push pos).1 = s := by
  unfold snd_pcm_paused at h ⊢
  split_ifs at h ⊢
  all_goals rfl

/-- What the hardware's position comes to is no refusal. -/
theorem not_refusal_EPIPE {state : PcmState} (h : state ≠ .XRUN) : ¬ Refusal state .EPIPE := by
  rintro (h' | h' | h' | h')
  · cases h'
  · cases h'
  · cases h'
  · exact h h'.2

theorem update_not_refusal (h : s.state ≠ .XRUN)
    (herr : (snd_pcm_update_hw_ptr0 c s pos).2 = .error err) : ¬ Refusal s.state err := by
  rw [update_hw_ptr0_error herr]
  exact not_refusal_EPIPE h

theorem hw_sync_refused (h : (snd_pcm_hw_sync c s pos).2 = .error err) (hr : Refusal s.state err) :
    (snd_pcm_hw_sync c s pos).1 = s := by
  unfold snd_pcm_hw_sync at h ⊢
  split at h
  next hs =>
    split at h
    next hc => rw [if_pos hc]
    next => exact absurd hr (update_not_refusal (by rw [hs]; decide) h)
  next hs => exact absurd hr (update_not_refusal (by rw [hs]; decide) h)
  next => cases h
  next => rfl
  next => rfl
  next => rfl

theorem delay_refused (h : (delayFrames c s pos).2 = .error err) (hr : Refusal s.state err) :
    (delayFrames c s pos).1 = s := by
  have hupdate (hs : s.state ≠ .XRUN) : (snd_pcm_update_hw_ptr0 c s pos).2 ≠ .error err :=
    fun heq => update_not_refusal hs heq hr
  unfold delayFrames at h ⊢
  dsimp only at h ⊢
  split at h
  next hs =>
    split at h
    next hc => rw [if_pos hc]
    next =>
      split at h
      next => cases h
      next heq =>
        cases h
        exact absurd (congrArg Prod.snd heq) (hupdate (by rw [hs]; decide))
  next hs =>
    split at h
    next => cases h
    next heq =>
      cases h
      exact absurd (congrArg Prod.snd heq) (hupdate (by rw [hs]; decide))
  next => cases h
  next => cases h
  next => rfl
  next => rfl

theorem rewindFrames_ok {frames : Nat} : (rewindFrames c s frames).2 ≠ .error err := by
  unfold rewindFrames
  split_ifs
  all_goals nofun

theorem rewind_refused {frames : Nat} (h : (ksnd_pcm_rewind c s frames pos).2 = .error err)
    (hr : Refusal s.state err) : (ksnd_pcm_rewind c s frames pos).1 = s := by
  unfold ksnd_pcm_rewind at h ⊢
  dsimp only at h ⊢
  split at h
  next hz => rw [if_pos hz]
  next hz =>
    rw [if_neg hz]
    split at h
    next => exact absurd h rewindFrames_ok
    next hs =>
      split at h
      next => exact absurd h rewindFrames_ok
      next =>
        split at h
        next => exact absurd h rewindFrames_ok
        next =>
          cases h
          exact absurd hr (not_refusal_EPIPE (by rw [hs]; decide))
    next hs =>
      split at h
      next => exact absurd h rewindFrames_ok
      next =>
        cases h
        exact absurd hr (not_refusal_EPIPE (by rw [hs]; decide))
    next => rfl
    next => rfl
    next => rfl

/-! ## Transfers -/

theorem endTransfer_untouched (err : Option Errno) : Untouched s (endTransfer c s 0 err) := by
  unfold endTransfer
  dsimp only
  rw [if_neg fun h => Nat.lt_irrefl 0 h.1]
  exact ⟨rfl, rfl, rfl⟩

theorem beginLoop_not_idle {data : List α} {size : Nat} :
    (beginLoop c s data size pos).pc ≠ .idle := nofun

/-- A write that is over at once has done nothing. -/
theorem lib_write_untouched {data : List α} (h : (snd_pcm_lib_write c s data e).pc = .idle) :
    Untouched s (snd_pcm_lib_write c s data e) := by
  unfold snd_pcm_lib_write at h ⊢
  split
  next => exact ⟨rfl, rfl, rfl⟩
  next hne =>
    rw [if_neg hne] at h
    split at h
    next => exact absurd h beginLoop_not_idle
    next => exact absurd h beginLoop_not_idle
    next => exact absurd h beginLoop_not_idle
    next => exact endTransfer_untouched _
    next => exact endTransfer_untouched _
    next => exact endTransfer_untouched _

theorem lib_read_untouched {size : Nat} (h : (snd_pcm_lib_read c s size e).pc = .idle) :
    Untouched s (snd_pcm_lib_read c s size e) := by
  unfold snd_pcm_lib_read at h ⊢
  split
  next => exact ⟨rfl, rfl, rfl⟩
  next hne =>
    rw [if_neg hne] at h
    split at h
    next =>
      split at h
      next hstart =>
        rw [if_pos hstart]
        split at h
        next => exact absurd h beginLoop_not_idle
        next s' err heq =>
          have hs : s' = s := by
            have hfst := do_start_error (congrArg Prod.snd heq)
            rw [heq] at hfst
            exact hfst
          subst hs
          exact endTransfer_untouched _
      next => exact absurd h beginLoop_not_idle
    next => exact absurd h beginLoop_not_idle
    next => exact absurd h beginLoop_not_idle
    next => exact absurd h beginLoop_not_idle
    next => exact endTransfer_untouched _
    next => exact endTransfer_untouched _
    next => exact endTransfer_untouched _

/-! ## The calls -/

/-- What is to be said of a call that returned. -/
structure Orderly (op : Op α) (k : Cpu α) (ret : Ret) (k' : Cpu α) : Prop where
  refused : op.atOnce → ∀ err, ret = .error (.errno err) → Refusal k.s.state err →
    Untouched k.s k'.s
  balanced : Balanced k k'

namespace Cpu

theorem locked_balanced {f : Config α → Substream α → Substream α × β} :
    Balanced k (k.locked f).2 := ⟨rfl, by simp only [locked, irqsave, irqrestore]; omega⟩

theorem irqrestore_balanced : Balanced k (k.irqsave.2.irqrestore k.irqsave.1) :=
  locked_balanced (f := fun _ s => (s, ()))

theorem set_state_balanced {state : PcmState} : Balanced k (k.snd_pcm_set_state state) :=
  locked_balanced

/-- The result is not one of the errors for a wrong state. -/
theorem orderly_of_balanced {op : Op α} (hret : ∀ err, ret = .error (.errno err) →
    ¬ Refusal k.s.state err) (h : Balanced k k') : Orderly op k ret k' where
  refused _ err herr hr := absurd hr (hret err herr)
  balanced := h

theorem orderly_of_untouched {op : Op α} (hs : Untouched k.s k'.s) (h : Balanced k k') :
    Orderly op k ret k' where
  refused _ _ _ _ := hs
  balanced := h

/-- An operation of the driver has failed. -/
theorem not_refusal_EDRV {state : PcmState} : ¬ Refusal state .EDRV := by
  rintro (h | h | h | h)
  · cases h
  · cases h
  · cases h
  · cases h.1

theorem setHwParams_orderly {cons params : PcmHwParams} {width : Nat}
    (h : k.setHwParams cons params width e = some (ret, k')) :
    Balanced k k' ∧ ∀ err, ret = .error (.errno err) → err = .EDRV := by
  unfold setHwParams at h
  split at h
  next => cases h
  next =>
    split at h
    next =>
      cases h
      exact ⟨set_state_balanced, nofun⟩
    next =>
      split at h
      next =>
        cases h
        refine ⟨set_state_balanced, fun err herr => ?_⟩
        cases herr
        rfl
      next =>
        obtain ⟨hw, -, heq⟩ := Option.map_eq_some_iff.1 h
        cases heq
        have hset := @set_state_balanced α { k with c := { k.c with hw, sw := hw.defaults } } .SETUP
        exact ⟨⟨hset.irq, hset.count⟩, nofun⟩

theorem hw_params_orderly {cons params : PcmHwParams} {width : Nat}
    (h : k.ksnd_pcm_hw_params cons params width e = some (ret, k')) :
    Orderly (.hw_params cons params width) k ret k' := by
  have hlock : Balanced k (k.locked fun _ s => (s, s.state)).2 := locked_balanced
  have hset : (k.locked fun _ s => (s, s.state)).2.setHwParams cons params width e =
      some (ret, k') → Orderly (.hw_params cons params width) k ret k' := by
    intro hset
    obtain ⟨hbal, herr⟩ := setHwParams_orderly hset
    refine orderly_of_balanced (fun err hret hr => ?_) (hlock.trans hbal)
    rw [herr err hret] at hr
    exact not_refusal_EDRV hr
  unfold ksnd_pcm_hw_params at h
  split at h
  next hk =>
    split at h
    next => exact hset (by rw [hk]; exact h)
    next => exact hset (by rw [hk]; exact h)
    next => exact hset (by rw [hk]; exact h)
    next =>
      cases h
      have hk2 : (k.locked fun _ s => (s, s.state)).2 = k' := congrArg Prod.snd hk
      rw [← hk2]
      exact orderly_of_untouched .refl hlock

/-- A call under the lock. -/
theorem lockedCall_orderly {op : Op α} {f : Config α → Substream α → Substream α × Except Errno β}
    {toRet : Except Errno β → Ret}
    (hret : ∀ r err, toRet r = .error (.errno err) → r = .error err)
    (hf : ∀ err, (f k.c k.s).2 = .error err → Refusal k.s.state err → (f k.c k.s).1 = k.s) :
    Orderly op k (k.lockedCall toRet f).1 (k.lockedCall toRet f).2 where
  refused _ err herr hr := by
    have hs : (k.lockedCall toRet f).2.s = k.s := hf err (hret _ _ herr) hr
    rw [hs]
    exact .refl
  balanced := locked_balanced

theorem ofUnit_eq {r : Except Errno Unit} (h : Ret.ofUnit r = .error (.errno err)) :
    r = .error err := by
  cases r with
  | ok => cases h
  | error e =>
    cases h
    rfl

theorem ofNat_eq {r : Except Errno Nat} (h : Ret.ofNat r = .error (.errno err)) :
    r = .error err := by
  cases r with
  | ok => cases h
  | error e =>
    cases h
    rfl

theorem start_orderly : Orderly .start k (k.ksnd_pcm_start e).1 (k.ksnd_pcm_start e).2 :=
  lockedCall_orderly (fun _ _ => ofUnit_eq) fun _ h _ => do_start_error h

theorem pause_orderly {enable : Bool} : Orderly (.pause enable) k (k.ksnd_pcm_pause enable e).1
    (k.ksnd_pcm_pause enable e).2 :=
  lockedCall_orderly (fun _ _ => ofUnit_eq) fun _ h _ => paused_error h

theorem delay_orderly : Orderly .delay k (k.ksnd_pcm_delay e).1 (k.ksnd_pcm_delay e).2 :=
  lockedCall_orderly (fun _ _ => ofNat_eq) fun _ => delay_refused

theorem rewind_orderly {frames : Nat} : Orderly (.rewind frames) k
    (k.ksnd_pcm_rewind frames e).1 (k.ksnd_pcm_rewind frames e).2 := by
  unfold ksnd_pcm_rewind
  split
  next => exact orderly_of_untouched .refl .refl
  next => exact lockedCall_orderly (fun _ _ => ofNat_eq) fun _ => rewind_refused

theorem restart_not_refusal (h : (restart c s).2 = .error err) : ¬ Refusal s.state err := by
  unfold restart at h
  split at h
  next hrun =>
    rw [update_state_error h]
    refine not_refusal_EPIPE fun hx => ?_
    simp [snd_pcm_running, hx] at hrun
  next => cases h

theorem sw_params_orderly {avail_min start_threshold stop_threshold silence_size : Nat} :
    Orderly (.sw_params avail_min start_threshold stop_threshold silence_size) k
      (k.ksnd_pcm_sw_params avail_min start_threshold stop_threshold silence_size).1
      (k.ksnd_pcm_sw_params avail_min start_threshold stop_threshold silence_size).2 := by
  unfold ksnd_pcm_sw_params
  dsimp only
  split
  next => exact orderly_of_untouched .refl irqrestore_balanced
  next =>
    split
    next => exact orderly_of_balanced nofun irqrestore_balanced
    next sw _ =>
      have hcall := locked_balanced (k := { k.irqsave.2.irqrestore k.irqsave.1 with
        c := { k.c with sw } }) (f := fun c s => ((restart c s).1, Ret.ofUnit (restart c s).2))
      refine orderly_of_balanced (fun err herr => ?_)
        (irqrestore_balanced.trans ⟨hcall.irq, hcall.count⟩)
      exact restart_not_refusal (ofUnit_eq herr)

theorem prepare_orderly : Orderly .prepare k (k.ksnd_pcm_prepare e).1 (k.ksnd_pcm_prepare e).2 := by
  unfold ksnd_pcm_prepare
  split
  next => exact orderly_of_untouched .refl .refl
  next =>
    split
    next => exact orderly_of_untouched .refl .refl
    next =>
      split
      next => exact orderly_of_untouched .refl .refl
      next =>
        have hreset : Balanced k (k.snd_pcm_do_reset e.pos) := locked_balanced
        dsimp only
        refine orderly_of_balanced nofun ?_
        have hset := @set_state_balanced α { k.snd_pcm_do_reset e.pos with
            s := { (k.snd_pcm_do_reset e.pos).s with
              appl_ptr := (k.snd_pcm_do_reset e.pos).s.hw_ptr, queue := [], reported := false } }
          .PREPARED
        exact hreset.trans ⟨hset.irq, hset.count⟩

theorem drop_orderly : Orderly .drop k k.ksnd_pcm_drop.1 k.ksnd_pcm_drop.2 := by
  unfold ksnd_pcm_drop
  split
  next => exact orderly_of_untouched .refl .refl
  next => exact orderly_of_balanced nofun locked_balanced

theorem hw_sync_orderly {op : Op α} : Orderly op k (k.snd_pcm_hw_sync e).1
    (k.snd_pcm_hw_sync e).2 :=
  lockedCall_orderly (fun _ _ => ofUnit_eq) fun _ => hw_sync_refused

theorem sync_ptr_orderly {a : SyncPtr} : Orderly (.sync_ptr a) k (k.ksnd_pcm_sync_ptr a e).1
    (k.ksnd_pcm_sync_ptr a e).2 := by
  have hsync : Orderly (.sync_ptr a) k (if a.hwsync then k.snd_pcm_hw_sync e else (.ok 0, k)).1
      (if a.hwsync then k.snd_pcm_hw_sync e else (.ok 0, k)).2 := by
    split
    next => exact hw_sync_orderly
    next => exact orderly_of_untouched .refl .refl
  unfold ksnd_pcm_sync_ptr
  generalize (if a.hwsync then k.snd_pcm_hw_sync e else (.ok 0, k)) = r at hsync ⊢
  obtain ⟨ret, k1⟩ := r
  dsimp only at hsync ⊢
  split
  next => exact hsync
  next n =>
    have hbal := hsync.balanced.trans irqrestore_balanced
    refine orderly_of_balanced nofun ?_
    split
    · split
      · exact ⟨hbal.irq, hbal.count⟩
      · exact ⟨hbal.irq, hbal.count⟩
    · split
      · exact ⟨hbal.irq, hbal.count⟩
      · exact ⟨hbal.irq, hbal.count⟩

/-- The loop of a drain gives back the lock it was called with. -/
theorem drainLoop_spec {turns : List (Substream α × Bool)} {cpsr : Bool}
    (h : k.drainLoop cpsr turns = some (ret, k')) :
    k'.irq = cpsr ∧ k'.taken + k.released + 1 = k.taken + k'.released ∧
      ∀ err, ret = .error (.errno err) → err = Errno.EIO := by
  induction turns generalizing k with
  | nil =>
    unfold drainLoop at h
    split at h
    next =>
      cases h
      exact ⟨rfl, Nat.add_assoc _ _ _, nofun⟩
    next => cases h
  | cons turn turns ih =>
    obtain ⟨s, tout⟩ := turn
    unfold drainLoop at h
    split at h
    next =>
      cases h
      exact ⟨rfl, Nat.add_assoc _ _ _, nofun⟩
    next =>
      dsimp only at h
      split at h
      next =>
        cases h
        refine ⟨rfl, ?_, fun err herr => ?_⟩
        · simp only [irqsave, irqrestore]
          omega
        · cases herr
          rfl
      next =>
        obtain ⟨hirq, hcount, herr⟩ := ih h
        refine ⟨hirq, ?_, herr⟩
        simp only [irqsave, irqrestore] at hcount
        omega

/-- A paused stream goes on before it is drained. -/
theorem resumed_spec {k1 : Cpu α} (h : k1 = if k.irqsave.2.s.state = .PAUSED then
      { k.irqsave.2 with s := (snd_pcm_paused k.irqsave.2.c k.irqsave.2.s false 0).1 }
      else k.irqsave.2) :
    k1.taken = k.taken + 1 ∧ k1.released = k.released ∧
      (k1.s = k.s ∨ k1.s.state = .RUNNING) := by
  subst h
  split
  next hpaused =>
    refine ⟨rfl, rfl, Or.inr ?_⟩
    simp [snd_pcm_paused, hpaused]
  next => exact ⟨rfl, rfl, Or.inl rfl⟩

theorem drain_orderly {turns : List (Substream α × Bool)}
    (h : k.ksnd_pcm_drain turns e = some (ret, k')) : Orderly (.drain turns) k ret k' := by
  unfold ksnd_pcm_drain at h
  dsimp only at h
  generalize hk1 : (if k.irqsave.2.s.state = .PAUSED then
    { k.irqsave.2 with s := (snd_pcm_paused k.irqsave.2.c k.irqsave.2.s false 0).1 }
    else k.irqsave.2) = k1 at h
  obtain ⟨htaken, hreleased, hs⟩ := resumed_spec hk1.symm
  split at h
  next hstate =>
    cases h
    have hsame : k1.s = k.s := hs.resolve_right fun hrun => by simp [hrun] at hstate
    refine orderly_of_untouched (hsame ▸ .refl) ⟨rfl, ?_⟩
    simp only [irqrestore]
    omega
  next =>
    obtain ⟨hirq, hcount, herr⟩ := drainLoop_spec h
    refine orderly_of_balanced (fun err hret hr => ?_) ⟨hirq, ?_⟩
    · rw [herr err hret] at hr
      rcases hr with hr | hr | hr | hr
      · cases hr
      · cases hr
      · cases hr
      · cases hr.1
    · dsimp only at hcount
      omega

theorem transfer_orderly {op : Op α} {turns : List (Input α)} (honce : op.atOnce → turns = [])
    (hs : s.pc = .idle → Untouched k.s s) (h : k.transfer s turns = some (ret, k')) :
    Orderly op k ret k' := by
  obtain ⟨s', hgo, heq⟩ := Option.map_eq_some_iff.1 h
  cases heq
  refine ⟨fun hop err herr hr => ?_, rfl, rfl⟩
  rw [honce hop, goOn] at hgo
  split at hgo
  next hidle =>
    cases hgo
    exact hs hidle
  next => cases hgo

theorem readi_orderly {size : Nat} {turns : List (Input α)}
    (h : k.ksnd_pcm_readi size turns e = some (ret, k')) : Orderly (.readi size turns) k ret k' := by
  unfold ksnd_pcm_readi at h
  split at h
  next =>
    cases h
    exact orderly_of_untouched .refl .refl
  next => exact transfer_orderly id lib_read_untouched h

theorem writei_orderly {data : List α} {turns : List (Input α)}
    (h : k.ksnd_pcm_writei data turns e = some (ret, k')) :
    Orderly (.writei data turns) k ret k' := by
  unfold ksnd_pcm_writei at h
  split at h
  next =>
    cases h
    exact orderly_of_untouched .refl .refl
  next => exact transfer_orderly id lib_write_untouched h

/-- Of a stream that is not set up or prepared, the lock is not released again. -/
theorem hw_free_spec : Orderly .hw_free k (k.ksnd_pcm_hw_free e).1 (k.ksnd_pcm_hw_free e).2 ↔
    k.s.state = .SETUP ∨ k.s.state = .PREPARED := by
  have hfree : k.s.state = .SETUP ∨ k.s.state = .PREPARED → k.ksnd_pcm_hw_free e =
      (if e.ok then .ok 0 else .error (.errno .EDRV),
        (k.irqsave.2.irqrestore k.irqsave.1).snd_pcm_set_state .OPEN) := by
    intro hstate
    unfold ksnd_pcm_hw_free irqsave
    dsimp only
    rcases hstate with hs | hs
    · rw [hs]
    · rw [hs]
  constructor
  · intro h
    by_contra hstate
    rw [not_or] at hstate
    have hkept : (k.ksnd_pcm_hw_free e).2 = k.irqsave.2 := by
      unfold ksnd_pcm_hw_free
      dsimp only
      split
      next hs => exact absurd hs hstate.1
      next hs => exact absurd hs hstate.2
      next => rfl
    have hcount := h.balanced.count
    rw [hkept] at hcount
    simp only [irqsave] at hcount
    omega
  · intro hstate
    rw [hfree hstate]
    refine orderly_of_balanced (fun err herr hr => ?_)
      (irqrestore_balanced.trans set_state_balanced)
    dsimp only at herr
    split at herr
    next => cases herr
    next =>
      cases herr
      exact not_refusal_EDRV hr

end Cpu

/-! ## The law -/

/-- A call that was refused has left the state and both pointers, and each that returned has
released the lock as often as it took it, except for a `hw_free` of a stream that is neither set up
nor prepared. -/
theorem ksnd_pcm_orderly_iff (op : Op α) (k : Cpu α) (e : Env) :
    (∀ ret k', ksnd_pcm op k e = some (ret, k') → Orderly op k ret k') ↔
      (op = .hw_free → k.s.state = .SETUP ∨ k.s.state = .PREPARED) := by
  have hpair : ∀ {op : Op α} {r : Ret × Cpu α}, Orderly op k r.1 r.2 →
      ∀ ret k', some r = some (ret, k') → Orderly op k ret k' := by
    rintro op r h ret k' heq
    cases heq
    exact h
  cases op with
  | hw_free =>
    have hrun : (∀ ret k', ksnd_pcm (.hw_free : Op α) k e = some (ret, k') →
        Orderly .hw_free k ret k') ↔
        Orderly .hw_free k (k.ksnd_pcm_hw_free e).1 (k.ksnd_pcm_hw_free e).2 :=
      ⟨fun h => h _ _ rfl, hpair⟩
    rw [hrun, Cpu.hw_free_spec]
    exact ⟨fun h _ => h, fun h => h rfl⟩
  | hw_params => exact iff_of_true (fun _ _ => Cpu.hw_params_orderly) nofun
  | sw_params => exact iff_of_true (hpair Cpu.sw_params_orderly) nofun
  | prepare => exact iff_of_true (hpair Cpu.prepare_orderly) nofun
  | start => exact iff_of_true (hpair Cpu.start_orderly) nofun
  | pause => exact iff_of_true (hpair Cpu.pause_orderly) nofun
  | drop => exact iff_of_true (hpair Cpu.drop_orderly) nofun
  | drain => exact iff_of_true (fun _ _ => Cpu.drain_orderly) nofun
  | delay => exact iff_of_true (hpair Cpu.delay_orderly) nofun
  | rewind => exact iff_of_true (hpair Cpu.rewind_orderly) nofun
  | sync_ptr => exact iff_of_true (hpair Cpu.sync_ptr_orderly) nofun
  | readi => exact iff_of_true (fun _ _ => Cpu.readi_orderly) nofun
  | writei => exact iff_of_true (fun _ _ => Cpu.writei_orderly) nofun

/-- Freeing a stream that runs leaves interrupts off. -/
theorem hw_free_running : let k : Cpu Nat := {
      c := { hw := ⟨.PLAYBACK, 2, 4, 1, by decide, by decide, by decide⟩
             sw := ⟨2, 4, 4, 0, .inl rfl⟩, silence := 0 }
      s := { opened (fun _ => 0) with state := .RUNNING }
      irq := true, taken := 0, released := 0 }
    ∃ ret k', ksnd_pcm .hw_free k {} = some (ret, k') ∧ k'.irq = false ∧ k'.taken = 1 ∧
      k'.released = 0 ∧ ¬ Orderly .hw_free k ret k' := by
  refine ⟨_, _, rfl, rfl, rfl, rfl, fun h => ?_⟩
  have hirq := h.balanced.irq
  cases hirq

end Melis.Snd
