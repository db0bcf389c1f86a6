import Melis.Mods.Install

/-!
# Calls do not disturb each other

Each call owns keys of the store: the slot of the id it works on, its control
block, its handle and the pages it has mapped. No two calls own the same key, and
what a call leaves behind follows from what it owns at its end.
-/

namespace Melis.Mods

open Lib Function

variable {vmem_delete : VmemDelete} {s s' : State} {t t' : Tid} {k : Key}

/-! ## What a call owns -/

/-- The control block a call works on. -/
def Pc.mcb : Pc → Option UInt32
  | .setSlot _ _ _ p | .initMcb _ _ _ p | .mallocName _ _ _ p | .section_ _ _ _ p _ => some p
  | .bitmap _ _ _ p _ | .undo _ _ p | .notify _ _ p | .unload _ _ p => some p
  | .clearSlot _ _ p | .unloadError _ p | .freeError p => p
  | .exit _ p | .destroy _ p | .free _ p => some p
  | _ => none

/-- The handle a call has open. -/
def Pc.hLDR : Pc → Option UInt32
  | .fileType _ h | .magic _ h | .getId _ h | .mallocMcb _ h _ | .setSlot _ h _ _ => some h
  | .initMcb _ h _ _ | .mallocName _ h _ _ | .section_ _ h _ _ _ | .bitmap _ h _ _ _ => some h
  | .undo h _ _ | .notify h _ _ | .unload h _ _ | .clearSlot h _ _ | .unloadError h _ => some h
  | _ => none

/-- Where pages can be mapped. -/
def Pc.mapping : Pc → Bool
  | .section_ .. | .bitmap .. | .undo .. | .notify .. | .unload .. => true
  | _ => false

/-- Where the control block has its id. -/
def Pc.named : Pc → Bool
  | .mallocName .. | .section_ .. | .bitmap .. | .undo .. | .notify .. | .unload .. => true
  | .exit .. | .destroy .. | .free .. => true
  | _ => false

/-- Where the slot holds the control block. -/
def Pc.filled : Pc → Bool
  | .initMcb .. | .mallocName .. | .section_ .. | .bitmap .. | .undo .. | .notify .. => true
  | .unload .. | .exit .. => true
  | _ => false

def Pc.uninstalling : Pc → Bool
  | .exit .. | .destroy .. | .free .. | .clear .. => true
  | _ => false

/-- The keys that a call at `pc` owns, with the pages in `own`. -/
def Owns (pc : Pc) (own : Nat → Bool) : Key → Prop
  | .slot id => pc.id = some id
  | .mcb p => pc.mcb = some p
  | .handle h => pc.hLDR = some h
  | .page n => own n = true

def State.Owns (s : State) (t : Tid) : Key → Prop := Mods.Owns (s.pc t) (s.own t)

/-- What the store holds for a call at `pc`. -/
structure Local (s : State) (pc : Pc) (own : Nat → Bool) : Prop where
  handle : ∀ h, pc.hLDR = some h → s.mem (.handle h) = true
  mcb : ∀ p, pc.mcb = some p →
    ∃ m, s.mem (.mcb p) = some m ∧ (pc.named = true → pc.id = some m.id)
  slot : pc.filled = true → ∀ id, pc.id = some id → s.mem (.slot id) = pc.mcb
  page : ∀ n, own n = true → s.mem (.page n) = true
  unmapped : pc.mapping = false → ∀ n, own n = false
  installed : ∀ id, pc.id = some id → s.installed id = pc.uninstalling
  nonzero : pc.uninstalling = false → ∀ id, pc.id = some id → id ≠ 0

/-- What a slot holds. -/
def Entry (s : State) (id : UInt8) : Option UInt32 → Prop
  | none => s.installed id = false
  | some p => s.installed id = true ∧ (∃ m, s.mem (.mcb p) = some m ∧ m.id = id) ∧
      ∀ t, (s.pc t).mcb ≠ some p

structure Inv (s : State) : Prop where
  excl : ∀ t t' k, s.Owns t k → s.Owns t' k → t = t'
  here : ∀ t, Local s (s.pc t) (s.own t)
  iso : ∀ t, (s.pc t).Installing → s.shared.Isolated empty t (s.Owns t)
  table : ∀ id, Unclaimed s id → Entry s id (s.mem (.slot id))

theorem inv_init : Inv init where
  excl _ _ k h _ := by cases k <;> cases h
  here t := ⟨nofun, nofun, nofun, nofun, fun _ _ => rfl, nofun, fun _ => nofun⟩
  iso _ h := absurd rfl h.1
  table _ _ := rfl

theorem Inv.sound (h : Inv s) : Sound s := by
  intro id hid
  have hentry := h.table id hid
  cases hslot : s.mem (.slot id) with
  | none =>
    rw [hslot] at hentry
    rw [show s.installed id = false from hentry]
    exact iff_of_false Bool.false_ne_true Bool.false_ne_true
  | some p =>
    rw [hslot] at hentry
    exact iff_of_true rfl hentry.1

/-! ## What a step does to others -/

/-- Pages in `pages` are unmapped, all else is as it was. -/
def clip (pages : Nat → Bool) : ∀ k, Val k → Val k := putPages fun n old => old && !pages n

@[simp] theorem clip_none (k : Key) (v : Val k) : clip (fun _ => false) k v = v := by
  cases k with
  | page n => exact Bool.and_true v
  | _ => rfl

theorem clip_empty (pages : Nat → Bool) (k : Key) : clip pages k (empty k) = empty k := by
  cases k <;> rfl

theorem put_self (k : Key) (v old : Val k) : put k v k old = v := dif_pos rfl

theorem put_of_ne {k' : Key} (h : k ≠ k') (v : Val k) (old : Val k') : put k v k' old = old :=
  dif_neg h

/-- A step of the thread `t` to `pc`, with what it writes, what it unmaps and the pages it owns
then. -/
def State.move (s : State) (t : Tid) (pc : Pc) (g : ∀ k, Val k → Val k) (pages own : Nat → Bool)
    (ret : Tid → UInt32) (installed : UInt8 → Bool) : State where
  shared := s.shared.act t g
  pc := update s.pc t pc
  ret := ret
  own := update (fun t' n => s.own t' n && !pages n) t own
  installed := installed

section Move

variable {pc : Pc} {g : ∀ k, Val k → Val k} {pages own : Nat → Bool} {ret : Tid → UInt32}
  {installed : UInt8 → Bool}

theorem move_pc_self : (s.move t pc g pages own ret installed).pc t = pc := update_self ..

theorem move_pc_of_ne (h : t' ≠ t) : (s.move t pc g pages own ret installed).pc t' = s.pc t' :=
  update_of_ne h _ _

theorem move_own_self : (s.move t pc g pages own ret installed).own t = own :=
  update_self (β := fun _ => Nat → Bool) t own fun t' n => s.own t' n && !pages n

theorem move_own_of_ne (h : t' ≠ t) (n : Nat) :
    (s.move t pc g pages own ret installed).own t' n = (s.own t' n && !pages n) :=
  congrFun (update_of_ne (β := fun _ => Nat → Bool) h own fun t' n => s.own t' n && !pages n) n

theorem move_owns_self : (s.move t pc g pages own ret installed).Owns t = Owns pc own := by
  unfold State.Owns
  rw [move_pc_self, move_own_self]

/-- What another thread owns after the step, it owned before. -/
theorem owns_of_move (h : t' ≠ t) (hk : (s.move t pc g pages own ret installed).Owns t' k) :
    s.Owns t' k := by
  unfold State.Owns at hk ⊢
  rw [move_pc_of_ne h] at hk
  cases k with
  | page n =>
    have hn : (s.move t pc g pages own ret installed).own t' n = true := hk
    rw [move_own_of_ne h] at hn
    exact (Bool.and_eq_true_iff.1 hn).1
  | _ => exact hk

/-- What a thread that does not move sees. -/
theorem Local.move (h : Local s (s.pc t') (s.own t')) (hne : t' ≠ t)
    (hg : ∀ k, s.Owns t' k → ∀ v, g k v = clip pages k v)
    (hinst : ∀ id, (s.pc t').id = some id → installed id = s.installed id) :
    Local (s.move t pc g pages own ret installed) (s.pc t')
      ((s.move t pc g pages own ret installed).own t') where
  handle x hx := (hg (.handle x) hx _).trans (h.handle x hx)
  mcb p hp := by
    obtain ⟨m, hm, hid⟩ := h.mcb p hp
    exact ⟨m, (hg (.mcb p) hp _).trans hm, hid⟩
  slot hf id hid := (hg (.slot id) hid _).trans (h.slot hf id hid)
  page n hn := by
    rw [move_own_of_ne hne] at hn
    obtain ⟨hown, hpage⟩ := Bool.and_eq_true_iff.1 hn
    refine (hg (.page n) hown _).trans ?_
    have hmem := h.page n hown
    exact Bool.and_eq_true_iff.2 ⟨hmem, hpage⟩
  unmapped hm n := by
    rw [move_own_of_ne hne, h.unmapped hm n]
    rfl
  installed id hid := (hinst id hid).trans (h.installed id hid)
  nonzero := h.nonzero

/-- Another thread's view of the step, as an isolation of its own. -/
theorem isolated_move (h : s.shared.Isolated empty t' (s.Owns t')) (hne : t' ≠ t)
    (hg : ∀ k, s.Owns t' k → ∀ v, g k v = clip pages k v) :
    (s.move t pc g pages own ret installed).shared.Isolated empty t'
      ((s.move t pc g pages own ret installed).Owns t') := by
  refine (h.act_other hne fun k hk => (hg k hk _).trans (clip_empty pages k)).weaken
    (fun k hk => owns_of_move hne hk) fun k hk hno => ?_
  show g k (s.shared.mem k) = empty k
  rw [hg k hk]
  cases k with
  | page n =>
    have hpage : pages n = true := by
      by_contra hpage
      refine hno ?_
      show (s.move t pc g pages own ret installed).own t' n = true
      rw [move_own_of_ne hne]
      exact Bool.and_eq_true_iff.2 ⟨hk, by rw [Bool.eq_false_iff.2 hpage]; rfl⟩
    show (s.shared.mem (.page n) && !pages n) = false
    rw [hpage]
    exact Bool.and_false _
  | slot id =>
    refine absurd ?_ hno
    unfold State.Owns at hk ⊢
    rw [move_pc_of_ne hne]
    exact hk
  | mcb p =>
    refine absurd ?_ hno
    unfold State.Owns at hk ⊢
    rw [move_pc_of_ne hne]
    exact hk
  | handle x =>
    refine absurd ?_ hno
    unfold State.Owns at hk ⊢
    rw [move_pc_of_ne hne]
    exact hk

variable (s t pc g pages own) in
/-- What the thread `t` takes and touches when it moves to `pc`. -/
structure Tidy : Prop where
  take : ∀ k, Owns pc own k → ¬ s.Owns t k → ∀ t', ¬ s.Owns t' k
  keep : ∀ k, ¬ s.Owns t k → ¬ Owns pc own k → ∀ v, g k v = clip pages k v
  /-- A control block that it takes belongs to no other id. -/
  fresh : ∀ p, pc.mcb = some p → (s.pc t).mcb ≠ some p → ∀ id, Unclaimed s id →
    pc.id ≠ some id → s.mem (.slot id) ≠ some p

variable (s t pc g own) in
/-- As far as the thread `t` knows, it takes what is empty and leaves empty what it gives up. -/
structure Clean : Prop where
  take : ∀ k, Owns pc own k → ¬ s.Owns t k → s.mem k = empty k
  same : ∀ k, ¬ s.Owns t k → ¬ Owns pc own k → g k (s.mem k) = s.mem k
  give : ∀ k, s.Owns t k → ¬ Owns pc own k → g k (s.mem k) = empty k

theorem Tidy.not_owns (ht : Tidy s t pc g pages own) (h : Inv s) (hne : t' ≠ t)
    (hk : s.Owns t' k) : ¬ s.Owns t k ∧ ¬ Owns pc own k := by
  have hno : ¬ s.Owns t k := fun hk' => hne (h.excl t' t k hk hk')
  exact ⟨hno, fun hk' => ht.take k hk' hno t' hk⟩

theorem Clean.isolated (h : s.shared.Isolated empty t (s.Owns t)) (hc : Clean s t pc g own) :
    (s.move t pc g pages own ret installed).shared.Isolated empty t (Owns pc own) :=
  h.act_self hc.take hc.same hc.give

/-- Of a table entry, what a step of another thread leaves. -/
theorem Entry.move {id : UInt8} (h : Entry s id (s.mem (.slot id))) (ht : Tidy s t pc g pages own)
    (hid : Unclaimed s id) (hid' : pc.id ≠ some id) (hinst : installed id = s.installed id) :
    Entry (s.move t pc g pages own ret installed) id
      ((s.move t pc g pages own ret installed).mem (.slot id)) := by
  have hslot : (s.move t pc g pages own ret installed).mem (.slot id) = s.mem (.slot id) :=
    ht.keep (.slot id) (hid t) hid' _
  rw [hslot]
  cases hold : s.mem (.slot id) with
  | none =>
    rw [hold] at h
    exact hinst.trans h
  | some p =>
    rw [hold] at h
    obtain ⟨hi, ⟨m, hm, hmid⟩, hfree⟩ := h
    have hp : pc.mcb ≠ some p := fun hp => ht.fresh p hp (hfree t) id hid hid' hold
    refine ⟨hinst.trans hi, ⟨m, (ht.keep (.mcb p) (hfree t) hp _).trans hm, hmid⟩, fun t' => ?_⟩
    by_cases ht' : t' = t
    · rw [ht', move_pc_self]
      exact hp
    · rw [move_pc_of_ne ht']
      exact hfree t'

theorem Inv.move (h : Inv s) (ht : Tidy s t pc g pages own)
    (hhere : Local (s.move t pc g pages own ret installed) pc own)
    (hiso : pc.Installing →
      (s.move t pc g pages own ret installed).shared.Isolated empty t (Owns pc own))
    (hinst : ∀ id, (s.pc t).id ≠ some id → installed id = s.installed id)
    (hrelease : ∀ id, (s.pc t).id = some id → pc.id ≠ some id →
      Entry (s.move t pc g pages own ret installed) id
        ((s.move t pc g pages own ret installed).mem (.slot id))) :
    Inv (s.move t pc g pages own ret installed) where
  excl t₁ t₂ k h₁ h₂ := by
    have hself : ∀ t', t' ≠ t → (s.move t pc g pages own ret installed).Owns t' k →
        ¬ Owns pc own k := fun t' hne hk => (ht.not_owns h hne (owns_of_move hne hk)).2
    by_cases ht₁ : t₁ = t
    · by_cases ht₂ : t₂ = t
      · rw [ht₁, ht₂]
      · rw [ht₁, move_owns_self] at h₁
        exact absurd h₁ (hself t₂ ht₂ h₂)
    · by_cases ht₂ : t₂ = t
      · rw [ht₂, move_owns_self] at h₂
        exact absurd h₂ (hself t₁ ht₁ h₁)
      · exact h.excl t₁ t₂ k (owns_of_move ht₁ h₁) (owns_of_move ht₂ h₂)
  here t' := by
    by_cases ht' : t' = t
    · rw [ht', move_pc_self, move_own_self]
      exact hhere
    · rw [move_pc_of_ne ht']
      refine (h.here t').move ht' (fun k hk v => ?_) fun id hid => hinst id fun hid' => ?_
      · have hno := ht.not_owns h ht' hk
        exact ht.keep k hno.1 hno.2 v
      · exact ht' (h.excl t' t (.slot id) hid hid')
  iso t' hi := by
    by_cases ht' : t' = t
    · rw [ht', move_pc_self] at hi
      rw [ht', move_owns_self]
      exact hiso hi
    · rw [move_pc_of_ne ht'] at hi
      refine isolated_move (h.iso t' hi) ht' fun k hk v => ?_
      have hno := ht.not_owns h ht' hk
      exact ht.keep k hno.1 hno.2 v
  table id hid := by
    have hpc : pc.id ≠ some id := by
      have hself := hid t
      rwa [move_pc_self] at hself
    by_cases hold : (s.pc t).id = some id
    · exact hrelease id hold hpc
    · have hbefore : Unclaimed s id := fun t' => by
        by_cases ht' : t' = t
        · rw [ht']
          exact hold
        · have hother := hid t'
          rwa [move_pc_of_ne ht'] at hother
      exact (h.table id hbefore).move ht hbefore hpc (hinst id hold)

end Move

end Melis.Mods
