import Mathlib.Data.List.Basic

/-!
# Runs of a machine fed with inputs

A `Machine` maps a state and an input to the next state, or to `none` where it
cannot take the input. `run` feeds it a list of inputs. `Meets C s is` says
that every step of the run from `s` over `is` satisfies `C` in the state
before it; `run_inv` is the invariant rule for such runs, and `count_add_le` the
one for how often a step is taken that uses up a rank.
-/

namespace Melis.Lib

universe u v

structure Machine (σ : Type u) (ι : Type v) where
  next : σ → ι → Option σ

namespace Machine

variable {σ : Type u} {ι : Type v} (M : Machine σ ι)

def run : σ → List ι → Option σ
  | s, [] => some s
  | s, i :: is => (M.next s i).bind fun s' => run s' is

/-- Every step of the run satisfies `C` in the state before it. -/
def Meets (C : σ → ι → Prop) : σ → List ι → Prop
  | _, [] => True
  | s, i :: is => C s i ∧ ∀ s', M.next s i = some s' → Meets C s' is

/-- A run can be checked step by step. -/
instance decidableMeets {C : σ → ι → Prop} [∀ s i, Decidable (C s i)] :
    ∀ s is, Decidable (M.Meets C s is)
  | _, [] => .isTrue trivial
  | s, i :: is =>
    have : Decidable (∀ s', M.next s i = some s' → M.Meets C s' is) :=
      match h : M.next s i with
      | none => .isTrue fun _ hs => nomatch hs
      | some t =>
        match decidableMeets t is with
        | .isTrue ht => .isTrue fun _ hs => Option.some.inj hs ▸ ht
        | .isFalse ht => .isFalse fun hall => ht (hall t rfl)
    inferInstanceAs (Decidable (_ ∧ _))

/-- All along the run there is a next state, `P` holds of the states and `Q` of the steps. -/
def Upholds (P : σ → Prop) (Q : σ → ι → σ → Prop) : σ → List ι → Prop
  | s, [] => P s
  | s, i :: is => P s ∧ ∃ s', M.next s i = some s' ∧ Q s i s' ∧ Upholds P Q s' is

/-- How many steps of the run satisfy `P`. -/
def count (P : σ → ι → Prop) [∀ s i, Decidable (P s i)] : σ → List ι → Nat
  | _, [] => 0
  | s, i :: is =>
    (if P s i then 1 else 0) +
      match M.next s i with
      | some s' => count P s' is
      | none => 0

variable {M} {C : σ → ι → Prop} {s s' : σ} {i : ι} {is js : List ι}

@[simp] theorem run_nil : M.run s [] = some s := rfl

theorem run_cons : M.run s (i :: is) = (M.next s i).bind fun s' => M.run s' is := rfl

theorem run_cons_eq_some :
    M.run s (i :: is) = some s' ↔ ∃ t, M.next s i = some t ∧ M.run t is = some s' := by
  rw [run_cons, Option.bind_eq_some_iff]

theorem run_append : M.run s (is ++ js) = (M.run s is).bind fun s' => M.run s' js := by
  induction is generalizing s with
  | nil => rfl
  | cons i is ih =>
    rw [List.cons_append, run_cons, run_cons]
    cases M.next s i with
    | none => rfl
    | some t => exact ih

theorem run_append_eq_some :
    M.run s (is ++ js) = some s' ↔ ∃ t, M.run s is = some t ∧ M.run t js = some s' := by
  rw [run_append, Option.bind_eq_some_iff]

@[simp] theorem meets_nil : M.Meets C s [] := trivial

theorem meets_cons :
    M.Meets C s (i :: is) ↔ C s i ∧ ∀ s', M.next s i = some s' → M.Meets C s' is := Iff.rfl

theorem meets_cons_of_none (hs : M.next s i = none) : M.Meets C s (i :: is) ↔ C s i := by
  simp [meets_cons, hs]

theorem meets_cons_of_some (hs : M.next s i = some s') :
    M.Meets C s (i :: is) ↔ C s i ∧ M.Meets C s' is := by
  simp [meets_cons, hs]

theorem Meets.of_next (hC : C s i) (hs : M.next s i = some s') (h : M.Meets C s' is) :
    M.Meets C s (i :: is) := by
  refine ⟨hC, fun t ht => ?_⟩
  cases hs.symm.trans ht
  exact h

theorem Meets.append_left (h : M.Meets C s (is ++ js)) : M.Meets C s is := by
  induction is generalizing s with
  | nil => trivial
  | cons i is ih => exact ⟨h.1, fun s' hs => ih (h.2 s' hs)⟩

theorem Meets.append_right (h : M.Meets C s (is ++ js)) (hr : M.run s is = some s') :
    M.Meets C s' js := by
  induction is generalizing s with
  | nil => cases hr; exact h
  | cons i is ih =>
    obtain ⟨t, ht, hr⟩ := run_cons_eq_some.1 hr
    exact ih (h.2 t ht) hr

theorem Meets.mono {D : σ → ι → Prop} (hCD : ∀ s i, C s i → D s i) (h : M.Meets C s is) :
    M.Meets D s is := by
  induction is generalizing s with
  | nil => trivial
  | cons i is ih => exact ⟨hCD s i h.1, fun s' hs => ih (h.2 s' hs)⟩

theorem meets_and {D : σ → ι → Prop} :
    M.Meets (fun s i => C s i ∧ D s i) s is ↔ M.Meets C s is ∧ M.Meets D s is := by
  constructor
  · intro h
    exact ⟨h.mono fun _ _ hi => hi.1, h.mono fun _ _ hi => hi.2⟩
  · rintro ⟨hC, hD⟩
    induction is generalizing s with
    | nil => trivial
    | cons i is ih => exact ⟨⟨hC.1, hD.1⟩, fun s' hs => ih (hC.2 s' hs) (hD.2 s' hs)⟩

/-- A run has a next state all along. -/
theorem meets_of_run (hr : M.run s is = some s') :
    M.Meets (fun s i => ∃ s', M.next s i = some s') s is := by
  induction is generalizing s with
  | nil => trivial
  | cons i is ih =>
    obtain ⟨t, ht, hr⟩ := run_cons_eq_some.1 hr
    exact .of_next ⟨t, ht⟩ ht (ih hr)

theorem meets_of_forall {P : ι → Prop} (h : ∀ i ∈ is, P i) : M.Meets (fun _ i => P i) s is := by
  induction is generalizing s with
  | nil => trivial
  | cons i is ih =>
    obtain ⟨hi, his⟩ := List.forall_mem_cons.1 h
    exact ⟨hi, fun _ _ => ih his⟩

/-- **Invariant rule**: what holds at the start and is kept by every step that
satisfies `C` holds at the end of a run whose steps all satisfy `C`. -/
theorem run_inv {I : σ → Prop} (hstep : ∀ s i s', I s → C s i → M.next s i = some s' → I s')
    (h0 : I s) (hm : M.Meets C s is) (hr : M.run s is = some s') : I s' := by
  induction is generalizing s with
  | nil => cases hr; exact h0
  | cons i is ih =>
    obtain ⟨t, ht, hr⟩ := run_cons_eq_some.1 hr
    exact ih (hstep s i t h0 hm.1 ht) (hm.2 t ht) hr

/-- **Variant rule**: where every step that satisfies `C` keeps the rank or lowers it, and a step
that satisfies `P` lowers it, a run takes no more of these than the rank is lowered. -/
theorem count_add_le {P : σ → ι → Prop} [∀ s i, Decidable (P s i)] {I : σ → Prop} {rank : σ → Nat}
    (hstep : ∀ s i s', I s → C s i → M.next s i = some s' →
      I s' ∧ (if P s i then 1 else 0) + rank s' ≤ rank s)
    (h0 : I s) (hm : M.Meets C s is) (hr : M.run s is = some s') :
    M.count P s is + rank s' ≤ rank s := by
  induction is generalizing s with
  | nil =>
    cases hr
    exact Nat.le_of_eq (Nat.zero_add _)
  | cons i is ih =>
    obtain ⟨t, ht, hr⟩ := run_cons_eq_some.1 hr
    obtain ⟨hI, hle⟩ := hstep s i t h0 hm.1 ht
    have hrest := ih hI (hm.2 t ht) hr
    have hcount : M.count P s (i :: is) = (if P s i then 1 else 0) + M.count P t is := by
      simp only [count, ht]
    omega

/-- **Invariant rule** for a property that every step keeps. -/
theorem run_keeps {I : σ → Prop} (hstep : ∀ s i s', I s → M.next s i = some s' → I s') (h0 : I s)
    (hr : M.run s is = some s') : I s' :=
  run_inv (C := fun _ _ => True) (fun s i s' h _ => hstep s i s' h) h0
    (meets_of_forall (P := fun _ => True) fun _ _ => trivial) hr

/-- **Exact rule**: where a step keeps `P` just if it satisfies `C`, and what has lost
`P` does not get it back, the runs that keep `P` are those that meet `C`. -/
theorem holds_iff_meets {I P : σ → Prop} (hinv : ∀ s i s', I s → M.next s i = some s' → I s')
    (hstep : ∀ s i s', I s → P s → M.next s i = some s' → (P s' ↔ C s i))
    (hlost : ∀ s i s', I s → M.next s i = some s' → P s' → P s) (h0 : I s) (hP : P s)
    (hr : M.run s is = some s') : P s' ↔ M.Meets C s is := by
  have hback : ∀ s is, I s → M.run s is = some s' → P s' → P s := by
    intro s is hI hr hP'
    induction is generalizing s with
    | nil => cases hr; exact hP'
    | cons i is ih =>
      obtain ⟨t, ht, hr⟩ := run_cons_eq_some.1 hr
      exact hlost s i t hI ht (ih t (hinv s i t hI ht) hr)
  induction is generalizing s with
  | nil => cases hr; exact iff_of_true hP trivial
  | cons i is ih =>
    obtain ⟨t, ht, hr⟩ := run_cons_eq_some.1 hr
    have hIt := hinv s i t h0 ht
    have hP_iff := hstep s i t h0 hP ht
    constructor
    · intro hP'
      have hPt := hback t is hIt hr hP'
      refine ⟨hP_iff.1 hPt, fun s'' hs => ?_⟩
      cases ht.symm.trans hs
      exact (ih hIt hPt hr).1 hP'
    · rintro ⟨hC, hm⟩
      exact (ih hIt (hP_iff.2 hC) hr).2 (hm t ht)

/-- Two conditions that say the same of every state that satisfies an invariant,
and keep it, are met by the same runs. -/
theorem meets_iff {D : σ → ι → Prop} {I : σ → Prop} (hCD : ∀ s i, I s → (C s i ↔ D s i))
    (hstep : ∀ s i s', I s → C s i → M.next s i = some s' → I s') (h0 : I s) :
    M.Meets C s is ↔ M.Meets D s is := by
  induction is generalizing s with
  | nil => exact Iff.rfl
  | cons i is ih =>
    rw [meets_cons, meets_cons, hCD s i h0]
    refine and_congr_right fun hi => ?_
    have hkeep : ∀ s', M.next s i = some s' → I s' := fun s' hs =>
      hstep s i s' h0 ((hCD s i h0).2 hi) hs
    exact forall₂_congr fun s' hs => ih (hkeep s' hs)

theorem Upholds.left {P : σ → Prop} {Q : σ → ι → σ → Prop} (h : M.Upholds P Q s is) : P s := by
  cases is with
  | nil => exact h
  | cons i is => exact h.1

theorem Upholds.run {P : σ → Prop} {Q : σ → ι → σ → Prop} (h : M.Upholds P Q s is) :
    ∃ s', M.run s is = some s' ∧ P s' := by
  induction is generalizing s with
  | nil => exact ⟨s, rfl, h⟩
  | cons i is ih =>
    obtain ⟨_, t, ht, _, hup⟩ := h
    obtain ⟨s', hs', hP⟩ := ih hup
    exact ⟨s', run_cons_eq_some.2 ⟨t, ht, hs'⟩, hP⟩

/-- What the last step of a run upholds. -/
theorem Upholds.last {P : σ → Prop} {Q : σ → ι → σ → Prop} (h : M.Upholds P Q s (is ++ [i]))
    (hr : M.run s is = some s') : ∃ t, M.next s' i = some t ∧ Q s' i t := by
  induction is generalizing s with
  | nil =>
    cases hr
    obtain ⟨_, t, ht, hQ, _⟩ := h
    exact ⟨t, ht, hQ⟩
  | cons j is ih =>
    obtain ⟨_, t, ht, _, hup⟩ := h
    obtain ⟨t', ht', hr⟩ := run_cons_eq_some.1 hr
    cases ht.symm.trans ht'
    exact ih hup hr

/-- **Invariant rule** for runs that uphold a property. -/
theorem upholds_of_inv {I P : σ → Prop} {Q : σ → ι → σ → Prop} (hIP : ∀ s, I s → P s)
    (hstep : ∀ s i, I s → C s i → ∃ s', M.next s i = some s' ∧ Q s i s' ∧ I s') (h0 : I s)
    (hC : M.Meets C s is) : M.Upholds P Q s is := by
  induction is generalizing s with
  | nil => exact hIP s h0
  | cons i is ih =>
    obtain ⟨s', hs, hQ, hI⟩ := hstep s i h0 hC.1
    exact ⟨hIP s h0, s', hs, hQ, ih hI (hC.2 s' hs)⟩

/-- What a step does with an invariant `I`: one that satisfies `C` keeps it and `Q`, one that
does not loses `P` or `Q` or has no next state. -/
inductive Exact (I P : σ → Prop) (Q : σ → ι → σ → Prop) (C : σ → ι → Prop) (s : σ) (i : ι) : Prop
  | kept (hC : C s i) (s' : σ) (hs : M.next s i = some s') (hQ : Q s i s') (hI : I s')
  | lost (hC : ¬ C s i) (hP : ∀ s', M.next s i = some s' → Q s i s' → ¬ P s')

/-- **Exact rule** for runs that uphold a property, with what the inputs promise as `L`. -/
theorem upholds_iff_meets {I P : σ → Prop} {Q : σ → ι → σ → Prop} {L : σ → ι → Prop}
    (hIP : ∀ s, I s → P s) (hstep : ∀ s i, I s → L s i → M.Exact I P Q C s i) (h0 : I s)
    (hL : M.Meets L s is) : M.Upholds P Q s is ↔ M.Meets C s is := by
  induction is generalizing s with
  | nil => exact iff_of_true (hIP s h0) trivial
  | cons i is ih =>
    cases hstep s i h0 hL.1 with
    | kept hC s' hs hQ hI =>
      have hrest := ih hI (hL.2 s' hs)
      refine ⟨fun ⟨_, t, ht, _, hup⟩ => ⟨hC, fun t' ht' => ?_⟩, fun hm => ?_⟩
      · cases hs.symm.trans ht
        cases hs.symm.trans ht'
        exact hrest.1 hup
      · exact ⟨hIP s h0, s', hs, hQ, hrest.2 (hm.2 s' hs)⟩
    | lost hC hP =>
      refine ⟨fun ⟨_, t, ht, hQ, hup⟩ => ?_, fun hm => absurd hm.1 hC⟩
      exact absurd hup.left (hP t ht hQ)

end Machine

end Melis.Lib
