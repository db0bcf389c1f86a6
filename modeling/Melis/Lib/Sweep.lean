import Mathlib.Data.List.Basic

/-!
# Sweeps over a table

`sweep p f` goes over a table from its first entry to its last, does `f` to
the entries that satisfy `p` and threads a state through. It stops at the first
entry where `f` gives an error, and leaves the entries after it as they are.
`sweep_rec` is the induction rule: one case for each thing that can happen to
the first entry.

`modifyFirst p f` changes the first entry that satisfies `p`.
-/

namespace Melis.Lib

universe u v w

variable {σ : Type u} {α : Type v} {ε : Type w}

/-- The state and the table that are left, and the error that stopped the sweep. The second
argument is the number of the first entry. -/
def sweep (p : α → Bool) (f : σ → Nat → α → σ × α × Option ε) :
    σ → Nat → List α → σ × List α × Option ε
  | s, _, [] => (s, [], none)
  | s, i, a :: as =>
    bif p a then
      match f s i a with
      | (s', a', none) =>
        match sweep p f s' (i + 1) as with
        | (s'', as', err) => (s'', a' :: as', err)
      | (s', a', some e) => (s', a' :: as, some e)
    else
      match sweep p f s (i + 1) as with
      | (s', as', err) => (s', a :: as', err)

section

variable {p : α → Bool} {f : σ → Nat → α → σ × α × Option ε} {s s' : σ} {i : Nat} {a a' : α}
  {as : List α} {e : ε}

@[simp] theorem sweep_nil : sweep p f s i [] = (s, [], none) := rfl

theorem sweep_skip (hp : p a = false) : sweep p f s i (a :: as) =
    ((sweep p f s (i + 1) as).1, a :: (sweep p f s (i + 1) as).2.1,
      (sweep p f s (i + 1) as).2.2) := by
  rw [sweep, hp]
  rfl

theorem sweep_done (hp : p a = true) (hf : f s i a = (s', a', none)) : sweep p f s i (a :: as) =
    ((sweep p f s' (i + 1) as).1, a' :: (sweep p f s' (i + 1) as).2.1,
      (sweep p f s' (i + 1) as).2.2) := by
  rw [sweep, hp, cond_true, hf]

theorem sweep_stop (hp : p a = true) (hf : f s i a = (s', a', some e)) :
    sweep p f s i (a :: as) = (s', a' :: as, some e) := by
  rw [sweep, hp, cond_true, hf]

/-- **Induction rule** for sweeps. -/
theorem sweep_rec {R : σ → Nat → List α → σ → List α → Option ε → Prop}
    (nil : ∀ s i, R s i [] s [] none)
    (skip : ∀ s i a as s' as' err, p a = false → R s (i + 1) as s' as' err →
      R s i (a :: as) s' (a :: as') err)
    (done : ∀ s i a as s₁ a' s' as' err, p a = true → f s i a = (s₁, a', none) →
      R s₁ (i + 1) as s' as' err → R s i (a :: as) s' (a' :: as') err)
    (stop : ∀ s i a as s' a' e, p a = true → f s i a = (s', a', some e) →
      R s i (a :: as) s' (a' :: as) (some e)) (s : σ) (i : Nat) (t : List α) :
    R s i t (sweep p f s i t).1 (sweep p f s i t).2.1 (sweep p f s i t).2.2 := by
  induction t generalizing s i with
  | nil => exact nil s i
  | cons a as ih =>
    cases hp : p a with
    | false =>
      rw [sweep_skip hp]
      exact skip _ _ _ _ _ _ _ hp (ih s (i + 1))
    | true =>
      match hf : f s i a with
      | (s₁, a', none) =>
        rw [sweep_done hp hf]
        exact done _ _ _ _ _ _ _ _ _ hp hf (ih s₁ (i + 1))
      | (s₁, a', some e) =>
        rw [sweep_stop hp hf]
        exact stop _ _ _ _ _ _ _ hp hf

/-- A sweep in which `f` gives no error and leaves the state is a map. -/
theorem sweep_eq_map {g : α → α} (hf : ∀ i, ∀ a ∈ as, p a = true → f s i a = (s, g a, none)) :
    sweep p f s i as = (s, as.map fun a => bif p a then g a else a, none) := by
  induction as generalizing i with
  | nil => rfl
  | cons a as ih =>
    have htail := ih (i := i + 1) fun i b hb => hf i b (List.mem_cons_of_mem _ hb)
    cases hp : p a with
    | false => rw [sweep_skip hp, htail, List.map_cons, hp, cond_false]
    | true => rw [sweep_done hp (hf i a List.mem_cons_self hp), htail, List.map_cons, hp, cond_true]

end

/-! ## The first entry that satisfies a predicate -/

def modifyFirst (p : Nat → α → Bool) (f : α → α) : Nat → List α → Option (List α)
  | _, [] => none
  | i, a :: as =>
    bif p i a then some (f a :: as) else (modifyFirst p f (i + 1) as).map (a :: ·)

section

variable {p : Nat → α → Bool} {f : α → α} {i : Nat} {t t' : List α}

theorem modifyFirst_eq_some (h : modifyFirst p f i t = some t') :
    ∃ l a r, t = l ++ a :: r ∧ t' = l ++ f a :: r ∧ p (i + l.length) a = true ∧
      ∀ k b, l[k]? = some b → p (i + k) b = false := by
  induction t generalizing i t' with
  | nil => cases h
  | cons a as ih =>
    rw [modifyFirst] at h
    cases hp : p i a with
    | true =>
      rw [hp, cond_true] at h
      cases h
      exact ⟨[], a, as, rfl, rfl, hp, nofun⟩
    | false =>
      rw [hp, cond_false, Option.map_eq_some_iff] at h
      obtain ⟨as', has, rfl⟩ := h
      obtain ⟨l, b, r, rfl, rfl, hb, hl⟩ := ih has
      refine ⟨a :: l, b, r, rfl, rfl, ?_, ?_⟩
      · rw [List.length_cons, Nat.add_comm l.length 1, ← Nat.add_assoc]
        exact hb
      · intro k c hk
        cases k with
        | zero =>
          obtain rfl : a = c := Option.some.inj hk
          exact hp
        | succ k =>
          have := hl k c hk
          rwa [Nat.add_right_comm, Nat.add_assoc] at this

theorem modifyFirst_eq_none (h : modifyFirst p f i t = none) {k : Nat} {a : α}
    (hk : t[k]? = some a) : p (i + k) a = false := by
  induction t generalizing i k with
  | nil => cases hk
  | cons b as ih =>
    rw [modifyFirst] at h
    cases hp : p i b with
    | true =>
      rw [hp] at h
      cases h
    | false =>
      rw [hp, cond_false, Option.map_eq_none_iff] at h
      cases k with
      | zero =>
        obtain rfl : b = a := Option.some.inj hk
        exact hp
      | succ k =>
        have := ih h hk
        rwa [Nat.add_right_comm, Nat.add_assoc] at this

theorem modifyFirst_of_forall (h : ∀ k a, t[k]? = some a → p (i + k) a = false) :
    modifyFirst p f i t = none := by
  cases hm : modifyFirst p f i t with
  | none => rfl
  | some t' =>
    obtain ⟨l, a, r, rfl, -, hp, -⟩ := modifyFirst_eq_some hm
    have := h l.length a (by simp)
    rw [hp] at this
    cases this

end

end Melis.Lib
