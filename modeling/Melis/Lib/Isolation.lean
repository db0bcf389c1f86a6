import Mathlib.Logic.Function.Basic

/-!
# Calls without an effect, among other threads

Threads write to a shared store. Beside the store stands, for each thread, the
store as it would be if the thread had written nothing since its call began
(`base`). A call that fails is to leave the two equal, whatever other threads
have done meanwhile. `Isolated` says so while the call runs: they differ in keys
that the thread owns, and these were empty.
-/

namespace Melis.Lib

universe u v w

variable {τ : Type u} {κ : Type v} {V : κ → Type w}

structure Shared (τ : Type u) {κ : Type v} (V : κ → Type w) where
  mem : ∀ k, V k
  base : τ → ∀ k, V k

namespace Shared

variable [DecidableEq τ]

/-- The thread `t` begins a call. -/
def enter (s : Shared τ V) (t : τ) : Shared τ V :=
  { s with base := Function.update s.base t s.mem }

/-- The thread `t` writes to the store. -/
def act (s : Shared τ V) (t : τ) (g : ∀ k, V k → V k) : Shared τ V where
  mem k := g k (s.mem k)
  base t' := if t' = t then s.base t' else fun k => g k (s.base t' k)

/-- The store and the `base` of a thread are equal outside of what it owns, which was empty. -/
structure Isolated (empty : ∀ k, V k) (s : Shared τ V) (t : τ) (own : κ → Prop) : Prop where
  same : ∀ k, ¬ own k → s.mem k = s.base t k
  empty : ∀ k, own k → s.base t k = empty k

variable {empty : ∀ k, V k} {s : Shared τ V} {t t' : τ} {own own' : κ → Prop}
  {g : ∀ k, V k → V k}

@[simp] theorem act_id : s.act t (fun _ v => v) = s := by
  unfold act
  simp only [ite_self]

@[simp] theorem act_act (f : ∀ k, V k → V k) :
    (s.act t f).act t g = s.act t fun k v => g k (f k v) := by
  unfold act
  congr 1
  funext t'
  by_cases ht : t' = t
  · simp only [if_pos ht]
  · simp only [if_neg ht]

theorem act_base_self : (s.act t g).base t = s.base t := if_pos rfl

theorem isolated_enter : Isolated empty (s.enter t) t fun _ => False where
  same k _ := congrFun (Function.update_self t s.mem s.base).symm k
  empty _ h := h.elim

theorem Isolated.enter_other (h : Isolated empty s t own) (hne : t ≠ t') :
    Isolated empty (s.enter t') t own := by
  have hbase : (s.enter t').base t = s.base t := Function.update_of_ne hne _ _
  exact ⟨fun k hk => (h.same k hk).trans (congrFun hbase.symm k),
    fun k hk => (congrFun hbase k).trans (h.empty k hk)⟩

/-- The call has had no effect. -/
theorem Isolated.mem_eq (h : Isolated empty s t fun _ => False) : s.mem = s.base t :=
  funext fun k => h.same k id

/-- What another thread writes. -/
theorem Isolated.act_other (h : Isolated empty s t own) (hne : t ≠ t')
    (hg : ∀ k, own k → g k (empty k) = empty k) : Isolated empty (s.act t' g) t own where
  same k hk := by
    show g k (s.mem k) = (if t = t' then s.base t else fun k => g k (s.base t k)) k
    rw [if_neg hne, h.same k hk]
  empty k hk := by
    show (if t = t' then s.base t else fun k => g k (s.base t k)) k = empty k
    rw [if_neg hne]
    exact (congrArg (g k) (h.empty k hk)).trans (hg k hk)

/-- A thread takes keys that are empty, writes to its own and gives up some that are empty then. -/
theorem Isolated.act_self (h : Isolated empty s t own)
    (htake : ∀ k, own' k → ¬ own k → s.mem k = empty k)
    (hsame : ∀ k, ¬ own k → ¬ own' k → g k (s.mem k) = s.mem k)
    (hgive : ∀ k, own k → ¬ own' k → g k (s.mem k) = empty k) :
    Isolated empty (s.act t g) t own' where
  same k hk := by
    show g k (s.mem k) = (if t = t then s.base t else _) k
    rw [if_pos rfl]
    by_cases hown : own k
    · rw [hgive k hown hk, h.empty k hown]
    · rw [hsame k hown hk, h.same k hown]
  empty k hk := by
    show (if t = t then s.base t else _) k = empty k
    rw [if_pos rfl]
    by_cases hown : own k
    · exact h.empty k hown
    · rw [← h.same k hown]
      exact htake k hk hown

theorem Isolated.weaken (h : Isolated empty s t own) (hsub : ∀ k, own' k → own k)
    (hgive : ∀ k, own k → ¬ own' k → s.mem k = empty k) : Isolated empty s t own' where
  same k hk := by
    by_cases hown : own k
    · rw [hgive k hown hk, h.empty k hown]
    · exact h.same k hown
  empty k hk := h.empty k (hsub k hk)

end Shared

end Melis.Lib
