import Mathlib.Algebra.Order.BigOperators.Group.Finset

/-!
# Sums over threads

Each thread is in a phase, and a phase counts for a number. A step moves one
thread to another phase, so the sum changes by what that thread counts for.
-/

namespace Melis.Lib

universe u v

variable {τ : Type u} {β : Type v} [Fintype τ] [DecidableEq τ]

/-- What all threads count for. -/
def threadSum (f : β → Nat) (pc : τ → β) : Nat := ∑ t, f (pc t)

variable {f : β → Nat} {pc : τ → β} {t : τ} {b : β}

/-- A thread moves. -/
theorem threadSum_update : threadSum f (Function.update pc t b) + f (pc t) = threadSum f pc + f b := by
  have hrest : ∑ u ∈ Finset.univ.erase t, f (Function.update pc t b u) =
      ∑ u ∈ Finset.univ.erase t, f (pc u) := by
    refine Finset.sum_congr rfl fun u hu => ?_
    rw [Function.update_of_ne (Finset.ne_of_mem_erase hu)]
  have hold := Finset.add_sum_erase Finset.univ (fun u => f (pc u)) (Finset.mem_univ t)
  have hnew := Finset.add_sum_erase Finset.univ (fun u => f (Function.update pc t b u))
    (Finset.mem_univ t)
  simp only [Function.update_self, hrest] at hnew
  unfold threadSum
  omega

omit [DecidableEq τ] in
theorem le_threadSum (f : β → Nat) (pc : τ → β) (t : τ) : f (pc t) ≤ threadSum f pc :=
  Finset.single_le_sum (f := fun u => f (pc u)) (fun _ _ => Nat.zero_le _) (Finset.mem_univ t)

omit [DecidableEq τ] in
/-- There are no more than the threads, where none counts for more than one. -/
theorem threadSum_le (h : ∀ b, f b ≤ 1) : threadSum f pc ≤ Fintype.card τ := by
  calc threadSum f pc ≤ ∑ _t : τ, 1 := Finset.sum_le_sum fun t _ => h (pc t)
    _ = Fintype.card τ := (Finset.card_eq_sum_ones _).symm

omit [DecidableEq τ] in
theorem threadSum_eq_zero : threadSum f pc = 0 ↔ ∀ t, f (pc t) = 0 := by
  unfold threadSum
  rw [Finset.sum_eq_zero_iff]
  exact ⟨fun h t => h t (Finset.mem_univ t), fun h t _ => h t⟩

end Melis.Lib
