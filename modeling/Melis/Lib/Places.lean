import Melis.Lib.Queue
import Mathlib.Data.List.Nodup

/-!
# Nodes and their places

Every node is in one place, and some places are queues of the program. A queue
that lists the nodes in its places goes on doing so when a node moves, provided
that the program links the node or takes it from the head (`Shift`); and so do
the counters of the nodes in some places (`count_update`).
-/

namespace Melis.Lib.Places

open Function

universe u

variable {P : Type u} {place : Nat → P} {p : P → Bool} {queue queue' : List Nat}
  {num num' : Int} {k n : Nat} {y : P}

/-- `queue` has the nodes in the places of `p`, each once, and `num` is their number. -/
structure Lists (queue : List Nat) (num : Int) (place : Nat → P) (p : P → Bool) : Prop where
  nodup : queue.Nodup
  mem_iff : ∀ k, k ∈ queue ↔ p (place k)
  num_eq : num = queue.length

/-- What becomes of a queue and its number when node `k` moves; the first flag says
whether the node was in a place of the queue, the second whether it is afterwards. -/
def Shift (queue : List Nat) (num : Int) (queue' : List Nat) (num' : Int) (k : Nat) :
    Bool → Bool → Prop
  | false, true => queue' = Queue.linkLast queue k ∧ num' = num + 1
  | true, false => queue = k :: queue' ∧ num' = num - 1
  | _, _ => queue' = queue ∧ num' = num

namespace Lists

theorem notMem (h : Lists queue num place p) (hk : p (place k) = false) : k ∉ queue := by
  rw [h.mem_iff, hk]
  exact Bool.false_ne_true

theorem keep (h : Lists queue num place p) (hy : p y = p (place k)) :
    Lists queue num (update place k y) p := by
  refine ⟨h.nodup, fun j => ?_, h.num_eq⟩
  rw [h.mem_iff]
  by_cases hj : j = k
  · subst hj
    rw [update_self, hy]
  · rw [update_of_ne hj]

theorem push (h : Lists queue num place p) (hk : p (place k) = false) (hy : p y = true) :
    Lists (Queue.linkLast queue k) (num + 1) (update place k y) p := by
  have hnot := h.notMem hk
  rw [Queue.linkLast_eq hnot]
  refine ⟨?_, fun j => ?_, ?_⟩
  · rw [List.nodup_middle, List.append_nil]
    exact List.nodup_cons.2 ⟨hnot, h.nodup⟩
  · rw [List.mem_append, List.mem_singleton, h.mem_iff]
    by_cases hj : j = k
    · subst hj
      simp [hy]
    · simp [hj]
  · rw [h.num_eq]
    simp

theorem pop (h : Lists (k :: queue) num place p) (hy : p y = false) :
    Lists queue (num - 1) (update place k y) p := by
  obtain ⟨hnot, hnodup⟩ := List.nodup_cons.1 h.nodup
  refine ⟨hnodup, fun j => ?_, ?_⟩
  · by_cases hj : j = k
    · subst hj
      simp [hnot, hy]
    · rw [update_of_ne hj, ← h.mem_iff, List.mem_cons, or_iff_right hj]
  · rw [h.num_eq]
    simp

theorem move (h : Lists queue num place p)
    (hs : Shift queue num queue' num' k (p (place k)) (p y)) :
    Lists queue' num' (update place k y) p := by
  rcases hk : p (place k) <;> rcases hy : p y <;> rw [hk, hy] at hs <;> obtain ⟨hq, rfl⟩ := hs
  · subst hq
    exact h.keep (hy.trans hk.symm)
  · subst hq
    exact h.push hk hy
  · subst hq
    exact h.pop hy
  · subst hq
    exact h.keep (hy.trans hk.symm)

end Lists

/-- How many of the first `n` nodes are in the places of `p`. -/
def count (n : Nat) (place : Nat → P) (p : P → Bool) : Nat :=
  (List.range n).countP fun k => p (place k)

theorem count_succ : count (n + 1) place p = count n place p + (p (place n)).toNat := by
  unfold count
  rw [List.range_succ, List.countP_append]
  cases h : p (place n) <;> simp [h]

theorem count_eq_zero (h : ∀ k, p (place k) = false) : count n place p = 0 := by
  unfold count
  simp [h]

theorem count_update_of_le (h : n ≤ k) : count n (update place k y) p = count n place p := by
  unfold count
  apply List.countP_congr
  intro j hj
  have hne : j ≠ k := by
    have := List.mem_range.1 hj
    omega
  rw [update_of_ne hne]

theorem count_update (place : Nat → P) (p : P → Bool) (y : P) (hk : k < n) :
    count n (update place k y) p + (p (place k)).toNat = count n place p + (p y).toNat := by
  induction n with
  | zero => omega
  | succ n ih =>
    rw [count_succ, count_succ]
    by_cases h : k = n
    · subst h
      rw [count_update_of_le (Nat.le_refl k), update_self]
      omega
    · have := ih (by omega)
      rw [update_of_ne (Ne.symm h)]
      omega

end Melis.Lib.Places
