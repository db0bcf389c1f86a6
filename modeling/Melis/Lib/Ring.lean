import Mathlib.Data.List.Pairwise
import Mathlib.Data.Nat.ModEq
import Mathlib.Data.Set.Lattice
import Mathlib.Order.CompletePartialOrder
import Melis.Lib.Memory

/-!
# Rings

A ring of `N` places. `region N p n` are the `n` places from `p` on, around the
end; positions are taken modulo `N`, so `p` may have gone around any number of
times. `layout N p ns` are regions laid one behind another from `p` on, each
with its first place and its length: they do not overlap as long as they fit
(`pairwise_layout`). `read` and `write` are the contents of a region.
-/

namespace Melis.Lib.Ring

open Function

universe u

variable {β : Type u} {N p q n m i x : Nat} {ns ms : List Nat} {buf : Nat → β} {xs ys : List β}

/-! ## Positions -/

/-- A position moved on by at most one round, the way it is done without `%`. -/
theorem wrap_add (hN : 0 < N) (h : n ≤ N) :
    (if N ≤ p % N + n then p % N + n - N else p % N + n) = (p + n) % N := by
  have hp := Nat.mod_lt p hN
  rw [← Nat.mod_add_mod]
  split
  · rename_i hle
    rw [Nat.mod_eq_sub_mod hle]
    rcases Nat.lt_or_ge (p % N + n - N) N with hlt | hge
    · exact (Nat.mod_eq_of_lt hlt).symm
    · omega
  · exact (Nat.mod_eq_of_lt (by omega)).symm

theorem wrap_succ (hN : 0 < N) :
    (if N ≤ p % N + 1 then 0 else p % N + 1) = (p + 1) % N := by
  have hp := Nat.mod_lt p hN
  rw [← wrap_add hN (by omega : 1 ≤ N)]
  split
  · omega
  · rfl

/-! ## Regions -/

/-- The `n` places from `p` on. -/
def region (N p n : Nat) : Set Nat := {x | ∃ i < n, x = (p + i) % N}

theorem region_mod (N p n : Nat) : region N (p % N) n = region N p n := by
  unfold region
  simp only [Nat.mod_add_mod]

theorem mod_ne_mod (h : p < q) (hN : q < p + N) : p % N ≠ q % N := by
  intro he
  have hdvd : N ∣ q - p := (Nat.modEq_iff_dvd' h.le).1 he
  have := Nat.le_of_dvd (by omega) hdvd
  omega

/-- A region that starts behind another one, and ends before that one comes
around again, does not meet it. -/
theorem disjoint_region (h : p + n ≤ q) (hN : q + m ≤ p + N) :
    Disjoint (region N p n) (region N q m) := by
  rw [Set.disjoint_left]
  rintro x ⟨i, hi, rfl⟩ ⟨j, hj, he⟩
  exact mod_ne_mod (by omega) (by omega) he

/-! ## Regions one behind another -/

/-- The regions of lengths `ns` one behind another from `p` on. -/
def layout (N p : Nat) : List Nat → List (Nat × Nat)
  | [] => []
  | n :: ns => (p % N, n) :: layout N (p + n) ns

theorem layout_congr (h : p % N = q % N) : layout N p ns = layout N q ns := by
  induction ns generalizing p q with
  | nil => rfl
  | cons n ns ih =>
    rw [layout, layout, h, ih (Nat.ModEq.add_right n h)]

theorem layout_append : layout N p (ns ++ ms) = layout N p ns ++ layout N (p + ns.sum) ms := by
  induction ns generalizing p with
  | nil => rfl
  | cons n ns ih => rw [List.cons_append, layout, layout, ih, List.sum_cons, Nat.add_assoc]; rfl

/-- A region behind `p` does not meet what is laid out behind it. -/
theorem disjoint_layout (h : p + n ≤ q) (hN : q + ns.sum ≤ p + N) :
    ∀ r ∈ layout N q ns, Disjoint (region N p n) (region N r.1 r.2) := by
  induction ns generalizing q with
  | nil => nofun
  | cons m ns ih =>
    rw [List.sum_cons] at hN
    rw [layout, List.forall_mem_cons]
    refine ⟨?_, ih (by omega) (by omega)⟩
    rw [region_mod]
    exact disjoint_region h (by omega)

/-- Regions one behind another that fit in the ring do not overlap. -/
theorem pairwise_layout (h : ns.sum ≤ N) :
    (layout N p ns).Pairwise fun r s => Disjoint (region N r.1 r.2) (region N s.1 s.2) := by
  induction ns generalizing p with
  | nil => exact .nil
  | cons n ns ih =>
    rw [List.sum_cons] at h
    rw [layout, List.pairwise_cons]
    refine ⟨?_, ih (by omega)⟩
    rw [region_mod]
    exact disjoint_layout le_rfl (by omega)

/-! ## Contents -/

/-- The contents of the `n` places from `p` on. -/
def read (buf : Nat → β) (N p n : Nat) : List β := (List.range n).map fun i => buf ((p + i) % N)

/-- `xs` stored from `p` on. -/
def write (buf : Nat → β) (N p : Nat) : List β → Nat → β
  | [] => buf
  | x :: xs => write (update buf (p % N) x) N (p + 1) xs

@[simp] theorem length_read (buf : Nat → β) (N p n : Nat) : (read buf N p n).length = n := by
  simp [read]

theorem read_mod (buf : Nat → β) (N p n : Nat) : read buf N (p % N) n = read buf N p n := by
  unfold read
  simp only [Nat.mod_add_mod]

theorem read_add (buf : Nat → β) (N p n m : Nat) :
    read buf N p (n + m) = read buf N p n ++ read buf N (p + n) m := by
  unfold read
  rw [List.range_add, List.map_append, List.map_map]
  simp only [Function.comp_def, Nat.add_assoc]

theorem read_succ (buf : Nat → β) (N p n : Nat) :
    read buf N p (n + 1) = buf (p % N) :: read buf N (p + 1) n := by
  rw [Nat.add_comm, read_add]
  rfl

theorem getElem?_read (h : i < n) : (read buf N p n)[i]? = some (buf ((p + i) % N)) := by
  unfold read
  rw [List.getElem?_map, List.getElem?_range h]
  rfl

theorem write_mod (buf : Nat → β) (N p : Nat) (xs : List β) :
    write buf N (p % N) xs = write buf N p xs := by
  induction xs generalizing buf p with
  | nil => rfl
  | cons x xs ih =>
    rw [write, write, Nat.mod_mod, ← ih _ (p % N + 1), ← ih _ (p + 1), Nat.mod_add_mod]

theorem write_append (buf : Nat → β) (N p : Nat) (xs ys : List β) :
    write buf N p (xs ++ ys) = write (write buf N p xs) N (p + xs.length) ys := by
  induction xs generalizing buf p with
  | nil => rfl
  | cons x xs ih =>
    rw [List.cons_append, write, write, ih, List.length_cons, Nat.add_right_comm, Nat.add_assoc]

/-- Outside of its region a write changes nothing. -/
theorem write_out (h : x ∉ region N p xs.length) : write buf N p xs x = buf x := by
  induction xs generalizing buf p with
  | nil => rfl
  | cons y xs ih =>
    rw [write, ih, update_of_ne]
    · rintro rfl
      exact h ⟨0, by simp, by simp⟩
    · rintro ⟨i, hi, rfl⟩
      exact h ⟨i + 1, by simpa using hi, by rw [Nat.add_assoc, Nat.add_comm 1 i]⟩

theorem read_congr {buf' : Nat → β} (h : ∀ x ∈ region N p n, buf' x = buf x) :
    read buf' N p n = read buf N p n :=
  List.map_congr_left fun i hi => h _ ⟨i, List.mem_range.1 hi, rfl⟩

/-- A region that the write does not meet keeps its contents. -/
theorem read_write_of_disjoint (h : Disjoint (region N q n) (region N p xs.length)) :
    read (write buf N p xs) N q n = read buf N q n :=
  read_congr fun _ hx => write_out (Set.disjoint_left.1 h hx)

/-- What fits in the ring is read back as it was written. -/
theorem read_write (h : xs.length ≤ N) : read (write buf N p xs) N p xs.length = xs := by
  induction xs generalizing buf p with
  | nil => rfl
  | cons x xs ih =>
    rw [List.length_cons] at h
    have hhead : write (update buf (p % N) x) N (p + 1) xs (p % N) = x := by
      rw [write_out, update_self]
      rintro ⟨i, hi, he⟩
      exact mod_ne_mod (by omega) (by omega) he
    rw [List.length_cons, Nat.add_comm xs.length 1, read_add, write, ih (by omega)]
    simp only [read, List.range_one, List.map_cons, List.map_nil, Nat.add_zero, hhead,
      List.singleton_append]

/-- What is written behind the `n` places in use is read behind them. -/
theorem read_write_append (h : n + xs.length ≤ N) :
    read (write buf N (p + n) xs) N p (n + xs.length) = read buf N p n ++ xs := by
  rw [read_add, read_write (by omega), read_write_of_disjoint]
  exact disjoint_region le_rfl (by omega)

/-- What is written over the oldest of the `n` places in use leaves the others before it. -/
theorem read_write_over (hx : xs.length ≤ N) (hm : n + xs.length = N + m) :
    read (write buf N (p + n) xs) N (p + m) N = (read buf N p n).drop m ++ xs := by
  have hle : m ≤ n := by omega
  have hkept : read (write buf N (p + n) xs) N (p + m) (n - m) = read buf N (p + m) (n - m) := by
    apply read_write_of_disjoint
    exact disjoint_region (by omega) (by omega)
  have hnew : read (write buf N (p + n) xs) N (p + m + (n - m)) xs.length = xs := by
    rw [show p + m + (n - m) = p + n by omega]
    exact read_write hx
  have hall := read_add (write buf N (p + n) xs) N (p + m) (n - m) xs.length
  have hdrop : (read buf N p n).drop m = read buf N (p + m) (n - m) := by
    conv_lhs => rw [← Nat.add_sub_of_le hle]
    rw [read_add]
    exact List.drop_left' (length_read buf N p m)
  rw [show n - m + xs.length = N by omega, hkept, hnew] at hall
  rw [hall, hdrop]

/-- One element stored behind the `n` in use. -/
theorem read_push (x : β) (h : n < N) :
    read (update buf ((p + n) % N) x) N p (n + 1) = read buf N p n ++ [x] :=
  have h' : n + [x].length ≤ N := h
  read_write_append h'

/-! ## Regions that do not go around the end -/

theorem read_eq_load (h : p + n ≤ N) : read buf N p n = Memory.load buf (List.range' p n) := by
  unfold read Memory.load
  rw [List.range'_eq_map_range, List.map_map]
  refine List.map_congr_left fun i hi => ?_
  rw [List.mem_range] at hi
  exact congrArg buf (Nat.mod_eq_of_lt (by omega))

theorem write_eq_memcpy (h : p + xs.length ≤ N) : write buf N p xs = Memory.memcpy buf p xs := by
  induction xs generalizing buf p with
  | nil => rfl
  | cons x xs ih =>
    rw [List.length_cons] at h
    rw [write, Nat.mod_eq_of_lt (by omega), ih (by omega)]
    rfl

end Melis.Lib.Ring
