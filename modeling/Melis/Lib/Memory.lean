import Mathlib.Data.List.Rotate

/-!
# Memory at lists of addresses

`store mem as xs` writes the bytes `xs` at the addresses `as`, one after the
other, and `load mem as` reads there; `memcpy` is a store at addresses in a row.
The addresses of a ring of buffers are a list up to rotation, and two rotations
of it that begin with the same address are the same (`eq_of_isRotated_cons`).
-/

namespace Melis.Lib.Memory

open Function

universe u v

variable {α : Type u} {β : Type v}

def load (mem : α → β) (as : List α) : List β := as.map mem

def store [DecidableEq α] (mem : α → β) : List α → List β → α → β
  | a :: as, x :: xs => store (update mem a x) as xs
  | _, _ => mem

/-- `memcpy` of `xs` to address `p`. -/
def memcpy (mem : Nat → β) (p : Nat) (xs : List β) : Nat → β :=
  store mem (List.range' p xs.length) xs

/-- `dst` with the `n` bytes of `src` from `s` on at `d`. -/
def copyN (dst : Nat → β) (d : Nat) (src : Nat → β) (s n : Nat) : Nat → β := fun i =>
  if d ≤ i ∧ i < d + n then src (s + (i - d)) else dst i

section

variable {dst src : Nat → β} {d s n i : Nat}

theorem copyN_in (h : i < n) : copyN dst d src s n (d + i) = src (s + i) := by
  rw [copyN, if_pos ⟨Nat.le_add_right d i, Nat.add_lt_add_left h d⟩, Nat.add_sub_cancel_left]

theorem copyN_out (h : i < d ∨ d + n ≤ i) : copyN dst d src s n i = dst i := if_neg (by omega)

end

section

variable {mem : α → β} {as bs : List α} {xs ys : List β} {a : α} {l r : List α}

theorem load_congr {mem' : α → β} (h : ∀ a ∈ as, mem' a = mem a) : load mem' as = load mem as :=
  List.map_congr_left h

variable [DecidableEq α]

@[simp] theorem store_nil : store mem as [] = mem := by cases as <;> rfl

theorem store_cons {x : β} : store mem (a :: as) (x :: xs) = store (update mem a x) as xs := rfl

theorem store_of_notMem (h : a ∉ as) : store mem as xs a = mem a := by
  induction as generalizing mem xs with
  | nil => rfl
  | cons b as ih =>
    rw [List.mem_cons, not_or] at h
    obtain ⟨hne, has⟩ := h
    cases xs with
    | nil => rfl
    | cons x xs => rw [store_cons, ih has, update_of_ne hne]

theorem load_store_of_disjoint (h : as.Disjoint bs) : load (store mem as xs) bs = load mem bs :=
  load_congr fun _ ha => store_of_notMem fun ha' => h ha' ha

theorem load_store (h : as.Nodup) (hlen : as.length = xs.length) :
    load (store mem as xs) as = xs := by
  induction as generalizing mem xs with
  | nil => exact (List.eq_nil_of_length_eq_zero hlen.symm).symm
  | cons a as ih =>
    obtain ⟨hnot, hnodup⟩ := List.nodup_cons.1 h
    cases xs with
    | nil => cases hlen
    | cons x xs =>
      have htail : load (store (update mem a x) as xs) as = xs :=
        ih hnodup (Nat.succ.inj hlen)
      have hhead : store (update mem a x) as xs a = x := by
        rw [store_of_notMem hnot, update_self]
      rw [store_cons]
      unfold load at htail ⊢
      rw [List.map_cons, hhead, htail]

/-- What is stored from a memory has the bytes of that memory. -/
theorem store_load_of_mem {mem₀ : α → β} (h : a ∈ as) : store mem as (load mem₀ as) a = mem₀ a := by
  induction as generalizing mem with
  | nil => cases h
  | cons b as ih =>
    by_cases has : a ∈ as
    · exact ih has
    · obtain rfl := (List.mem_cons.1 h).resolve_right has
      have hcons : store mem (a :: as) (load mem₀ (a :: as)) =
          store (update mem a (mem₀ a)) as (load mem₀ as) := rfl
      rw [hcons, store_of_notMem has, update_self]

/-- What a store has replaced is put back. -/
theorem store_store_load : store (store mem as xs) as (load mem as) = mem := by
  funext a
  by_cases h : a ∈ as
  · exact store_load_of_mem h
  · rw [store_of_notMem h, store_of_notMem h]

theorem store_take : store mem as (xs.take as.length) = store mem as xs := by
  induction as generalizing mem xs with
  | nil => rfl
  | cons a as ih =>
    cases xs with
    | nil => rfl
    | cons x xs => exact ih

theorem store_append (hlen : as.length = xs.length) :
    store mem (as ++ bs) (xs ++ ys) = store (store mem as xs) bs ys := by
  induction as generalizing mem xs with
  | nil =>
    obtain rfl := List.eq_nil_of_length_eq_zero hlen.symm
    rfl
  | cons a as ih =>
    cases xs with
    | nil => cases hlen
    | cons x xs => exact ih (Nat.succ.inj hlen)

end

section

variable {mem : Nat → β} {p i : Nat} {xs : List β} {x : β}

theorem memcpy_in (h : xs[i]? = some x) : memcpy mem p xs (p + i) = x := by
  obtain ⟨hi, rfl⟩ := List.getElem?_eq_some_iff.1 h
  have hload : load (memcpy mem p xs) (List.range' p xs.length) = xs :=
    load_store (List.nodup_range' ..) (List.length_range' ..)
  have hat := congrArg (fun ys => ys[i]?) hload
  simpa [load, hi] using hat

theorem memcpy_out (h : i < p ∨ p + xs.length ≤ i) : memcpy mem p xs i = mem i := by
  refine store_of_notMem fun hmem => ?_
  rw [List.mem_range'_1] at hmem
  omega

end

/-! ## Rotations -/

section

variable {γ : Type u} {l l' A B : List γ} {a : γ}

/-- A rotation splits the list in two. -/
theorem isRotated_iff_append : l.IsRotated l' ↔ ∃ A B, l = A ++ B ∧ l' = B ++ A := by
  constructor
  · rintro ⟨n, rfl⟩
    refine ⟨l.take (n % l.length), l.drop (n % l.length), (List.take_append_drop _ _).symm, ?_⟩
    exact List.rotate_eq_drop_append_take_mod
  · rintro ⟨A, B, rfl, rfl⟩
    exact List.isRotated_append

/-- A list without repetitions has one rotation that begins with `a`. -/
theorem eq_of_isRotated_cons (hnodup : (A ++ a :: B).Nodup) (h : (A ++ a :: B).IsRotated l)
    (hhead : l.head? = some a) : l = a :: B ++ A := by
  obtain ⟨C, D, hCD, rfl⟩ := isRotated_iff_append.1 h
  cases D with
  | nil =>
    -- the head of `C` is `a` then, so `A` is empty
    rw [List.nil_append] at hhead ⊢
    rw [List.append_nil] at hCD
    subst hCD
    cases A with
    | nil => exact (List.append_nil _).symm
    | cons b A =>
      obtain rfl : b = a := Option.some.inj hhead
      rw [List.cons_append, List.nodup_cons] at hnodup
      exact absurd (List.mem_append_right A List.mem_cons_self) hnodup.1
  | cons d D =>
    obtain rfl : d = a := Option.some.inj hhead
    have hA : A = C := by
      rcases List.append_eq_append_iff.1 hCD with ⟨E, hC, hE⟩ | ⟨E, hA, hE⟩
      · cases E with
        | nil => rw [hC, List.append_nil]
        | cons e E =>
          obtain ⟨rfl, rfl⟩ := List.cons.inj hE
          rw [List.nodup_append, List.nodup_cons] at hnodup
          exact absurd (List.mem_append_right E List.mem_cons_self) hnodup.2.1.1
      · cases E with
        | nil => rw [hA, List.append_nil]
        | cons e E =>
          obtain ⟨rfl, -⟩ := List.cons.inj hE
          rw [List.nodup_append] at hnodup
          refine absurd rfl (hnodup.2.2 d ?_ d List.mem_cons_self)
          rw [hA]
          exact List.mem_append_right _ List.mem_cons_self
    subst hA
    obtain ⟨-, rfl⟩ := List.cons.inj (List.append_cancel_left hCD)
    rfl

end

end Melis.Lib.Memory
