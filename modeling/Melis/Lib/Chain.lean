import Mathlib.Data.List.Nodup

/-!
# Singly linked chains

A chain threads cells of `α` through a map `next : α → Option α`, which is the
`next` pointer of each cell. `Chain next h l` says the cells reached from `h`
are `l` in order. `chain_snoc` and `chain_unlink` are the two edits of a
hand-linked list; `walk` is the loop `for (p = h; p; p = p->next)` that leaves
at its first hit, `lastCell` the loop that runs to the end. Both loops take a
bound on their number of passes, since a chain bent into a ring never ends.
-/

namespace Melis.Lib

universe u v

variable {α : Type u} {β : Type v}

/-- The cells reached from `h` along `next` are `l`, and there the chain ends. -/
def Chain (next : α → Option α) : Option α → List α → Prop
  | h, [] => h = none
  | h, a :: l => h = some a ∧ Chain next (next a) l

@[simp] theorem chain_nil {next : α → Option α} {h : Option α} : Chain next h [] ↔ h = none :=
  Iff.rfl

@[simp] theorem chain_cons {next : α → Option α} {h : Option α} {a : α} {l : List α} :
    Chain next h (a :: l) ↔ h = some a ∧ Chain next (next a) l := Iff.rfl

theorem Chain.unique {next : α → Option α} {h : Option α} {l m : List α}
    (hl : Chain next h l) (hm : Chain next h m) : l = m := by
  induction l generalizing h m with
  | nil =>
    cases m with
    | nil => rfl
    | cons b m => rw [chain_nil.1 hl] at hm; cases hm.1
  | cons a l ih =>
    cases m with
    | nil => rw [chain_nil.1 hm] at hl; cases hl.1
    | cons b m =>
      obtain rfl : a = b := by simpa using hl.1.symm.trans hm.1
      rw [ih hl.2 hm.2]

theorem Chain.head_eq {next : α → Option α} {h : Option α} {l : List α} (hl : Chain next h l) :
    h = l.head? := by
  cases l with
  | nil => exact hl
  | cons a l => exact hl.1

/-- The pointer of a cell on the chain is the cell behind it. -/
theorem Chain.next_eq {next : α → Option α} {h : Option α} {l m : List α} {p : α}
    (hl : Chain next h (l ++ p :: m)) : next p = m.head? := by
  induction l generalizing h with
  | nil => exact hl.2.head_eq
  | cons a l ih => exact ih hl.2

theorem Chain.congr {next next' : α → Option α} {h : Option α} {l : List α}
    (hl : Chain next h l) (he : ∀ a ∈ l, next' a = next a) : Chain next' h l := by
  induction l generalizing h with
  | nil => exact hl
  | cons a l ih =>
    refine ⟨hl.1, ?_⟩
    rw [he a List.mem_cons_self]
    exact ih hl.2 fun b hb => he b (List.mem_cons_of_mem _ hb)

section Edit

variable [DecidableEq α] {next : α → Option α} {h : Option α}

/-- Changing the pointer of a cell off the chain leaves the chain alone. -/
theorem Chain.update_of_notMem {l : List α} {a : α} {v : Option α} (hl : Chain next h l)
    (ha : a ∉ l) : Chain (Function.update next a v) h l :=
  hl.congr fun _ hb => Function.update_of_ne (ne_of_mem_of_not_mem hb ha) _ _

/-- Linking a new last cell behind the old one. -/
theorem chain_snoc {l : List α} {p b : α} (hl : Chain next h (l ++ [p]))
    (hb : next b = none) (hbl : b ∉ l ++ [p]) (hnd : (l ++ [p]).Nodup) :
    Chain (Function.update next p (some b)) h (l ++ [p] ++ [b]) := by
  induction l generalizing h with
  | nil =>
    have hbp : b ≠ p := by simpa using hbl
    refine ⟨hl.1, ?_, ?_⟩
    · simp
    · rw [Function.update_of_ne hbp]; exact hb
  | cons a l ih =>
    have hap : a ≠ p := by
      rintro rfl
      simp at hnd
    refine ⟨hl.1, ?_⟩
    rw [Function.update_of_ne hap]
    exact ih hl.2 (fun hm => hbl (List.mem_cons_of_mem _ hm)) (List.nodup_cons.1 hnd).2

/-- Unlinking a cell that has a predecessor. -/
theorem chain_unlink {l m : List α} {p d : α} (hl : Chain next h (l ++ p :: d :: m))
    (hnd : (l ++ p :: d :: m).Nodup) :
    Chain (Function.update next p (next d)) h (l ++ p :: m) := by
  induction l generalizing h with
  | nil =>
    obtain ⟨h1, -, h3⟩ := hl
    refine ⟨h1, ?_⟩
    rw [Function.update_self]
    have hp : p ∉ m := by
      intro hm
      simp [hm] at hnd
    exact h3.update_of_notMem hp
  | cons a l ih =>
    have hap : a ≠ p := by
      rintro rfl
      simp at hnd
    refine ⟨hl.1, ?_⟩
    rw [Function.update_of_ne hap]
    exact ih hl.2 (List.nodup_cons.1 hnd).2

end Edit

/-! ## Loops over a chain -/

/-- `for (p = h; p; p = p->next) if (f p) return …`, in at most `fuel` passes;
`none` when the loop is still running then. -/
def walk (next : α → Option α) (f : α → Option β) : Nat → Option α → Option (Option β)
  | _, none => some none
  | 0, some _ => none
  | fuel + 1, some a =>
    match f a with
    | some b => some (some b)
    | none => walk next f fuel (next a)

theorem walk_eq {next : α → Option α} {f : α → Option β} {h : Option α} {l : List α} {fuel : Nat}
    (hl : Chain next h l) (hf : l.length ≤ fuel) : walk next f fuel h = some (l.findSome? f) := by
  induction l generalizing h fuel with
  | nil => rw [chain_nil.1 hl]; cases fuel <;> rfl
  | cons a l ih =>
    obtain ⟨fuel, rfl⟩ : ∃ k, fuel = k + 1 := ⟨fuel - 1, by simp at hf; omega⟩
    rw [hl.1, walk, List.findSome?_cons]
    cases f a with
    | some b => rfl
    | none => exact ih hl.2 (by simpa using hf)

/-- The last cell of a non-empty chain, found in at most `fuel` passes. -/
def lastCell (next : α → Option α) : Nat → α → Option α
  | 0, _ => none
  | fuel + 1, a =>
    match next a with
    | none => some a
    | some b => lastCell next fuel b

theorem lastCell_eq {next : α → Option α} {l : List α} {a p : α} {fuel : Nat}
    (hl : Chain next (some a) (l ++ [p])) (hf : l.length < fuel) :
    lastCell next fuel a = some p := by
  induction l generalizing a fuel with
  | nil =>
    obtain ⟨fuel, rfl⟩ : ∃ k, fuel = k + 1 := ⟨fuel - 1, by simp at hf; omega⟩
    obtain ⟨h1, h2⟩ := hl
    obtain rfl : a = p := by simpa using h1
    rw [lastCell, chain_nil.1 h2]
  | cons b l ih =>
    obtain ⟨fuel, rfl⟩ : ∃ k, fuel = k + 1 := ⟨fuel - 1, by simp at hf; omega⟩
    obtain ⟨h1, h2⟩ := hl
    obtain rfl : a = b := by simpa using h1
    have h2' : Chain next (next a) (l ++ [p]) := h2
    cases hn : next a with
    | none => rw [hn] at h2'; cases l <;> cases h2'.1
    | some c =>
      rw [hn] at h2'
      rw [lastCell, hn]
      exact ih h2' (by simpa using hf)

end Melis.Lib
