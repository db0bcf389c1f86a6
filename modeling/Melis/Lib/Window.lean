import Mathlib.Data.List.Basic

/-!
# A window on a row of bytes

A `Window` shows its user the bytes `seen`, between those before it and those
behind it. A byte that was never stored is `none`. `append` and `insert` write at
the two ends of what is seen, and `select` moves the ends. `Known cs mem` says that
a memory holds the stored bytes of `cs`; there is one rule for each operation,
about any memory that has changed no more than the operation needs.
-/

namespace Melis.Lib

universe u

structure Window (β : Type u) where
  before : List (Option β)
  seen : List (Option β)
  behind : List (Option β)

/-- The memory holds the stored bytes of `cs`, from address 0 on. -/
def Known {β : Type u} (cs : List (Option β)) (mem : Nat → β) : Prop :=
  ∀ i x, cs[i]? = some (some x) → mem i = x

namespace Known

variable {β : Type u} {cs ds : List (Option β)} {xs : List β} {mem mem' : Nat → β}

theorem congr (h : Known cs mem) (hmem : ∀ i < cs.length, mem' i = mem i) : Known cs mem' := by
  intro i x hx
  obtain ⟨hi, -⟩ := List.getElem?_eq_some_iff.1 hx
  rw [hmem i hi]
  exact h i x hx

theorem append_iff :
    Known (cs ++ ds) mem ↔ Known cs mem ∧ Known ds fun i => mem (cs.length + i) := by
  constructor
  · intro h
    refine ⟨fun i x hx => h i x ?_, fun i x hx => h (cs.length + i) x ?_⟩
    · obtain ⟨hi, -⟩ := List.getElem?_eq_some_iff.1 hx
      rw [List.getElem?_append_left hi, hx]
    · rw [List.getElem?_append_right (Nat.le_add_right _ _), Nat.add_sub_cancel_left, hx]
  · rintro ⟨hcs, hds⟩ i x hx
    rcases Nat.lt_or_ge i cs.length with hi | hi
    · rw [List.getElem?_append_left hi] at hx
      exact hcs i x hx
    · rw [List.getElem?_append_right hi] at hx
      have := hds (i - cs.length) x hx
      simpa only [Nat.add_sub_cancel' hi] using this

theorem take (h : Known cs mem) (n : Nat) : Known (cs.take n) mem := by
  rw [← List.take_append_drop n cs] at h
  exact (append_iff.1 h).1

theorem drop (h : Known cs mem) {n : Nat} : Known (cs.drop n) fun i => mem (n + i) := by
  intro i x hx
  rw [List.getElem?_drop] at hx
  exact h (n + i) x hx

theorem map_some_iff : Known (xs.map some) mem ↔ ∀ i x, xs[i]? = some x → mem i = x := by
  refine forall₂_congr fun i x => ?_
  rw [List.getElem?_map, Option.map_eq_some_iff]
  exact ⟨fun h hx => h ⟨x, hx, rfl⟩, fun h ⟨y, hy, hyx⟩ => h (Option.some.inj hyx ▸ hy)⟩

/-- Cells that hold no byte claim nothing. -/
theorem replicate_none {n : Nat} : Known (List.replicate n (none : Option β)) mem := by
  intro i x hx
  rw [List.getElem?_replicate] at hx
  split at hx <;> cases hx

end Known

namespace Window

variable {β : Type u} (w : Window β)

def cells : List (Option β) := w.before ++ w.seen ++ w.behind

def append (d : List β) : Window β :=
  { w with seen := w.seen ++ d.map some, behind := w.behind.drop d.length }

/-- What has no room before the window pushes it towards the end. -/
def insert (d : List β) : Window β where
  before := w.before.take (w.before.length - d.length)
  seen := d.map some ++ w.seen
  behind := w.behind.drop (d.length - w.before.length)

/-- The cells, and as many without a byte as make them `n` at least. -/
def padded (n : Nat) : List (Option β) := w.cells ++ List.replicate (n - w.cells.length) none

/-- The window of the `n` cells from `p` on. -/
def select (p n : Nat) : Window β where
  before := (w.padded (p + n)).take p
  seen := ((w.padded (p + n)).drop p).take n
  behind := ((w.padded (p + n)).drop p).drop n

variable {w} {mem mem' : Nat → β} {d : List β} {p n : Nat}

theorem length_cells : w.cells.length = w.before.length + w.seen.length + w.behind.length := by
  simp [cells, Nat.add_assoc]

theorem length_padded : (w.padded n).length = max w.cells.length n := by
  simp only [padded, List.length_append, List.length_replicate]
  omega

theorem known_iff : Known w.cells mem ↔ Known w.before mem ∧
    (Known w.seen fun i => mem (w.before.length + i)) ∧
    Known w.behind fun i => mem (w.before.length + w.seen.length + i) := by
  simp only [cells, Known.append_iff, List.length_append, and_assoc]

/-! ## What is appended -/

@[simp] theorem append_before : (w.append d).before = w.before := rfl

@[simp] theorem length_append_seen : (w.append d).seen.length = w.seen.length + d.length := by
  simp [append]

theorem length_append_cells : (w.append d).cells.length =
    max w.cells.length (w.before.length + w.seen.length + d.length) := by
  simp only [length_cells, append, List.length_append, List.length_map, List.length_drop]
  omega

/-- **Append**: the bytes stand behind the window, and what they do not cover is kept. -/
theorem known_append (h : Known w.cells mem)
    (hd : ∀ i x, d[i]? = some x → mem' (w.before.length + w.seen.length + i) = x)
    (hfront : ∀ i < w.before.length + w.seen.length, mem' i = mem i)
    (hback : ∀ i, w.before.length + w.seen.length + d.length ≤ i → i < w.cells.length →
      mem' i = mem i) :
    Known (w.append d).cells mem' := by
  obtain ⟨hbefore, hseen, hbehind⟩ := known_iff.1 h
  have hlen := length_cells (w := w)
  refine known_iff.2 ⟨?_, ?_, ?_⟩
  · exact hbefore.congr fun i hi => hfront i (Nat.lt_add_right _ hi)
  · refine Known.append_iff.2 ⟨?_, ?_⟩
    · exact hseen.congr fun i hi => hfront _ (Nat.add_lt_add_left hi _)
    · rw [Known.map_some_iff]
      intro i x hx
      rw [append_before, ← Nat.add_assoc]
      exact hd i x hx
  · refine (hbehind.drop (n := d.length)).congr fun i hi => ?_
    have hi : i < w.behind.length - d.length := by simpa [append] using hi
    rw [length_append_seen, append_before, ← Nat.add_assoc, ← Nat.add_assoc]
    exact hback _ (Nat.le_add_right _ _) (by omega)

/-! ## What is inserted -/

@[simp] theorem length_insert_before :
    (w.insert d).before.length = w.before.length - d.length := by
  simp [insert]

@[simp] theorem length_insert_seen : (w.insert d).seen.length = w.seen.length + d.length := by
  simp [insert, Nat.add_comm]

theorem length_insert_cells : (w.insert d).cells.length =
    max w.cells.length (w.seen.length + d.length) := by
  simp only [length_cells, length_insert_before, length_insert_seen]
  simp only [insert, List.length_drop]
  omega

/-- **Insert**: the bytes stand before those seen, which have moved where there was no room;
what the two do not cover is kept. -/
theorem known_insert (h : Known w.cells mem)
    (hd : ∀ i x, d[i]? = some x → mem' (w.before.length - d.length + i) = x)
    (hfront : ∀ i < w.before.length - d.length, mem' i = mem i)
    (hseen : ∀ i < w.seen.length,
      mem' (max w.before.length d.length + i) = mem (w.before.length + i))
    (hback : ∀ i, max w.before.length d.length + w.seen.length ≤ i → i < w.cells.length →
      mem' i = mem i) :
    Known (w.insert d).cells mem' := by
  obtain ⟨hbefore, hknown, hbehind⟩ := known_iff.1 h
  have hlen := length_cells (w := w)
  have hmax : w.before.length - d.length + d.length = max w.before.length d.length := by omega
  refine known_iff.2 ⟨?_, ?_, ?_⟩
  · refine (hbefore.take _).congr fun i hi => hfront i ?_
    simpa [insert] using hi
  · refine Known.append_iff.2 ⟨?_, ?_⟩
    · rw [Known.map_some_iff, length_insert_before]
      exact hd
    · refine hknown.congr fun i hi => ?_
      rw [length_insert_before, List.length_map, ← Nat.add_assoc, hmax]
      exact hseen i hi
  · refine (hbehind.drop (n := d.length - w.before.length)).congr fun i hi => ?_
    have hi : i < w.behind.length - (d.length - w.before.length) := by simpa [insert] using hi
    rw [length_insert_before, length_insert_seen]
    have hat : w.before.length - d.length + (w.seen.length + d.length) + i =
        w.before.length + w.seen.length + (d.length - w.before.length + i) := by omega
    rw [hat]
    exact hback _ (by omega) (by omega)

/-! ## What is selected -/

theorem length_select_before (p n : Nat) : (w.select p n).before.length = p := by
  have := length_padded (w := w) (n := p + n)
  simp only [select, List.length_take]
  omega

theorem length_select_seen (p n : Nat) : (w.select p n).seen.length = n := by
  have := length_padded (w := w) (n := p + n)
  simp only [select, List.length_take, List.length_drop]
  omega

theorem cells_select : (w.select p n).cells = w.padded (p + n) := by
  simp only [cells, select, List.append_assoc, List.take_append_drop]

/-- **Select**: no byte is touched. -/
theorem known_select (h : Known w.cells mem) : Known (w.select p n).cells mem := by
  rw [cells_select, padded]
  exact Known.append_iff.2 ⟨h, .replicate_none⟩

end Window

end Melis.Lib
