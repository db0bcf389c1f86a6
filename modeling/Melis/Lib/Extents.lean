import Mathlib.Data.List.Nodup

/-!
# Extents one after another

`Extents len lo l hi`: the extents `[x, x + len x)` of the addresses `x` of `l` lie one
after another between `lo` and `hi`. So two of them are apart (`Extents.apart`), an extent
can be added behind the last one, taken out, or stretched up to the next.
-/

namespace Melis.Lib

/-- Two extents have no address in common. -/
def Apart (x m y n : Nat) : Prop := x + m ≤ y ∨ y + n ≤ x

theorem Apart.symm {x m y n : Nat} (h : Apart x m y n) : Apart y n x m := Or.symm h

/-- Parts of extents that are apart are apart. -/
theorem Apart.mono {x m y n x' m' y' n' : Nat} (h : Apart x m y n) (hx : x ≤ x')
    (hm : x' + m' ≤ x + m) (hy : y ≤ y') (hn : y' + n' ≤ y + n) : Apart x' m' y' n' := by
  unfold Apart at *
  omega

def Extents (len : Nat → Nat) : Nat → List Nat → Nat → Prop
  | lo, [], hi => lo ≤ hi
  | lo, x :: l, hi => lo ≤ x ∧ Extents len (x + len x) l hi

namespace Extents

variable {len len' : Nat → Nat} {lo lo' hi hi' x y : Nat} {l l' A B : List Nat}

theorem nil_iff : Extents len lo [] hi ↔ lo ≤ hi := Iff.rfl

theorem cons_iff : Extents len lo (x :: l) hi ↔ lo ≤ x ∧ Extents len (x + len x) l hi := Iff.rfl

theorem append_iff :
    Extents len lo (A ++ B) hi ↔ ∃ mid, Extents len lo A mid ∧ Extents len mid B hi := by
  induction A generalizing lo with
  | nil =>
    refine ⟨fun h => ⟨lo, Nat.le_refl lo, h⟩, ?_⟩
    rintro ⟨mid, hlo, h⟩
    rw [nil_iff] at hlo
    cases B with
    | nil => exact Nat.le_trans hlo h
    | cons x B => exact ⟨Nat.le_trans hlo h.1, h.2⟩
  | cons x A ih =>
    rw [List.cons_append, cons_iff, ih]
    constructor
    · rintro ⟨hx, mid, hA, hB⟩
      exact ⟨mid, ⟨hx, hA⟩, hB⟩
    · rintro ⟨mid, ⟨hx, hA⟩, hB⟩
      exact ⟨hx, mid, hA, hB⟩

theorem le (h : Extents len lo l hi) : lo ≤ hi := by
  induction l generalizing lo with
  | nil => exact h
  | cons x l ih =>
    have := ih h.2
    have := h.1
    omega

theorem mem_bounds (h : Extents len lo l hi) (hx : x ∈ l) : lo ≤ x ∧ x + len x ≤ hi := by
  obtain ⟨A, B, rfl⟩ := List.append_of_mem hx
  obtain ⟨mid, hA, hB⟩ := append_iff.1 h
  exact ⟨Nat.le_trans hA.le hB.1, hB.2.le⟩

theorem apart (h : Extents len lo l hi) (hx : x ∈ l) (hy : y ∈ l) (hne : x ≠ y) :
    Apart x (len x) y (len y) := by
  induction l generalizing lo with
  | nil => cases hx
  | cons z l ih =>
    obtain ⟨-, hl⟩ := h
    cases hx with
    | head =>
      cases hy with
      | head => exact absurd rfl hne
      | tail _ hy => exact Or.inl (hl.mem_bounds hy).1
    | tail _ hx =>
      cases hy with
      | head => exact Or.inr (hl.mem_bounds hx).1
      | tail _ hy => exact ih hl hx hy

theorem nodup (hpos : ∀ x, 0 < len x) (h : Extents len lo l hi) : l.Nodup := by
  induction l generalizing lo with
  | nil => exact List.nodup_nil
  | cons x l ih =>
    refine List.nodup_cons.2 ⟨fun hx => ?_, ih h.2⟩
    have := (h.2.mem_bounds hx).1
    have := hpos x
    omega

theorem congr (hlen : ∀ x ∈ l, len' x = len x) (h : Extents len lo l hi) :
    Extents len' lo l hi := by
  induction l generalizing lo with
  | nil => exact h
  | cons x l ih =>
    obtain ⟨hx, hl⟩ := List.forall_mem_cons.1 hlen
    refine ⟨h.1, ?_⟩
    rw [hx]
    exact ih hl h.2

theorem mono (hlo : lo' ≤ lo) (hhi : hi ≤ hi') (h : Extents len lo l hi) :
    Extents len lo' l hi' := by
  induction l generalizing lo lo' with
  | nil => exact Nat.le_trans hlo (Nat.le_trans h hhi)
  | cons x l ih => exact ⟨Nat.le_trans hlo h.1, ih (Nat.le_refl _) h.2⟩

theorem sublist (hl : l'.Sublist l) (h : Extents len lo l hi) : Extents len lo l' hi := by
  induction hl generalizing lo with
  | slnil => exact h
  | cons x hl ih =>
    have hlo : lo ≤ x + len x := Nat.le_trans h.1 (Nat.le_add_right _ _)
    exact ih (mono hlo (Nat.le_refl _) h.2)
  | cons_cons x hl ih => exact ⟨h.1, ih h.2⟩

/-- An extent behind the last one. -/
theorem snoc (h : Extents len lo l x) (hx : x + len x ≤ hi) : Extents len lo (l ++ [x]) hi :=
  append_iff.2 ⟨x, h, Nat.le_refl x, hx⟩

/-- The last extent gets another length. -/
theorem stretch_last (h : Extents len lo (A ++ [x]) hi) (hA : ∀ y ∈ A, len' y = len y)
    (hx : x + len' x ≤ hi') : Extents len' lo (A ++ [x]) hi' := by
  obtain ⟨mid, h, hmid, -⟩ := append_iff.1 h
  exact append_iff.2 ⟨mid, h.congr hA, hmid, hx⟩

/-- An extent is stretched up to the next. -/
theorem stretch (h : Extents len lo (A ++ x :: y :: B) hi) (hA : ∀ z ∈ A, len' z = len z)
    (hB : ∀ z ∈ y :: B, len' z = len z) (hx : x + len' x ≤ y) :
    Extents len' lo (A ++ x :: y :: B) hi := by
  obtain ⟨mid, h, hmid, -, hyB⟩ := append_iff.1 h
  have hrest : Extents len (x + len' x) (y :: B) hi := ⟨hx, hyB⟩
  exact append_iff.2 ⟨mid, h.congr hA, hmid, hrest.congr hB⟩

end Extents

end Melis.Lib
