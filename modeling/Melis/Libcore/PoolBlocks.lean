import Melis.Libcore.AwPool

/-!
# What holds of a pool

`PoolInv s new`: the heap has the block of the pool, the blocks of `pdList`, the large
regions, and the blocks `new` that are not linked yet; in each block of `pdList` the headers
stand one after another below `last`, and `ref` counts them, and one more until the block
has failed more than five times (`DataOk`). `Current` says that the current block and those
behind it have not.
-/

namespace Melis.Libcore

open Lib Function

section

variable {heap heap' : Finset (Nat × Nat)} {m n : Nat}

/-- What `malloc` promises of its blocks. -/
structure HeapOk (heap : Finset (Nat × Nat)) : Prop where
  valid : ∀ b ∈ heap, b.1 ≠ 0 ∧ b.1 % 8 = 0 ∧ b.1 + b.2 < 2 ^ 32
  apart : ∀ b ∈ heap, ∀ c ∈ heap, b ≠ c → Apart b.1 b.2 c.1 c.2

theorem HeapOk.empty : HeapOk ∅ := by
  constructor <;> simp

theorem HeapOk.subset (h : HeapOk heap) (hsub : heap' ⊆ heap) : HeapOk heap' :=
  ⟨fun b hb => h.valid b (hsub hb), fun b hb c hc => h.apart b (hsub hb) c (hsub hc)⟩

theorem HeapOk.insert (h : HeapOk heap) (hfresh : Fresh heap m n) : HeapOk (insert (m, n) heap) := by
  obtain ⟨hne, hmod, hlt, hapart⟩ := hfresh
  constructor
  · intro b hb
    rcases Finset.mem_insert.1 hb with rfl | hb
    · exact ⟨hne, hmod, hlt⟩
    · exact h.valid b hb
  · intro b hb c hc hbc
    rcases Finset.mem_insert.1 hb with rfl | hb <;> rcases Finset.mem_insert.1 hc with rfl | hc
    · exact absurd rfl hbc
    · exact hapart c hc
    · exact (hapart b hb).symm
    · exact h.apart b hb c hc hbc

end

/-! ## Lists of nodes -/

section

variable {A B : List Nat} {x : Nat}

theorem fromNode_append (hx : x ∉ A) : fromNode (A ++ x :: B) x = x :: B := by
  unfold fromNode
  rw [List.dropWhile_append_of_pos]
  · exact List.dropWhile_cons_of_neg (by simp)
  · intro y hy
    have hne : y ≠ x := fun h => hx (h ▸ hy)
    simpa using hne

theorem nextNode_append (hx : x ∉ A) : nextNode (A ++ x :: B) x = B.head? := by
  rw [nextNode, fromNode_append hx, List.tail_cons]

end

/-! ## Sizes -/

section

variable {size : Nat}

theorem aligned_mod (size : Nat) : aligned size % 8 = 0 := Nat.mul_mod_left _ _

theorem le_aligned (size : Nat) : size + 24 ≤ aligned size := by
  unfold aligned AwAlign sizeofPm
  omega

/-- The least multiple of 8. -/
theorem aligned_le {n : Nat} (hn : n % 8 = 0) (h : size + 24 ≤ n) : aligned size ≤ n := by
  unfold aligned AwAlign sizeofPm
  omega

theorem pmSize_eq (h : size + 31 < 2 ^ 31) : pmSize size = aligned size := by
  have hlt : aligned size < 2 ^ 31 := by
    unfold aligned AwAlign sizeofPm
    omega
  unfold pmSize
  rw [Int.bmod_def]
  omega

end

/-! ## Invariant -/

/-- Block `d` and its headers. -/
structure DataOk (pm : Nat → PoolMemoryS) (d : Nat) (v : PoolDataS) : Prop where
  end_eq : v.end_ = d + POOL_BLOCK_SIZE
  extents : Extents (fun x => sizeofPm + (pm x).size) (d + sizeofPd) v.pmList v.last
  last_le : v.last ≤ d + POOL_BLOCK_SIZE
  last_mod : v.last % 8 = 0
  small : ∀ x ∈ v.pmList, (pm x).owner = some d ∧ (pm x).size ≤ POOL_LARGE_SIZE ∧ x % 8 = 0
  ref_eq : v.ref = v.pmList.length + if v.failed > 5 then 0 else 1

structure PoolInv (s : AwPool) (new : List Nat) : Prop where
  heap_ok : HeapOk s.heap
  mem_heap : ∀ a n, (a, n) ∈ s.heap ↔ a = s.base ∧ n = 1024 ∨
    a ∈ new ++ s.pdList ∧ n = POOL_BLOCK_SIZE ∨ a ∈ s.largeList ∧ n = (s.pm a).size + sizeofPm
  nodup : (s.base :: (new ++ s.pdList ++ s.largeList)).Nodup
  data : ∀ d ∈ s.pdList, DataOk s.pm d (s.pd d)
  pos : ∀ d ∈ s.pdList, 0 < (s.pd d).ref
  large : ∀ x ∈ s.largeList, (s.pm x).owner = none

/-- The blocks from the current one on are not retired. -/
def Current (s : AwPool) : Prop :=
  ∃ A B, s.pdList = A ++ s.current :: B ∧ ∀ d ∈ s.current :: B, (s.pd d).failed ≤ 5

/-- `x` is the header of a region in use. -/
def Live (s : AwPool) (x : Nat) : Prop :=
  x ∈ s.largeList ∨ ∃ d ∈ s.pdList, x ∈ (s.pd d).pmList

section

variable {s s' : AwPool} {new : List Nat} {d d' x y size : Nat} {v : PoolDataS}
  {pm : Nat → PoolMemoryS}

theorem DataOk.congr {pm' : Nat → PoolMemoryS} (h : DataOk pm d v)
    (hpm : ∀ x ∈ v.pmList, pm' x = pm x) : DataOk pm' d v := by
  refine ⟨h.end_eq, h.extents.congr fun x hx => ?_, h.last_le, h.last_mod, fun x hx => ?_, h.ref_eq⟩
  · rw [hpm x hx]
  · rw [hpm x hx]
    exact h.small x hx

theorem DataOk.bounds (h : DataOk pm d v) (hx : x ∈ v.pmList) :
    d + sizeofPd ≤ x ∧ x + (sizeofPm + (pm x).size) ≤ d + POOL_BLOCK_SIZE := by
  obtain ⟨hlo, hhi⟩ := h.extents.mem_bounds hx
  exact ⟨hlo, Nat.le_trans hhi h.last_le⟩

theorem DataOk.nodup (h : DataOk pm d v) : v.pmList.Nodup := by
  refine h.extents.nodup fun x => ?_
  unfold sizeofPm
  omega

namespace PoolInv

variable (h : PoolInv s new)

include h

theorem block (hd : d ∈ s.pdList) : (d, POOL_BLOCK_SIZE) ∈ s.heap :=
  (h.mem_heap _ _).2 (.inr (.inl ⟨List.mem_append_right _ hd, rfl⟩))

theorem large_block (hx : x ∈ s.largeList) : (x, (s.pm x).size + sizeofPm) ∈ s.heap :=
  (h.mem_heap _ _).2 (.inr (.inr ⟨hx, rfl⟩))

theorem not_both (hx : x ∈ s.largeList) : x ∉ s.pdList := by
  have hnodup := (List.nodup_cons.1 h.nodup).2
  rw [List.nodup_append] at hnodup
  intro hd
  exact hnodup.2.2 x (List.mem_append_right _ hd) x hx rfl

theorem data_nodup : s.pdList.Nodup := by
  have hnodup := (List.nodup_cons.1 h.nodup).2
  rw [List.nodup_append, List.nodup_append] at hnodup
  exact hnodup.1.2.1

theorem large_nodup : s.largeList.Nodup := by
  have hnodup := (List.nodup_cons.1 h.nodup).2
  rw [List.nodup_append] at hnodup
  exact hnodup.2.1

theorem base_notMem : s.base ∉ new ++ s.pdList ∧ s.base ∉ s.largeList := by
  have hnot := (List.nodup_cons.1 h.nodup).1
  rwa [List.mem_append, not_or] at hnot

/-- Two blocks of the pool do not share an address. -/
theorem data_apart (hd : d ∈ s.pdList) (hd' : d' ∈ s.pdList) (hne : d ≠ d') :
    Apart d POOL_BLOCK_SIZE d' POOL_BLOCK_SIZE :=
  h.heap_ok.apart _ (h.block hd) _ (h.block hd') fun heq => hne (congrArg Prod.fst heq)

theorem large_apart (hd : d ∈ s.pdList) (hx : x ∈ s.largeList) :
    Apart d POOL_BLOCK_SIZE x ((s.pm x).size + sizeofPm) := by
  refine h.heap_ok.apart _ (h.block hd) _ (h.large_block hx) fun heq => ?_
  obtain rfl : d = x := congrArg Prod.fst heq
  exact h.not_both hx hd

/-- An address in a block is no header of another block and no large one. -/
theorem header_unique (hd : d ∈ s.pdList) (hlo : d ≤ x) (hhi : x < d + POOL_BLOCK_SIZE) :
    x ∉ s.largeList ∧ ∀ d' ∈ s.pdList, x ∈ (s.pd d').pmList → d' = d := by
  constructor
  · intro hx
    have := h.large_apart hd hx
    unfold Apart sizeofPm at this
    omega
  · intro d' hd' hx
    by_contra hne
    have hapart := h.data_apart hd' hd hne
    obtain ⟨hlo', hhi'⟩ := (h.data d' hd').bounds hx
    unfold Apart at hapart
    unfold sizeofPd at hlo'
    unfold sizeofPm at hhi'
    omega

theorem header_bounds (hd : d ∈ s.pdList) (hx : x ∈ (s.pd d).pmList) :
    d ≤ x ∧ x < d + POOL_BLOCK_SIZE := by
  obtain ⟨hlo, hhi⟩ := (h.data d hd).bounds hx
  unfold sizeofPd at hlo
  unfold sizeofPm at hhi
  omega

/-- A region in use with its header is in a block of the heap, at a multiple of 8. -/
theorem inside (hx : Live s x) : x % 8 = 0 ∧
    ∃ b ∈ s.heap, b.1 ≤ x ∧ x + (sizeofPm + (s.pm x).size) ≤ b.1 + b.2 := by
  rcases hx with hx | ⟨d, hd, hx⟩
  · have hb := h.large_block hx
    refine ⟨(h.heap_ok.valid _ hb).2.1, _, hb, Nat.le_refl x, ?_⟩
    rw [Nat.add_comm sizeofPm]
  · obtain ⟨hlo, hhi⟩ := (h.data d hd).bounds hx
    refine ⟨((h.data d hd).small x hx).2.2, _, h.block hd, ?_, hhi⟩
    exact Nat.le_trans (Nat.le_add_right _ _) hlo

/-- The regions in use, each with its header, have no address in common. -/
theorem apart (hx : Live s x) (hy : Live s y) (hne : x ≠ y) :
    Apart x (sizeofPm + (s.pm x).size) y (sizeofPm + (s.pm y).size) := by
  have hlarge : ∀ {z}, (s.pm z).size + sizeofPm = sizeofPm + (s.pm z).size := Nat.add_comm _ _
  have hmixed : ∀ {z w d}, z ∈ s.largeList → d ∈ s.pdList → w ∈ (s.pd d).pmList →
      Apart z (sizeofPm + (s.pm z).size) w (sizeofPm + (s.pm w).size) := by
    intro z w d hz hd hw
    obtain ⟨hlo, hhi⟩ := (h.data d hd).bounds hw
    refine (h.large_apart hd hz).symm.mono (Nat.le_refl z) ?_ ?_ hhi
    · rw [hlarge]
    · exact Nat.le_trans (Nat.le_add_right _ _) hlo
  rcases hx with hx | ⟨d, hd, hx⟩ <;> rcases hy with hy | ⟨d', hd', hy⟩
  · have := h.heap_ok.apart _ (h.large_block hx) _ (h.large_block hy)
      fun heq => hne (congrArg Prod.fst heq)
    rwa [hlarge, hlarge] at this
  · exact hmixed hx hd' hy
  · exact (hmixed hy hd hx).symm
  · by_cases hdd : d = d'
    · subst hdd
      exact (h.data d hd).extents.apart hx hy hne
    · obtain ⟨hlo, hhi⟩ := (h.data d hd).bounds hx
      obtain ⟨hlo', hhi'⟩ := (h.data d' hd').bounds hy
      refine (h.data_apart hd hd' hdd).mono ?_ hhi ?_ hhi'
      · exact Nat.le_trans (Nat.le_add_right _ _) hlo
      · exact Nat.le_trans (Nat.le_add_right _ _) hlo'

end PoolInv

end

end Melis.Libcore
