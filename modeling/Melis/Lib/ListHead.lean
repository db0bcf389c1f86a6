import Mathlib.Data.List.Nodup

/-!
# Circular doubly linked lists

The cells of `α` are threaded both ways, a list head included. A pointer is
`none` where it leads to no cell: it is null, or the cell has been taken out.
`Ring L h l` says that the cells behind the head `h` are `l` in order and that
both directions agree. The edits are `initListHead`, `listAdd` and `listDel`;
`search` and `cells` are the loops from the head round to the head, with a
bound on their passes, since on links that are no ring they need not end.
-/

namespace Melis.Lib

open Function

universe u

structure Links (α : Type u) where
  next : α → Option α
  prev : α → Option α

variable {α : Type u} [DecidableEq α]

namespace Links

def initListHead (L : Links α) (a : α) : Links α :=
  ⟨update L.next a (some a), update L.prev a (some a)⟩

/-- A cell behind the head. -/
def listAdd (L : Links α) (a h : α) : Option (Links α) :=
  (L.next h).map fun n =>
    ⟨update (update L.next a (some n)) h (some a), update (update L.prev n (some a)) a (some h)⟩

def listDel (L : Links α) (a : α) : Option (Links α) :=
  (L.prev a).bind fun p => (L.next a).map fun n =>
    ⟨update (update L.next p (some n)) a none, update (update L.prev n (some p)) a none⟩

/-- The first cell from `pos` on that satisfies `p`, or none before the head; the loop fails where
`p` does. -/
def search (L : Links α) (h : α) (p : α → Option Bool) : Nat → Option α → Option (Option α)
  | _, none => none
  | 0, some _ => none
  | fuel + 1, some a =>
    if a = h then some none
    else (p a).bind fun b => if b then some (some a) else L.search h p fuel (L.next a)

/-- The cells from `pos` on, up to the head. -/
def cells (L : Links α) (h : α) : Nat → Option α → Option (List α)
  | _, none => none
  | 0, some _ => none
  | fuel + 1, some a =>
    if a = h then some [] else (L.cells h fuel (L.next a)).map (a :: ·)

end Links

open Links

/-- The cells from `a` to `b` are linked both ways, with `l` between them. -/
def Seg (L : Links α) : α → List α → α → Prop
  | a, [], b => L.next a = some b ∧ L.prev b = some a
  | a, x :: l, b => (L.next a = some x ∧ L.prev x = some a) ∧ Seg L x l b

/-- The cells behind the head `h` are `l`. -/
structure Ring (L : Links α) (h : α) (l : List α) : Prop where
  nodup : (h :: l).Nodup
  seg : Seg L h l h

variable {L L' : Links α} {a b h x : α} {l m : List α}

/-! ## Segments -/

omit [DecidableEq α] in
theorem seg_append : Seg L a (l ++ x :: m) b ↔ Seg L a l x ∧ Seg L x m b := by
  induction l generalizing a with
  | nil => exact Iff.rfl
  | cons y l ih =>
    rw [List.cons_append, Seg, Seg, ih]
    exact and_assoc.symm

omit [DecidableEq α] in
/-- A segment reads the forward links of its cells but the last, and the backward links of its
cells but the first. -/
theorem Seg.congr (hl : Seg L a l b) (hn : ∀ x ∈ a :: l, L'.next x = L.next x)
    (hp : ∀ x ∈ l ++ [b], L'.prev x = L.prev x) : Seg L' a l b := by
  induction l generalizing a with
  | nil => exact ⟨(hn a (by simp)).trans hl.1, (hp b (by simp)).trans hl.2⟩
  | cons y l ih =>
    refine ⟨⟨(hn a (by simp)).trans hl.1.1, (hp y (by simp)).trans hl.1.2⟩, ?_⟩
    exact ih hl.2 (fun x hx => hn x (List.mem_cons_of_mem _ hx))
      fun x hx => hp x (List.mem_cons_of_mem _ hx)

omit [DecidableEq α] in
/-- The cell after the first one; the segment can be joined to another first cell. -/
theorem Seg.exists_next (hl : Seg L a l b) : ∃ n, L.next a = some n ∧ L.prev n = some a ∧
    n ∈ l ++ [b] ∧ ∀ (L' : Links α) (c : α), L'.next c = some n → L'.prev n = some c →
      (∀ x ∈ l, L'.next x = L.next x) →
        (∀ x ∈ l ++ [b], x ≠ n → L'.prev x = L.prev x) → (l ++ [b]).Nodup → Seg L' c l b := by
  cases l with
  | nil => exact ⟨b, hl.1, hl.2, by simp, fun L' c hn hp _ _ _ => ⟨hn, hp⟩⟩
  | cons y l =>
    refine ⟨y, hl.1.1, hl.1.2, by simp, fun L' c hn hp hnext hprev hd => ⟨⟨hn, hp⟩, ?_⟩⟩
    have hy : y ∉ l ++ [b] := (List.nodup_cons.1 hd).1
    exact hl.2.congr hnext fun x hx =>
      hprev x (List.mem_cons_of_mem _ hx) fun hxy => hy (hxy ▸ hx)

omit [DecidableEq α] in
/-- The cell before the last one; the segment can be joined to another last cell. -/
theorem Seg.exists_prev (hl : Seg L a l b) (hd : (a :: l).Nodup) : ∃ p, L.prev b = some p ∧
    L.next p = some b ∧ p ∈ a :: l ∧ ∀ (L' : Links α) (c : α), L'.next p = some c →
      L'.prev c = some p → (∀ x ∈ a :: l, x ≠ p → L'.next x = L.next x) →
        (∀ x ∈ l, L'.prev x = L.prev x) → Seg L' a l c := by
  induction l generalizing a with
  | nil => exact ⟨a, hl.2, hl.1, by simp, fun L' c hn hp _ _ => ⟨hn, hp⟩⟩
  | cons y l ih =>
    obtain ⟨ha, hd⟩ := List.nodup_cons.1 hd
    obtain ⟨p, hp, hn, hmem, hjoin⟩ := ih hl.2 hd
    refine ⟨p, hp, hn, List.mem_cons_of_mem _ hmem, fun L' c hn' hp' hnext hprev => ?_⟩
    have hap : a ≠ p := fun h => ha (h ▸ hmem)
    refine ⟨⟨(hnext a (by simp) hap).trans hl.1.1, (hprev y (by simp)).trans hl.1.2⟩, ?_⟩
    exact hjoin L' c hn' hp' (fun x hx => hnext x (List.mem_cons_of_mem _ hx))
      fun x hx => hprev x (List.mem_cons_of_mem _ hx)

/-! ## Rings -/

namespace Ring

theorem init (L : Links α) (h : α) : Ring (L.initListHead h) h [] :=
  ⟨List.nodup_singleton h, update_self .., update_self ..⟩

omit [DecidableEq α] in
theorem congr (hl : Ring L h l) (hn : ∀ x ∈ h :: l, L'.next x = L.next x)
    (hp : ∀ x ∈ h :: l, L'.prev x = L.prev x) : Ring L' h l := by
  refine ⟨hl.nodup, hl.seg.congr hn fun x hx => hp x ?_⟩
  rcases List.mem_append.1 hx with hx | hx
  · exact List.mem_cons_of_mem _ hx
  · exact List.mem_cons.2 (.inl (List.mem_singleton.1 hx))

/-- Two edits agree on the cells of a ring that they both leave alone. -/
def Frame (L L' : Links α) (l : List α) : Prop :=
  ∀ x ∉ l, L'.next x = L.next x ∧ L'.prev x = L.prev x

omit [DecidableEq α] in
theorem frame (hl : Ring L h l) (hf : Frame L L' m) (hd : ∀ x ∈ h :: l, x ∉ m) : Ring L' h l :=
  hl.congr (fun x hx => (hf x (hd x hx)).1) fun x hx => (hf x (hd x hx)).2

theorem frame_init (L : Links α) (a : α) : Frame L (L.initListHead a) [a] := by
  intro x hx
  have hne : x ≠ a := fun h => hx (h ▸ List.mem_singleton_self a)
  exact ⟨update_of_ne hne .., update_of_ne hne ..⟩

/-- A cell that is not on the ring is put behind the head. -/
theorem add (hl : Ring L h l) (ha : a ∉ h :: l) :
    ∃ L', L.listAdd a h = some L' ∧ Ring L' h (a :: l) ∧ Frame L L' (h :: a :: l) := by
  obtain ⟨n, hn, -, hmem, hjoin⟩ := hl.seg.exists_next
  obtain ⟨hah, hal⟩ := List.ne_and_not_mem_of_not_mem_cons ha
  have hnmem : n ∈ h :: l := by
    rcases List.mem_append.1 hmem with hx | hx
    · exact List.mem_cons_of_mem _ hx
    · exact List.mem_cons.2 (.inl (List.mem_singleton.1 hx))
  have hna : n ≠ a := fun h => ha (h ▸ hnmem)
  obtain ⟨hh, hnd⟩ := List.nodup_cons.1 hl.nodup
  have hrot : (l ++ [h]).Nodup := by
    rw [List.nodup_append_comm]
    exact hl.nodup
  rw [listAdd, hn]
  refine ⟨_, rfl, ⟨?_, ⟨?_, ?_⟩, ?_⟩, ?_⟩
  · exact List.nodup_cons.2 ⟨fun hx => (List.mem_cons.1 hx).elim (Ne.symm hah) hh, List.nodup_cons.2 ⟨hal, hnd⟩⟩
  · exact update_self ..
  · exact update_self ..
  · refine hjoin _ a ?_ ?_ ?_ ?_ hrot
    · exact (update_of_ne hah ..).trans (update_self ..)
    · exact (update_of_ne hna ..).trans (update_self ..)
    · intro x hx
      have hxh : x ≠ h := fun hxh => hh (hxh ▸ hx)
      have hxa : x ≠ a := fun hxa => hal (hxa ▸ hx)
      exact (update_of_ne hxh ..).trans (update_of_ne hxa ..)
    · intro x hx hxn
      have hxa : x ≠ a := by
        rintro rfl
        rcases List.mem_append.1 hx with hx | hx
        · exact hal hx
        · exact hah (List.mem_singleton.1 hx)
      exact (update_of_ne hxa ..).trans (update_of_ne hxn ..)
  · intro x hx
    obtain ⟨hxh, hx⟩ := List.ne_and_not_mem_of_not_mem_cons hx
    obtain ⟨hxa, hxl⟩ := List.ne_and_not_mem_of_not_mem_cons hx
    have hxn : x ≠ n := by
      rintro rfl
      rcases List.mem_cons.1 hnmem with hx | hx
      · exact hxh hx
      · exact hxl hx
    exact ⟨(update_of_ne hxh ..).trans (update_of_ne hxa ..),
      (update_of_ne hxa ..).trans (update_of_ne hxn ..)⟩

/-- A cell of the ring is taken out. -/
theorem del (hl : Ring L h (l ++ a :: m)) :
    ∃ L', L.listDel a = some L' ∧ Ring L' h (l ++ m) ∧ Frame L L' (h :: (l ++ a :: m)) := by
  obtain ⟨hfront, hback⟩ := seg_append.1 hl.seg
  have hsplit : (a :: ((h :: l) ++ m)).Nodup := by
    have hmid : (h :: (l ++ a :: m)).Perm (a :: ((h :: l) ++ m)) :=
      (List.Perm.cons h List.perm_middle).trans (List.Perm.swap a h (l ++ m))
    exact hmid.nodup_iff.1 hl.nodup
  obtain ⟨ha, hrest⟩ := List.nodup_cons.1 hsplit
  obtain ⟨hl', hm', hdisj⟩ := List.nodup_append.1 hrest
  obtain ⟨p, hp, -, hpmem, hjoinp⟩ := hfront.exists_prev hl'
  obtain ⟨n, hn, -, hnmem, -⟩ := hback.exists_next
  have hfa : ∀ x ∈ h :: l, x ≠ a := fun x hx =>
    ne_of_mem_of_not_mem (List.mem_append_left _ hx) ha
  have hba : ∀ x ∈ m ++ [h], x ≠ a := fun x hx => by
    rcases List.mem_append.1 hx with hx | hx
    · exact ne_of_mem_of_not_mem (List.mem_append_right _ hx) ha
    · exact hfa x (List.mem_singleton.1 hx ▸ List.mem_cons_self)
  have hpa : p ≠ a := hfa p hpmem
  have hna : n ≠ a := hba n hnmem
  have hnl : n ∉ l := by
    intro hx
    rcases List.mem_append.1 hnmem with hy | hy
    · exact hdisj n (List.mem_cons_of_mem _ hx) n hy rfl
    · exact (List.nodup_cons.1 hl').1 (List.mem_singleton.1 hy ▸ hx)
  obtain ⟨L', hL', hnext, hprev⟩ : ∃ L', L.listDel a = some L' ∧
      L'.next = update (update L.next p (some n)) a none ∧
        L'.prev = update (update L.prev n (some p)) a none := by
    rw [listDel, hp, hn]
    exact ⟨_, rfl, rfl, rfl⟩
  refine ⟨L', hL', ⟨hrest, ?_⟩, ?_⟩
  · have hnew : Seg L' h l n := by
      refine hjoinp L' n ?_ ?_ (fun x hx hxp => ?_) fun x hx => ?_ <;>
        first | rw [hnext] | rw [hprev]
      · exact (update_of_ne hpa ..).trans (update_self ..)
      · exact (update_of_ne hna ..).trans (update_self ..)
      · exact (update_of_ne (hfa x hx) ..).trans (update_of_ne hxp ..)
      · have hxn := ne_of_mem_of_not_mem hx hnl
        exact (update_of_ne (hfa x (List.mem_cons_of_mem _ hx)) ..).trans (update_of_ne hxn ..)
    cases m with
    | nil =>
      obtain rfl : h = n := Option.some.inj (hback.1.symm.trans hn)
      rw [List.append_nil]
      exact hnew
    | cons y m =>
      obtain rfl : y = n := Option.some.inj (hback.1.1.symm.trans hn)
      refine seg_append.2 ⟨hnew, hback.2.congr (fun x hx => ?_) fun x hx => ?_⟩ <;>
        first | rw [hnext] | rw [hprev]
      · have hxp : x ≠ p := fun h => hdisj p hpmem x hx h.symm
        exact (update_of_ne (hba x (List.mem_append_left _ hx)) ..).trans (update_of_ne hxp ..)
      · have hxy : x ≠ y := by
          rintro rfl
          rcases List.mem_append.1 hx with hx | hx
          · exact (List.nodup_cons.1 hm').1 hx
          · exact hdisj h List.mem_cons_self x List.mem_cons_self (List.mem_singleton.1 hx).symm
        exact (update_of_ne (hba x (List.mem_cons_of_mem _ hx)) ..).trans (update_of_ne hxy ..)
  · intro x hx
    have hxa : x ≠ a := by
      rintro rfl
      exact hx (List.mem_cons_of_mem _ (List.mem_append_right _ List.mem_cons_self))
    have hxp : x ≠ p := by
      rintro rfl
      rcases List.mem_cons.1 hpmem with rfl | hx'
      · exact hx List.mem_cons_self
      · exact hx (List.mem_cons_of_mem _ (List.mem_append_left _ hx'))
    have hxn : x ≠ n := by
      rintro rfl
      rcases List.mem_append.1 hnmem with hx' | hx'
      · exact hx (List.mem_cons_of_mem _ (List.mem_append_right _ (List.mem_cons_of_mem _ hx')))
      · exact hx (List.mem_singleton.1 hx' ▸ List.mem_cons_self)
    rw [hnext, hprev]
    exact ⟨(update_of_ne hxa ..).trans (update_of_ne hxp ..),
      (update_of_ne hxa ..).trans (update_of_ne hxn ..)⟩

/-! ## Loops -/

omit [DecidableEq α] in
theorem next_eq (hl : Seg L a l b) : L.next a = some (l.headD b) := by
  cases l with
  | nil => exact hl.1
  | cons x l => exact hl.1.1

omit [DecidableEq α] in
/-- A cell that is its own successor is on no ring but its own. -/
theorem ne_self (hl : Ring L h l) (ha : L.next h = some a) (hne : a ≠ h) : L.next a ≠ some a := by
  intro hself
  obtain ⟨hnodup, hseg⟩ := hl
  cases l with
  | nil => exact hne (Option.some.inj (ha.symm.trans hseg.1))
  | cons x l =>
    obtain rfl : a = x := Option.some.inj (ha.symm.trans hseg.1.1)
    have hx := (List.nodup_cons.1 (List.nodup_cons.1 hnodup).2).1
    cases l with
    | nil => exact hne (Option.some.inj (hself.symm.trans hseg.2.1))
    | cons y l =>
      obtain rfl : a = y := Option.some.inj (hself.symm.trans hseg.2.1.1)
      exact hx List.mem_cons_self

theorem cells_seg {fuel : Nat} (hl : Seg L a l h) (hh : h ∉ l) (hf : l.length < fuel) :
    L.cells h fuel (L.next a) = some l := by
  induction l generalizing a fuel with
  | nil =>
    obtain ⟨fuel, rfl⟩ := Nat.exists_eq_succ_of_ne_zero (Nat.ne_of_gt hf)
    rw [hl.1, cells, if_pos rfl]
  | cons x l ih =>
    obtain ⟨fuel, rfl⟩ := Nat.exists_eq_succ_of_ne_zero (Nat.ne_zero_of_lt hf)
    obtain ⟨hx, hh⟩ := List.ne_and_not_mem_of_not_mem_cons hh
    rw [hl.1.1, cells, if_neg hx.symm, ih hl.2 hh (Nat.succ_lt_succ_iff.1 hf), Option.map_some]

theorem cells_eq {fuel : Nat} (hl : Ring L h l) (hf : l.length < fuel) :
    L.cells h fuel (L.next h) = some l :=
  cells_seg hl.seg (List.nodup_cons.1 hl.nodup).1 hf

theorem search_seg {fuel : Nat} {p : α → Option Bool} {q : α → Bool} (hl : Seg L a l h)
    (hh : h ∉ l) (hp : ∀ x ∈ l, p x = some (q x)) (hf : l.length < fuel) :
    L.search h p fuel (L.next a) = some (l.find? q) := by
  induction l generalizing a fuel with
  | nil =>
    obtain ⟨fuel, rfl⟩ := Nat.exists_eq_succ_of_ne_zero (Nat.ne_of_gt hf)
    rw [hl.1, search, if_pos rfl, List.find?_nil]
  | cons x l ih =>
    obtain ⟨fuel, rfl⟩ := Nat.exists_eq_succ_of_ne_zero (Nat.ne_zero_of_lt hf)
    obtain ⟨hx, hh⟩ := List.ne_and_not_mem_of_not_mem_cons hh
    obtain ⟨hpx, hp⟩ := List.forall_mem_cons.1 hp
    rw [hl.1.1, search, if_neg hx.symm, hpx, Option.bind_some, List.find?_cons]
    cases q x with
    | true => rfl
    | false => exact ih hl.2 hh hp (Nat.succ_lt_succ_iff.1 hf)

theorem search_eq {fuel : Nat} {p : α → Option Bool} {q : α → Bool} (hl : Ring L h l)
    (hp : ∀ x ∈ l, p x = some (q x)) (hf : l.length < fuel) :
    L.search h p fuel (L.next h) = some (l.find? q) :=
  search_seg hl.seg (List.nodup_cons.1 hl.nodup).1 hp hf

end Ring

end Melis.Lib
