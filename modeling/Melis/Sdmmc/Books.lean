import Mathlib.Data.List.Perm.Basic
import Melis.Sdmmc.Machine

/-!
# Accounting of the cache entries

`Accounted c H hand` says where every entry is: those of the heap are on
exactly one list or in the hand of the running routine, the hash table holds
the listed ones under their own keys, and the busy ones are held, `H t` by
thread `t`. Each primitive of the routines touches few entries and leaves the
others at their place (`SameAt`), so it keeps `Accounted` when the entries it
touches are in order afterwards (`Accounted.of_touch`).
-/

namespace Melis.Sdmmc

open Lib Function

variable {α : Type} {c c' c'' : Cache α} {e x : Ent} {es ents hand : List Ent} {t u : Tid}
  {H H' : Tid → List Ent} {k : Key}

/-! ## What a step leaves alone -/

/-- The entry is in the hash table, in the bucket of its key. -/
def Cache.Hashed (c : Cache α) (e : Ent) : Prop :=
  ∃ table, c.hashTable = some table ∧ e ∈ table (cacheEntryHash (c.key e))

/-- The entry and its place are the same in both states. -/
structure SameAt (c c' : Cache α) (x : Ent) : Prop where
  ent : c'.ent x = c.ent x
  ready : x ∈ c'.listReady ↔ x ∈ c.listReady
  lockdown : x ∈ c'.listLockdown ↔ x ∈ c.listLockdown
  hashed : c'.Hashed x ↔ c.Hashed x

namespace SameAt

theorem refl (c : Cache α) (x : Ent) : SameAt c c x := ⟨rfl, Iff.rfl, Iff.rfl, Iff.rfl⟩

theorem trans (h : SameAt c c' x) (h' : SameAt c' c'' x) : SameAt c c'' x :=
  ⟨h'.ent.trans h.ent, h'.ready.trans h.ready, h'.lockdown.trans h.lockdown,
    h'.hashed.trans h.hashed⟩

theorem key (h : SameAt c c' x) : c'.key x = c.key x := by
  unfold Cache.key
  rw [h.ent]

theorem listed (h : SameAt c c' x) : c'.Listed x ↔ c.Listed x :=
  or_congr h.ready h.lockdown

/-- Nothing but the device, the lock and the counters changed. -/
theorem of_eq (x : Ent) (hent : c'.ent = c.ent) (hr : c'.listReady = c.listReady)
    (hl : c'.listLockdown = c.listLockdown) (ht : c'.hashTable = c.hashTable) :
    SameAt c c' x := by
  refine ⟨by rw [hent], by rw [hr], by rw [hl], ?_⟩
  unfold Cache.Hashed Cache.key
  rw [hent, ht]

theorem unlock (c : Cache α) (t : Tid) (x : Ent) : SameAt c (c.unlock t) x := by
  unfold Cache.unlock
  split
  · exact of_eq x rfl rfl rfl rfl
  · exact refl c x

theorem modify (f : Entry α → Entry α) (hx : x ∉ es) : SameAt c (c.modify es f) x := by
  refine ⟨if_neg hx, Iff.rfl, Iff.rfl, ?_⟩
  simp only [Cache.Hashed, Cache.key, Cache.modify, if_neg hx]

theorem removeFromList (hx : x ≠ e) : SameAt c (c.removeFromList e) x :=
  ⟨rfl, List.mem_erase_of_ne hx, List.mem_erase_of_ne hx, Iff.rfl⟩

theorem addToReady (hx : x ≠ e) : SameAt c (c.addToReady e) x := by
  unfold Cache.addToReady
  split
  · exact refl c x
  · exact ⟨rfl, by simp [hx], Iff.rfl, Iff.rfl⟩

theorem addToLockdown (hx : x ≠ e) : SameAt c (c.addToLockdown e) x := by
  unfold Cache.addToLockdown
  split
  · exact refl c x
  · exact ⟨rfl, Iff.rfl, by simp [hx], Iff.rfl⟩

theorem cacheHashInsert (hx : x ≠ e) : SameAt c (c.cacheHashInsert e) x := by
  unfold Cache.cacheHashInsert
  cases ht : c.hashTable with
  | none => exact refl c x
  | some table =>
    refine ⟨rfl, Iff.rfl, Iff.rfl, ?_⟩
    simp only [Cache.Hashed, Cache.key, Option.some.injEq, exists_eq_left', ht, update_apply]
    split
    · rename_i h
      rw [h]
      simp [hx]
    · rfl

theorem cacheHashRemove (hx : x ≠ e) (h : c.cacheHashRemove e = some c') : SameAt c c' x := by
  unfold Cache.cacheHashRemove at h
  obtain ⟨table, ht, rfl⟩ := Option.map_eq_some_iff.1 h
  refine ⟨rfl, Iff.rfl, Iff.rfl, ?_⟩
  simp only [Cache.Hashed, Cache.key, Option.some.injEq, exists_eq_left', ht, update_apply]
  split
  · rename_i h
    rw [h]
    exact List.mem_erase_of_ne hx
  · rfl

theorem freeCacheEntry (hx : x ≠ e) : SameAt c (c.freeCacheEntry e) x :=
  (modify (fun y => { y with dirty := false, busy := false })
    (List.mem_singleton.not.2 hx)).trans (of_eq x rfl rfl rfl rfl)

theorem takeFree {n : Nat} (hx : x ∉ (c.takeFree n).2) : SameAt c (c.takeFree n).1 x :=
  (modify (fun y => { y with key := ⟨0, -1⟩, ref := 0, dirty := false, busy := false })
    hx).trans (of_eq x rfl rfl rfl rfl)

theorem hit (hx : x ≠ e) : SameAt c (c.hit e) x := by
  have h : SameAt c (c.modify [e] fun y => { y with ref := y.ref + 1 }) x :=
    modify _ (List.mem_singleton.not.2 hx)
  unfold Cache.hit
  dsimp only
  split
  · exact (h.trans (removeFromList hx)).trans (addToLockdown hx)
  · exact h

theorem unhold (hx : x ≠ e) : SameAt c (c.unhold e) x := by
  have h : SameAt c ((c.modify [e] fun y => { y with ref := y.ref - 1 }).removeFromList e) x :=
    (modify _ (List.mem_singleton.not.2 hx)).trans (removeFromList hx)
  unfold Cache.unhold
  dsimp only
  split
  · exact h.trans (addToReady hx)
  · exact h.trans (addToLockdown hx)

theorem touch (hx : x ≠ e) : SameAt c (c.touch e) x := by
  unfold Cache.touch
  split
  · exact refl c x
  · split
    · exact (removeFromList hx).trans (addToReady hx)
    · exact (removeFromList hx).trans (addToLockdown hx)

theorem store (hx : x ≠ e) (y : α) : SameAt c (c.store e y) x :=
  modify _ (List.mem_singleton.not.2 hx)

end SameAt

/-! ## The invariant -/

/-- The entry is in order: its reference count fits its list, it is in the hash
table while it is listed, and it is busy while it is held. -/
structure InOrder (c : Cache α) (H : Tid → List Ent) (e : Ent) : Prop where
  ready_ref : e ∈ c.listReady → (c.ent e).ref = 0
  lockdown_ref : e ∈ c.listLockdown → 0 < (c.ent e).ref
  hashed : c.Hashed e → c.Listed e ∨ ∃ t, e = .guard t ∧ e ∈ H t
  listed : c.hashTable ≠ none → c.Listed e → c.Hashed e
  held : ∀ t, e ∈ H t → (c.ent e).busy = true ∧ (c.Listed e ∨ e = .guard t)
  busy : c.Listed e → (c.ent e).busy = true → ∃ t, e ∈ H t
  one : ∀ t u, e ∈ H t → e ∈ H u → t = u

/-- The entries of `es` hold the blocks from `off` on while they are read for
`get_block(k)`: the block `k` itself is locked down. -/
def Loading (c : Cache α) (k : Key) : Int → List Ent → Prop
  | _, [] => True
  | off, e :: es =>
    (c.key e = ⟨k.dev, off⟩ ∧ (c.ent e).dirty = false ∧
      if off = k.blockOffset then e ∈ c.listLockdown ∧ (c.ent e).ref = 1 else e ∈ c.listReady) ∧
    Loading c k (off + 1) es

theorem filter_erase {l : List Ent} (hl : l.Nodup) :
    (l.erase e).filter (· ∉ es) = l.filter (· ∉ e :: es) := by
  rw [hl.erase_eq_filter, List.filter_filter]
  refine List.filter_congr fun x _ => ?_
  by_cases hx : x = e
  · simp [hx]
  · simp [hx]

/-- Every bucket holds entries of its own keys, each once. -/
def TableOk (c : Cache α) : Prop :=
  ∀ table, c.hashTable = some table →
    ∀ b, (table b).Nodup ∧ ∀ e ∈ table b, b = cacheEntryHash (c.key e)

structure Accounted (c : Cache α) (H : Tid → List Ent) (hand : List Ent) : Prop where
  perm : (hand ++ (c.freeEntsList ++ (c.listReady ++ c.listLockdown))).Perm c.heapEnts
  count : c.freeEnts = c.freeEntsList.length
  table : TableOk c
  nodup : ∀ t, (H t).Nodup
  inOrder : ∀ e, InOrder c H e

theorem heapEnts_nodup (c : Cache α) : c.heapEnts.Nodup := by
  unfold Cache.heapEnts
  cases c.heap with
  | none => exact List.nodup_nil
  | some n => exact List.nodup_range.map fun i j h => Ent.heap.inj h

theorem mem_heapEnts (h : e ∈ c.heapEnts) : ∃ i, e = .heap i := by
  unfold Cache.heapEnts at h
  cases hh : c.heap with
  | none =>
    rw [hh] at h
    cases h
  | some n =>
    rw [hh] at h
    obtain ⟨i, -, rfl⟩ := List.mem_map.1 h
    exact ⟨i, rfl⟩

/-- What `InOrder` reads of an entry is the same in both states. -/
structure SameBooks (c c' : Cache α) (x : Ent) : Prop where
  key : c'.key x = c.key x
  ref : (c'.ent x).ref = (c.ent x).ref
  busy : (c'.ent x).busy = (c.ent x).busy
  ready : x ∈ c'.listReady ↔ x ∈ c.listReady
  lockdown : x ∈ c'.listLockdown ↔ x ∈ c.listLockdown
  hashed : c'.Hashed x ↔ c.Hashed x

theorem SameAt.books (h : SameAt c c' x) : SameBooks c c' x :=
  ⟨h.key, by rw [h.ent], by rw [h.ent], h.ready, h.lockdown, h.hashed⟩

theorem Loading.congr {off : Int} (h : Loading c k off es) (hs : ∀ x ∈ es, SameBooks c c' x)
    (hd : ∀ x ∈ es, (c'.ent x).dirty = (c.ent x).dirty) : Loading c' k off es := by
  induction es generalizing off with
  | nil => trivial
  | cons e es ih =>
    have he := hs e List.mem_cons_self
    refine ⟨?_, ih h.2 (fun x hx => hs x (List.mem_cons_of_mem e hx))
      fun x hx => hd x (List.mem_cons_of_mem e hx)⟩
    rw [he.key, he.ref, he.lockdown, he.ready, hd e List.mem_cons_self]
    exact h.1

theorem Loading.same {off : Int} (h : Loading c k off es) (hs : ∀ x ∈ es, SameAt c c' x) :
    Loading c' k off es :=
  h.congr (fun x hx => (hs x hx).books) fun x hx => by rw [(hs x hx).ent]

theorem Loading.listed {off : Int} (h : Loading c k off es) (he : e ∈ es) : c.Listed e := by
  induction es generalizing off with
  | nil => cases he
  | cons x es ih =>
    rcases List.mem_cons.1 he with rfl | he
    · have hplace := h.1.2.2
      split at hplace
      · exact .inr hplace.1
      · exact .inl hplace
    · exact ih h.2 he

theorem InOrder.congr (h : InOrder c H e) (hs : SameBooks c c' e)
    (hn : c'.hashTable = none ↔ c.hashTable = none) (hH : ∀ u, e ∈ H' u ↔ e ∈ H u) :
    InOrder c' H' e := by
  have hl : c'.Listed e ↔ c.Listed e := or_congr hs.ready hs.lockdown
  constructor
  · rw [hs.ready, hs.ref]
    exact h.ready_ref
  · rw [hs.lockdown, hs.ref]
    exact h.lockdown_ref
  · rw [hs.hashed, hl]
    simp only [hH]
    exact h.hashed
  · rw [hs.hashed, hl, Ne, hn]
    exact h.listed
  · simp only [hH, hs.busy, hl]
    exact h.held
  · simp only [hH, hs.busy, hl]
    exact h.busy
  · simp only [hH]
    exact h.one

section

variable (c : Cache α) (e : Ent)

@[simp] theorem ent_cacheHashInsert : (c.cacheHashInsert e).ent = c.ent := by
  unfold Cache.cacheHashInsert
  split <;> rfl

@[simp] theorem listReady_cacheHashInsert : (c.cacheHashInsert e).listReady = c.listReady := by
  unfold Cache.cacheHashInsert
  split <;> rfl

@[simp] theorem listLockdown_cacheHashInsert :
    (c.cacheHashInsert e).listLockdown = c.listLockdown := by
  unfold Cache.cacheHashInsert
  split <;> rfl

@[simp] theorem freeEntsList_cacheHashInsert :
    (c.cacheHashInsert e).freeEntsList = c.freeEntsList := by
  unfold Cache.cacheHashInsert
  split <;> rfl

@[simp] theorem freeEnts_cacheHashInsert : (c.cacheHashInsert e).freeEnts = c.freeEnts := by
  unfold Cache.cacheHashInsert
  split <;> rfl

@[simp] theorem heap_cacheHashInsert : (c.cacheHashInsert e).heap = c.heap := by
  unfold Cache.cacheHashInsert
  split <;> rfl

@[simp] theorem hashTable_cacheHashInsert :
    (c.cacheHashInsert e).hashTable = none ↔ c.hashTable = none := by
  unfold Cache.cacheHashInsert
  split
  · exact Iff.rfl
  · rename_i h
    simp [h]

end

/-- `cache_hash_remove` touches the table only. -/
theorem cacheHashRemove_same (h : c.cacheHashRemove e = some c') :
    c'.listReady = c.listReady ∧ c'.listLockdown = c.listLockdown ∧
      c'.freeEntsList = c.freeEntsList ∧ c'.freeEnts = c.freeEnts ∧ c'.heap = c.heap ∧
      (c'.hashTable = none ↔ c.hashTable = none) := by
  obtain ⟨table, ht, rfl⟩ := Option.map_eq_some_iff.1 h
  exact ⟨rfl, rfl, rfl, rfl, rfl, by simp [ht]⟩

/-- An entry on no list is in order when nothing refers to it. -/
theorem InOrder.loose (hl : ¬ c.Listed e) (hh : ¬ c.Hashed e) (hH : ∀ u, e ∉ H u) :
    InOrder c H e where
  ready_ref hr := absurd (.inl hr) hl
  lockdown_ref hr := absurd (.inr hr) hl
  hashed h := absurd h hh
  listed _ h := absurd h hl
  held u hu := absurd hu (hH u)
  busy h _ := absurd h hl
  one u _ hu _ := absurd hu (hH u)

theorem TableOk.congr (h : TableOk c) (ht : c'.hashTable = c.hashTable)
    (hk : ∀ e, c.Hashed e → c'.key e = c.key e) : TableOk c' := by
  intro table htab b
  rw [ht] at htab
  refine ⟨(h table htab b).1, fun e he => ?_⟩
  have hb := (h table htab b).2 e he
  rw [hk e ⟨table, htab, hb ▸ he⟩]
  exact hb

theorem TableOk.insert (h : TableOk c) (he : ¬ c.Hashed e) : TableOk (c.cacheHashInsert e) := by
  unfold Cache.cacheHashInsert
  cases ht : c.hashTable with
  | none => exact h
  | some table =>
    intro table' htab b
    obtain rfl := Option.some.inj htab
    have hb := h table ht b
    by_cases hbe : b = cacheEntryHash (c.key e)
    · subst hbe
      simp only [update_self]
      refine ⟨List.nodup_cons.2 ⟨fun hm => he ⟨table, ht, hm⟩, hb.1⟩, fun x hx => ?_⟩
      rcases List.mem_cons.1 hx with rfl | hx
      · rfl
      · exact hb.2 x hx
    · simp only [update_of_ne hbe]
      exact hb

theorem TableOk.remove (h : TableOk c) (hr : c.cacheHashRemove e = some c') :
    TableOk c' ∧ ¬ c'.Hashed e := by
  obtain ⟨table, ht, rfl⟩ := Option.map_eq_some_iff.1 hr
  constructor
  · intro table' htab b
    obtain rfl := Option.some.inj htab
    have hb := h table ht b
    by_cases hbe : b = cacheEntryHash (c.key e)
    · subst hbe
      simp only [update_self]
      exact ⟨hb.1.erase e, fun x hx => hb.2 x (List.mem_of_mem_erase hx)⟩
    · simp only [update_of_ne hbe]
      exact hb
  · rintro ⟨table', htab, hm⟩
    obtain rfl := Option.some.inj htab
    simp only [Cache.key, update_self] at hm
    exact (h table ht _).1.not_mem_erase hm

theorem hashed_insert (ht : c.hashTable ≠ none) : (c.cacheHashInsert e).Hashed e := by
  unfold Cache.cacheHashInsert
  cases htab : c.hashTable with
  | none => exact absurd htab ht
  | some table => exact ⟨_, rfl, by simp [Cache.key]⟩

namespace Accounted

/-- What touches the entries of `es` only keeps the rest of the invariant. -/
theorem of_touch {hand' : List Ent} (h : Accounted c H hand) (es : List Ent)
    (hs : ∀ x, x ∉ es → SameBooks c c' x) (hn : c'.hashTable = none ↔ c.hashTable = none)
    (hH : ∀ x, x ∉ es → ∀ u, x ∈ H' u ↔ x ∈ H u)
    (perm : (hand' ++ (c'.freeEntsList ++ (c'.listReady ++ c'.listLockdown))).Perm c'.heapEnts)
    (count : c'.freeEnts = c'.freeEntsList.length) (table : TableOk c')
    (nodup : ∀ t, (H' t).Nodup) (inOrder : ∀ e ∈ es, InOrder c' H' e) :
    Accounted c' H' hand' where
  perm := perm
  count := count
  table := table
  nodup := nodup
  inOrder x := by
    by_cases hx : x ∈ es
    · exact inOrder x hx
    · exact (h.inOrder x).congr (hs x hx) hn (hH x hx)

/-- Nothing the invariant reads changed. -/
theorem of_books (h : Accounted c H hand) (hs : ∀ x, SameBooks c c' x)
    (ht : c'.hashTable = c.hashTable) (hr : c'.listReady = c.listReady)
    (hl : c'.listLockdown = c.listLockdown) (hf : c'.freeEntsList = c.freeEntsList)
    (hc : c'.freeEnts = c.freeEnts) (hh : c'.heap = c.heap) : Accounted c' H hand := by
  refine h.of_touch [] (fun x _ => hs x) (by rw [ht]) (fun _ _ _ => Iff.rfl) ?_ ?_
    (h.table.congr ht fun e _ => (hs e).key) h.nodup nofun
  · unfold Cache.heapEnts
    rw [hf, hr, hl, hh]
    exact h.perm
  · rw [hc, hf]
    exact h.count

theorem of_eq (h : Accounted c H hand) (he : c'.ent = c.ent) (ht : c'.hashTable = c.hashTable)
    (hr : c'.listReady = c.listReady) (hl : c'.listLockdown = c.listLockdown)
    (hf : c'.freeEntsList = c.freeEntsList) (hc : c'.freeEnts = c.freeEnts)
    (hh : c'.heap = c.heap) : Accounted c' H hand :=
  h.of_books (fun x => (SameAt.of_eq x he hr hl ht).books) ht hr hl hf hc hh

theorem unlock (h : Accounted c H hand) (t : Tid) : Accounted (c.unlock t) H hand := by
  unfold Cache.unlock
  split
  · exact h.of_eq rfl rfl rfl rfl rfl rfl rfl
  · exact h

theorem acquire (h : Accounted c H hand) (ha : c.acquire t = some c') : Accounted c' H hand := by
  unfold Cache.acquire at ha
  split at ha
  · cases ha
    exact h.of_eq rfl rfl rfl rfl rfl rfl rfl
  · cases ha

/-- The flag and the content of an entry are not accounted for. -/
theorem modify (h : Accounted c H hand) {f : Entry α → Entry α}
    (hf : ∀ x, (f x).key = x.key ∧ (f x).ref = x.ref ∧ (f x).busy = x.busy) :
    Accounted (c.modify es f) H hand := by
  have hx : ∀ x, ((c.modify es f).ent x).key = (c.ent x).key ∧
      ((c.modify es f).ent x).ref = (c.ent x).ref ∧
      ((c.modify es f).ent x).busy = (c.ent x).busy := by
    intro x
    unfold Cache.modify
    dsimp only
    split
    · exact hf _
    · exact ⟨rfl, rfl, rfl⟩
  refine h.of_books (fun x => ⟨(hx x).1, (hx x).2.1, (hx x).2.2, Iff.rfl, Iff.rfl, ?_⟩)
    rfl rfl rfl rfl rfl rfl
  unfold Cache.Hashed Cache.key
  rw [(hx x).1]
  exact Iff.rfl

/-! ### Where an entry can be -/

theorem nodup_all (h : Accounted c H hand) :
    (hand ++ (c.freeEntsList ++ (c.listReady ++ c.listLockdown))).Nodup :=
  h.perm.nodup_iff.2 (heapEnts_nodup c)

theorem nodup_ready (h : Accounted c H hand) : c.listReady.Nodup :=
  h.nodup_all.of_append_right.of_append_right.of_append_left

theorem nodup_lockdown (h : Accounted c H hand) : c.listLockdown.Nodup :=
  h.nodup_all.of_append_right.of_append_right.of_append_right

theorem not_lockdown (h : Accounted c H hand) (he : e ∈ c.listReady) : e ∉ c.listLockdown :=
  fun hl => List.disjoint_of_nodup_append h.nodup_all.of_append_right.of_append_right he hl

theorem isHeap (h : Accounted c H hand)
    (he : e ∈ hand ∨ e ∈ c.freeEntsList ∨ c.Listed e) : ∃ i, e = .heap i := by
  refine mem_heapEnts (h.perm.mem_iff.1 ?_)
  simpa only [List.mem_append, Cache.Listed] using he

/-- An entry in the hand or on the free list. -/
theorem not_listed (h : Accounted c H hand) (he : e ∈ hand ∨ e ∈ c.freeEntsList) :
    ¬ c.Listed e := by
  have hd := h.nodup_all
  rw [← List.append_assoc] at hd
  intro hl
  exact List.disjoint_of_nodup_append hd (List.mem_append.2 he) (List.mem_append.2 hl)

theorem not_guard (h : Accounted c H hand) (he : e ∈ hand ∨ e ∈ c.freeEntsList) :
    e ≠ .guard t := by
  obtain ⟨i, rfl⟩ := h.isHeap (he.imp_right .inl)
  nofun

theorem not_hashed (h : Accounted c H hand) (he : e ∈ hand ∨ e ∈ c.freeEntsList) :
    ¬ c.Hashed e := by
  intro hh
  rcases (h.inOrder e).hashed hh with hl | ⟨t, rfl, -⟩
  · exact h.not_listed he hl
  · exact h.not_guard he rfl

theorem not_held (h : Accounted c H hand) (he : e ∈ hand ∨ e ∈ c.freeEntsList) (t : Tid) :
    e ∉ H t := by
  intro ht
  rcases ((h.inOrder e).held t ht).2 with hl | hg
  · exact h.not_listed he hl
  · exact h.not_guard he hg

theorem listed_of_hashed (h : Accounted c H hand) (hh : c.Hashed e)
    (hb : (c.ent e).busy = false) : c.Listed e := by
  rcases (h.inOrder e).hashed hh with hl | ⟨t, -, ht⟩
  · exact hl
  · have := ((h.inOrder e).held t ht).1
    simp [hb] at this

/-! ### The primitives -/

theorem hashed_modify {f : Entry α → Entry α} (hf : ∀ x, (f x).key = x.key) :
    (c.modify es f).Hashed x ↔ c.Hashed x := by
  have hk : (c.modify es f).key x = c.key x := by
    unfold Cache.key Cache.modify
    dsimp only
    split
    · exact hf _
    · rfl
  unfold Cache.Hashed
  rw [hk]
  exact Iff.rfl

theorem key_modify {f : Entry α → Entry α} (hf : ∀ x, (f x).key = x.key) :
    (c.modify es f).key x = c.key x := by
  unfold Cache.key Cache.modify
  dsimp only
  split
  · exact hf _
  · rfl

theorem hashed_mark : (c.mark es).Hashed x ↔ c.Hashed x := by
  unfold Cache.mark
  exact hashed_modify fun _ => rfl

theorem hashed_unmark : (c.unmark es).Hashed x ↔ c.Hashed x := by
  unfold Cache.unmark
  exact hashed_modify fun _ => rfl

theorem key_freeCacheEntry : (c.freeCacheEntry e).key x = c.key x := by
  have h : (c.modify [e] fun y => { y with dirty := false, busy := false }).key x = c.key x :=
    key_modify fun _ => rfl
  exact h

theorem hashed_freeCacheEntry : (c.freeCacheEntry e).Hashed x ↔ c.Hashed x := by
  unfold Cache.Hashed
  rw [key_freeCacheEntry]
  exact Iff.rfl

/-- `BUSY` set on free entries of the lists: the thread holds them. -/
theorem mark (h : Accounted c H hand) (hl : ∀ e ∈ es, c.Listed e ∧ (c.ent e).busy = false)
    (hn : es.Nodup) : Accounted (c.mark es) (update H t (H t ++ es)) hand := by
  have hfree : ∀ e ∈ es, ∀ u, e ∉ H u := by
    intro e he u hu
    have := ((h.inOrder e).held u hu).1
    simp [(hl e he).2] at this
  refine h.of_touch es (fun x hx => (SameAt.modify _ hx).books) Iff.rfl ?_ h.perm h.count
    (h.table.congr rfl fun x _ => key_modify fun _ => rfl) ?_ ?_
  · intro x hx u
    by_cases hu : u = t
    · subst hu
      simp [hx]
    · rw [update_of_ne hu]
  · intro u
    by_cases hu : u = t
    · subst hu
      rw [update_self]
      exact (h.nodup u).append hn fun x hx hx' => hfree x hx' u hx
    · rw [update_of_ne hu]
      exact h.nodup u
  · intro e he
    have hent : (c.mark es).ent e = { c.ent e with busy := true } := if_pos he
    have hheld : ∀ u, e ∈ update H t (H t ++ es) u ↔ u = t := by
      intro u
      by_cases hu : u = t
      · subst hu
        simp [he]
      · simp [hu, hfree e he u]
    have ho := h.inOrder e
    constructor
    · rw [hent]
      exact ho.ready_ref
    · rw [hent]
      exact ho.lockdown_ref
    · exact fun _ => .inl (hl e he).1
    · exact fun ht _ => hashed_mark.2 (ho.listed ht (hl e he).1)
    · intro u _
      rw [hent]
      exact ⟨rfl, .inl (hl e he).1⟩
    · exact fun _ _ => ⟨t, (hheld t).2 rfl⟩
    · intro u v hu hv
      rw [(hheld u).1 hu, (hheld v).1 hv]

/-- `BUSY` cleared on entries no other thread holds. -/
theorem unmark (h : Accounted c H hand) (ho : ∀ e ∈ es, ∀ u, e ∈ H u → u = t)
    (hg : ∀ u, Ent.guard u ∉ es) :
    Accounted (c.unmark es) (update H t ((H t).filter (· ∉ es))) hand := by
  have hheld : ∀ e ∈ es, ∀ u, e ∉ update H t ((H t).filter (· ∉ es)) u := by
    intro e he u hu
    by_cases hut : u = t
    · subst hut
      simp [he] at hu
    · rw [update_of_ne hut] at hu
      exact hut (ho e he u hu)
  refine h.of_touch es (fun x hx => (SameAt.modify _ hx).books) Iff.rfl ?_ h.perm h.count
    (h.table.congr rfl fun x _ => key_modify fun _ => rfl) ?_ ?_
  · intro x hx u
    by_cases hu : u = t
    · subst hu
      simp [hx]
    · rw [update_of_ne hu]
  · intro u
    by_cases hu : u = t
    · subst hu
      rw [update_self]
      exact (h.nodup u).filter _
    · rw [update_of_ne hu]
      exact h.nodup u
  · intro e he
    have hent : (c.unmark es).ent e = { c.ent e with busy := false } := if_pos he
    have hio := h.inOrder e
    constructor
    · rw [hent]
      exact hio.ready_ref
    · rw [hent]
      exact hio.lockdown_ref
    · intro hh
      rcases hio.hashed (hashed_unmark.1 hh) with hl | ⟨u, rfl, hu⟩
      · exact .inl hl
      · exact absurd he (hg u)
    · exact fun ht hl => hashed_unmark.2 (hio.listed ht hl)
    · exact fun u hu => absurd hu (hheld e he u)
    · intro _ hb
      rw [hent] at hb
      cases hb
    · exact fun u v hu _ => absurd hu (hheld e he u)

theorem perm_removeFromList (h : Accounted c H hand) (he : c.Listed e) :
    (e :: (c.listReady.erase e ++ c.listLockdown.erase e)).Perm
      (c.listReady ++ c.listLockdown) := by
  by_cases hr : e ∈ c.listReady
  · rw [List.erase_of_not_mem (h.not_lockdown hr), ← List.cons_append]
    exact (List.perm_cons_erase hr).symm.append_right _
  · rw [List.erase_of_not_mem hr]
    exact List.perm_middle.symm.trans
      ((List.perm_cons_erase (he.resolve_left hr)).symm.append_left _)

/-- An entry leaves the lists and the hash table. -/
theorem takeOut (h : Accounted c H hand) (he : c.Listed e) (ho : ∀ u, e ∈ H u → u = t)
    (hs : ∀ x, x ≠ e → SameBooks c c' x) (hr : c'.listReady = c.listReady.erase e)
    (hl : c'.listLockdown = c.listLockdown.erase e) (hh : ¬ c'.Hashed e) (ht : TableOk c')
    (hn : c'.hashTable = none ↔ c.hashTable = none) (hf : c'.freeEntsList = c.freeEntsList)
    (hc : c'.freeEnts = c.freeEnts) (hp : c'.heap = c.heap) :
    Accounted c' (update H t ((H t).erase e)) (e :: hand) := by
  have hnot : ¬ c'.Listed e := by
    unfold Cache.Listed
    rw [hr, hl, not_or]
    exact ⟨h.nodup_ready.not_mem_erase, h.nodup_lockdown.not_mem_erase⟩
  have hheld : ∀ u, e ∉ update H t ((H t).erase e) u := by
    intro u hu
    by_cases hut : u = t
    · subst hut
      rw [update_self] at hu
      exact (h.nodup u).not_mem_erase hu
    · rw [update_of_ne hut] at hu
      exact hut (ho u hu)
  refine h.of_touch [e] (fun x hx => hs x (List.mem_singleton.not.1 hx)) hn ?_ ?_ ?_ ht ?_ ?_
  · intro x hx u
    by_cases hu : u = t
    · subst hu
      rw [update_self]
      exact List.mem_erase_of_ne (List.mem_singleton.not.1 hx)
    · rw [update_of_ne hu]
  · have hheap : c'.heapEnts = c.heapEnts := by
      unfold Cache.heapEnts
      rw [hp]
    rw [hf, hr, hl, hheap]
    refine List.Perm.trans ?_ h.perm
    refine List.perm_middle.symm.trans (List.Perm.append_left hand ?_)
    exact List.perm_middle.symm.trans (List.Perm.append_left _ (h.perm_removeFromList he))
  · rw [hc, hf]
    exact h.count
  · intro u
    by_cases hu : u = t
    · subst hu
      rw [update_self]
      exact (h.nodup u).erase e
    · rw [update_of_ne hu]
      exact h.nodup u
  · intro x hx
    obtain rfl := List.mem_singleton.1 hx
    exact .loose hnot hh hheld

/-- An entry in the hand goes to the free list. -/
theorem free (h : Accounted c H (e :: hand)) : Accounted (c.freeCacheEntry e) H hand := by
  have he : e ∈ e :: hand ∨ e ∈ c.freeEntsList := .inl List.mem_cons_self
  refine h.of_touch [e] (fun x hx => (SameAt.freeCacheEntry (List.mem_singleton.not.1 hx)).books)
    Iff.rfl (fun _ _ _ => Iff.rfl) ?_ ?_ (h.table.congr rfl fun x _ => key_freeCacheEntry)
    h.nodup ?_
  · exact List.perm_middle.trans h.perm
  · have hc : c.freeEnts + 1 = ((c.freeEntsList.length + 1 : Nat) : Int) := by
      rw [h.count]
      rfl
    exact hc
  · intro x hx
    obtain rfl := List.mem_singleton.1 hx
    refine .loose (h.not_listed he) ?_ (h.not_held he)
    exact fun hh => h.not_hashed he (hashed_freeCacheEntry.1 hh)

/-- `n` entries come off the free list into the hand. -/
theorem takeFree (h : Accounted c H []) (n : Nat) :
    Accounted (c.takeFree n).1 H (c.takeFree n).2 := by
  have hmem : ∀ e ∈ (c.takeFree n).2, e ∈ ([] : List Ent) ∨ e ∈ c.freeEntsList :=
    fun e he => .inr (List.mem_of_mem_take he)
  refine h.of_touch (c.takeFree n).2 (fun x hx => (SameAt.takeFree hx).books) Iff.rfl
    (fun _ _ _ => Iff.rfl) ?_ ?_ (h.table.congr rfl ?_) h.nodup ?_
  · have hp := h.perm
    rw [← List.take_append_drop n c.freeEntsList, List.nil_append, List.append_assoc] at hp
    exact hp
  · have hc := h.count
    have hlen := congrArg List.length (List.take_append_drop n c.freeEntsList)
    rw [List.length_append] at hlen
    show c.freeEnts - ((c.freeEntsList.take n).length : Int) = ((c.freeEntsList.drop n).length : Int)
    omega
  · intro e he
    exact (SameAt.takeFree fun hx => h.not_hashed (hmem e hx) he).key
  · intro e he
    have hnot := h.not_hashed (hmem e he)
    refine .loose (h.not_listed (hmem e he)) ?_ (h.not_held (hmem e he))
    rintro ⟨table, htab, hm⟩
    have hb := (h.table table htab _).2 e hm
    exact hnot ⟨table, htab, hb ▸ hm⟩

/-- An entry changes its list or its reference count. -/
theorem relist (h : Accounted c H hand) (hs : ∀ x, x ≠ e → SameBooks c c' x)
    (hk : c'.key e = c.key e) (hb : (c'.ent e).busy = (c.ent e).busy)
    (hp : (c'.listReady ++ c'.listLockdown).Perm (c.listReady ++ c.listLockdown))
    (hready : e ∈ c'.listReady → (c'.ent e).ref = 0)
    (hlock : e ∈ c'.listLockdown → 0 < (c'.ent e).ref) (ht : c'.hashTable = c.hashTable)
    (hf : c'.freeEntsList = c.freeEntsList) (hc : c'.freeEnts = c.freeEnts)
    (hheap : c'.heap = c.heap) : Accounted c' H hand := by
  have hl : c'.Listed e ↔ c.Listed e := by
    unfold Cache.Listed
    rw [← List.mem_append, ← List.mem_append]
    exact hp.mem_iff
  have hh : c'.Hashed e ↔ c.Hashed e := by
    unfold Cache.Hashed
    rw [ht, hk]
  have hio := h.inOrder e
  refine h.of_touch [e] (fun x hx => hs x (List.mem_singleton.not.1 hx)) (by rw [ht])
    (fun _ _ _ => Iff.rfl) ?_ ?_ (h.table.congr ht ?_) h.nodup ?_
  · have heq : c'.heapEnts = c.heapEnts := by
      unfold Cache.heapEnts
      rw [hheap]
    rw [hf, heq]
    exact ((hp.append_left _).append_left _).trans h.perm
  · rw [hc, hf]
    exact h.count
  · intro x _
    by_cases hx : x = e
    · rw [hx, hk]
    · exact (hs x hx).key
  · intro x hx
    obtain rfl := List.mem_singleton.1 hx
    constructor
    · exact hready
    · exact hlock
    · rw [hh, hl]
      exact hio.hashed
    · rw [hh, hl, ht]
      exact hio.listed
    · rw [hb, hl]
      exact hio.held
    · rw [hb, hl]
      exact hio.busy
    · exact hio.one

/-! ### An entry that is found -/

theorem removeFromList_addToReady (h : Accounted c H hand) (f : Entry α → Entry α) :
    ((c.modify [e] f).removeFromList e).addToReady e =
      { c.modify [e] f with
        listReady := e :: c.listReady.erase e
        listLockdown := c.listLockdown.erase e } :=
  if_neg (not_or.2 ⟨h.nodup_ready.not_mem_erase, h.nodup_lockdown.not_mem_erase⟩)

theorem removeFromList_addToLockdown (h : Accounted c H hand) (f : Entry α → Entry α) :
    ((c.modify [e] f).removeFromList e).addToLockdown e =
      { c.modify [e] f with
        listReady := c.listReady.erase e
        listLockdown := e :: c.listLockdown.erase e } :=
  if_neg (not_or.2 ⟨h.nodup_ready.not_mem_erase, h.nodup_lockdown.not_mem_erase⟩)

/-- A listed entry goes to the head of the ready list. -/
theorem toReady (h : Accounted c H hand) (he : c.Listed e) {f : Entry α → Entry α}
    (hk : ∀ x, (f x).key = x.key) (hb : ∀ x, (f x).busy = x.busy) (hr : (f (c.ent e)).ref = 0) :
    Accounted (((c.modify [e] f).removeFromList e).addToReady e) H hand := by
  have hs : ∀ x, x ≠ e → SameAt c (((c.modify [e] f).removeFromList e).addToReady e) x :=
    fun x hx => ((SameAt.modify f (List.mem_singleton.not.2 hx)).trans
      (.removeFromList hx)).trans (.addToReady hx)
  rw [h.removeFromList_addToReady f] at hs ⊢
  have hent : (c.modify [e] f).ent e = f (c.ent e) := if_pos List.mem_cons_self
  refine h.relist (fun x hx => (hs x hx).books) ?_ ?_ (h.perm_removeFromList he) ?_ ?_
    rfl rfl rfl rfl
  · exact key_modify hk
  · exact (congrArg Entry.busy hent).trans (hb _)
  · exact fun _ => (congrArg Entry.ref hent).trans hr
  · exact fun hl => absurd hl h.nodup_lockdown.not_mem_erase

/-- A listed entry goes to the head of the lock-down list. -/
theorem toLockdown (h : Accounted c H hand) (he : c.Listed e) {f : Entry α → Entry α}
    (hk : ∀ x, (f x).key = x.key) (hb : ∀ x, (f x).busy = x.busy) (hr : 0 < (f (c.ent e)).ref) :
    Accounted (((c.modify [e] f).removeFromList e).addToLockdown e) H hand := by
  have hs : ∀ x, x ≠ e → SameAt c (((c.modify [e] f).removeFromList e).addToLockdown e) x :=
    fun x hx => ((SameAt.modify f (List.mem_singleton.not.2 hx)).trans
      (.removeFromList hx)).trans (.addToLockdown hx)
  rw [h.removeFromList_addToLockdown f] at hs ⊢
  have hent : (c.modify [e] f).ent e = f (c.ent e) := if_pos List.mem_cons_self
  have hperm := h.perm_removeFromList he
  refine h.relist (fun x hx => (hs x hx).books) ?_ ?_ (List.perm_middle.trans hperm) ?_ ?_
    rfl rfl rfl rfl
  · exact key_modify hk
  · exact (congrArg Entry.busy hent).trans (hb _)
  · exact fun hl => absurd hl h.nodup_ready.not_mem_erase
  · exact fun _ => (congrArg Entry.ref hent).symm ▸ hr

theorem hit (h : Accounted c H hand) (he : c.Listed e) : Accounted (c.hit e) H hand := by
  have hent : (c.modify [e] fun x => { x with ref := x.ref + 1 }).ent e =
      { c.ent e with ref := (c.ent e).ref + 1 } := if_pos List.mem_cons_self
  unfold Cache.hit
  dsimp only
  split
  · exact h.toLockdown he (fun _ => rfl) (fun _ => rfl) (Nat.succ_pos _)
  · rename_i href
    rw [hent] at href
    refine h.relist (fun x hx => (SameAt.modify _ (List.mem_singleton.not.2 hx)).books)
      (key_modify fun _ => rfl) ?_ (.refl _) ?_ ?_ rfl rfl rfl rfl
    · rw [hent]
    · intro hr
      exact absurd (congrArg (· + 1) ((h.inOrder e).ready_ref hr)) href
    · intro _
      rw [hent]
      exact Nat.succ_pos _

theorem ent_hit (h : Accounted c H hand) :
    (c.hit e).ent e = { c.ent e with ref := (c.ent e).ref + 1 } := by
  unfold Cache.hit
  dsimp only
  split
  · rw [h.removeFromList_addToLockdown]
    exact if_pos List.mem_cons_self
  · exact if_pos List.mem_cons_self

theorem listed_hit (h : Accounted c H hand) (he : c.Listed e) : (c.hit e).Listed e := by
  unfold Cache.hit
  dsimp only
  split
  · rw [h.removeFromList_addToLockdown]
    exact .inr List.mem_cons_self
  · exact he

theorem unhold (h : Accounted c H hand) (he : c.Listed e) : Accounted (c.unhold e) H hand := by
  have hent : ((c.modify [e] fun x => { x with ref := x.ref - 1 }).removeFromList e).ent e =
      { c.ent e with ref := (c.ent e).ref - 1 } := if_pos List.mem_cons_self
  unfold Cache.unhold
  dsimp only
  split
  · rename_i href
    rw [hent] at href
    exact h.toReady he (fun _ => rfl) (fun _ => rfl) href
  · rename_i href
    rw [hent] at href
    exact h.toLockdown he (fun _ => rfl) (fun _ => rfl) (Nat.pos_of_ne_zero href)

theorem touch (h : Accounted c H hand) (he : c.Listed e) : Accounted (c.touch e) H hand := by
  have hid : c = c.modify [e] id := by
    unfold Cache.modify
    simp
  unfold Cache.touch
  split
  · exact h
  · split
    · rename_i href
      rw [hid]
      exact h.toReady he (fun _ => rfl) (fun _ => rfl) href
    · rename_i href
      rw [hid]
      exact h.toLockdown he (fun _ => rfl) (fun _ => rfl) (Nat.pos_of_ne_zero href)

theorem store (h : Accounted c H hand) (y : α) : Accounted (c.store e y) H hand :=
  h.modify fun _ => ⟨rfl, rfl, rfl⟩

/-! ### An entry that is put to use -/

theorem addToReady_eq (h : ¬ c.Listed e) :
    c.addToReady e = { c with listReady := e :: c.listReady } := if_neg h

theorem addToLockdown_eq (h : ¬ c.Listed e) :
    c.addToLockdown e = { c with listLockdown := e :: c.listLockdown } := if_neg h

end Accounted

/-- In `c₁` the entry from the hand is `x` and in the hash table, still on no list. -/
structure Fresh (c c₁ : Cache α) (e : Ent) (x : Entry α) : Prop where
  ent : c₁.ent e = x
  others : ∀ y, y ≠ e → SameAt c c₁ y
  ready : c₁.listReady = c.listReady
  lockdown : c₁.listLockdown = c.listLockdown
  table : TableOk c₁
  table_none : c₁.hashTable = none ↔ c.hashTable = none
  hashed : c₁.hashTable ≠ none → c₁.Hashed e
  free : c₁.freeEntsList = c.freeEntsList
  count : c₁.freeEnts = c.freeEnts
  heap : c₁.heap = c.heap

theorem Fresh.modify {c₁ : Cache α} {x : Entry α} (hf : Fresh c c₁ e x) {g : Entry α → Entry α}
    (hg : ∀ y, (g y).key = y.key) : Fresh c (c₁.modify [e] g) e (g x) where
  ent := by simp [Cache.modify, hf.ent]
  others y hy := (hf.others y hy).trans (.modify g (List.mem_singleton.not.2 hy))
  ready := hf.ready
  lockdown := hf.lockdown
  table := hf.table.congr rfl fun _ _ => Accounted.key_modify hg
  table_none := hf.table_none
  hashed hn := (Accounted.hashed_modify hg).2 (hf.hashed hn)
  free := hf.free
  count := hf.count
  heap := hf.heap

namespace Accounted

/-- The entry in the hand gets a key and enters the hash table. -/
theorem insert (h : Accounted c H (e :: hand)) (f : Entry α → Entry α) :
    Fresh c ((c.modify [e] f).cacheHashInsert e) e (f (c.ent e)) := by
  have he : e ∈ e :: hand ∨ e ∈ c.freeEntsList := .inl List.mem_cons_self
  have hsame : ∀ x, x ≠ e → SameAt c (c.modify [e] f) x :=
    fun x hx => .modify f (List.mem_singleton.not.2 hx)
  have hnot : ¬ (c.modify [e] f).Hashed e := by
    rintro ⟨table, htab, hm⟩
    have hb := (h.table table htab _).2 e hm
    exact h.not_hashed he ⟨table, htab, hb ▸ hm⟩
  have htab : TableOk (c.modify [e] f) := by
    refine h.table.congr rfl fun x hx => (hsame x ?_).key
    rintro rfl
    exact h.not_hashed he hx
  constructor
  · simp [Cache.modify]
  · exact fun x hx => (hsame x hx).trans (.cacheHashInsert hx)
  · exact listReady_cacheHashInsert _ _
  · exact listLockdown_cacheHashInsert _ _
  · exact htab.insert hnot
  · exact hashTable_cacheHashInsert _ _
  · exact fun hn => hashed_insert fun hno => hn ((hashTable_cacheHashInsert _ _).2 hno)
  · exact freeEntsList_cacheHashInsert _ _
  · exact freeEnts_cacheHashInsert _ _
  · exact heap_cacheHashInsert _ _

/-- The entry in the hand goes onto a list, free or held by thread `t`. -/
theorem enter {x : Entry α} (h : Accounted c H (e :: hand)) (hF : Fresh c c' e x)
    (hs : ∀ y, y ≠ e → SameAt c' c'' y) (hent : c''.ent = c'.ent)
    (ht : c''.hashTable = c'.hashTable)
    (hl : c''.listReady = e :: c.listReady ∧ c''.listLockdown = c.listLockdown ∧ x.ref = 0 ∨
      c''.listReady = c.listReady ∧ c''.listLockdown = e :: c.listLockdown ∧ 0 < x.ref)
    (hb : H' = H ∧ x.busy = false ∨ H' = update H t (H t ++ [e]) ∧ x.busy = true)
    (hf : c''.freeEntsList = c'.freeEntsList) (hc : c''.freeEnts = c'.freeEnts)
    (hheap : c''.heap = c'.heap) : Accounted c'' H' hand := by
  have he : e ∈ e :: hand ∨ e ∈ c.freeEntsList := .inl List.mem_cons_self
  have hfree := h.not_held he
  have hnl := not_or.1 (h.not_listed he)
  have hx : c''.ent e = x := by rw [hent, hF.ent]
  have hin : c''.hashTable ≠ none → c''.Hashed e := by
    unfold Cache.Hashed Cache.key
    rw [ht, hent]
    exact hF.hashed
  have hlisted : c''.Listed e := by
    rcases hl with ⟨hr, -, -⟩ | ⟨-, hl, -⟩
    · exact .inl (hr ▸ List.mem_cons_self)
    · exact .inr (hl ▸ List.mem_cons_self)
  have hp : (c''.listReady ++ c''.listLockdown).Perm (e :: (c.listReady ++ c.listLockdown)) := by
    rcases hl with ⟨hr, hl, -⟩ | ⟨hr, hl, -⟩
    · rw [hr, hl]
      exact .refl _
    · rw [hr, hl]
      exact List.perm_middle
  have hheld : ∀ u, e ∈ H' u → u = t ∧ x.busy = true := by
    intro u hu
    rcases hb with ⟨rfl, -⟩ | ⟨rfl, hb⟩
    · exact absurd hu (hfree u)
    · by_cases hut : u = t
      · exact ⟨hut, hb⟩
      · rw [update_of_ne hut] at hu
        exact absurd hu (hfree u)
  refine h.of_touch [e]
    (fun y hy => ((hF.others y (List.mem_singleton.not.1 hy)).trans
      (hs y (List.mem_singleton.not.1 hy))).books)
    (by rw [ht, hF.table_none]) ?_ ?_ ?_ (hF.table.congr ht fun y _ => ?_) ?_ ?_
  · intro y hy u
    rcases hb with ⟨rfl, -⟩ | ⟨rfl, -⟩
    · exact Iff.rfl
    · by_cases hut : u = t
      · subst hut
        rw [update_self, List.mem_append]
        exact or_iff_left hy
      · rw [update_of_ne hut]
  · have heq : c''.heapEnts = c.heapEnts := by
      unfold Cache.heapEnts
      rw [hheap, hF.heap]
    rw [hf, hF.free, heq]
    refine List.Perm.trans ?_ h.perm
    refine List.Perm.trans ?_ List.perm_middle
    exact ((hp.append_left _).trans List.perm_middle).append_left _
  · rw [hc, hf, hF.count, hF.free]
    exact h.count
  · unfold Cache.key
    rw [hent]
  · intro u
    rcases hb with ⟨rfl, -⟩ | ⟨rfl, -⟩
    · exact h.nodup u
    · by_cases hut : u = t
      · subst hut
        rw [update_self]
        exact (h.nodup u).append (List.nodup_singleton e)
          (List.disjoint_singleton.2 (hfree u))
      · rw [update_of_ne hut]
        exact h.nodup u
  · intro y hy
    obtain rfl := List.mem_singleton.1 hy
    constructor
    · rw [hx]
      rcases hl with ⟨-, -, href⟩ | ⟨hr, -, -⟩
      · exact fun _ => href
      · exact fun hm => absurd (hr ▸ hm) hnl.1
    · rw [hx]
      rcases hl with ⟨-, hl, -⟩ | ⟨-, -, href⟩
      · exact fun hm => absurd (hl ▸ hm) hnl.2
      · exact fun _ => href
    · exact fun _ => .inl hlisted
    · exact fun htab _ => hin htab
    · rw [hx]
      exact fun u hu => ⟨(hheld u hu).2, .inl hlisted⟩
    · intro _ hbusy
      rw [hx] at hbusy
      rcases hb with ⟨-, hb⟩ | ⟨rfl, -⟩
      · simp [hb] at hbusy
      · exact ⟨t, by simp⟩
    · intro u v hu hv
      rw [(hheld u hu).1, (hheld v hv).1]

theorem enterReady {x : Entry α} (h : Accounted c H (e :: hand)) (hF : Fresh c c' e x)
    (href : x.ref = 0)
    (hb : H' = H ∧ x.busy = false ∨ H' = update H t (H t ++ [e]) ∧ x.busy = true) :
    Accounted (c'.addToReady e) H' hand ∧ (c'.addToReady e).ent e = x ∧
      e ∈ (c'.addToReady e).listReady ∧ ∀ y, y ≠ e → SameAt c (c'.addToReady e) y := by
  have hnl : ¬ c'.Listed e := by
    unfold Cache.Listed
    rw [hF.ready, hF.lockdown]
    exact h.not_listed (.inl List.mem_cons_self)
  have hs : ∀ y, y ≠ e → SameAt c' (c'.addToReady e) y := fun y hy => .addToReady hy
  have hs' : ∀ y, y ≠ e → SameAt c (c'.addToReady e) y :=
    fun y hy => (hF.others y hy).trans (hs y hy)
  rw [addToReady_eq hnl] at hs hs' ⊢
  exact ⟨h.enter hF hs rfl rfl (.inl ⟨congrArg (e :: ·) hF.ready, hF.lockdown, href⟩) hb rfl rfl
    rfl, hF.ent, List.mem_cons_self, hs'⟩

theorem enterLockdown {x : Entry α} (h : Accounted c H (e :: hand)) (hF : Fresh c c' e x)
    (href : 0 < x.ref)
    (hb : H' = H ∧ x.busy = false ∨ H' = update H t (H t ++ [e]) ∧ x.busy = true) :
    Accounted (c'.addToLockdown e) H' hand ∧ (c'.addToLockdown e).ent e = x ∧
      e ∈ (c'.addToLockdown e).listLockdown ∧ ∀ y, y ≠ e → SameAt c (c'.addToLockdown e) y := by
  have hnl : ¬ c'.Listed e := by
    unfold Cache.Listed
    rw [hF.ready, hF.lockdown]
    exact h.not_listed (.inl List.mem_cons_self)
  have hs : ∀ y, y ≠ e → SameAt c' (c'.addToLockdown e) y := fun y hy => .addToLockdown hy
  have hs' : ∀ y, y ≠ e → SameAt c (c'.addToLockdown e) y :=
    fun y hy => (hF.others y hy).trans (hs y hy)
  rw [addToLockdown_eq hnl] at hs hs' ⊢
  exact ⟨h.enter hF hs rfl rfl (.inr ⟨hF.ready, congrArg (e :: ·) hF.lockdown, href⟩) hb rfl rfl
    rfl, hF.ent, List.mem_cons_self, hs'⟩

theorem takeEmpty (h : Accounted c H [e]) :
    Accounted (c.takeEmpty k [e]).1 H [] ∧
      (c.takeEmpty k [e]).1.ent e =
        { c.ent e with key := k, busy := false, ref := (c.ent e).ref + 1 } ∧
      e ∈ (c.takeEmpty k [e]).1.listLockdown ∧
      ∀ x, x ≠ e → SameAt c (c.takeEmpty k [e]).1 x :=
  h.enterLockdown (t := 0)
    (h.insert fun x => { x with key := k, busy := false, ref := x.ref + 1 }) (Nat.succ_pos _)
    (.inl ⟨rfl, rfl⟩)

/-- The entries get their blocks, one after another. -/
theorem insertBlocks {off : Int} (h : Accounted c H (es ++ hand))
    (hz : ∀ e ∈ es, (c.ent e).ref = 0 ∧ (c.ent e).dirty = false) :
    Accounted (c.insertBlocks k off es) (update H t (H t ++ es)) hand ∧
      Loading (c.insertBlocks k off es) k off es ∧
      ∀ x, x ∉ es → SameAt c (c.insertBlocks k off es) x := by
  induction es generalizing c H off with
  | nil =>
    have hH : update H t (H t ++ []) = H := by simp
    exact ⟨hH.symm ▸ h, trivial, fun x _ => .refl _ x⟩
  | cons e es ih =>
    have hne : e ∉ es := fun he =>
      (List.nodup_cons.1 h.nodup_all.of_append_left).1 (List.mem_append_left hand he)
    obtain ⟨href, hdirty⟩ := hz e List.mem_cons_self
    have hF := h.insert fun x => { x with key := ⟨k.dev, off⟩, busy := true }
    unfold Cache.insertBlocks
    dsimp only
    -- the block asked for is locked down, the others are ready
    obtain ⟨c₁, hc₁, h₁, hent, hplace, hs₁⟩ : ∃ c₁, c₁ = (if off = k.blockOffset then
        ((((c.modify [e] fun x => { x with key := ⟨k.dev, off⟩, busy := true }).cacheHashInsert
          e).modify [e] fun x => { x with ref := x.ref + 1 }).addToLockdown e)
        else ((c.modify [e] fun x => { x with key := ⟨k.dev, off⟩, busy := true }).cacheHashInsert
          e).addToReady e) ∧
        Accounted c₁ (update H t (H t ++ [e])) (es ++ hand) ∧
        (c₁.key e = ⟨k.dev, off⟩ ∧ (c₁.ent e).dirty = false) ∧
        (if off = k.blockOffset then e ∈ c₁.listLockdown ∧ (c₁.ent e).ref = 1
          else e ∈ c₁.listReady) ∧
        ∀ x, x ≠ e → SameAt c c₁ x := by
      by_cases hoff : off = k.blockOffset
      · obtain ⟨h₁, h₂, h₃, h₄⟩ := h.enterLockdown
          (hF.modify (g := fun x => { x with ref := x.ref + 1 }) fun _ => rfl)
          (Nat.succ_pos _) (.inr ⟨rfl, rfl⟩)
        refine ⟨_, (if_pos hoff).symm, h₁, ⟨congrArg Entry.key h₂, ?_⟩, ?_, h₄⟩
        · exact (congrArg Entry.dirty h₂).trans hdirty
        · rw [if_pos hoff]
          exact ⟨h₃, (congrArg Entry.ref h₂).trans (congrArg (· + 1) href)⟩
      · obtain ⟨h₁, h₂, h₃, h₄⟩ := h.enterReady hF href (.inr ⟨rfl, rfl⟩)
        refine ⟨_, (if_neg hoff).symm, h₁, ⟨congrArg Entry.key h₂, ?_⟩, ?_, h₄⟩
        · exact (congrArg Entry.dirty h₂).trans hdirty
        · rw [if_neg hoff]
          exact h₃
    rw [← hc₁]
    have hne' : ∀ x ∈ es, x ≠ e := fun x hx he => hne (he ▸ hx)
    have hz₁ : ∀ x ∈ es, (c₁.ent x).ref = 0 ∧ (c₁.ent x).dirty = false := fun x hx => by
      rw [(hs₁ x (hne' x hx)).ent]
      exact hz x (List.mem_cons_of_mem e hx)
    obtain ⟨h₂, hload, hs₂⟩ : Accounted (c₁.insertBlocks k (off + 1) es) _ hand ∧
        Loading (c₁.insertBlocks k (off + 1) es) k (off + 1) es ∧
        ∀ x, x ∉ es → SameAt c₁ (c₁.insertBlocks k (off + 1) es) x := ih h₁ hz₁
    have hse := hs₂ e hne
    refine ⟨?_, ⟨⟨?_, ?_, ?_⟩, hload⟩, fun x hx => ?_⟩
    · rw [update_idem, update_self, List.append_assoc] at h₂
      exact h₂
    · rw [hse.key, hent.1]
    · rw [hse.ent, hent.2]
    · rw [hse.lockdown, hse.ready, hse.ent]
      exact hplace
    · rw [List.mem_cons, not_or] at hx
      exact (hs₁ x hx.1).trans (hs₂ x hx.2)

/-! ### The entry that protects a block -/

theorem guard_not_listed (h : Accounted c H hand) (u : Tid) : ¬ c.Listed (.guard u) := by
  intro hl
  obtain ⟨i, hi⟩ := h.isHeap (.inr (.inr hl))
  cases hi

theorem insertProtected (h : Accounted c H hand) (hg : Ent.guard t ∉ H t) :
    Accounted (c.insertProtected t k) (update H t (.guard t :: H t)) hand ∧
      ∀ x, x ≠ .guard t → SameAt c (c.insertProtected t k) x := by
  have hheld : ∀ u, Ent.guard t ∉ H u := by
    intro u hu
    rcases ((h.inOrder _).held u hu).2 with hl | he
    · exact h.guard_not_listed t hl
    · cases he
      exact hg hu
  have hnh : ¬ c.Hashed (.guard t) := by
    intro hh
    rcases (h.inOrder _).hashed hh with hl | ⟨u, -, hu⟩
    · exact h.guard_not_listed t hl
    · exact hheld u hu
  have hs₁ : ∀ x, x ≠ .guard t → SameAt c (c.modify [.guard t] fun x =>
      ⟨k, false, true, 0, x.data⟩) x := fun x hx => .modify _ (List.mem_singleton.not.2 hx)
  have hs : ∀ x, x ≠ .guard t → SameAt c (c.insertProtected t k) x :=
    fun x hx => (hs₁ x hx).trans (.cacheHashInsert hx)
  have hent : ((c.insertProtected t k).ent (.guard t)).busy = true := by
    simp [Cache.insertProtected, Cache.modify]
  have hnone : (c.insertProtected t k).hashTable = none ↔ c.hashTable = none :=
    hashTable_cacheHashInsert _ _
  have hready : (c.insertProtected t k).listReady = c.listReady := listReady_cacheHashInsert _ _
  have hlock : (c.insertProtected t k).listLockdown = c.listLockdown :=
    listLockdown_cacheHashInsert _ _
  have hnl : ¬ (c.insertProtected t k).Listed (.guard t) := by
    unfold Cache.Listed
    rw [hready, hlock]
    exact h.guard_not_listed t
  refine ⟨h.of_touch [.guard t] (fun x hx => (hs x (List.mem_singleton.not.1 hx)).books) hnone
    ?_ ?_ ?_ ?_ ?_ ?_, hs⟩
  · intro x hx u
    by_cases hut : u = t
    · subst hut
      rw [update_self, List.mem_cons]
      exact or_iff_right (List.mem_singleton.not.1 hx)
    · rw [update_of_ne hut]
  · have hheap : (c.insertProtected t k).heapEnts = c.heapEnts := by
      unfold Cache.heapEnts
      rw [show (c.insertProtected t k).heap = c.heap from heap_cacheHashInsert _ _]
    rw [hready, hlock, hheap,
      show (c.insertProtected t k).freeEntsList = c.freeEntsList from
        freeEntsList_cacheHashInsert _ _]
    exact h.perm
  · rw [show (c.insertProtected t k).freeEnts = c.freeEnts from freeEnts_cacheHashInsert _ _,
      show (c.insertProtected t k).freeEntsList = c.freeEntsList from
        freeEntsList_cacheHashInsert _ _]
    exact h.count
  · refine TableOk.insert (h.table.congr rfl fun x hx => (hs₁ x ?_).key) ?_
    · rintro rfl
      exact hnh hx
    · rintro ⟨table, htab, hm⟩
      have hb := (h.table table htab _).2 _ hm
      exact hnh ⟨table, htab, hb ▸ hm⟩
  · intro u
    by_cases hut : u = t
    · subst hut
      rw [update_self]
      exact List.nodup_cons.2 ⟨hg, h.nodup u⟩
    · rw [update_of_ne hut]
      exact h.nodup u
  · intro x hx
    obtain rfl := List.mem_singleton.1 hx
    have hu : ∀ u, Ent.guard t ∈ update H t (.guard t :: H t) u → u = t := by
      intro u hu
      by_cases hut : u = t
      · exact hut
      · rw [update_of_ne hut] at hu
        exact absurd hu (hheld u)
    constructor
    · exact fun hr => absurd (.inl hr) hnl
    · exact fun hr => absurd (.inr hr) hnl
    · exact fun _ => .inr ⟨t, rfl, by simp⟩
    · exact fun _ hl => absurd hl hnl
    · exact fun u hm => ⟨hent, .inr (by rw [hu u hm])⟩
    · exact fun hl => absurd hl hnl
    · intro u v hm hm'
      rw [hu u hm, hu v hm']

theorem removeProtected (h : Accounted c H hand) (hr : c.removeProtected t = some c') :
    Accounted c' (update H t ((H t).erase (.guard t))) hand ∧
      ∀ x, x ≠ .guard t → SameAt c c' x := by
  obtain ⟨c₁, hr₁, rfl⟩ := Option.map_eq_some_iff.1 hr
  obtain ⟨htab, hnh⟩ := TableOk.remove h.table hr₁
  have hs : ∀ x, x ≠ .guard t →
      SameAt c { c₁ with hist := .release (.guard t) :: c₁.hist } x :=
    fun x hx => (SameAt.cacheHashRemove hx hr₁).trans (.of_eq x rfl rfl rfl rfl)
  have hheld : ∀ u, Ent.guard t ∉ update H t ((H t).erase (.guard t)) u := by
    intro u hu
    by_cases hut : u = t
    · subst hut
      rw [update_self] at hu
      exact (h.nodup u).not_mem_erase hu
    · rw [update_of_ne hut] at hu
      rcases ((h.inOrder _).held u hu).2 with hl | he
      · exact h.guard_not_listed t hl
      · cases he
        exact hut rfl
  obtain ⟨hready, hlock, hfree, hcount, hheap, hnone⟩ := cacheHashRemove_same hr₁
  have hnl : ¬ c₁.Listed (.guard t) := by
    unfold Cache.Listed
    rw [hready, hlock]
    exact h.guard_not_listed t
  refine ⟨h.of_touch [.guard t] (fun x hx => (hs x (List.mem_singleton.not.1 hx)).books) hnone
    ?_ ?_ ?_ htab ?_ ?_, hs⟩
  · intro x hx u
    by_cases hut : u = t
    · subst hut
      rw [update_self]
      exact List.mem_erase_of_ne (List.mem_singleton.not.1 hx)
    · rw [update_of_ne hut]
  · unfold Cache.heapEnts
    dsimp only
    rw [hfree, hready, hlock, hheap]
    exact h.perm
  · dsimp only
    rw [hcount, hfree]
    exact h.count
  · intro u
    by_cases hut : u = t
    · subst hut
      rw [update_self]
      exact (h.nodup u).erase _
    · rw [update_of_ne hut]
      exact h.nodup u
  · intro x hx
    obtain rfl := List.mem_singleton.1 hx
    exact .loose hnl hnh hheld

/-! ### Entries given back -/

theorem of_held_perm (h : Accounted c H hand) (hp : ∀ u, (H' u).Perm (H u)) :
    Accounted c H' hand where
  perm := h.perm
  count := h.count
  table := h.table
  nodup u := (hp u).nodup_iff.2 (h.nodup u)
  inOrder e := (h.inOrder e).congr (SameAt.refl c e).books Iff.rfl fun u => (hp u).mem_iff

theorem of_hand_perm {hand' : List Ent} (h : Accounted c H hand) (hp : hand'.Perm hand) :
    Accounted c H hand' :=
  ⟨(hp.append_right _).trans h.perm, h.count, h.table, h.nodup, h.inOrder⟩

theorem freeHand (h : Accounted c H (es ++ hand)) :
    Accounted (es.foldl Cache.freeCacheEntry c) H hand ∧
      ∀ x, x ∉ es → SameAt c (es.foldl Cache.freeCacheEntry c) x := by
  induction es generalizing c with
  | nil => exact ⟨h, fun x _ => .refl _ x⟩
  | cons e es ih =>
    obtain ⟨h₁, hs⟩ := ih h.free
    refine ⟨h₁, fun x hx => ?_⟩
    rw [List.mem_cons, not_or] at hx
    exact (SameAt.freeCacheEntry hx.1).trans (hs x hx.2)

theorem dropBlocks {off : Int} (h : Accounted c H hand) (hload : Loading c k off es)
    (hn : es.Nodup) (ho : ∀ e ∈ es, ∀ u, e ∈ H u → u = t)
    (hr : c.dropBlocks k off es = some c') :
    Accounted c' (update H t ((H t).filter (· ∉ es))) (es.reverse ++ hand) ∧
      ∀ x, x ∉ es → SameAt c c' x := by
  induction es generalizing c H hand off with
  | nil =>
    cases hr
    exact ⟨by simpa using h, fun x _ => .refl _ x⟩
  | cons e es ih =>
    obtain ⟨c₁, hr₁, hr⟩ := Option.bind_eq_some_iff.1 hr
    obtain ⟨⟨hkey, -, hplace⟩, hload⟩ := hload
    obtain ⟨hne, hn⟩ := List.nodup_cons.1 hn
    have hhere : e ∈ e :: es := List.mem_cons_self
    have hl : c.Listed e := by
      split at hplace
      · exact .inr hplace.1
      · exact .inl hplace
    have hkey₀ : ∀ x, (c.modify [e] fun x =>
        { x with key := ⟨k.dev, off⟩, busy := false }).key x = c.key x := by
      intro x
      by_cases hx : x = e
      · rw [hx, hkey]
        simp [Cache.key, Cache.modify]
      · exact (SameAt.modify _ (List.mem_singleton.not.2 hx)).key
    have htab₀ : TableOk (c.modify [e] fun x =>
        { x with key := ⟨k.dev, off⟩, busy := false }) := h.table.congr rfl fun x _ => hkey₀ x
    obtain ⟨htab, hnh⟩ := TableOk.remove htab₀ hr₁
    obtain ⟨hready, hlock, hfree, hcount, hheap, hnone⟩ := cacheHashRemove_same hr₁
    have hs₁ : ∀ x, x ≠ e → SameAt c c₁ x := fun x hx =>
      (SameAt.modify _ (List.mem_singleton.not.2 hx)).trans (.cacheHashRemove hx hr₁)
    -- the reference of the block asked for goes
    obtain ⟨c₂, hc₂, hs₂, hkey₂, hready₂, hlock₂, htable₂, hfree₂, hcount₂, hheap₂⟩ : ∃ c₂, c₂ = (if off = k.blockOffset then
        c₁.modify [e] fun x => { x with ref := 0 } else c₁) ∧ (∀ x, x ≠ e → SameAt c c₂ x) ∧
        (∀ x, c₂.key x = c₁.key x) ∧ c₂.listReady = c₁.listReady ∧
        c₂.listLockdown = c₁.listLockdown ∧ c₂.hashTable = c₁.hashTable ∧
        c₂.freeEntsList = c₁.freeEntsList ∧ c₂.freeEnts = c₁.freeEnts ∧ c₂.heap = c₁.heap := by
      by_cases hoff : off = k.blockOffset
      · exact ⟨_, (if_pos hoff).symm, fun x hx =>
          (hs₁ x hx).trans (.modify _ (List.mem_singleton.not.2 hx)),
          fun x => key_modify fun _ => rfl, rfl, rfl, rfl, rfl, rfl, rfl⟩
      · exact ⟨_, (if_neg hoff).symm, hs₁, fun _ => rfl, rfl, rfl, rfl, rfl, rfl, rfl⟩
    dsimp only at hr
    rw [← hc₂] at hr
    have hs₃ : ∀ x, x ≠ e → SameAt c (c₂.removeFromList e) x :=
      fun x hx => (hs₂ x hx).trans (.removeFromList hx)
    have h₁ : Accounted (c₂.removeFromList e) (update H t ((H t).erase e)) (e :: hand) := by
      refine h.takeOut hl (ho e hhere) (fun x hx => (hs₃ x hx).books)
        (congrArg (List.erase · e) (hready₂.trans hready))
        (congrArg (List.erase · e) (hlock₂.trans hlock)) ?_
        (htab.congr htable₂ fun x _ => hkey₂ x) ?_ (hfree₂.trans hfree) (hcount₂.trans hcount)
        (hheap₂.trans hheap)
      · unfold Cache.Hashed
        rw [show (c₂.removeFromList e).hashTable = _ from htable₂,
          show (c₂.removeFromList e).key e = _ from hkey₂ e]
        exact hnh
      · rw [show (c₂.removeFromList e).hashTable = _ from htable₂]
        exact hnone
    have hne' : ∀ x ∈ es, x ≠ e := fun x hx he => hne (he ▸ hx)
    have hothers : ∀ x ∈ es, ∀ u, x ∈ update H t ((H t).erase e) u → u = t := by
      intro x hx u hu
      by_cases hut : u = t
      · exact hut
      · rw [update_of_ne hut] at hu
        exact ho x (List.mem_cons_of_mem e hx) u hu
    obtain ⟨h₂, hs₄⟩ := ih h₁ (hload.same fun x hx => hs₃ x (hne' x hx)) hn hothers hr
    rw [update_idem, update_self, filter_erase (h.nodup t)] at h₂
    refine ⟨?_, fun x hx => ?_⟩
    · rw [List.reverse_cons, List.append_assoc]
      exact h₂
    · rw [List.mem_cons, not_or] at hx
      exact (hs₃ x hx.1).trans (hs₄ x hx.2)

theorem initHeap (h : Accounted c H []) (hn : c.heap = none) (malloc : Bool) :
    Accounted (c.initHeap malloc) H [] ∧ ∀ x, SameAt c (c.initHeap malloc) x := by
  unfold Cache.initHeap
  dsimp only
  split
  · have hp := h.perm
    unfold Cache.heapEnts at hp
    rw [hn] at hp
    have hnil := hp.eq_nil
    simp only [List.append_eq_nil_iff] at hnil
    refine ⟨h.of_touch [] (fun x _ => SameAt.books (.of_eq x rfl rfl rfl rfl)) Iff.rfl
      (fun _ _ _ => Iff.rfl) ?_ ?_ (h.table.congr rfl fun _ _ => rfl) h.nodup nofun,
      fun x => .of_eq x rfl rfl rfl rfl⟩
    · simp only [hnil.2.2.1, hnil.2.2.2, List.nil_append, List.append_nil]
      exact .refl _
    · simp
  · exact ⟨h, fun x => .refl c x⟩

/-! ### The routines that run with the lock held -/

theorem freeAll (h : Accounted c H hand) (hl : ∀ e ∈ es, c.Listed e) (hn : es.Nodup)
    (ho : ∀ e ∈ es, ∀ u, e ∈ H u → u = t) (hf : c.freeAll es = some c') :
    Accounted c' (update H t ((H t).filter (· ∉ es))) hand ∧ ∀ x, x ∉ es → SameAt c c' x := by
  induction es generalizing c H with
  | nil =>
    cases hf
    exact ⟨by simpa using h, fun x _ => .refl _ x⟩
  | cons e es ih =>
    obtain ⟨c₁, hr, hf⟩ := Option.bind_eq_some_iff.1 hf
    obtain ⟨hne, hn⟩ := List.nodup_cons.1 hn
    have hhere : e ∈ e :: es := List.mem_cons_self
    have htab₀ : TableOk (c.removeFromList e) := h.table.congr rfl fun _ _ => rfl
    have htab := htab₀.remove hr
    have hsame : ∀ x, x ≠ e → SameAt c c₁ x :=
      fun x hx => (SameAt.removeFromList hx).trans (SameAt.cacheHashRemove hx hr)
    have h₁ : Accounted c₁ (update H t ((H t).erase e)) (e :: hand) := by
      obtain ⟨table, hc, rfl⟩ := Option.map_eq_some_iff.1 hr
      exact h.takeOut (hl e hhere) (ho e hhere) (fun x hx => (hsame x hx).books) rfl rfl htab.2
        htab.1 (by simp [show c.hashTable = some table from hc]) rfl rfl rfl
    have hsame' : ∀ x, x ≠ e → SameAt c (c₁.freeCacheEntry e) x :=
      fun x hx => (hsame x hx).trans (.freeCacheEntry hx)
    have hne' : ∀ x ∈ es, x ≠ e := fun x hx he => hne (he ▸ hx)
    have hothers : ∀ x ∈ es, ∀ u, x ∈ update H t ((H t).erase e) u → u = t := by
      intro x hx u hu
      by_cases hut : u = t
      · exact hut
      · rw [update_of_ne hut] at hu
        exact ho x (List.mem_cons_of_mem e hx) u hu
    obtain ⟨h₂, hs₂⟩ := ih h₁.free
      (fun x hx => (hsame' x (hne' x hx)).listed.2 (hl x (List.mem_cons_of_mem e hx))) hn
      hothers hf
    rw [update_idem, update_self, filter_erase (h.nodup t)] at h₂
    refine ⟨h₂, fun x hx => ?_⟩
    rw [List.mem_cons, not_or] at hx
    exact (hsame' x hx.1).trans (hs₂ x hx.2)

end Accounted

end Melis.Sdmmc
