import Melis.Sdmmc.Machine

/-!
# The lock of the block cache

`locks` and `unlocks` count, for each thread, its calls of `block_cache_lock`
and the times it gave the lock back. A call is balanced when the two are equal
once it has returned. Every routine is, but for one path of `get_block`: where
`alloc_cache_entrys` finds no entry it returns `NULL` and keeps the lock.
-/

namespace Melis.Sdmmc

open Lib Function

variable {α : Type} {c c' : Cache α} {e : Ent} {es ents : List Ent} {t u : Tid} {k : Key}

/-! ## What leaves the lock alone -/

namespace Cache

@[simp] theorem lock_modify (f : Entry α → Entry α) : (c.modify es f).lock = c.lock := rfl

@[simp] theorem lock_mark : (c.mark es).lock = c.lock := rfl

@[simp] theorem lock_unmark : (c.unmark es).lock = c.lock := rfl

@[simp] theorem lock_removeFromList : (c.removeFromList e).lock = c.lock := rfl

@[simp] theorem lock_freeCacheEntry : (c.freeCacheEntry e).lock = c.lock := rfl

@[simp] theorem lock_takeFree (n : Nat) : (c.takeFree n).1.lock = c.lock := rfl

@[simp] theorem lock_store (x : α) : (c.store e x).lock = c.lock := rfl

@[simp] theorem lock_cacheHashInsert : (c.cacheHashInsert e).lock = c.lock := by
  unfold cacheHashInsert
  split <;> rfl

@[simp] theorem lock_addToReady : (c.addToReady e).lock = c.lock := by
  unfold addToReady
  split <;> rfl

@[simp] theorem lock_addToLockdown : (c.addToLockdown e).lock = c.lock := by
  unfold addToLockdown
  split <;> rfl

@[simp] theorem lock_ensureHeap (malloc : Bool) : (c.ensureHeap malloc).lock = c.lock := by
  unfold ensureHeap initHeap
  split <;> [split; skip] <;> rfl

@[simp] theorem lock_hit : (c.hit e).lock = c.lock := by
  unfold hit
  dsimp only
  split <;> simp

@[simp] theorem lock_unhold : (c.unhold e).lock = c.lock := by
  unfold unhold
  dsimp only
  split <;> simp

@[simp] theorem lock_touch : (c.touch e).lock = c.lock := by
  unfold touch
  split <;> [skip; split] <;> simp

@[simp] theorem lock_insertProtected : (c.insertProtected t k).lock = c.lock := by
  simp [insertProtected]

@[simp] theorem lock_insertBlocks (off : Int) : (c.insertBlocks k off es).lock = c.lock := by
  induction es generalizing c off with
  | nil => rfl
  | cons e es ih =>
    rw [insertBlocks, ih]
    split <;> simp

@[simp] theorem lock_loadBlocks : (c.loadBlocks k es).lock = c.lock := by
  induction es generalizing c k with
  | nil => rfl
  | cons e es ih => rw [loadBlocks, ih, lock_modify]

@[simp] theorem lock_foldl_free : (es.foldl freeCacheEntry c).lock = c.lock := by
  induction es generalizing c with
  | nil => rfl
  | cons e es ih => rw [List.foldl_cons, ih, lock_freeCacheEntry]

@[simp] theorem lock_takeEmpty : (c.takeEmpty k es).1.lock = c.lock := by
  unfold takeEmpty
  split <;> simp

theorem lock_cacheHashRemove (h : c.cacheHashRemove e = some c') : c'.lock = c.lock := by
  obtain ⟨table, -, rfl⟩ := Option.map_eq_some_iff.1 h
  rfl

theorem lock_removeProtected (h : c.removeProtected t = some c') : c'.lock = c.lock := by
  obtain ⟨c₁, hr, rfl⟩ := Option.map_eq_some_iff.1 h
  have hlock := lock_cacheHashRemove hr
  exact hlock

theorem lock_freeAll (h : c.freeAll es = some c') : c'.lock = c.lock := by
  induction es generalizing c with
  | nil => cases h; rfl
  | cons e es ih =>
    obtain ⟨c₁, hr, h⟩ := Option.bind_eq_some_iff.1 h
    have hlock := lock_cacheHashRemove hr
    exact (ih h).trans hlock

theorem lock_dropBlocks {off : Int} (h : c.dropBlocks k off es = some c') :
    c'.lock = c.lock := by
  induction es generalizing c off with
  | nil => cases h; rfl
  | cons e es ih =>
    obtain ⟨c₁, hr, h⟩ := Option.bind_eq_some_iff.1 h
    have hlock := lock_cacheHashRemove hr
    refine (ih h).trans ?_
    split <;> simpa using hlock

theorem lock_discardBlockCache (h : c.discardBlockCache = some c') : c'.lock = c.lock := by
  obtain ⟨c₂, hr, rfl⟩ := Option.map_eq_some_iff.1 h
  obtain ⟨c₁, h₁, h₂⟩ := Option.bind_eq_some_iff.1 hr
  exact (lock_freeAll h₂).trans (lock_freeAll h₁)

theorem lock_readCacheEntryList {io : Io} {ok : Bool}
    (h : c.readCacheEntryList k es io = some (c', ok)) : c'.lock = c.lock := by
  unfold readCacheEntryList at h
  split at h
  · cases h
    simp
  · cases h

theorem lock_writeVectorBlock (io : Io) (iov : List Ent) :
    (c.writeVectorBlock io iov).1.lock = c.lock := by
  cases iov <;> rfl

theorem lock_flushRun (io : Io) (iov : List Ent) (next : Bool → FlushList) :
    (c.flushRun io iov next).1.lock = c.lock := by
  unfold flushRun
  split
  · exact lock_writeVectorBlock io iov
  · rfl

theorem lock_acquire (h : c.acquire t = some c') : c'.lock = some t := by
  unfold acquire at h
  split at h
  · cases h
    rfl
  · cases h

theorem lock_of_acquire (h : c.acquire t = some c') : c.lock = none ∨ c.lock = some t := by
  unfold acquire at h
  split at h
  · assumption
  · cases h

theorem lock_unlock (h : c.lock = some t) : (c.unlock t).lock = none := by
  simp [unlock, h]

end Cache

theorem FlushList.lock_step (io : Io) (f : FlushList) : (f.step c io).1.lock = c.lock := by
  unfold FlushList.step
  repeat' split
  all_goals first | rfl | exact Cache.lock_flushRun ..

/-! ## The routines -/

/-- How a step that runs with the lock can leave it: given back at a cut, or with a result
that is `free`; kept at a cut `inside` it, with a result that is `kept`, or where the thread
stops. -/
inductive Leaves {φ ρ : Type} (t : Tid) (inside : φ → Prop) (kept free : ρ → Prop) :
    Cache α × Res φ ρ → Prop
  | out (c : Cache α) (f : φ) (h : c.lock = none) : Leaves t inside kept free (c, .wait f)
  | back (c : Cache α) (r : ρ) (h : c.lock = none) (hr : free r) :
    Leaves t inside kept free (c, .ret r)
  | wait (c : Cache α) (f : φ) (h : c.lock = some t) (hin : inside f) :
    Leaves t inside kept free (c, .wait f)
  | ret (c : Cache α) (r : ρ) (h : c.lock = some t) (hr : kept r) :
    Leaves t inside kept free (c, .ret r)
  | fault (c : Cache α) (h : c.lock = some t) : Leaves t inside kept free (c, .fault)

/-- The step begins with `block_cache_lock`, or is made with the lock held. -/
def Release.needs : Release → Bool
  | flush _ => false
  | relock .. => true

def Alloc.needs : Alloc → Bool
  | again .. => true
  | release _ _ r => r.needs

def GetEmpty.needs : GetEmpty → Bool
  | lookup => true
  | alloc a => a.needs

def GetBlock.needs (k : Key) : GetBlock → Bool
  | start => k.dev ≠ 0
  | alloc _ _ a => a.needs
  | read .. => false
  | finish .. => true

/-- A cut that the source reaches with the lock held. -/
def Alloc.Inside : Alloc → Bool
  | again .. => true
  | release .. => false

def GetEmpty.Inside : GetEmpty → Bool
  | lookup => false
  | alloc a => a.Inside

def GetBlock.Inside : GetBlock → Bool
  | alloc _ _ a => a.Inside
  | _ => false

abbrev ReleaseLeaves (t : Tid) : Cache α × Res Release Int → Prop :=
  Leaves t (fun _ => False) (fun _ => True) fun _ => False

abbrev AllocLeaves (t : Tid) : Cache α × Res Alloc (List Ent × Bool) → Prop :=
  Leaves t (fun a => a.Inside = true) (fun _ => True) fun _ => False

abbrev EmptyLeaves (t : Tid) : Cache α × Res GetEmpty (Option Ent) → Prop :=
  Leaves t (fun a => a.Inside = true) (fun _ => True) fun _ => False

theorem Cache.leaves_releaseEnts (hc : c.lock = some t) : ReleaseLeaves t (c.releaseEnts t es) := by
  unfold Cache.releaseEnts
  dsimp only
  split
  · exact .out _ _ (Cache.lock_unlock hc)
  · cases hf : (c.mark es).freeAll es with
    | none => exact .fault c hc
    | some c₁ => exact .ret _ _ ((Cache.lock_freeAll hf).trans hc) trivial

theorem Cache.leaves_releaseCacheEntrys (hc : c.lock = some t) :
    ReleaseLeaves t (c.releaseCacheEntrys t) := by
  unfold Cache.releaseCacheEntrys
  split
  · exact .fault c hc
  · exact Cache.leaves_releaseEnts hc

theorem Cache.leaves_cacheWriteback (hc : c.lock = some t) :
    ReleaseLeaves t (c.cacheWriteback t) := by
  unfold Cache.cacheWriteback
  split
  · exact .fault c hc
  · exact .ret c 0 hc trivial
  · exact .out _ _ (Cache.lock_unlock hc)

theorem Release.step_flush {io : Io} {f : FlushList} {p : Cache α × Res Release Int}
    (h : (Release.flush f).step t c io = some p) :
    p.1.lock = c.lock ∧ ∀ k, p.2 ≠ .ret k := by
  have hlock := f.lock_step (c := c) io
  simp only [Release.step] at h
  generalize f.step c io = q at h hlock
  obtain ⟨c₁, r⟩ := q
  cases r <;> cases h <;> exact ⟨hlock, nofun⟩

theorem Release.leaves_relock {io : Io} {ok : Bool} {p : Cache α × Res Release Int}
    (h : (Release.relock es ok).step t c io = some p) : ReleaseLeaves t p := by
  obtain ⟨c₁, ha, rfl⟩ := Option.map_eq_some_iff.1 h
  have hc := Cache.lock_acquire ha
  cases ok with
  | false => exact .ret _ _ hc trivial
  | true =>
    simp only [if_true]
    cases hf : c₁.freeAll es with
    | none => exact .fault c₁ hc
    | some c₂ => exact .ret _ _ ((Cache.lock_freeAll hf).trans hc) trivial

theorem Cache.leaves_allocReleased {n : Nat} {blocked : Bool} {i : Int} (hc : c.lock = some t) :
    AllocLeaves t (c, Cache.allocReleased n blocked i) := by
  unfold Cache.allocReleased
  split
  · exact .ret c _ hc trivial
  · exact .wait c _ hc rfl

theorem Cache.leaves_allocAgain {n : Nat} {blocked : Bool} (hc : c.lock = some t) :
    AllocLeaves t (c.allocAgain t n blocked) := by
  unfold Cache.allocAgain
  split
  · have hrel := Cache.leaves_releaseCacheEntrys hc
    split <;> rename_i heq <;> rw [heq] at hrel
    · cases hrel with
      | out _ _ h => exact .out _ _ h
      | wait _ _ _ h => exact h.elim
    · cases hrel with
      | back _ _ _ h => exact h.elim
      | ret _ _ h => exact Cache.leaves_allocReleased h
    · cases hrel with
      | fault _ h => exact .fault _ h
  · split
    · exact .wait c _ hc rfl
    · exact .ret _ _ hc trivial

theorem Cache.leaves_allocCacheEntrys {n : Nat} {malloc : Bool} (hc : c.lock = some t) :
    AllocLeaves t (c.allocCacheEntrys t n malloc) :=
  Cache.leaves_allocAgain (by simpa using hc)

theorem Alloc.step_lock {io : Io} {a : Alloc} {p : Cache α × Res Alloc (List Ent × Bool)}
    (h : a.step t c io = some p) :
    (a.needs = false → p.1.lock = c.lock ∧ ∀ r, p.2 ≠ .ret r) ∧ (a.needs = true → AllocLeaves t p) := by
  cases a with
  | again n blocked =>
    obtain ⟨c₁, ha, rfl⟩ := Option.map_eq_some_iff.1 h
    exact ⟨nofun, fun _ => Cache.leaves_allocAgain (Cache.lock_acquire ha)⟩
  | release n blocked r =>
    obtain ⟨q, hr, rfl⟩ := Option.map_eq_some_iff.1 h
    obtain ⟨c₁, r₁⟩ := q
    cases r with
    | flush f =>
      obtain ⟨hlock, hret⟩ := Release.step_flush hr
      refine ⟨fun _ => ?_, nofun⟩
      cases r₁ with
      | ret k => exact absurd rfl (hret k)
      | wait r => exact ⟨hlock, nofun⟩
      | fault => exact ⟨hlock, nofun⟩
    | relock ents ok =>
      refine ⟨nofun, fun _ => ?_⟩
      cases Release.leaves_relock hr with
      | out _ _ hl => exact .out _ _ hl
      | back _ _ _ hf => exact hf.elim
      | wait _ _ _ hin => exact hin.elim
      | ret _ _ hl => exact Cache.leaves_allocReleased hl
      | fault _ hl => exact .fault _ hl

theorem Alloc.lock_stop {a : Alloc} :
    (a.needs = false → (a.stop t c).lock = c.lock) ∧
      (a.needs = true → (a.stop t c).lock = some t) := by
  rcases a with _ | ⟨_, _, _ | _⟩
  · exact ⟨nofun, fun _ => rfl⟩
  · exact ⟨fun _ => rfl, nofun⟩
  · exact ⟨nofun, fun _ => rfl⟩

theorem Cache.leaves_emptyAlloced {p : Cache α × Res Alloc (List Ent × Bool)}
    (h : AllocLeaves t p) : EmptyLeaves t (Cache.emptyAlloced k p) := by
  cases h with
  | out c a h => exact .out c _ h
  | back _ _ _ hf => exact hf.elim
  | wait c a h hin => exact .wait c _ h hin
  | ret c r h => exact .ret _ _ (by simpa using h) trivial
  | fault c h => exact .fault c h

theorem Cache.leaves_doGetEmptyCacheEntry {malloc : Bool} (hc : c.lock = some t) :
    EmptyLeaves t (c.doGetEmptyCacheEntry t k malloc) := by
  unfold Cache.doGetEmptyCacheEntry
  split
  · exact .out _ _ (Cache.lock_unlock hc)
  · exact .ret _ _ (by simpa using hc) trivial
  · exact Cache.leaves_emptyAlloced (Cache.leaves_allocCacheEntrys hc)

theorem GetEmpty.step_lock {fate : Fate} {g : GetEmpty} {p : Cache α × Res GetEmpty (Option Ent)}
    (h : g.step t k c fate = some p) :
    (g.needs = false → p.1.lock = c.lock ∧ ∀ r, p.2 ≠ .ret r) ∧ (g.needs = true → EmptyLeaves t p) := by
  cases g with
  | lookup =>
    obtain ⟨c₁, ha, rfl⟩ := Option.map_eq_some_iff.1 h
    exact ⟨nofun, fun _ => Cache.leaves_doGetEmptyCacheEntry (Cache.lock_acquire ha)⟩
  | alloc a =>
    obtain ⟨q, hq, rfl⟩ := Option.map_eq_some_iff.1 h
    obtain ⟨hout, hin⟩ := Alloc.step_lock hq
    refine ⟨fun hn => ?_, fun hn => Cache.leaves_emptyAlloced (hin hn)⟩
    obtain ⟨c₁, r₁⟩ := q
    cases r₁ with
    | ret r => exact absurd rfl ((hout hn).2 r)
    | wait r => exact ⟨(hout hn).1, nofun⟩
    | fault => exact ⟨(hout hn).1, nofun⟩

/-! ## get_block -/

/-- What `alloc_cache_entrys` returns in this step of `get_block`. -/
def GetBlock.allocated (t : Tid) (k : Key) (c : Cache α) (fate : Fate) :
    GetBlock → Option (Cache α × Res Alloc (List Ent × Bool))
  | start =>
    (c.acquire t).bind fun c =>
      if k.dev = 0 ∨ c.lookupCacheEntry k ≠ .null then none
      else
        some ((c.insertProtected t k).allocCacheEntrys t
          (c.readahead k (cacheReadaheadSize / blockSize)).2 fate.malloc)
  | alloc _ _ a => a.step t c fate.io
  | _ => none

/-- `alloc_cache_entrys` comes back to `get_block` without an entry. -/
def GetBlock.Starves (t : Tid) (k : Key) (c : Cache α) (fate : Fate) (g : GetBlock) : Prop :=
  ∃ c' blocked, g.allocated t k c fate = some (c', .ret ([], blocked)) ∧ c'.hashTable ≠ none

abbrev BlockLeaves (t : Tid) (starves : Prop) : Cache α × Res GetBlock (Option Ent) → Prop :=
  Leaves t (fun g => g.Inside = true) (fun r => r = none ∧ starves) fun _ => True

theorem Cache.leaves_getAlloced {off : Int} {n : Nat} {blocked : Bool} {c₀ : Cache α}
    {starves : Prop} (hc : c.lock = some t) (hc₀ : c₀.lock = some t)
    (hs : es = [] → c.hashTable ≠ none → starves) :
    BlockLeaves t starves (c.getAlloced t k off n es blocked c₀) := by
  unfold Cache.getAlloced
  cases hr : c.removeProtected t with
  | none => exact .fault c₀ hc₀
  | some c₁ =>
    have hc₁ : c₁.lock = some t := (Cache.lock_removeProtected hr).trans hc
    simp only
    split
    · rename_i hes
      refine .ret c₁ none hc₁ ⟨rfl, hs hes fun ht => ?_⟩
      simp [Cache.removeProtected, Cache.cacheHashRemove, ht] at hr
    · exact .out _ _ (Cache.lock_unlock (by simpa using hc₁))

theorem Cache.leaves_blockAlloced {off : Int} {n : Nat} {c₀ : Cache α} {starves : Prop}
    {p : Cache α × Res Alloc (List Ent × Bool)} (h : AllocLeaves t p) (hc₀ : c₀.lock = some t)
    (hs : ∀ c' blocked, p = (c', .ret ([], blocked)) → c'.hashTable ≠ none → starves) :
    BlockLeaves t starves (Cache.blockAlloced c₀ t k off n p) := by
  cases h with
  | out c a hl => exact .out c _ hl
  | back _ _ _ hf => exact hf.elim
  | wait c a hl hin => exact .wait c _ hl hin
  | ret c r hl =>
    obtain ⟨ents, blocked⟩ := r
    refine Cache.leaves_getAlloced hl hc₀ fun hes ht => hs c blocked ?_ ht
    rw [hes]
  | fault c hl => exact .fault c₀ hc₀

theorem Cache.leaves_getLookup {malloc : Bool} {starves : Prop} (hc : c.lock = some t)
    (hs : ∀ c' blocked, c.lookupCacheEntry k = .null → (c.insertProtected t k).allocCacheEntrys t
      (c.readahead k (cacheReadaheadSize / blockSize)).2 malloc = (c', .ret ([], blocked)) →
        c'.hashTable ≠ none → starves) :
    BlockLeaves t starves (c.getLookup t k malloc) := by
  unfold Cache.getLookup
  split
  · exact .out _ _ (Cache.lock_unlock hc)
  · exact .back _ _ (Cache.lock_unlock (by simpa using hc)) trivial
  · rename_i hnull
    refine Cache.leaves_blockAlloced (Cache.leaves_allocCacheEntrys (by simpa using hc)) hc ?_
    exact fun c' blocked => hs c' blocked hnull

theorem GetBlock.leaves_finish {fate : Fate} {off : Int} {ok : Bool} {starves : Prop}
    {p : Cache α × Res GetBlock (Option Ent)}
    (h : (GetBlock.finish off es ok).step t k c fate = some p) : BlockLeaves t starves p := by
  obtain ⟨c₁, ha, rfl⟩ := Option.map_eq_some_iff.1 h
  have hc := Cache.lock_acquire ha
  cases ok with
  | true => exact .back _ _ (Cache.lock_unlock hc) trivial
  | false =>
    simp only [Bool.false_eq_true, if_false]
    cases hd : c₁.dropBlocks k off es with
    | none => exact .fault c₁ hc
    | some c₂ =>
      exact .back _ _ (Cache.lock_unlock (by simpa using (Cache.lock_dropBlocks hd).trans hc)) trivial

theorem GetBlock.step_lock {fate : Fate} {g : GetBlock} {p : Cache α × Res GetBlock (Option Ent)}
    (h : g.step t k c fate = some p) :
    (g.needs k = false → p.1.lock = c.lock) ∧
      (g.needs k = true → BlockLeaves t (g.Starves t k c fate) p) := by
  cases g with
  | start =>
    by_cases hdev : k.dev = 0
    · rw [GetBlock.step, if_pos hdev] at h
      cases h
      exact ⟨fun _ => rfl, fun hn => absurd hdev (of_decide_eq_true hn)⟩
    · rw [GetBlock.step, if_neg hdev] at h
      obtain ⟨c₁, ha, rfl⟩ := Option.map_eq_some_iff.1 h
      refine ⟨fun hn => absurd hdev (of_decide_eq_false hn), fun _ => ?_⟩
      refine Cache.leaves_getLookup (Cache.lock_acquire ha) fun c' blocked hnull hret ht => ?_
      exact ⟨c', blocked, by simp [GetBlock.allocated, ha, hdev, hnull, hret], ht⟩
  | alloc off n a =>
    obtain ⟨q, hq, rfl⟩ := Option.map_eq_some_iff.1 h
    obtain ⟨hout, hin⟩ := Alloc.step_lock hq
    refine ⟨fun hn => ?_, fun hn => ?_⟩
    · obtain ⟨hlock, hret⟩ := hout hn
      obtain ⟨c₁, r₁⟩ := q
      cases r₁ with
      | ret r => exact absurd rfl (hret r)
      | wait r => exact hlock
      | fault => exact Alloc.lock_stop.1 hn
    · refine Cache.leaves_blockAlloced (hin hn) (Alloc.lock_stop.2 hn) fun c' blocked hret ht => ?_
      exact ⟨c', blocked, hret ▸ hq, ht⟩
  | read off ents =>
    refine ⟨fun _ => ?_, nofun⟩
    cases hr : c.readCacheEntryList ⟨k.dev, off⟩ ents fate.io with
    | none =>
      simp only [GetBlock.step, hr] at h
      cases h
      rfl
    | some q =>
      obtain ⟨c₁, ok⟩ := q
      simp only [GetBlock.step, hr] at h
      cases h
      exact Cache.lock_readCacheEntryList hr
  | finish off ents ok => exact ⟨nofun, fun _ => GetBlock.leaves_finish h⟩

theorem Release.took {io : Io} {r : Release} (h : (r.step t c io).isSome) (hn : r.needs = true) :
    c.lock = none ∨ c.lock = some t := by
  cases r with
  | flush f => cases hn
  | relock ents ok =>
    obtain ⟨c₁, ha⟩ := Option.isSome_iff_exists.1 (Option.isSome_map ▸ h)
    exact Cache.lock_of_acquire ha

theorem Alloc.took {io : Io} {a : Alloc} (h : (a.step t c io).isSome) (hn : a.needs = true) :
    c.lock = none ∨ c.lock = some t := by
  cases a with
  | again n blocked =>
    obtain ⟨c₁, ha⟩ := Option.isSome_iff_exists.1 (Option.isSome_map ▸ h)
    exact Cache.lock_of_acquire ha
  | release n blocked r => exact Release.took (Option.isSome_map ▸ h) hn

theorem GetEmpty.took {fate : Fate} {g : GetEmpty} (h : (g.step t k c fate).isSome)
    (hn : g.needs = true) : c.lock = none ∨ c.lock = some t := by
  cases g with
  | lookup =>
    obtain ⟨c₁, ha⟩ := Option.isSome_iff_exists.1 (Option.isSome_map ▸ h)
    exact Cache.lock_of_acquire ha
  | alloc a => exact Alloc.took (Option.isSome_map ▸ h) hn

theorem GetBlock.took {fate : Fate} {g : GetBlock} (h : (g.step t k c fate).isSome)
    (hn : g.needs k = true) : c.lock = none ∨ c.lock = some t := by
  cases g with
  | start =>
    rw [GetBlock.step, if_neg (of_decide_eq_true hn)] at h
    obtain ⟨c₁, ha⟩ := Option.isSome_iff_exists.1 (Option.isSome_map ▸ h)
    exact Cache.lock_of_acquire ha
  | alloc off n a => exact Alloc.took (Option.isSome_map ▸ h) hn
  | read off ents => cases hn
  | finish off ents ok =>
    obtain ⟨c₁, ha⟩ := Option.isSome_iff_exists.1 (Option.isSome_map ▸ h)
    exact Cache.lock_of_acquire ha

/-! ## The calls -/

/-- The step begins with `block_cache_lock`, or is made with the lock held. -/
def Pc.needs (c : Cache α) : Pc α → Bool
  | idle _ => false
  | halt _ => false
  | get k g => g.needs k
  | put k => k.dev ≠ 0
  | read _ buf i .lookup => i < buf.length
  | read k _ i (.get g) => g.needs (k.add i)
  | read _ _ _ (.copy _) => false
  | read k _ _ .put => k.dev ≠ 0
  | readPhys .. => false
  | readPatch .. => true
  | write _ _ _ .lookup => true
  | write _ _ _ (.empty g) => g.needs
  | writePhys .. => false
  | writePatch .. => true
  | flush _ (.batch ..) => false
  | flush _ (.last ..) => false
  | flush .. => true
  | evict => true
  | writeback => true
  | release r => r.needs
  | discard => c.hashTable.isSome

/-- A cut that the source can reach with the lock held. -/
def Pc.Inside : Pc α → Bool
  | halt _ => true
  | get _ g => g.Inside
  | read _ _ _ (.get g) => g.Inside
  | readPatch .. => true
  | write _ _ _ .lookup => true
  | write _ _ _ (.empty g) => g.Inside
  | writePatch .. => true
  | flush _ (.scan _ _ (some _)) => true
  | _ => false

/-- `get_block` is about to come back from `alloc_cache_entrys` without an entry. -/
def Pc.Starves (t : Tid) (c : Cache α) (fate : Fate) : Pc α → Prop
  | get k g => g.Starves t k c fate
  | read k _ i (.get g) => g.Starves t (k.add i) c fate
  | _ => False

/-- What a step does to the lock, which `t` had only at a cut `Inside` it. -/
structure StepLock (t : Tid) (starves : Prop) (needs : Bool) (c c' : Cache α) (p' : Pc α) :
    Prop where
  quiet : needs = false → c'.lock = c.lock
  took : needs = true → c.lock = none ∨ c.lock = some t
  left : needs = true → c'.lock = none ∨ c'.lock = some t ∧ (p'.Inside = true ∨ starves)

namespace StepLock

variable {starves : Prop} {p' : Pc α} {c₁ : Cache α}

theorem of_quiet (h : c'.lock = c.lock) : StepLock t starves false c c' p' :=
  ⟨fun _ => h, nofun, nofun⟩

theorem of_acquire (ha : c.acquire t = some c₁)
    (h : c'.lock = none ∨ c'.lock = some t ∧ (p'.Inside = true ∨ starves)) :
    StepLock t starves true c c' p' :=
  ⟨nofun, fun _ => Cache.lock_of_acquire ha, fun _ => h⟩

end StepLock

theorem lock_putBlock (hc : c.lock = some t) :
    (putBlock t k c).1.lock = none ∨
      (putBlock t k c).1.lock = some t ∧ (putBlock t k c).2 = .fault := by
  unfold putBlock
  split
  · exact .inl (Cache.lock_unlock hc)
  · exact .inl (Cache.lock_unlock hc)
  · split
    · exact .inr ⟨hc, rfl⟩
    · exact .inl (Cache.lock_unlock (by simpa using hc))

/-- A call of `put_block`. -/
theorem stepLock_put {starves : Prop} {c₁ : Cache α} {f g : Unit → Pc α}
    (ha : c.acquire t = some c₁) :
    StepLock t starves true c (putBlock t k c₁).1 ((putBlock t k c₁).2.pc [] f g) := by
  refine .of_acquire ha ?_
  rcases lock_putBlock (k := k) (Cache.lock_acquire ha) with h | ⟨h, hf⟩
  · exact .inl h
  · exact .inr ⟨h, .inl (by rw [hf]; rfl)⟩

/-- A step of `get_block` inside a call. -/
theorem stepLock_get {fate : Fate} {g : GetBlock} {q : Cache α × Res GetBlock (Option Ent)}
    {held : List Ent} {w : GetBlock → Pc α} {r : Option Ent → Pc α}
    (hg : g.step t k c fate = some q) (hw : ∀ g, (w g).Inside = g.Inside) :
    StepLock t (g.Starves t k c fate) (g.needs k) c q.1 (q.2.pc held w r) := by
  obtain ⟨hout, hin⟩ := GetBlock.step_lock hg
  refine ⟨hout, GetBlock.took (by rw [hg]; rfl), fun hn => ?_⟩
  cases hin hn with
  | out _ _ h => exact .inl h
  | back _ _ h => exact .inl h
  | wait _ g h hi => exact .inr ⟨h, .inl ((hw g).trans hi)⟩
  | ret _ _ h hr => exact .inr ⟨h, .inr hr.2⟩
  | fault _ h => exact .inr ⟨h, .inl rfl⟩

theorem lock_releaseDone {held : List Ent} {q : Cache α × Res Release Int} {p' : Pc α}
    (hq : ReleaseLeaves t q) (h : releaseDone t held q = (c', p')) :
    c'.lock = none ∨ c'.lock = some t ∧ p' = .halt held := by
  cases hq with
  | out _ _ hl =>
    cases h
    exact .inl hl
  | back _ _ _ hf => exact hf.elim
  | wait _ _ _ hin => exact hin.elim
  | ret _ _ hl =>
    cases h
    exact .inl (Cache.lock_unlock hl)
  | fault _ hl =>
    cases h
    exact .inr ⟨hl, rfl⟩

theorem ReadBlock.stepLock {fate : Fate} {buf : List α} {i : Nat} {r : ReadBlock} {p' : Pc α}
    (h : r.step t k buf i c fate = some (c', p')) :
    StepLock t ((Pc.read k buf i r).Starves t c fate) ((Pc.read k buf i r).needs c) c c' p' := by
  cases r with
  | lookup =>
    rw [ReadBlock.step] at h
    split at h
    · rename_i hlen
      cases h
      rw [Pc.needs, decide_eq_false (not_lt.2 hlen)]
      exact .of_quiet rfl
    · rename_i hlen
      obtain ⟨c₁, ha, h⟩ := Option.map_eq_some_iff.1 h
      rw [Pc.needs, decide_eq_true (not_le.1 hlen)]
      refine .of_acquire ha (.inl ?_)
      have hc := Cache.lock_acquire ha
      split at h <;> cases h <;> exact Cache.lock_unlock (by simpa using hc)
  | get g =>
    obtain ⟨q, hq, h⟩ := Option.map_eq_some_iff.1 h
    cases h
    exact stepLock_get hq fun g => rfl
  | copy e =>
    cases h
    exact .of_quiet rfl
  | put =>
    rw [ReadBlock.step] at h
    split at h
    · rename_i hdev
      cases h
      rw [Pc.needs, decide_eq_false (not_not.2 hdev)]
      exact .of_quiet rfl
    · rename_i hdev
      obtain ⟨c₁, ha, h⟩ := Option.map_eq_some_iff.1 h
      cases h
      rw [Pc.needs, decide_eq_true hdev]
      exact stepLock_put ha

theorem lock_writeEmpty {data : List α} {i : Nat} {x : α} {g : GetEmpty} {p' : Pc α}
    {q : Cache α × Res GetEmpty (Option Ent)} (hq : EmptyLeaves t q)
    (h : writeEmpty t k data i x g q = (c', p')) :
    c'.lock = none ∨ c'.lock = some t ∧ p'.Inside = true := by
  cases hq with
  | out _ _ hl =>
    cases h
    exact .inl hl
  | back _ _ _ hf => exact hf.elim
  | wait _ _ hl hin =>
    cases h
    exact .inr ⟨hl, hin⟩
  | ret c r hl =>
    cases r with
    | none =>
      cases h
      exact .inl (Cache.lock_unlock hl)
    | some e =>
      rw [writeEmpty] at h
      split at h
      · cases h
        exact .inr ⟨hl, rfl⟩
      · cases h
        exact .inr ⟨by simpa using hl, rfl⟩
  | fault _ hl =>
    cases h
    exact .inr ⟨hl, rfl⟩

theorem WriteBlock.stepLock {fate : Fate} {data : List α} {i : Nat} {w : WriteBlock} {p' : Pc α}
    (h : w.step t k data i c fate = some (c', p')) :
    StepLock t False ((Pc.write k data i w).needs c) c c' p' := by
  cases w with
  | lookup =>
    obtain ⟨c₁, ha, h⟩ := Option.map_eq_some_iff.1 h
    refine .of_acquire ha ?_
    have hc := Cache.lock_acquire ha
    split at h
    · cases h
      exact .inl (Cache.lock_unlock hc)
    · split at h
      · cases h
        exact .inl (Cache.lock_unlock hc)
      · cases h
        exact .inr ⟨by simpa using hc, .inl rfl⟩
      · exact (lock_writeEmpty (Cache.leaves_doGetEmptyCacheEntry hc) h).imp_right (.imp_right .inl)
  | empty g =>
    obtain ⟨x, -, h⟩ := Option.bind_eq_some_iff.1 h
    obtain ⟨q, hq, h⟩ := Option.map_eq_some_iff.1 h
    obtain ⟨hout, hin⟩ := GetEmpty.step_lock hq
    refine ⟨fun hn => ?_, GetEmpty.took (by rw [hq]; rfl), fun hn => ?_⟩
    · obtain ⟨hlock, hret⟩ := hout hn
      obtain ⟨c₁, r₁⟩ := q
      cases r₁ with
      | wait g => cases h; exact hlock
      | ret r => exact absurd rfl (hret r)
      | fault => cases h; exact hlock
    · exact (lock_writeEmpty (hin hn) h).imp_right (.imp_right .inl)

theorem readPatch_stepLock {buf : List α} {i : Nat} {ok : Bool} {p' : Pc α}
    (h : readPatchStep t k buf i ok c = some (c', p')) : StepLock t False true c c' p' := by
  obtain ⟨c₁, ha, h⟩ := Option.map_eq_some_iff.1 h
  refine .of_acquire ha ?_
  have hc := Cache.lock_acquire ha
  split at h
  · cases h
    exact .inl (Cache.lock_unlock hc)
  · split at h
    · cases h
      exact .inl (Cache.lock_unlock hc)
    · cases h
      exact .inr ⟨hc, .inl rfl⟩
    · cases h
      exact .inr ⟨hc, .inl rfl⟩

theorem writePatch_stepLock {data : List α} {i : Nat} {ok : Bool} {p' : Pc α}
    (h : writePatchStep t k data i ok c = some (c', p')) : StepLock t False true c c' p' := by
  obtain ⟨c₁, ha, h⟩ := Option.map_eq_some_iff.1 h
  refine .of_acquire ha ?_
  have hc := Cache.lock_acquire ha
  split at h
  · cases h
    exact .inl (Cache.lock_unlock hc)
  · split at h
    · cases h
      exact .inl (Cache.lock_unlock hc)
    · cases h
      exact .inr ⟨hc, .inl rfl⟩
    · cases h
      exact .inr ⟨hc, .inl rfl⟩

theorem lock_flushScanStep {wait : Bool} {old new : List Ent} {pos : Option Ent} {p' : Pc α}
    (hc : c.lock = some t) (h : flushScanStep t wait old new pos c = (c', p')) :
    c'.lock = none ∨ c'.lock = some t ∧ p'.Inside = true := by
  unfold flushScanStep at h
  split at h
  · cases h
    exact .inr ⟨hc, rfl⟩
  · cases h
    exact .inl (Cache.lock_unlock hc)
  · dsimp only at h
    split at h <;> cases h <;> exact .inl (Cache.lock_unlock hc)

theorem Flush.stepLock {wait : Bool} {io : Io} {f : Flush} {p' : Pc α}
    (h : f.step t wait c io = some (c', p')) :
    StepLock t False ((Pc.flush wait f : Pc α).needs c) c c' p' := by
  cases f with
  | scan old new pos =>
    obtain ⟨c₁, ha, h⟩ := Option.map_eq_some_iff.1 h
    refine .of_acquire ha ?_
    exact (lock_flushScanStep (Cache.lock_acquire ha) h).imp_right (.imp_right .inl)
  | batch old new e f =>
    cases h
    exact .of_quiet (f.lock_step io)
  | batchDone old new e =>
    obtain ⟨c₁, ha, h⟩ := Option.map_eq_some_iff.1 h
    have hc := Cache.lock_acquire ha
    cases h
    refine .of_acquire ha (.inr ⟨hc, .inl ?_⟩)
    split <;> rfl
  | last old new f =>
    cases h
    exact .of_quiet (f.lock_step io)
  | lastDone old new =>
    obtain ⟨c₁, ha, h⟩ := Option.map_eq_some_iff.1 h
    have hc := Cache.lock_acquire ha
    cases h
    exact .of_acquire ha (.inl (Cache.lock_unlock hc))
  | check old =>
    obtain ⟨c₁, ha, h⟩ := Option.map_eq_some_iff.1 h
    refine .of_acquire ha (.inl ?_)
    have hc := Cache.lock_acquire ha
    split at h <;> cases h <;> exact Cache.lock_unlock hc

/-- **One step**: what it does to the lock. -/
theorem Pc.stepLock {fate : Fate} {p p' : Pc α} (h : p.step t c fate = some (c', p')) :
    StepLock t (p.Starves t c fate) (p.needs c) c c' p' := by
  cases p with
  | idle r => cases h
  | halt held => cases h
  | get k g =>
    obtain ⟨q, hq, h⟩ := Option.map_eq_some_iff.1 h
    cases h
    exact stepLock_get hq fun g => rfl
  | put k =>
    rw [Pc.step] at h
    split at h
    · rename_i hdev
      cases h
      rw [Pc.needs, decide_eq_false (not_not.2 hdev)]
      exact .of_quiet rfl
    · rename_i hdev
      obtain ⟨c₁, ha, h⟩ := Option.map_eq_some_iff.1 h
      cases h
      rw [Pc.needs, decide_eq_true hdev]
      exact stepLock_put ha
  | read k buf i r => exact ReadBlock.stepLock h
  | readPhys k buf =>
    rw [Pc.step, readPhysStep, Option.some_inj] at h
    refine .of_quiet ?_
    split at h <;> cases h <;> rfl
  | readPatch k buf i ok => exact readPatch_stepLock h
  | write k data i w => exact WriteBlock.stepLock h
  | writePhys k data =>
    rw [Pc.step, writePhysStep, Option.some_inj] at h
    refine .of_quiet ?_
    split at h
    · cases h
      rfl
    · split at h <;> cases h <;> rfl
  | writePatch k data i ok => exact writePatch_stepLock h
  | flush wait f => exact Flush.stepLock h
  | evict =>
    obtain ⟨c₁, ha, h⟩ := Option.map_eq_some_iff.1 h
    refine .of_acquire ha ?_
    refine (lock_releaseDone (Cache.leaves_releaseCacheEntrys (Cache.lock_acquire ha)) h).imp_right ?_
    rintro ⟨hl, rfl⟩
    exact ⟨hl, .inl rfl⟩
  | writeback =>
    obtain ⟨c₁, ha, h⟩ := Option.map_eq_some_iff.1 h
    refine .of_acquire ha ?_
    refine (lock_releaseDone (Cache.leaves_cacheWriteback (Cache.lock_acquire ha)) h).imp_right ?_
    rintro ⟨hl, rfl⟩
    exact ⟨hl, .inl rfl⟩
  | release r =>
    obtain ⟨q, hq, h⟩ := Option.map_eq_some_iff.1 h
    cases r with
    | flush f =>
      obtain ⟨hlock, hret⟩ := Release.step_flush hq
      obtain ⟨c₁, r₁⟩ := q
      refine .of_quiet ?_
      cases r₁ with
      | wait r => cases h; exact hlock
      | ret i => exact absurd rfl (hret i)
      | fault => cases h; exact hlock
    | relock ents ok =>
      have hsome : ((Release.relock ents ok).step t c fate.io).isSome := by rw [hq]; rfl
      refine ⟨nofun, fun _ => Release.took hsome rfl, fun _ => ?_⟩
      refine (lock_releaseDone (Release.leaves_relock hq) h).imp_right ?_
      rintro ⟨hl, rfl⟩
      exact ⟨hl, .inl rfl⟩
  | discard =>
    rw [Pc.step] at h
    rw [Pc.needs]
    split at h
    · rename_i ht
      cases h
      rw [ht]
      exact .of_quiet rfl
    · rename_i ht
      obtain ⟨c₁, ha, h⟩ := Option.map_eq_some_iff.1 h
      rw [Option.isSome_iff_ne_none.2 ht]
      refine .of_acquire ha ?_
      have hc := Cache.lock_acquire ha
      split at h
      · cases h
        exact .inr ⟨hc, .inl rfl⟩
      · rename_i hd
        cases h
        exact .inl (Cache.lock_unlock ((Cache.lock_discardBlockCache hd).trans hc))

/-! ## Without an entry -/

theorem Cache.getAlloced_nil {off : Int} {n : Nat} {blocked : Bool} {c₀ : Cache α}
    (hc : c.lock = some t) (ht : c.hashTable ≠ none) :
    (c.getAlloced t k off n [] blocked c₀).1.lock = some t ∧
      (c.getAlloced t k off n [] blocked c₀).2 = .ret none := by
  unfold Cache.getAlloced
  cases hr : c.removeProtected t with
  | none => simp [Cache.removeProtected, Cache.cacheHashRemove, ht] at hr
  | some c₁ =>
    simp only [if_true]
    exact ⟨(Cache.lock_removeProtected hr).trans hc, trivial⟩

theorem AllocLeaves.locked {r : List Ent × Bool} (h : AllocLeaves t (c, .ret r)) :
    c.lock = some t := by
  cases h with
  | back _ _ _ hf => exact hf.elim
  | ret _ _ hl => exact hl

theorem GetBlock.starves_step {fate : Fate} {g : GetBlock} {p : Cache α × Res GetBlock (Option Ent)}
    (hs : g.Starves t k c fate) (h : g.step t k c fate = some p) :
    p.1.lock = some t ∧ p.2 = .ret none := by
  obtain ⟨c₂, blocked, halloc, ht⟩ := hs
  cases g with
  | start =>
    obtain ⟨c₁, ha, halloc⟩ := Option.bind_eq_some_iff.1 halloc
    split at halloc
    · cases halloc
    · rename_i hno
      rw [not_or, not_not] at hno
      rw [GetBlock.step, if_neg hno.1, ha] at h
      cases h
      have hc : (c₁.insertProtected t k).lock = some t := by simpa using Cache.lock_acquire ha
      have hleaves : AllocLeaves t (c₂, .ret ([], blocked)) :=
        Option.some_inj.1 halloc ▸ Cache.leaves_allocCacheEntrys hc
      simp only [Cache.getLookup, hno.2, Option.some_inj.1 halloc]
      exact Cache.getAlloced_nil hleaves.locked ht
  | alloc off n a =>
    change a.step t c fate.io = some (c₂, .ret ([], blocked)) at halloc
    rw [GetBlock.step, halloc] at h
    cases h
    have hneeds : a.needs = true := by
      by_contra hn
      exact (Alloc.step_lock halloc).1 (Bool.not_eq_true _ ▸ hn) |>.2 _ rfl
    exact Cache.getAlloced_nil ((Alloc.step_lock halloc).2 hneeds).locked ht
  | read off ents => cases halloc
  | finish off ents ok => cases halloc

theorem Pc.starves_step {fate : Fate} {p p' : Pc α} (hs : p.Starves t c fate)
    (h : p.step t c fate = some (c', p')) : c'.lock = some t ∧ ∃ r, p' = .idle r := by
  cases p with
  | get k g =>
    obtain ⟨q, hq, h⟩ := Option.map_eq_some_iff.1 h
    obtain ⟨hl, hr⟩ := GetBlock.starves_step hs hq
    cases h
    exact ⟨hl, .block none, by rw [hr]; rfl⟩
  | read k buf i r =>
    cases r with
    | get g =>
      obtain ⟨q, hq, h⟩ := Option.map_eq_some_iff.1 h
      obtain ⟨hl, hr⟩ := GetBlock.starves_step hs hq
      cases h
      exact ⟨hl, .read false buf, by rw [hr]; rfl⟩
    | lookup | copy | put => exact hs.elim
  | _ => exact hs.elim

theorem Pc.needs_of_inside {fate : Fate} {p : Pc α} (hi : p.Inside = true)
    (h : (p.step t c fate).isSome) : p.needs c = true := by
  have halloc : ∀ a : Alloc, a.Inside = true → a.needs = true := by
    rintro (_ | _) ha
    · rfl
    · cases ha
  rcases p with _ | _ | ⟨_, g⟩ | _ | ⟨_, _, _, r⟩ | _ | _ | ⟨_, _, _, w⟩ | _ | _ | ⟨_, f⟩ | _ | _ | _ | _
  case halt => cases h
  case get =>
    cases g with
    | alloc off n a => exact halloc a hi
    | start | read | finish => cases hi
  case read =>
    rcases r with _ | g | _ | _
    case get =>
      cases g with
      | alloc off n a => exact halloc a hi
      | start | read | finish => cases hi
    all_goals cases hi
  case write =>
    rcases w with _ | g
    · rfl
    · cases g with
      | lookup => cases hi
      | alloc a => exact halloc a hi
  case flush =>
    cases f with
    | scan old new pos => rfl
    | batch | batchDone | last | lastDone | check => cases hi
  case readPatch | writePatch => rfl
  all_goals cases hi

theorem StepLock.other {starves : Prop} {needs : Bool} {p' : Pc α}
    (h : StepLock t starves needs c c' p') (hu : u ≠ t) :
    (c'.lock = some u ↔ c.lock = some u) := by
  have hne : ∀ {l : Option Tid}, l = none ∨ l = some t → l ≠ some u := by
    rintro l (rfl | rfl) hl
    · cases hl
    · exact hu (Option.some.inj hl).symm
  cases needs with
  | false => rw [h.quiet rfl]
  | true =>
    exact iff_of_false (hne ((h.left rfl).imp_right And.left)) (hne (h.took rfl))

/-! ## Counting -/

/-- The threads over the cache, and how often each called `block_cache_lock` and gave the
lock back. -/
structure Counted (α : Type) where
  state : State α
  locks : Tid → Nat
  unlocks : Tid → Nat

/-- In this step `block_cache_lock` is called. -/
def Input.locks (s : State α) (i : Input α) : Bool :=
  match i.act with
  | .call _ => false
  | .go _ =>
    (s.pc i.tid).needs s.cache && !((s.pc i.tid).Inside && s.cache.lock == some i.tid)

/-- In this step, which leads to `s'`, the lock is given back. -/
def Input.unlocks (s s' : State α) (i : Input α) : Bool :=
  (i.locks s || s.cache.lock == some i.tid) && s'.cache.lock != some i.tid

namespace Counted

def next (s : Counted α) (i : Input α) : Option (Counted α) :=
  (Sdmmc.next s.state i).map fun s' =>
    { state := s'
      locks := update s.locks i.tid (s.locks i.tid + (i.locks s.state).toNat)
      unlocks := update s.unlocks i.tid (s.unlocks i.tid + (i.unlocks s.state s').toNat) }

abbrev machine (α : Type) : Machine (Counted α) (Input α) := ⟨next⟩

/-- No call is counted yet. -/
def start (s : State α) : Counted α := ⟨s, fun _ => 0, fun _ => 0⟩

/-- A thread whose call has returned gave the lock back as often as it took it, and does
not have it. -/
def Balanced (s : Counted α) : Prop :=
  ∀ t r, s.state.pc t = .idle r → s.locks t = s.unlocks t ∧ s.state.cache.lock ≠ some t

/-- The step finds `get_block` without an entry. -/
def Starves (s : Counted α) (i : Input α) : Prop :=
  ∃ fate, i.act = .go fate ∧ (s.state.pc i.tid).Starves i.tid s.state.cache fate

/-- The lock is held by a thread inside it only, and counted. -/
structure Inv (s : Counted α) : Prop where
  inside : ∀ t, s.state.cache.lock = some t → (s.state.pc t).Inside = true
  count : ∀ t, s.locks t = s.unlocks t + (s.state.cache.lock == some t).toNat

variable {s s' : Counted α} {i : Input α}

theorem Inv.balanced (h : s.Inv) : s.Balanced := by
  intro t r hr
  have hout : s.state.cache.lock ≠ some t := by
    intro hl
    have := h.inside t hl
    rw [hr] at this
    cases this
  refine ⟨?_, hout⟩
  have := h.count t
  rwa [beq_false_of_ne hout] at this

theorem Inv.call {x : Call α} {r : Ret α} (h : s.Inv) (hi : i.act = .call x)
    (hpc : s.state.pc i.tid = .idle r) (hs : s.next i = some s') : s'.Inv := by
  obtain ⟨st, hst, rfl⟩ := Option.map_eq_some_iff.1 hs
  simp only [Sdmmc.next, hi, hpc] at hst
  cases hst
  have hout : s.state.cache.lock ≠ some i.tid := (h.balanced i.tid r hpc).2
  refine ⟨fun t hl => ?_, fun t => ?_⟩
  · have ht : t ≠ i.tid := fun ht => hout (ht ▸ hl)
    simpa [ht] using h.inside t hl
  · rcases eq_or_ne t i.tid with rfl | ht
    · have hcount := h.count i.tid
      rw [beq_false_of_ne hout] at hcount
      simpa [Input.locks, Input.unlocks, hi, hout, beq_false_of_ne hout] using hcount
    · simpa [ht] using h.count t

theorem count_step {needs inside had has : Bool} {n m : Nat} (hin : had = true → inside = true)
    (hneeds : had = true → needs = true) (hquiet : needs = false → has = had)
    (h : n = m + had.toNat) :
    n + (needs && !(inside && had)).toNat =
      m + ((needs && !(inside && had) || had) && !has).toNat + has.toNat := by
  cases had with
  | true =>
    rw [hin rfl, hneeds rfl, h]
    cases has <;> rfl
  | false =>
    rw [Bool.toNat_false, Nat.add_zero] at h
    cases needs with
    | true => cases has <;> simp [h]
    | false => simp [h, hquiet rfl]

theorem Inv.go {fate : Fate} (h : s.Inv) (hi : i.act = .go fate) (hno : ¬ s.Starves i)
    (hs : s.next i = some s') : s'.Inv := by
  obtain ⟨st, hst, rfl⟩ := Option.map_eq_some_iff.1 hs
  simp only [Sdmmc.next, hi] at hst
  obtain ⟨⟨c', p'⟩, hp, rfl⟩ := Option.map_eq_some_iff.1 hst
  have hlock := Pc.stepLock hp
  have hneeds : s.state.cache.lock = some i.tid →
      (s.state.pc i.tid).needs s.state.cache = true :=
    fun hl => Pc.needs_of_inside (h.inside i.tid hl) (by rw [hp]; rfl)
  refine ⟨fun t hl => ?_, fun t => ?_⟩
  · dsimp only at hl ⊢
    rcases eq_or_ne t i.tid with rfl | ht
    · rw [update_self]
      cases hn : (s.state.pc i.tid).needs s.state.cache with
      | true =>
        rcases hlock.left hn with hnone | ⟨-, hin | hstarve⟩
        · cases hnone.symm.trans hl
        · exact hin
        · exact absurd ⟨fate, hi, hstarve⟩ hno
      | false =>
        have := hneeds ((hlock.quiet hn).symm.trans hl)
        rw [hn] at this
        cases this
    · rw [update_of_ne ht]
      exact h.inside t ((hlock.other ht).1 hl)
  · rcases eq_or_ne t i.tid with rfl | ht
    · simp only [update_self, Input.locks, Input.unlocks, hi, bne]
      refine count_step (fun hl => h.inside _ (beq_iff_eq.1 hl)) (fun hl => hneeds (beq_iff_eq.1 hl))
        (fun hn => ?_) (h.count i.tid)
      rw [hlock.quiet hn]
    · simp only [update_of_ne ht]
      rw [h.count t, Bool.eq_iff_iff.2 (beq_iff_eq.trans ((hlock.other ht).trans beq_iff_eq.symm))]

theorem exact_step (hs : (machine α).next s i = some s') (h : s.Inv) :
    (machine α).Exact Inv Balanced (fun _ _ _ => True) (fun s i => ¬ s.Starves i) s i := by
  cases hi : i.act with
  | call x =>
    have hno : ¬ s.Starves i := by
      rintro ⟨fate, hgo, -⟩
      rw [hi] at hgo
      cases hgo
    obtain ⟨st, hst, -⟩ := Option.map_eq_some_iff.1 hs
    simp only [Sdmmc.next, hi] at hst
    split at hst
    · rename_i r hpc
      exact .kept hno s' hs trivial (h.call hi hpc hs)
    · cases hst
  | go fate =>
    by_cases hstarve : s.Starves i
    · refine .lost (not_not.2 hstarve) fun t ht _ hbal => ?_
      cases hs.symm.trans ht
      obtain ⟨fate', hgo, hstarve⟩ := hstarve
      cases hi.symm.trans hgo
      obtain ⟨st, hst, rfl⟩ := Option.map_eq_some_iff.1 hs
      simp only [Sdmmc.next, hi] at hst
      obtain ⟨⟨c', p'⟩, hp, rfl⟩ := Option.map_eq_some_iff.1 hst
      obtain ⟨hl, r, rfl⟩ := Pc.starves_step hstarve hp
      exact (hbal i.tid r (update_self ..)).2 hl
    · exact .kept hstarve s' hs trivial (h.go hi hstarve hs)

theorem start_inv {s : State α} (hl : s.cache.lock = none) : (start s).Inv := by
  refine ⟨fun t h => ?_, fun t => ?_⟩
  · cases hl.symm.trans h
  · simp [start, hl]

end Counted

/-- **The lock**: over any run from a cache whose lock is free, a thread whose call has
returned has always given the lock back as often as it took it, and does not have it, just if
`alloc_cache_entrys` never came back to `get_block` without an entry. -/
theorem lock_balanced_iff {s₀ : State α} (hl : s₀.cache.lock = none) {is : List (Input α)}
    {s : Counted α} (hr : (Counted.machine α).run (.start s₀) is = some s) :
    (Counted.machine α).Upholds Counted.Balanced (fun _ _ _ => True) (.start s₀) is ↔
      (Counted.machine α).Meets (fun s i => ¬ s.Starves i) (.start s₀) is :=
  Machine.upholds_iff_meets (L := fun s i => ∃ s', (Counted.machine α).next s i = some s')
    (fun _ => Counted.Inv.balanced) (fun _ _ h ⟨_, hs⟩ => Counted.exact_step hs h)
    (Counted.start_inv hl) (Machine.meets_of_run hr)

/-- The memory of the heap is not there: `get_block` returns `NULL` with the lock held. -/
theorem getBlock_keeps_lock :
    ¬ (Counted.machine Nat).Upholds Counted.Balanced (fun _ _ _ => True)
        (.start (init 64 (fun _ => 0) fun _ => ⟨⟨0, -1⟩, false, false, 0, 0⟩))
        [⟨1, .call (.getBlock ⟨1, 0⟩)⟩, ⟨1, .go ⟨.ok, false⟩⟩] := by
  rintro ⟨-, s₁, h₁, -, -, s₂, h₂, -, hbal⟩
  cases h₁
  cases h₂
  exact (hbal 1 (.block none) rfl).2 rfl

/-- A flush of an empty cache. -/
theorem lock_balanced_flush :
    (Counted.machine Nat).Upholds Counted.Balanced (fun _ _ _ => True)
        (.start (init 64 (fun _ => 0) fun _ => ⟨⟨0, -1⟩, false, false, 0, 0⟩))
        [⟨1, .call (.flush false)⟩, ⟨1, .go ⟨.ok, true⟩⟩, ⟨1, .go ⟨.ok, true⟩⟩] := by
  refine (lock_balanced_iff rfl rfl).2 ⟨?_, fun s₁ h₁ => ⟨?_, fun s₂ h₂ => ⟨?_, fun _ _ => trivial⟩⟩⟩
  · rintro ⟨fate, hgo, -⟩
    cases hgo
  · rintro ⟨fate, -, hst⟩
    cases h₁
    exact hst
  · rintro ⟨fate, -, hst⟩
    cases h₁
    cases h₂
    exact hst

end Melis.Sdmmc
