import Melis.Libcore.PoolCalls

/-!
# The pool law

The regions returned by a pool and not freed are apart, at multiples of 8 and in blocks of the
heap, they keep their bytes, the mutex is used as it should be, and at any time
`AwPoolDestroy` would return every block: for all calls that meet `Plain`.
-/

namespace Melis.Libcore

open Lib Function

/-! ## Destruction -/

section

variable {s : AwPool} {d : Nat}

theorem destroyLarge_spec (h : PoolInv s []) (hc : Current s) :
    ∃ s', AwPool.destroyLarge s.largeList s = some s' ∧ PoolInv s' [] ∧ s'.largeList = [] := by
  generalize hl : s.largeList = l
  induction l generalizing s with
  | nil => exact ⟨s, rfl, h, hl⟩
  | cons x l ih =>
    obtain ⟨s₁, hs₁, hsound, -, -, hlarge⟩ :=
      removeLarge_spec h hc (show x ∈ s.largeList from hl ▸ List.mem_cons_self)
    rw [hl, List.erase_cons_head] at hlarge
    obtain ⟨s', hs', h', hnil⟩ := ih hsound.inv hsound.current hlarge
    exact ⟨s', Option.bind_eq_some_iff.2 ⟨s₁, hs₁, hs'⟩, h', hnil⟩

/-- The references of the regions are dropped, and the one of the pool is left. -/
theorem decRefs_eq {l : List Nat} (hd : d ∈ s.pdList) (href : (s.pd d).ref = l.length + 1) :
    AwPool.decRefs d l s = some (s.withData d { s.pd d with ref := 1 } s.pm) := by
  induction l generalizing s with
  | nil =>
    have hself : ({ s.pd d with ref := 1 } : PoolDataS) = s.pd d := by
      rw [show (1 : Int) = (s.pd d).ref by simp [href]]
    rw [hself]
    unfold AwPool.decRefs AwPool.withData
    rw [update_eq_self]
  | cons x l ih =>
    rw [List.length_cons] at href
    have hdec : s.PoolDataDecRef (some d) =
        some (s.withData d { s.pd d with ref := (s.pd d).ref - 1 } s.pm) := by
      have hne : (s.pd d).ref - 1 ≠ 0 := by omega
      simp only [AwPool.PoolDataDecRef, if_pos hd, AwPool.setPd, update_self, if_neg hne,
        AwPool.withData]
    have hih := @ih (s.withData d { s.pd d with ref := (s.pd d).ref - 1 } s.pm) hd (by
      rw [withData_pd, update_self]
      dsimp only
      omega)
    refine Option.bind_eq_some_iff.2 ⟨_, hdec, hih.trans ?_⟩
    simp [AwPool.withData]

theorem destroyData_spec (h : PoolInv s []) (hlarge : s.largeList = []) :
    ∃ s', AwPool.destroyData s.pdList s = some s' ∧ PoolInv s' [] ∧ s'.pdList = [] ∧
      s'.largeList = [] := by
  generalize hl : s.pdList = l
  induction l generalizing s with
  | nil => exact ⟨s, rfl, h, hl, hlarge⟩
  | cons d l ih =>
    have hd : d ∈ s.pdList := hl ▸ List.mem_cons_self
    have href := (h.data d hd).ref_eq
    have hinc : (if (s.pd d).failed > 5 then s.PoolDataIncRef d else s) =
        s.withData d { s.pd d with ref := (s.pd d).pmList.length + 1 } s.pm := by
      split at href
      · rename_i hfailed
        rw [if_pos hfailed, show ((s.pd d).pmList.length : Int) = (s.pd d).ref by omega]
        rfl
      · rename_i hfailed
        rw [if_neg hfailed, ← href]
        unfold AwPool.withData
        rw [update_eq_self]
    have hleak : (s.withData d { s.pd d with ref := (s.pd d).pmList.length + 1 } s.pm).dropLeaked d =
        some (s.withData d { s.pd d with ref := 1 } s.pm) := by
      unfold AwPool.dropLeaked
      simp only [withData_pd, update_self]
      split
      · rw [decRefs_eq (show d ∈ (s.withData d _ s.pm).pdList from hd)]
        · simp [AwPool.withData]
        · rw [withData_pd, update_self]
      · rename_i hone
        rw [not_not.1 hone]
    have hlast : (s.withData d { s.pd d with ref := 1 } s.pm).PoolDataDecRef (some d) =
        some { s with
          pd := update s.pd d { s.pd d with ref := 0 }
          pdList := s.pdList.erase d
          heap := s.heap.filter (·.1 ≠ d) } := by
      simp only [AwPool.PoolDataDecRef, AwPool.setPd, AwPool.withData, update_self, update_idem,
        if_pos hd, Int.sub_self, if_true]
      exact free_eq (h.block hd)
    have h₁ := h.removeData (v := { s.pd d with ref := 0 }) hd
    obtain ⟨s', hs', h', hnil⟩ := @ih { s with
      pd := update s.pd d { s.pd d with ref := 0 }
      pdList := s.pdList.erase d
      heap := s.heap.filter (·.1 ≠ d) } h₁ hlarge (by
        dsimp only
        rw [hl, List.erase_cons_head])
    refine ⟨s', ?_, h', hnil⟩
    unfold AwPool.destroyData
    rw [hinc]
    refine Option.bind_eq_some_iff.2 ⟨_, hleak, ?_⟩
    exact Option.bind_eq_some_iff.2 ⟨_, hlast, hs'⟩

/-- The pool goes, and no block of it stays. -/
theorem awPoolDestroy_spec (h : PoolInv s []) (hc : Current s) :
    s.AwPoolDestroy.map AwPool.heap = some ∅ := by
  obtain ⟨s₁, hs₁, h₁, hlarge₁⟩ := destroyLarge_spec h hc
  obtain ⟨s₂, hs₂, h₂, hdata, hlarge⟩ := destroyData_spec h₁ hlarge₁
  have hbase : (s₂.base, 1024) ∈ s₂.heap := (h₂.mem_heap _ _).2 (.inl ⟨rfl, rfl⟩)
  have hdestroy : s.AwPoolDestroy = s₂.free s₂.base :=
    (congrArg (Option.bind · _) hs₁).trans (congrArg (Option.bind · _) hs₂)
  rw [hdestroy, free_eq hbase]
  refine congrArg some (Finset.filter_eq_empty_iff.2 ?_)
  rintro ⟨a, n⟩ hmem
  rw [h₂.mem_heap, hdata, hlarge] at hmem
  rcases hmem with ⟨rfl, -⟩ | ⟨ha, -⟩ | ⟨ha, -⟩
  · exact fun hne => hne rfl
  · cases ha
  · cases ha

end

/-! ## Runs -/

/-- The calls that stay clear of the defects: the size rounded up is an `int`; a region
without an owner is freed as a large one; a small region that must move is not reallocated. -/
def PoolRun.Plain (r : PoolRun) : PoolCall → Prop
  | .palloc size _ => size + 31 < 2 ^ 31
  | .realloc p size m =>
    (r.pool.pm (p - sizeofPm)).size > POOL_LARGE_SIZE ∨
      size > POOL_LARGE_SIZE ∧ ¬ Fresh r.pool.heap m (size + sizeofPm) ∨
      size ≤ POOL_LARGE_SIZE ∧ (r.pool.pm (p - sizeofPm)).owner ≠ none ∧
        r.pool.freeSize (p - sizeofPm) ≥ size
  | .pfree p => (r.pool.pm (p - sizeofPm)).owner = none →
      (r.pool.pm (p - sizeofPm)).size > POOL_LARGE_SIZE
  | .write .. => True

/-- The regions in use are apart, aligned and in blocks of the heap; the mutex is well used;
and the destruction of the pool returns each block. -/
structure PoolOk (r : PoolRun) : Prop where
  aligned : ∀ p n, r.regions p = some n → p % 8 = 0
  inside : ∀ p n, r.regions p = some n → ∃ b ∈ r.pool.heap, b.1 ≤ p ∧ p + n ≤ b.1 + b.2
  apart : ∀ p q m n, r.regions p = some m → r.regions q = some n → p ≠ q → Apart p m q n
  mutex : r.pool.misused = false
  destroyed : r.pool.AwPoolDestroy.map AwPool.heap = some ∅

def bytes (r : PoolRun) (p n : Nat) : List UInt8 := Memory.load r.pool.mem (List.range' p n)

/-- Regions that stay in use keep their bytes, and a reallocated one has the old bytes. -/
def BytesKept (r : PoolRun) (c : PoolCall) (r' : PoolRun) : Prop :=
  match c with
  | .write .. => True
  | .realloc p size m =>
    (∀ a n, r.regions a = some n → r'.regions a ≠ none → bytes r' a n = bytes r a n) ∧
      ∀ n q, r.regions p = some n →
        (r.pool.AwRealloc p size m).map Prod.fst = some (some q) → bytes r' q n = bytes r p n
  | _ => ∀ a n, r.regions a = some n → r'.regions a ≠ none → bytes r' a n = bytes r a n

structure PoolRunInv (r : PoolRun) : Prop where
  inv : PoolInv r.pool []
  current : Current r.pool
  held : r.pool.held = false
  misused : r.pool.misused = false
  regions : ∀ p n, r.regions p = some n ↔
    ∃ x, p = x + sizeofPm ∧ n = (r.pool.pm x).size ∧ Live r.pool x

section

variable {r r' : PoolRun} {s' : AwPool} {p q n m x y size : Nat}

namespace PoolRunInv

theorem header (h : PoolRunInv r) (hp : r.regions p = some n) :
    ∃ x, p = x + sizeofPm ∧ n = (r.pool.pm x).size ∧ Live r.pool x := (h.regions p n).1 hp

theorem ok (h : PoolRunInv r) : PoolOk r := by
  refine ⟨fun p n hp => ?_, fun p n hp => ?_, fun p q m n hp hq hne => ?_, h.misused,
    awPoolDestroy_spec h.inv h.current⟩
  · obtain ⟨x, rfl, -, hx⟩ := h.header hp
    have := (h.inv.inside hx).1
    unfold sizeofPm
    omega
  · obtain ⟨x, rfl, rfl, hx⟩ := h.header hp
    obtain ⟨-, b, hb, hlo, hhi⟩ := h.inv.inside hx
    exact ⟨b, hb, by omega, by omega⟩
  · obtain ⟨x, rfl, rfl, hx⟩ := h.header hp
    obtain ⟨y, rfl, rfl, hy⟩ := h.header hq
    have hxy : x ≠ y := fun heq => hne (heq ▸ rfl)
    exact (h.inv.apart hx hy hxy).mono (Nat.le_add_right _ _) (by omega) (Nat.le_add_right _ _)
      (by omega)

/-- The state after a call, from what the call did with the headers. -/
theorem of_sound {regions : Nat → Option Nat} (h : PoolRunInv r) (hs : Sound r.pool s')
    (hregions : ∀ p n, regions p = some n ↔
      ∃ x, p = x + sizeofPm ∧ n = (s'.pm x).size ∧ Live s' x) : PoolRunInv ⟨s', regions⟩ :=
  ⟨hs.inv, hs.current, hs.held.trans h.held, hs.misused.trans h.misused, hregions⟩

theorem same (h : PoolRunInv r) (hlive : ∀ y, Live s' y ↔ Live r.pool y) (hpm : s'.pm = r.pool.pm)
    (p n : Nat) : r.regions p = some n ↔
      ∃ x, p = x + sizeofPm ∧ n = (s'.pm x).size ∧ Live s' x := by
  rw [h.regions, hpm]
  simp only [hlive]

theorem added (h : PoolRunInv r) (hadded : Added r.pool s' x size) (p n : Nat) :
    update r.regions (x + sizeofPm) (some size) p = some n ↔
      ∃ y, p = y + sizeofPm ∧ n = (s'.pm y).size ∧ Live s' y := by
  by_cases hp : p = x + sizeofPm
  · subst hp
    rw [update_self, Option.some.injEq]
    constructor
    · rintro rfl
      exact ⟨x, rfl, hadded.size.symm, (hadded.live x).2 (.inr rfl)⟩
    · rintro ⟨y, hy, rfl, -⟩
      obtain rfl := Nat.add_right_cancel hy
      exact hadded.size.symm
  · rw [update_of_ne hp, h.regions]
    refine exists_congr fun y => and_congr_right fun hy => ?_
    have hne : y ≠ x := fun heq => hp (hy.trans (heq ▸ rfl))
    rw [hadded.pm y hne, hadded.live, or_iff_left hne]

theorem removed (h : PoolRunInv r) (hrem : Removed r.pool s' x) (p n : Nat) :
    update r.regions (x + sizeofPm) none p = some n ↔
      ∃ y, p = y + sizeofPm ∧ n = (s'.pm y).size ∧ Live s' y := by
  by_cases hp : p = x + sizeofPm
  · subst hp
    rw [update_self]
    refine iff_of_false (fun heq => nomatch heq) ?_
    rintro ⟨y, hy, -, hlive⟩
    exact ((hrem.live y).1 hlive).2 (Nat.add_right_cancel hy).symm
  · rw [update_of_ne hp, h.regions, hrem.pm]
    refine exists_congr fun y => and_congr_right fun hy => ?_
    have hne : y ≠ x := fun heq => hp (hy.trans (heq ▸ rfl))
    rw [hrem.live, and_iff_left hne]

theorem grown (h : PoolRunInv r) (hgrown : Grown r.pool s' x size) (hx : Live r.pool x)
    (p n : Nat) :
    update (update r.regions (x + sizeofPm) none) (x + sizeofPm) (some size) p = some n ↔
      ∃ y, p = y + sizeofPm ∧ n = (s'.pm y).size ∧ Live s' y := by
  rw [update_idem]
  by_cases hp : p = x + sizeofPm
  · subst hp
    rw [update_self, Option.some.injEq]
    constructor
    · rintro rfl
      exact ⟨x, rfl, hgrown.size.symm, (hgrown.live x).2 hx⟩
    · rintro ⟨y, hy, rfl, -⟩
      obtain rfl := Nat.add_right_cancel hy
      exact hgrown.size.symm
  · rw [update_of_ne hp, h.regions]
    refine exists_congr fun y => and_congr_right fun hy => ?_
    have hne : y ≠ x := fun heq => hp (hy.trans (heq ▸ rfl))
    rw [hgrown.pm y hne, hgrown.live]

theorem moved (h : PoolRunInv r) (hmoved : RegionMoved r.pool s' x y size) (p n : Nat) :
    update (update r.regions (x + sizeofPm) none) (y + sizeofPm) (some size) p = some n ↔
      ∃ z, p = z + sizeofPm ∧ n = (s'.pm z).size ∧ Live s' z := by
  by_cases hp : p = y + sizeofPm
  · subst hp
    rw [update_self, Option.some.injEq]
    constructor
    · rintro rfl
      exact ⟨y, rfl, hmoved.size.symm, (hmoved.live y).2 (.inr rfl)⟩
    · rintro ⟨z, hz, rfl, -⟩
      obtain rfl := Nat.add_right_cancel hz
      exact hmoved.size.symm
  · rw [update_of_ne hp]
    by_cases hpx : p = x + sizeofPm
    · subst hpx
      rw [update_self]
      refine iff_of_false (fun heq => nomatch heq) ?_
      rintro ⟨z, hz, -, hlive⟩
      obtain rfl := Nat.add_right_cancel hz
      rcases (hmoved.live x).1 hlive with ⟨-, hne⟩ | heq
      · exact hne rfl
      · exact hp (heq ▸ rfl)
    · rw [update_of_ne hpx, h.regions]
      refine exists_congr fun z => and_congr_right fun hz => ?_
      have hzx : z ≠ x := fun heq => hpx (hz.trans (heq ▸ rfl))
      have hzy : z ≠ y := fun heq => hp (hz.trans (heq ▸ rfl))
      rw [hmoved.pm z hzy, hmoved.live, or_iff_left hzy, and_iff_left hzx]

end PoolRunInv

/-! ## Bytes -/

theorem load_memcpy_apart {mem : Nat → UInt8} {xs : List UInt8} (h : Apart p xs.length q n) :
    Memory.load (Memory.memcpy mem p xs) (List.range' q n) = Memory.load mem (List.range' q n) := by
  refine Memory.load_store_of_disjoint fun a ha ha' => ?_
  rw [List.mem_range'_1] at ha ha'
  unfold Apart at h
  omega

theorem load_memcpy {mem : Nat → UInt8} {xs : List UInt8} (hn : xs.length = n) :
    Memory.load (Memory.memcpy mem p xs) (List.range' p n) = xs := by
  subst hn
  exact Memory.load_store (List.nodup_range' ..) (List.length_range' ..)

theorem bytes_congr (hmem : r'.pool.mem = r.pool.mem) : bytes r' p n = bytes r p n := by
  unfold bytes
  rw [hmem]

/-- A region that moves takes its bytes along, and the others keep theirs. -/
theorem bytes_moved (h : PoolRunInv r) (h' : PoolRunInv r')
    (hmoved : RegionMoved r.pool r'.pool x y size) (hsize : (r.pool.pm x).size ≤ size) :
    (∀ a n, r.regions a = some n → r'.regions a ≠ none → bytes r' a n = bytes r a n) ∧
      bytes r' (y + sizeofPm) (r.pool.pm x).size = bytes r (x + sizeofPm) (r.pool.pm x).size := by
  have hlen : (Memory.load r.pool.mem
      (List.range' (x + sizeofPm) (r.pool.pm x).size)).length = (r.pool.pm x).size := by
    unfold Memory.load
    rw [List.length_map, List.length_range']
  unfold bytes
  rw [hmoved.mem]
  constructor
  · intro a n ha ha'
    obtain ⟨z, rfl, rfl, hz⟩ := h.header ha
    have hzy : z ≠ y := fun heq => hmoved.fresh (heq ▸ hz)
    obtain ⟨k, hk⟩ := Option.ne_none_iff_exists'.1 ha'
    obtain ⟨z', heq, -, hz'⟩ := h'.header hk
    obtain rfl := Nat.add_right_cancel heq
    have hy : Live r'.pool y := (hmoved.live y).2 (.inr rfl)
    have hapart := h'.inv.apart hy hz' hzy.symm
    rw [hmoved.size, hmoved.pm z hzy] at hapart
    refine load_memcpy_apart (hapart.mono (Nat.le_add_right _ _) ?_ (Nat.le_add_right _ _) ?_)
    · rw [hlen]
      omega
    · omega
  · exact load_memcpy hlen

/-! ## The law -/

theorem pool_step (h : PoolRunInv r) {c : PoolCall} (hlegal : r.Legal c) (hplain : r.Plain c) :
    ∃ r', awPool.next r c = some r' ∧ BytesKept r c r' ∧ PoolRunInv r' := by
  cases c with
  | palloc size m =>
    obtain ⟨q, s', hs', hsound, hret⟩ := awPalloc_spec (m := m) h.inv h.current h.held hplain
    cases q with
    | none =>
      obtain ⟨hlive, hpm, hmem⟩ := hret
      refine ⟨{ r with pool := s' }, ?_, fun _ _ _ _ => bytes_congr hmem,
        h.of_sound hsound (h.same hlive hpm)⟩
      simp only [awPool, PoolRun.next, hs', Option.bind_eq_bind, Option.bind_some, Option.pure_def]
    | some q =>
      obtain ⟨x, rfl, hadded⟩ := hret
      refine ⟨⟨s', _⟩, ?_, fun _ _ _ _ => bytes_congr hadded.mem,
        h.of_sound hsound (h.added hadded)⟩
      simp only [awPool, PoolRun.next, hs', Option.bind_eq_bind, Option.bind_some, Option.pure_def]
  | realloc p size m =>
    cases hp : r.regions p with
    | none =>
      simp only [PoolRun.Legal, hp] at hlegal
    | some n =>
      simp only [PoolRun.Legal, hp] at hlegal
      obtain ⟨x, rfl, rfl, hx⟩ := h.header hp
      dsimp only [PoolRun.Plain] at hplain
      rw [Nat.add_sub_cancel] at hplain
      obtain ⟨q, s', hs', hsound, hret⟩ := awRealloc_spec h.inv h.current h.held hx hplain
      cases q with
      | none =>
        obtain ⟨hlive, hpm, hmem⟩ := hret
        refine ⟨{ r with pool := s' }, Option.bind_eq_some_iff.2 ⟨_, hs', rfl⟩,
          ⟨fun _ _ _ _ => bytes_congr hmem, fun n q _ hq => ?_⟩,
          h.of_sound hsound (h.same hlive hpm)⟩
        rw [hs'] at hq
        cases hq
      | some q =>
        have hq' : ∀ {n q'}, r.regions (x + sizeofPm) = some n →
            (r.pool.AwRealloc (x + sizeofPm) size m).map Prod.fst = some (some q') →
            n = (r.pool.pm x).size ∧ q' = q := by
          intro n q' hn hq'
          rw [hp] at hn
          rw [hs'] at hq'
          cases hn
          cases hq'
          exact ⟨rfl, rfl⟩
        rcases hret with ⟨rfl, hgrown⟩ | ⟨y, rfl, hmoved⟩
        · refine ⟨⟨s', _⟩, Option.bind_eq_some_iff.2 ⟨_, hs', rfl⟩,
            ⟨fun _ _ _ _ => bytes_congr hgrown.mem, fun n q hn hq => ?_⟩,
            h.of_sound hsound (h.grown hgrown hx)⟩
          obtain ⟨-, rfl⟩ := hq' hn hq
          exact bytes_congr hgrown.mem
        · have h' := h.of_sound hsound (h.moved hmoved)
          obtain ⟨hkept, hmove⟩ := bytes_moved h h' hmoved (Nat.le_of_lt hlegal.1)
          refine ⟨⟨s', _⟩, Option.bind_eq_some_iff.2 ⟨_, hs', rfl⟩, ⟨hkept, fun n q hn hq => ?_⟩, h'⟩
          obtain ⟨rfl, rfl⟩ := hq' hn hq
          exact hmove
  | pfree p =>
    obtain ⟨n, hp⟩ := Option.ne_none_iff_exists'.1 hlegal
    obtain ⟨x, rfl, rfl, hx⟩ := h.header hp
    dsimp only [PoolRun.Plain] at hplain
    rw [Nat.add_sub_cancel] at hplain
    obtain ⟨s', hs', hsound, hrem⟩ := awPfree_spec h.inv h.current h.held hx hplain
    refine ⟨⟨s', _⟩, ?_, fun _ _ _ _ => bytes_congr hrem.mem, h.of_sound hsound (h.removed hrem)⟩
    exact Option.bind_eq_some_iff.2 ⟨_, hs', rfl⟩
  | write p i x =>
    refine ⟨_, rfl, trivial, ?_⟩
    exact ⟨h.inv.setMem _, h.current, h.held, h.misused, h.regions⟩

/-- A new pool, with the heap it got. -/
def createdPool (mem : Nat → UInt8) (m₁ m₂ : Nat) : AwPool :=
  { heap := {(m₂, POOL_BLOCK_SIZE), (m₁, 1024)}, base := m₁, current := m₂, largeList := [],
    pdList := [m₂], mem, pd _ := ⟨m₂ + sizeofPd, m₂ + POOL_BLOCK_SIZE, [], 1, 0⟩,
    pm _ := ⟨none, 0⟩, held := false, misused := false }

theorem poolNodeCreate_eq {mem : Nat → UInt8} {m₁ m₂ : Nat} :
    PoolNodeCreate mem m₁ m₂ =
      if Fresh ∅ m₁ 1024 ∧ Fresh {(m₁, 1024)} m₂ POOL_BLOCK_SIZE then
        some (createdPool mem m₁ m₂) else none := by
  by_cases h₁ : Fresh ∅ m₁ 1024 <;> by_cases h₂ : Fresh {(m₁, 1024)} m₂ POOL_BLOCK_SIZE <;>
    simp [PoolNodeCreate, AwPool.malloc, createdPool, h₁, h₂]

theorem createdPool_inv {mem : Nat → UInt8} {m₁ m₂ : Nat} (h₁ : Fresh ∅ m₁ 1024)
    (h₂ : Fresh {(m₁, 1024)} m₂ POOL_BLOCK_SIZE) :
    PoolRunInv ⟨createdPool mem m₁ m₂, fun _ => none⟩ := by
  have hne : m₁ ≠ m₂ := by
    have := h₂.2.2.2 (m₁, 1024) (Finset.mem_singleton_self _)
    unfold POOL_BLOCK_SIZE at this
    dsimp only at this
    omega
  have hheap := (HeapOk.empty.insert h₁).insert h₂
  refine ⟨⟨hheap, fun a n => ?_, ?_, fun d hd => ?_, fun d hd => ?_, fun x hx => nomatch hx⟩,
    ⟨[], [], rfl, fun d hd => ?_⟩, rfl, rfl, fun p n => ?_⟩
  · simp [createdPool, or_comm]
  · simp [createdPool, hne]
  · obtain rfl := List.mem_singleton.1 hd
    exact newData_ok h₂.2.1
  · exact Int.one_pos
  · exact Int.natCast_nonneg 5
  · refine iff_of_false (fun heq => nomatch heq) ?_
    rintro ⟨x, -, -, hx | ⟨d, -, hx⟩⟩
    · cases hx
    · cases hx

/-- The law of a pool, for every sequence of calls that meet `Plain`, whatever `malloc` answers. -/
theorem pool_law (mem : Nat → UInt8) (m₁ m₂ : Nat) {s : AwPool} (cs : List PoolCall)
    (hs : PoolNodeCreate mem m₁ m₂ = some s)
    (hC : awPool.Meets (fun r c => r.Legal c ∧ r.Plain c) ⟨s, fun _ => none⟩ cs) :
    awPool.Upholds PoolOk BytesKept ⟨s, fun _ => none⟩ cs := by
  rw [poolNodeCreate_eq] at hs
  obtain ⟨⟨h₁, h₂⟩, heq⟩ := Option.ite_none_right_eq_some.1 hs
  cases heq
  exact Machine.upholds_of_inv (fun _ h => h.ok) (fun _ _ h hc => pool_step h hc.1 hc.2)
    (createdPool_inv h₁ h₂) hC

instance {r : PoolRun} {c : PoolCall} : Decidable (r.Legal c) :=
  match c with
  | .palloc .. => inferInstanceAs (Decidable (_ ∧ _))
  | .realloc p size _ =>
    match h : r.regions p with
    | none => .isFalse (by simp [PoolRun.Legal, h])
    | some n => decidable_of_iff (n < size ∧ size < 2 ^ 31) (by simp [PoolRun.Legal, h])
  | .pfree _ => inferInstanceAs (Decidable (_ ≠ _))
  | .write p i _ =>
    match h : r.regions p with
    | none => .isFalse (by simp [PoolRun.Legal, h])
    | some n => decidable_of_iff (i < n) (by simp [PoolRun.Legal, h])

instance {r : PoolRun} {c : PoolCall} : Decidable (r.Plain c) :=
  match c with
  | .palloc .. => inferInstanceAs (Decidable (_ < _))
  | .realloc .. => inferInstanceAs (Decidable (_ ∨ _ ∨ _))
  | .pfree _ => inferInstanceAs (Decidable (_ → _))
  | .write .. => .isTrue trivial

/-- Small and large regions, a reallocation in place and one that moves, and frees. -/
def poolCalls : List PoolCall :=
  [.palloc 100 0, .palloc 4000 0, .palloc 5000 0x20000, .write 0x10038 99 7, .pfree 0x100B8,
    .realloc 0x10038 3000 0, .palloc 4064 0x30000, .palloc 4064 0, .realloc 0x20018 6000 0x40000,
    .pfree 0x10038]

def emptyRun : PoolRun := ⟨createdPool (fun _ => 0) 0x1000 0x10000, fun _ => none⟩

theorem pool_law_calls :
    awPool.Meets (fun r c => r.Legal c ∧ r.Plain c) emptyRun poolCalls ∧
      awPool.Upholds PoolOk BytesKept emptyRun poolCalls := by
  have hcreate : PoolNodeCreate (fun _ => 0) 0x1000 0x10000 =
      some (createdPool (fun _ => 0) 0x1000 0x10000) := by
    rw [poolNodeCreate_eq]
    exact if_pos (by decide +kernel)
  have hmeets : awPool.Meets (fun r c => r.Legal c ∧ r.Plain c) emptyRun poolCalls := by
    decide +kernel
  exact ⟨hmeets, pool_law _ _ _ _ hcreate hmeets⟩

/-- A region of 4080 bytes cannot be freed; a small one that has to move is moved by calls that
lock the mutex again; the largest size is taken from a block of 8192 bytes. -/
theorem pool_broken :
    (awPool.Meets PoolRun.Legal emptyRun [.palloc 4080 0x20000, .pfree 0x20018] ∧
      ¬ awPool.Upholds PoolOk BytesKept emptyRun [.palloc 4080 0x20000, .pfree 0x20018]) ∧
    (awPool.Meets PoolRun.Legal emptyRun [.palloc 100 0, .palloc 100 0, .realloc 0x10038 200 0] ∧
      ¬ awPool.Upholds PoolOk BytesKept emptyRun
        [.palloc 100 0, .palloc 100 0, .realloc 0x10038 200 0]) ∧
    (awPool.Meets PoolRun.Legal emptyRun [.palloc (2 ^ 31 - 1) 0] ∧
      ¬ awPool.Upholds PoolOk BytesKept emptyRun [.palloc (2 ^ 31 - 1) 0]) := by
  refine ⟨⟨by decide +kernel, fun h => ?_⟩, ⟨by decide +kernel, fun h => ?_⟩,
    by decide +kernel, fun h => ?_⟩
  · obtain ⟨r, hr, -⟩ := h.run
    have hnone : awPool.run emptyRun [.palloc 4080 0x20000, .pfree 0x20018] = none := rfl
    rw [hnone] at hr
    cases hr
  · obtain ⟨r, hr, hok⟩ := h.run
    have hmisused : (awPool.run emptyRun [.palloc 100 0, .palloc 100 0, .realloc 0x10038 200 0]).map
        (fun r => r.pool.misused) = some true := rfl
    rw [hr, Option.map_some, hok.mutex] at hmisused
    cases hmisused
  · obtain ⟨r, hr, hok⟩ := h.run
    have hregion : (awPool.run emptyRun [.palloc (2 ^ 31 - 1) 0]).map
        (fun r => r.regions 0x10038) = some (some (2 ^ 31 - 1)) := rfl
    have hheap : (awPool.run emptyRun [.palloc (2 ^ 31 - 1) 0]).map (fun r => r.pool.heap) =
        some {(0x10000, 8192), (0x1000, 1024)} := rfl
    rw [hr, Option.map_some, Option.some.injEq] at hregion hheap
    obtain ⟨b, hb, -, hhi⟩ := hok.inside _ _ hregion
    have hsmall : ∀ b ∈ ({(0x10000, 8192), (0x1000, 1024)} : Finset (Nat × Nat)),
        b.1 + b.2 < 2 ^ 31 := by decide
    rw [hheap] at hb
    have := hsmall b hb
    omega

end

end Melis.Libcore
