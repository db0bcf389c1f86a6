import Melis.Lib.Search
import Melis.Sboot.Package

/-!
# Loading from sectors

`load_toc1_from_mmc` tries two places of the card; `load_toc1_from_spinor` has one place and
does not check the sum. The content of the device is given by its bytes, and for each read
whether it succeeds; one that does not has stored some bytes before.
-/

namespace Melis.Sboot

open Lib

/-- `ret = 0` only with a good package in memory, and always if there is an intact copy. -/
def Boots (load : Option (Int × Ram)) (Good : Ram → Prop) (intact : Prop) : Prop :=
  ∃ ret m, load = some (ret, m) ∧ (ret = 0 → Good m) ∧ (intact → ret = 0)

/-- `0` for what a search has found, and `-1` where it comes to its end or gives up. -/
def searchRet : Try Ram → Int × Ram
  | .found m => (0, m)
  | .giveUp m => (-1, m)
  | .next m => (-1, m)

theorem boots_of_finds {attempt : Nat → Ram → Option (Try Ram)} {Good : Ram → Prop}
    {Acc : Nat → Prop} {is : List Nat} {m : Ram} (h : Search.Finds attempt Good Acc is m) :
    Boots ((search attempt is m).map searchRet) Good (∃ i ∈ is, Acc i) := by
  obtain ⟨t, ht, hgood, hacc⟩ := h
  rw [ht]
  cases t with
  | found m' => exact ⟨0, m', rfl, fun _ => hgood m' rfl, fun _ => rfl⟩
  | giveUp m' =>
    refine ⟨-1, m', rfl, fun h => absurd h (by decide), fun h => ?_⟩
    obtain ⟨_, h⟩ := hacc h
    cases h
  | next m' =>
    refine ⟨-1, m', rfl, fun h => absurd h (by decide), fun h => ?_⟩
    obtain ⟨_, h⟩ := hacc h
    cases h

inductive BlockRead
  | ok
  | failed (n : Nat) (bytes : Nat → UInt8)

/-- The number of bytes that reach the memory from a read of `n` bytes. -/
def BlockRead.stored (n : Nat) : BlockRead → Nat
  | .ok => n
  | .failed k _ => min k n

theorem BlockRead.stored_le {n : Nat} {r : BlockRead} : r.stored n ≤ n := by
  cases r with
  | ok => exact Nat.le_refl n
  | failed k bytes => exact min_le_right k n

/-- A read of `cnt` sectors from `sector` on to `dst`. -/
def transfer (D : Dram) (disk : Nat → UInt8) (r : BlockRead) (sector cnt dst : Nat) (m : Ram) :
    Option (Bool × Ram) :=
  match r with
  | .ok => (D.put m dst (512 * cnt) fun k => disk (512 * sector + k)).map fun m => (true, m)
  | .failed n bytes => (D.put m dst (min n (512 * cnt)) bytes).map fun m => (false, m)

/-! ## `load_toc1_from_mmc` -/

structure Mmc where
  /-- What `sunxi_mmc_init` returns. -/
  init : Int
  disk : Nat → UInt8
  /-- The first read of a candidate, and the one of what is left. -/
  head : Nat → BlockRead
  rest : Nat → BlockRead

def start_sectors : Nat → Nat
  | 0 => 32800
  | 1 => 24576
  | _ => 0

namespace Mmc

variable (D : Dram) (dev : Mmc)

/-- The bytes behind the first 64 sectors. -/
def readRest (i head_size : Nat) (m : Ram) : Option (Bool × Ram) :=
  if head_size > 64 * 512 then
    transfer D dev.disk (dev.rest i) (start_sectors i + 64) ((head_size - 64 * 512 + 511) / 512)
      (64 * 512) m
  else some (true, m)

def attempt (i : Nat) (m : Ram) : Option (Try Ram) :=
  let start_sector := start_sectors i
  if start_sector = 0 then some (.giveUp m)
  else do
    let (ok, m) ← transfer D dev.disk (dev.head i) start_sector 64 0 m
    if !ok then return .next m
    if magic m ≠ TOC_MAIN_INFO_MAGIC then return .next m
    let head_size := valid_len m
    let (ok, m) ← readRest D dev i head_size m
    if !ok then return .next m
    let sum ← verify_addsum D m head_size
    if sum ≠ 0 then return .next m
    return .found m

end Mmc

def load_toc1_from_mmc (D : Dram) (dev : Mmc) (m : Ram) : Option (Int × Ram) :=
  if dev.init ≤ 0 then some (-1, m)
  else (search (dev.attempt D) [0, 1, 2, 3] m).map fun
    | .giveUp m => (-1, m)
    | .found m => (0, m)
    | .next m => (0, m)

namespace Mmc

/-- The bytes of copy `i`. -/
def copy (dev : Mmc) (i : Nat) : Ram := fun k => dev.disk (512 * start_sectors i + k)

/-- An intact copy that can be read. -/
def Intact (dev : Mmc) (i : Nat) : Prop :=
  start_sectors i ≠ 0 ∧ dev.head i = .ok ∧
    (64 * 512 < valid_len (dev.copy i) → dev.rest i = .ok) ∧ Package (dev.copy i)

def Good (dev : Mmc) (m : Ram) : Prop :=
  Package m ∧ ∃ i, start_sectors i ≠ 0 ∧ AgreeTo (max 64 (valid_len m)) m (dev.copy i)

/-- The length in a header with the right magic can be a length, and what is read fits. -/
def Sane (D : Dram) (dev : Mmc) (i : Nat) : Prop :=
  start_sectors i ≠ 0 → dev.head i = .ok → magic (dev.copy i) = TOC_MAIN_INFO_MAGIC →
    16 ≤ valid_len (dev.copy i) ∧ (64 * 512 < valid_len (dev.copy i) →
      64 * 512 +
        (dev.rest i).stored (512 * ((valid_len (dev.copy i) - 64 * 512 + 511) / 512)) ≤ D.room)

variable {D : Dram} {dev : Mmc} {i : Nat} {m m' : Ram}

/-- What the memory holds after the first read. -/
theorem head_ok (h : dev.head i = .ok) :
    ∃ m₁, transfer D dev.disk (dev.head i) (start_sectors i) 64 0 m = some (true, m₁) ∧
      AgreeTo (64 * 512) m₁ (dev.copy i) := by
  have hfits := D.head_fits
  have hput := put_eq_some m (fun k => dev.disk (512 * start_sectors i + k))
    (show 0 + 512 * 64 ≤ D.room by omega)
  rw [h]
  refine ⟨_, by rw [transfer, hput]; rfl, fun k hk => ?_⟩
  exact if_pos ⟨Nat.zero_le k, by omega⟩

theorem head_failed (h : dev.head i ≠ .ok) :
    ∃ m₁, transfer D dev.disk (dev.head i) (start_sectors i) 64 0 m = some (false, m₁) := by
  have hfits := D.head_fits
  cases hr : dev.head i with
  | ok => exact absurd hr h
  | failed n bytes =>
    have hput := put_eq_some m bytes (show 0 + min n (512 * 64) ≤ D.room by omega)
    exact ⟨_, by rw [transfer, hput]; rfl⟩

/-- A candidate whose header has the right magic, with `m₁` in memory. -/
theorem attempt_of_head (hs : start_sectors i ≠ 0) (hh : dev.head i = .ok)
    (hmagic : magic (dev.copy i) = TOC_MAIN_INFO_MAGIC) :
    ∃ m₁, AgreeTo (64 * 512) m₁ (dev.copy i) ∧
      attempt D dev i m = (readRest D dev i (valid_len (dev.copy i)) m₁).bind fun r =>
        if r.1 then (verify_addsum D r.2 (valid_len (dev.copy i))).bind fun sum =>
          some (if sum = 0 then .found r.2 else .next r.2)
        else some (.next r.2) := by
  obtain ⟨m₁, htransfer, hagree⟩ := head_ok (D := D) (m := m) hh
  have hm₁ : magic m₁ = TOC_MAIN_INFO_MAGIC := (hagree.magic (by omega)).trans hmagic
  have hlen : valid_len m₁ = valid_len (dev.copy i) := hagree.valid_len (by omega)
  refine ⟨m₁, hagree, ?_⟩
  simp only [attempt, if_neg hs, htransfer, hm₁, hlen, Option.bind_eq_bind, Option.bind_some,
    Bool.not_true, Bool.false_eq_true, if_false, ne_eq, not_true_eq_false, Option.pure_def]
  congr 1
  funext r
  obtain ⟨ok, m₂⟩ := r
  cases ok
  · rfl
  · simp only [Bool.not_true, Bool.false_eq_true, if_false, if_true]
    congr 1
    funext sum
    by_cases h : sum = 0
    · simp [h]
    · simp [h]

theorem attempt_of_not_head (hs : start_sectors i ≠ 0)
    (h : dev.head i ≠ .ok ∨ magic (dev.copy i) ≠ TOC_MAIN_INFO_MAGIC) :
    ∃ m', attempt D dev i m = some (.next m') := by
  by_cases hh : dev.head i = .ok
  · obtain ⟨m₁, htransfer, hagree⟩ := head_ok (D := D) (m := m) hh
    have hm₁ : magic m₁ ≠ TOC_MAIN_INFO_MAGIC := by
      rw [hagree.magic (by omega)]
      exact h.resolve_left (not_not.2 hh)
    exact ⟨m₁, by simp [attempt, hs, htransfer, hm₁]⟩
  · obtain ⟨m₁, htransfer⟩ := head_failed (D := D) (m := m) hh
    exact ⟨m₁, by simp [attempt, hs, htransfer]⟩

/-- The rest of the package is read behind the first 64 sectors. -/
theorem readRest_ok {size : Nat} (hrest : 64 * 512 < size → dev.rest i = .ok)
    (hfits : 64 * 512 < size → 64 * 512 + 512 * ((size - 64 * 512 + 511) / 512) ≤ D.room)
    (hagree : AgreeTo (64 * 512) m (dev.copy i)) :
    ∃ m₂, readRest D dev i size m = some (true, m₂) ∧ AgreeTo (max 64 size) m₂ (dev.copy i) := by
  unfold readRest
  by_cases hsize : size > 64 * 512
  · rw [if_pos hsize, hrest hsize]
    have hput := put_eq_some m (fun k => dev.disk (512 * (start_sectors i + 64) + k))
      (hfits hsize)
    refine ⟨_, by rw [transfer, hput]; rfl, fun k hk => ?_⟩
    by_cases hlow : 64 * 512 ≤ k
    · have hin : k < 64 * 512 + 512 * ((size - 64 * 512 + 511) / 512) := by omega
      rw [if_pos ⟨hlow, hin⟩]
      exact congrArg dev.disk (by omega)
    · rw [if_neg fun h => hlow h.1]
      exact hagree k (by omega)
  · rw [if_neg hsize]
    exact ⟨m, rfl, hagree.mono (by omega)⟩

theorem readRest_failed {size : Nat} (hsize : 64 * 512 < size) (hrest : dev.rest i ≠ .ok)
    (hfits : 64 * 512 + (dev.rest i).stored (512 * ((size - 64 * 512 + 511) / 512)) ≤ D.room) :
    ∃ m₂, readRest D dev i size m = some (false, m₂) := by
  unfold readRest
  rw [if_pos hsize]
  cases hr : dev.rest i with
  | ok => exact absurd hr hrest
  | failed n bytes =>
    rw [hr] at hfits
    unfold BlockRead.stored at hfits
    exact ⟨_, by rw [transfer, put_eq_some m bytes hfits]; rfl⟩

theorem readRest_none {size : Nat} (hsize : 64 * 512 < size)
    (hfits : D.room < 64 * 512 + (dev.rest i).stored (512 * ((size - 64 * 512 + 511) / 512))) :
    readRest D dev i size m = none := by
  unfold readRest
  rw [if_pos hsize]
  cases hr : dev.rest i with
  | ok =>
    rw [hr, BlockRead.stored] at hfits
    rw [transfer, put_eq_none hfits]
    rfl
  | failed n bytes =>
    rw [hr, BlockRead.stored] at hfits
    rw [transfer, put_eq_none hfits]
    rfl

theorem attempt_start (hs : start_sectors i = 0) : attempt D dev i m = some (.giveUp m) :=
  if_pos hs

/-- The outcome for a package that was read to the end. -/
theorem attempt_of_rest (hs : start_sectors i ≠ 0) (hh : dev.head i = .ok)
    (hmagic : magic (dev.copy i) = TOC_MAIN_INFO_MAGIC)
    (hrest : 64 * 512 < valid_len (dev.copy i) → dev.rest i = .ok)
    (hlen : 16 ≤ valid_len (dev.copy i))
    (hfits : 64 * 512 < valid_len (dev.copy i) →
      64 * 512 + 512 * ((valid_len (dev.copy i) - 64 * 512 + 511) / 512) ≤ D.room) :
    ∃ m₂, AgreeTo (max 64 (valid_len (dev.copy i))) m₂ (dev.copy i) ∧
      attempt D dev i m = some (if Package (dev.copy i) then .found m₂ else .next m₂) := by
  obtain ⟨m₁, hagree, heq⟩ := attempt_of_head (D := D) (m := m) hs hh hmagic
  obtain ⟨m₂, hm₂, hagree₂⟩ := readRest_ok hrest hfits hagree
  have hroom : valid_len (dev.copy i) ≤ D.room := by
    have := D.head_fits
    by_cases h : 64 * 512 < valid_len (dev.copy i)
    · have := hfits h
      omega
    · omega
  have hsum : sumWords m₂ (valid_len (dev.copy i) / 4) = sumWords (dev.copy i)
      (valid_len (dev.copy i) / 4) := hagree₂.sumWords (by omega)
  have hadd : add_sum m₂ = add_sum (dev.copy i) := hagree₂.add_sum (by omega)
  have hpackage : Package (dev.copy i) ↔ sumWords (dev.copy i) (valid_len (dev.copy i) / 4) =
      add_sum (dev.copy i) := ⟨fun h => h.2.2, fun h => ⟨hmagic, hlen, h⟩⟩
  refine ⟨m₂, hagree₂, ?_⟩
  simp only [heq, hm₂, Option.bind_some, if_true, verify_of_le hlen hroom, hsum, hadd, hpackage]
  split <;> rfl

theorem attempt_does {is : List Nat} (his : start_sectors i = 0 → ∀ j ∈ is, start_sectors j = 0)
    (hsane : Sane D dev i) : Search.Does (attempt D dev) dev.Good dev.Intact i is m := by
  by_cases hs : start_sectors i = 0
  · refine .giveUp m (attempt_start hs) fun j hj hintact => hintact.1 ?_
    rcases List.mem_cons.1 hj with rfl | hj
    · exact hs
    · exact his hs j hj
  by_cases hh : dev.head i = .ok ∧ magic (dev.copy i) = TOC_MAIN_INFO_MAGIC
  · obtain ⟨hh, hmagic⟩ := hh
    obtain ⟨hlen, hfits⟩ := hsane hs hh hmagic
    by_cases hrest : 64 * 512 < valid_len (dev.copy i) → dev.rest i = .ok
    · obtain ⟨m₂, hagree, heq⟩ := attempt_of_rest (D := D) (m := m) hs hh hmagic hrest hlen
        fun h => by
          have := hfits h
          rwa [hrest h] at this
      by_cases hpackage : Package (dev.copy i)
      · rw [if_pos hpackage] at heq
        have hlen₂ : valid_len m₂ = valid_len (dev.copy i) := hagree.valid_len (by omega)
        refine .found m₂ heq ⟨hpackage.congr hagree.symm (by omega) (by omega), i, hs, ?_⟩
          ⟨hs, hh, hrest, hpackage⟩
        rwa [hlen₂]
      · rw [if_neg hpackage] at heq
        exact .next m₂ heq fun hintact => hpackage hintact.2.2.2
    · obtain ⟨hlong, hrest⟩ := Classical.not_imp.1 hrest
      obtain ⟨m₁, hagree, heq⟩ := attempt_of_head (D := D) (m := m) hs hh hmagic
      obtain ⟨m₂, hm₂⟩ := readRest_failed (m := m₁) hlong hrest (hfits hlong)
      refine .next m₂ ?_ fun hintact => hrest (hintact.2.2.1 hlong)
      rw [heq, hm₂]
      rfl
  · obtain ⟨m', heq⟩ := attempt_of_not_head (D := D) (m := m) hs (not_and_or.1 hh)
    exact .next m' heq fun hintact => hh ⟨hintact.2.1, hintact.2.2.2.1⟩

/-- A length that cannot be one makes the loader run out of the memory. -/
theorem attempt_fault (hsane : ¬ Sane D dev i) : attempt D dev i m = none := by
  simp only [Sane, Classical.not_imp, not_and_or, not_le] at hsane
  obtain ⟨hs, hh, hmagic, hbad⟩ := hsane
  obtain ⟨m₁, hagree, heq⟩ := attempt_of_head (D := D) (m := m) hs hh hmagic
  rw [heq]
  rcases hbad with hshort | ⟨hlong, hroom⟩
  · have hshort' : ¬ 64 * 512 < valid_len (dev.copy i) := by omega
    obtain ⟨m₂, hm₂, -⟩ := readRest_ok (D := D) (fun h => absurd h hshort')
      (fun h => absurd h hshort') hagree
    rw [hm₂]
    simp only [Option.bind_some, if_true, verify_of_lt hshort, Option.bind_none]
  · rw [readRest_none hlong hroom]
    rfl

/-- The condition for both copies, where the second is tried only if the first is not intact. -/
def Condition (D : Dram) (dev : Mmc) : Prop :=
  if dev.init ≤ 0 then ∀ i, ¬ dev.Intact i
  else Sane D dev 0 ∧ (¬ dev.Intact 0 → Sane D dev 1)

theorem intact_iff : (∃ i ∈ [0, 1, 2, 3], dev.Intact i) ↔ ∃ i, dev.Intact i := by
  refine ⟨fun ⟨i, _, h⟩ => ⟨i, h⟩, fun ⟨i, h⟩ => ⟨i, ?_, h⟩⟩
  have hs := h.1
  match i with
  | 0 => simp
  | 1 => simp
  | i + 2 => exact absurd rfl hs

/-- The places without a start sector stand last. -/
def LastUnset (is : List Nat) : Prop :=
  is.Pairwise fun i j => start_sectors i = 0 → start_sectors j = 0

theorem tried_iff : Search.Tried dev.Intact (fun i _ => Sane D dev i) [0, 1, 2, 3] ↔
    Sane D dev 0 ∧ (¬ dev.Intact 0 → Sane D dev 1) := by
  have h2 : Sane D dev 2 := fun hs => absurd rfl hs
  have h3 : Sane D dev 3 := fun hs => absurd rfl hs
  simp [Search.Tried, h2, h3]

theorem start_of_giveUp (h : attempt D dev i m = some (.giveUp m')) : start_sectors i = 0 := by
  by_contra hs
  by_cases hh : dev.head i = .ok ∧ magic (dev.copy i) = TOC_MAIN_INFO_MAGIC
  · obtain ⟨m₁, -, heq⟩ := attempt_of_head (D := D) (m := m) hs hh.1 hh.2
    rw [heq] at h
    obtain ⟨⟨ok, m₃⟩, -, h⟩ := Option.bind_eq_some_iff.1 h
    cases ok
    · cases h
    · obtain ⟨sum, -, h⟩ := Option.bind_eq_some_iff.1 h
      split at h <;> cases h
  · obtain ⟨m₁, heq⟩ := attempt_of_not_head (D := D) (m := m) hs (not_and_or.1 hh)
    rw [heq] at h
    cases h

theorem tried_of_unset {is : List Nat} (h : ∀ j ∈ is, start_sectors j = 0) :
    Search.Tried dev.Intact (fun i _ => Sane D dev i) is := by
  induction is with
  | nil => trivial
  | cons j is ih =>
    obtain ⟨hj, his⟩ := List.forall_mem_cons.1 h
    exact ⟨fun hs => absurd hj hs, fun _ => ih his⟩

/-- The loop does not come to its end. -/
theorem search_ne_next : search (attempt D dev) [0, 1, 2, 3] m ≠ some (.next m') := by
  have h2 : ∀ m, search (attempt D dev) [2, 3] m = some (.giveUp m) := fun _ => rfl
  intro h
  rw [search] at h
  obtain ⟨t, -, h⟩ := Option.bind_eq_some_iff.1 h
  cases t with
  | found m₁ => cases h
  | giveUp m₁ => cases h
  | next m₁ =>
    dsimp only at h
    rw [search] at h
    obtain ⟨t, -, h⟩ := Option.bind_eq_some_iff.1 h
    cases t with
    | found m₂ => cases h
    | giveUp m₂ => cases h
    | next m₂ => cases (h2 m₂).symm.trans h

theorem boots_iff :
    Boots (load_toc1_from_mmc D dev m) dev.Good (∃ i, dev.Intact i) ↔ Condition D dev := by
  unfold load_toc1_from_mmc Condition
  by_cases hinit : dev.init ≤ 0
  · rw [if_pos hinit, if_pos hinit]
    constructor
    · rintro ⟨ret, m', heq, -, hret⟩ i hi
      cases heq
      exact absurd (hret ⟨i, hi⟩) (by decide)
    · exact fun h => ⟨-1, m, rfl, fun h => absurd h (by decide), fun ⟨i, hi⟩ => absurd hi (h i)⟩
  have hunset : LastUnset [0, 1, 2, 3] := by
    unfold LastUnset
    decide
  have hrule : Search.Finds (attempt D dev) dev.Good dev.Intact [0, 1, 2, 3] m ↔
      Search.Tried dev.Intact (fun i _ => Sane D dev i) [0, 1, 2, 3] :=
    Search.finds_iff (L := LastUnset) (fun i is h => (List.pairwise_cons.1 h).2)
      (fun i is m hL hC => attempt_does (fun hs j hj => (List.pairwise_cons.1 hL).1 j hj hs) hC)
      (fun i is m m' hL h => tried_of_unset fun j hj =>
        (List.pairwise_cons.1 hL).1 j hj (start_of_giveUp h))
      (fun i is m hC => attempt_fault hC) hunset
  rw [if_neg hinit, if_neg hinit, ← tried_iff, ← hrule]
  unfold Boots Search.Finds
  rw [intact_iff]
  constructor
  · rintro ⟨ret, m', heq, hgood, hintact⟩
    obtain ⟨t, ht, hmap⟩ := Option.map_eq_some_iff.1 heq
    cases t with
    | found m₂ =>
      cases hmap
      refine ⟨_, ht, ?_, fun _ => ⟨_, rfl⟩⟩
      rintro _ ⟨⟩
      exact hgood rfl
    | giveUp m₂ =>
      cases hmap
      exact ⟨_, ht, fun _ h => (nomatch h), fun h => absurd (hintact h) (by decide)⟩
    | next m₂ => exact absurd ht search_ne_next
  · rintro ⟨t, ht, hgood, hintact⟩
    rw [ht]
    cases t with
    | found m₂ => exact ⟨0, m₂, rfl, fun _ => hgood m₂ rfl, fun _ => rfl⟩
    | giveUp m₂ =>
      refine ⟨-1, m₂, rfl, fun h => absurd h (by decide), fun h => ?_⟩
      obtain ⟨_, h⟩ := hintact h
      cases h
    | next m₂ => exact absurd ht search_ne_next

end Mmc

/-! ## `load_toc1_from_spinor` -/

def CFG_SPINOR_UBOOT_OFFSET : Nat := 128

structure Spinor where
  /-- What `spinor_init` returns. -/
  init : Int
  disk : Nat → UInt8
  head : BlockRead
  data : BlockRead

namespace Spinor

/-- `spinor_read`, which returns `0` for no sectors. -/
def spinor_read (D : Dram) (dev : Spinor) (r : BlockRead) (sector_cnt : Nat) (m : Ram) :
    Option (Bool × Ram) :=
  if sector_cnt = 0 then some (true, m)
  else transfer D dev.disk r CFG_SPINOR_UBOOT_OFFSET sector_cnt 0 m

end Spinor

def load_toc1_from_spinor (D : Dram) (dev : Spinor) (m : Ram) : Option (Int × Ram) :=
  if dev.init ≠ 0 then some (-1, m)
  else do
    let (ok, m) ← dev.spinor_read D dev.head 1 m
    if !ok then return (-1, m)
    if magic m ≠ TOC_MAIN_INFO_MAGIC then return (-1, m)
    let total_size := valid_len m
    let (ok, m) ← dev.spinor_read D dev.data (total_size / 512) m
    if !ok then return (-1, m)
    return (0, m)

namespace Spinor

def copy (dev : Spinor) : Ram := fun k => dev.disk (512 * CFG_SPINOR_UBOOT_OFFSET + k)

/-- The bytes of the whole sectors of the package. -/
def sectors (dev : Spinor) : Nat := 512 * (valid_len dev.copy / 512)

def Intact (dev : Spinor) : Prop :=
  dev.head = .ok ∧ (dev.sectors ≠ 0 → dev.data = .ok) ∧ Package dev.copy

def Good (dev : Spinor) (m : Ram) : Prop :=
  Package m ∧ AgreeTo (max 64 (valid_len m)) m dev.copy

/-- What the code relies on: what is read fits, the package on the device is intact, and the
memory `m` has the bytes behind its last whole sector already. -/
def Condition (D : Dram) (dev : Spinor) (m : Ram) : Prop :=
  if dev.init ≠ 0 then ¬ dev.Intact
  else dev.head = .ok → magic dev.copy = TOC_MAIN_INFO_MAGIC →
    (dev.sectors ≠ 0 → dev.data.stored dev.sectors ≤ D.room) ∧
      ((dev.sectors ≠ 0 → dev.data = .ok) → Package dev.copy ∧
        ∀ k, max 512 dev.sectors ≤ k → k < valid_len dev.copy → m k = dev.copy k)

variable {D : Dram} {dev : Spinor} {m : Ram}

theorem read_ok {r : BlockRead} {cnt : Nat} (hr : cnt ≠ 0 → r = .ok)
    (hfits : cnt ≠ 0 → 512 * cnt ≤ D.room) :
    dev.spinor_read D r cnt m =
      some (true, fun k => if k < 512 * cnt then dev.copy k else m k) := by
  unfold spinor_read
  by_cases hcnt : cnt = 0
  · subst hcnt
    rw [if_pos rfl]
    congr 2
  · rw [if_neg hcnt, hr hcnt, transfer, put_eq_some m _ (by have := hfits hcnt; omega)]
    simp [copy]

theorem read_failed {r : BlockRead} {cnt : Nat} (hcnt : cnt ≠ 0) (hr : r ≠ .ok)
    (hfits : r.stored (512 * cnt) ≤ D.room) :
    ∃ m', dev.spinor_read D r cnt m = some (false, m') := by
  unfold spinor_read
  rw [if_neg hcnt]
  cases hb : r with
  | ok => exact absurd hb hr
  | failed n bytes =>
    rw [hb, BlockRead.stored] at hfits
    exact ⟨_, by rw [transfer, put_eq_some m bytes (by omega)]; rfl⟩

theorem read_none {r : BlockRead} {cnt : Nat} (hcnt : cnt ≠ 0)
    (hfits : D.room < r.stored (512 * cnt)) : dev.spinor_read D r cnt m = none := by
  unfold spinor_read
  rw [if_neg hcnt]
  cases hb : r with
  | ok =>
    rw [hb, BlockRead.stored] at hfits
    rw [transfer, put_eq_none (by omega)]
    rfl
  | failed n bytes =>
    rw [hb, BlockRead.stored] at hfits
    rw [transfer, put_eq_none (by omega)]
    rfl

theorem boots_of_ret {ret : Int} {m' : Ram} (heq : load_toc1_from_spinor D dev m = some (ret, m'))
    (hret : ret ≠ 0) :
    Boots (load_toc1_from_spinor D dev m) dev.Good dev.Intact ↔ ¬ dev.Intact := by
  rw [heq]
  constructor
  · rintro ⟨_, _, ⟨⟩, -, h⟩ hintact
    exact hret (h hintact)
  · exact fun h => ⟨ret, m', rfl, fun h => absurd h hret, fun hintact => absurd hintact h⟩

/-- The load after a header with the right magic. -/
theorem load_of_head (hinit : dev.init = 0) (hh : dev.head = .ok)
    (hmagic : magic dev.copy = TOC_MAIN_INFO_MAGIC) :
    load_toc1_from_spinor D dev m =
      (dev.spinor_read D dev.data (valid_len dev.copy / 512)
        (fun k => if k < 512 * 1 then dev.copy k else m k)).map
          fun r => (if r.1 then 0 else -1, r.2) := by
  have hfits := D.head_fits
  have hagree : AgreeTo 512 (fun k => if k < 512 * 1 then dev.copy k else m k) dev.copy :=
    fun k hk => if_pos hk
  have hm := (hagree.magic (by omega)).trans hmagic
  have hlen := hagree.valid_len (by omega)
  unfold load_toc1_from_spinor
  rw [if_neg (not_not.2 hinit), read_ok (fun _ => hh) (fun _ => by omega)]
  simp only [Option.bind_eq_bind, Option.bind_some, Bool.not_true, Bool.false_eq_true, if_false,
    hm, hlen, ne_eq, not_true_eq_false, Option.pure_def]
  cases dev.spinor_read D dev.data (valid_len dev.copy / 512)
    (fun k => if k < 512 * 1 then dev.copy k else m k) with
  | none => rfl
  | some r =>
    obtain ⟨ok, m'⟩ := r
    cases ok <;> rfl

theorem load_of_not_head (hinit : dev.init = 0)
    (h : dev.head ≠ .ok ∨ magic dev.copy ≠ TOC_MAIN_INFO_MAGIC) :
    ∃ m', load_toc1_from_spinor D dev m = some (-1, m') := by
  have hfits := D.head_fits
  unfold load_toc1_from_spinor
  rw [if_neg (not_not.2 hinit)]
  by_cases hh : dev.head = .ok
  · have hagree : AgreeTo 512 (fun k => if k < 512 * 1 then dev.copy k else m k) dev.copy :=
      fun k hk => if_pos hk
    have hm := hagree.magic (by omega)
    have hbad := h.resolve_left (not_not.2 hh)
    rw [read_ok (fun _ => hh) (fun _ => by omega)]
    simp [hm, hbad]
  · have hstored : dev.head.stored (512 * 1) ≤ D.room := by
      have := BlockRead.stored_le (n := 512 * 1) (r := dev.head)
      omega
    obtain ⟨m', hm'⟩ := read_failed (D := D) (m := m) (by omega) hh hstored
    rw [hm']
    exact ⟨m', rfl⟩

/-- The memory after both reads holds the package if the device does and the bytes behind the
last whole sector were there before. -/
theorem good_iff :
    dev.Good (fun k => if k < dev.sectors then dev.copy k else
      if k < 512 * 1 then dev.copy k else m k) ↔
      Package dev.copy ∧
        ∀ k, max 512 dev.sectors ≤ k → k < valid_len dev.copy → m k = dev.copy k := by
  have hagree : AgreeTo 512 (fun k => if k < dev.sectors then dev.copy k else
      if k < 512 * 1 then dev.copy k else m k) dev.copy := by
    intro k hk
    dsimp only
    rw [if_pos (show k < 512 * 1 by omega)]
    exact ite_self _
  have hlen := hagree.valid_len (by omega)
  unfold Good
  constructor
  · rintro ⟨hpackage, hall⟩
    rw [hlen] at hall
    refine ⟨hpackage.congr hall (by omega) (by omega), fun k hk hlt => ?_⟩
    have heq := hall k (by omega)
    dsimp only at heq
    rwa [if_neg (by omega), if_neg (by omega)] at heq
  · rintro ⟨hpackage, htail⟩
    have hall : AgreeTo (max 64 (valid_len dev.copy)) (fun k => if k < dev.sectors then dev.copy k
        else if k < 512 * 1 then dev.copy k else m k) dev.copy := by
      intro k hk
      by_cases hin : k < max 512 dev.sectors
      · by_cases hsec : k < dev.sectors
        · exact if_pos hsec
        · exact hagree k (by omega)
      · dsimp only
        rw [if_neg (by omega), if_neg (by omega)]
        exact htail k (by omega) (by omega)
    rw [hlen]
    exact ⟨hpackage.congr hall.symm (by omega) (by omega), hall⟩

theorem boots_iff :
    Boots (load_toc1_from_spinor D dev m) dev.Good dev.Intact ↔ Condition D dev m := by
  unfold Condition
  by_cases hinit : dev.init ≠ 0
  · rw [if_pos hinit]
    have heq : load_toc1_from_spinor D dev m = some (-1, m) := if_pos hinit
    exact boots_of_ret heq (by decide)
  rw [if_neg hinit]
  have hinit := not_not.1 hinit
  by_cases hhead : dev.head = .ok ∧ magic dev.copy = TOC_MAIN_INFO_MAGIC
  · obtain ⟨hh, hmagic⟩ := hhead
    have hload := load_of_head (D := D) (m := m) hinit hh hmagic
    simp only [hh, hmagic, forall_const]
    have hcnt : ∀ {p : Prop}, (valid_len dev.copy / 512 ≠ 0 → p) ↔ (dev.sectors ≠ 0 → p) := by
      intro p
      refine imp_congr_left (not_congr ?_)
      unfold sectors
      omega
    by_cases hroom : dev.sectors ≠ 0 → dev.data.stored dev.sectors ≤ D.room
    · by_cases hdata : dev.sectors ≠ 0 → dev.data = .ok
      · -- both reads succeed
        have hfits : dev.sectors ≠ 0 → dev.sectors ≤ D.room := by
          intro h0
          have hle := hroom h0
          rwa [hdata h0] at hle
        rw [hload, read_ok (hcnt.2 hdata) (hcnt.2 hfits), and_iff_right hroom, imp_iff_right hdata,
          ← good_iff]
        constructor
        · rintro ⟨ret, m', heq, hgood, -⟩
          cases heq
          exact hgood rfl
        · exact fun hgood => ⟨0, _, rfl, fun _ => hgood, fun _ => rfl⟩
      · -- the second read fails
        obtain ⟨h0, hbad⟩ := Classical.not_imp.1 hdata
        have hcnt0 : valid_len dev.copy / 512 ≠ 0 := fun h => h0 (by unfold sectors; omega)
        obtain ⟨m', hread⟩ := read_failed (D := D)
          (m := fun k => if k < 512 * 1 then dev.copy k else m k) hcnt0 hbad (hroom h0)
        rw [hread] at hload
        rw [boots_of_ret hload (by simp)]
        exact iff_of_true (fun hintact => hdata hintact.2.1) ⟨hroom, fun h => absurd h hdata⟩
    · obtain ⟨h0, hbad⟩ := Classical.not_imp.1 hroom
      have hcnt0 : valid_len dev.copy / 512 ≠ 0 := fun h => h0 (by unfold sectors; omega)
      rw [hload, read_none hcnt0 (Nat.lt_of_not_le hbad)]
      refine iff_of_false ?_ fun h => hroom h.1
      rintro ⟨ret, m', heq, -⟩
      cases heq
  · obtain ⟨m', heq⟩ := load_of_not_head (D := D) (m := m) hinit (not_and_or.1 hhead)
    rw [boots_of_ret heq (by decide)]
    refine iff_of_true (fun hintact => hhead ⟨hintact.1, hintact.2.2.1⟩) ?_
    exact fun hh hmagic => absurd ⟨hh, hmagic⟩ hhead

end Spinor

end Melis.Sboot
