import Melis.Lib.C
import Melis.Lib.Chain
import Melis.Lib.Run

/-!
# The block device registry

`blkpart.c` keeps the registered block devices on one hand-linked list: a head
pointer `blk_head` and a `next` pointer in each `struct blkpart`.
`blkpartAddList` and `blkpartDelList` edit it, `getBlkpartByName` and
`getPartByName` search it. What the list should hold after a history of calls
is `registered`. The two agree as long as no call deletes the head while other
devices follow it: there `blkpart_del_list` clears `blk_head` instead of moving
it on, and the rest of the list is lost.
-/

namespace Melis.Blkpart

open Lib

/-- The address of a `struct blkpart`. -/
abbrev BlkRef := Nat

/-- The names a `struct part` is looked up by. -/
structure Part where
  name : CStr
  devname : CStr
  deriving DecidableEq

/-- The part of a `struct blkpart` the registry reads: its name and its `n_parts` partitions. -/
structure Blk where
  name : CStr
  parts : List Part

/-- `blk_head` and the `next` pointers. -/
structure Registry where
  blkHead : Option BlkRef := none
  next : BlkRef → Option BlkRef := fun _ => none

/-- `blkpart_add_list`: the new device goes behind the last one. -/
def blkpartAddList (fuel : Nat) (r : Registry) (blk : BlkRef) : Option Registry :=
  let next := Function.update r.next blk none
  match r.blkHead with
  | none => some { blkHead := some blk, next }
  | some head => do
    let pre ← lastCell next fuel head
    return { r with next := Function.update next pre (some blk) }

/-- The loop of `blkpart_del_list` from the cell `pblk` with its predecessor `pre`. -/
def delLoop (r : Registry) (blk : BlkRef) : Nat → BlkRef → Option BlkRef → Option Registry
  | _, _, none => some r
  | 0, _, some _ => none
  | fuel + 1, pre, some pblk =>
    if pblk = blk then
      if r.blkHead = some pblk then some { r with blkHead := none }
      else some { r with next := Function.update r.next pre (r.next pblk) }
    else delLoop r blk fuel pblk (r.next pblk)

/-- `blkpart_del_list`. -/
def blkpartDelList (fuel : Nat) (r : Registry) (blk : BlkRef) : Option Registry :=
  match r.blkHead with
  | none => some r
  | some head => delLoop r blk fuel head (some head)

/-- `"/dev/"`. -/
def devPrefix : CStr := ['/', 'd', 'e', 'v', '/']

/-- The name `get_part_by_name` compares with: a leading `"/dev/"` is skipped. -/
def stripDev (name : CStr) : CStr :=
  if devPrefix <+: name then name.drop devPrefix.length else name

/-- The inner loop of `get_part_by_name`: the index of the first partition called `name`. -/
def partIndex (name : CStr) (parts : List Part) : Option Nat :=
  parts.findIdx? fun p => p.name = name ∨ p.devname = name

section

variable (dev : BlkRef → Blk)

/-- `get_blkpart_by_name`; a `NULL` name gives the head. -/
def getBlkpartByName (fuel : Nat) (r : Registry) : Option CStr → Option (Option BlkRef)
  | none => some r.blkHead
  | some name => walk r.next (fun b => if (dev b).name = name then some b else none) fuel r.blkHead

/-- `get_part_by_name`: a device and the index of the partition in its `parts`. -/
def getPartByName (fuel : Nat) (r : Registry) (name : CStr) : Option (Option (BlkRef × Nat)) :=
  walk r.next (fun b => (partIndex (stripDev name) (dev b).parts).map (b, ·)) fuel r.blkHead

end

inductive Call where
  | add (blk : BlkRef)
  | del (blk : BlkRef)
  deriving DecidableEq

def registry (fuel : Nat) : Machine Registry Call where
  next r
    | .add blk => blkpartAddList fuel r blk
    | .del blk => blkpartDelList fuel r blk

/-! ## What the registry should hold -/

/-- One call's effect on the devices registered so far. -/
def register (l : List BlkRef) : Call → List BlkRef
  | .add blk => l ++ [blk]
  | .del blk => l.erase blk

/-- The devices added and not deleted, in insertion order. -/
def registered (calls : List Call) : List BlkRef := calls.foldl register []

/-- Calls on distinct devices: no device is added while it is registered. -/
def Distinct (l : List BlkRef) : List Call → Prop
  | [] => True
  | c :: calls => (∀ blk, c = .add blk → blk ∉ l) ∧ Distinct (register l c) calls

/-- The registry holds exactly `l`, and both lookups find exactly what is in it. -/
structure Exact (dev : BlkRef → Blk) (fuel : Nat) (r : Registry) (l : List BlkRef) : Prop where
  chain : Chain r.next r.blkHead l
  blkpart : ∀ name, ∃ res, getBlkpartByName dev fuel r (some name) = some res ∧
    (∀ b, res = some b → b ∈ l ∧ (dev b).name = name) ∧
    (res = none → ∀ b ∈ l, (dev b).name ≠ name)
  part : ∀ name, ∃ res, getPartByName dev fuel r name = some res ∧
    (∀ b i, res = some (b, i) → b ∈ l ∧ ∃ p, (dev b).parts[i]? = some p ∧
      (p.name = stripDev name ∨ p.devname = stripDev name)) ∧
    (res = none → ∀ b ∈ l, ∀ p ∈ (dev b).parts, p.name ≠ stripDev name ∧ p.devname ≠ stripDev name)

/-- The call deletes the head of the list with other devices behind it. -/
def LosesTail (l : List BlkRef) : Call → Prop
  | .add _ => False
  | .del blk => l.head? = some blk ∧ 1 < l.length

/-- No call of the history loses the tail of the list. -/
def KeepsTail (l : List BlkRef) : List Call → Prop
  | [] => True
  | c :: calls => ¬ LosesTail l c ∧ KeepsTail (register l c) calls

/-! ## One call -/

section

variable {fuel : Nat} {r : Registry} {l : List BlkRef} {blk : BlkRef}

theorem blkpartAddList_chain (hl : Chain r.next r.blkHead l) (hnd : l.Nodup) (hb : blk ∉ l)
    (hf : l.length ≤ fuel) :
    ∃ r', blkpartAddList fuel r blk = some r' ∧ Chain r'.next r'.blkHead (l ++ [blk]) := by
  have hl' : Chain (Function.update r.next blk none) r.blkHead l := hl.update_of_notMem hb
  rcases List.eq_nil_or_concat l with rfl | ⟨l, p, rfl⟩
  · have hh : r.blkHead = none := hl
    exact ⟨_, by simp only [blkpartAddList, hh]; rfl, by simp⟩
  · rw [List.concat_eq_append] at *
    obtain ⟨a, ha⟩ : ∃ a, r.blkHead = some a := by
      rw [hl.head_eq]
      cases l <;> exact ⟨_, rfl⟩
    rw [ha] at hl'
    have hlast := lastCell_eq hl' (show l.length < fuel by simp at hf; omega)
    refine ⟨{ r with next := Function.update (Function.update r.next blk none) p (some blk) },
      by simp only [blkpartAddList, ha, hlast]; rfl, ?_⟩
    rw [← ha] at hl'
    exact chain_snoc hl' (by simp) hb hnd

/-- Past the head, the loop of `blkpart_del_list` unlinks the device. -/
theorem delLoop_chain {pre m : List BlkRef} {p : BlkRef}
    (hl : Chain r.next r.blkHead (pre ++ p :: m)) (hnd : (pre ++ p :: m).Nodup)
    (hp : blk ∉ pre ++ [p]) (hf : m.length ≤ fuel) :
    ∃ r', delLoop r blk fuel p (r.next p) = some r' ∧
      Chain r'.next r'.blkHead (pre ++ p :: m.erase blk) := by
  induction m generalizing pre p fuel with
  | nil =>
    refine ⟨r, ?_, hl⟩
    rw [hl.next_eq]
    cases fuel <;> rfl
  | cons q m ih =>
    obtain ⟨fuel, rfl⟩ : ∃ k, fuel = k + 1 := ⟨fuel - 1, by simp at hf; omega⟩
    rw [hl.next_eq, List.head?_cons, delLoop]
    by_cases hq : q = blk
    · subst hq
      have hhead : r.blkHead ≠ some q := by
        rw [hl.head_eq]
        intro he
        apply hp
        cases pre with
        | nil => simpa using he.symm
        | cons a pre =>
          rw [List.cons_append, List.head?_cons, Option.some.injEq] at he
          simp [he]
      rw [if_pos rfl, if_neg hhead, List.erase_cons_head]
      exact ⟨_, rfl, chain_unlink hl hnd⟩
    · rw [if_neg hq, List.erase_cons_tail (by simpa using hq)]
      rw [List.append_cons pre p (q :: m)] at hl hnd
      obtain ⟨r', hr, hc⟩ := ih hl hnd
        (by simp at hp ⊢; exact ⟨hp.1, hp.2, Ne.symm hq⟩) (show m.length ≤ fuel by simpa using hf)
      exact ⟨r', hr, by simpa using hc⟩

/-- Deleting a device keeps the list exact unless it is the head of several. -/
theorem blkpartDelList_chain (hl : Chain r.next r.blkHead l) (hnd : l.Nodup)
    (hgood : ¬ LosesTail l (.del blk)) (hf : l.length ≤ fuel) :
    ∃ r', blkpartDelList fuel r blk = some r' ∧ Chain r'.next r'.blkHead (l.erase blk) := by
  cases l with
  | nil => exact ⟨r, by simp [blkpartDelList, chain_nil.1 hl], by simpa using hl⟩
  | cons a m =>
    obtain ⟨fuel, rfl⟩ : ∃ k, fuel = k + 1 := ⟨fuel - 1, by simp at hf; omega⟩
    simp only [blkpartDelList, hl.1, delLoop]
    by_cases ha : a = blk
    · subst ha
      obtain rfl : m = [] := by
        cases m with
        | nil => rfl
        | cons b m => exact absurd ⟨rfl, by simp⟩ hgood
      simp
    · rw [if_neg ha, List.erase_cons_tail (by simpa using ha)]
      have hl' : Chain r.next r.blkHead ([] ++ a :: m) := hl
      exact delLoop_chain hl' hnd (by simpa using Ne.symm ha) (by simpa using hf)

/-- Deleting the head clears `blk_head`, whatever follows. -/
theorem blkpartDelList_head (hl : Chain r.next r.blkHead (blk :: l)) (hf : 0 < fuel) :
    ∃ r', blkpartDelList fuel r blk = some r' ∧ r'.blkHead = none := by
  obtain ⟨fuel, rfl⟩ : ∃ k, fuel = k + 1 := ⟨fuel - 1, by omega⟩
  exact ⟨{ r with blkHead := none }, by simp [blkpartDelList, hl.1, delLoop], rfl⟩

end

/-! ## Lookups -/

theorem partIndex_eq_some {name : CStr} {parts : List Part} {i : Nat}
    (h : partIndex name parts = some i) :
    ∃ p, parts[i]? = some p ∧ (p.name = name ∨ p.devname = name) := by
  unfold partIndex at h
  rw [List.findIdx?_eq_some_iff_getElem] at h
  obtain ⟨hi, hp, -⟩ := h
  exact ⟨parts[i], List.getElem?_eq_getElem hi, by simpa using hp⟩

theorem partIndex_eq_none {name : CStr} {parts : List Part} :
    partIndex name parts = none ↔ ∀ p ∈ parts, p.name ≠ name ∧ p.devname ≠ name := by
  unfold partIndex
  simp [List.findIdx?_eq_none_iff]

/-- A chain in memory makes both lookups exact. -/
theorem exact_of_chain {dev : BlkRef → Blk} {fuel : Nat} {r : Registry} {l : List BlkRef}
    (hl : Chain r.next r.blkHead l) (hf : l.length ≤ fuel) : Exact dev fuel r l where
  chain := hl
  blkpart name := by
    refine ⟨_, walk_eq hl hf, fun b hb => ?_, fun hn b hb => ?_⟩
    · obtain ⟨c, hc, he⟩ := List.exists_of_findSome?_eq_some hb
      split at he
      · next hname => cases he; exact ⟨hc, hname⟩
      · cases he
    · rw [List.findSome?_eq_none_iff] at hn
      simpa using hn b hb
  part name := by
    refine ⟨_, walk_eq hl hf, fun b i hb => ?_, fun hn b hb => ?_⟩
    · obtain ⟨c, hc, he⟩ := List.exists_of_findSome?_eq_some hb
      obtain ⟨j, hj, he⟩ := Option.map_eq_some_iff.1 he
      cases he
      exact ⟨hc, partIndex_eq_some hj⟩
    · rw [List.findSome?_eq_none_iff] at hn
      exact partIndex_eq_none.1 (Option.map_eq_none_iff.1 (hn b hb))

/-! ## Histories -/

theorem registered_snoc (calls : List Call) (c : Call) :
    registered (calls ++ [c]) = register (registered calls) c := by
  simp [registered]

theorem foldl_register_nodup {calls : List Call} {l : List BlkRef} (hnd : l.Nodup)
    (hd : Distinct l calls) : (calls.foldl register l).Nodup := by
  induction calls generalizing l with
  | nil => exact hnd
  | cons c calls ih =>
    refine ih ?_ hd.2
    cases c with
    | add blk =>
      have hb := hd.1 blk rfl
      simp only [register, List.nodup_append, hnd, true_and]
      refine ⟨by simp, fun a ha b hb' => ?_⟩
      rintro rfl
      rw [List.mem_singleton.1 hb'] at ha
      exact hb ha
    | del blk => exact hnd.erase blk

theorem distinct_at {p q : List Call} {c : Call} {l : List BlkRef}
    (hd : Distinct l (p ++ [c] ++ q)) : Distinct (p.foldl register l) [c] ∧ Distinct l p := by
  induction p generalizing l with
  | nil => exact ⟨⟨hd.1, trivial⟩, trivial⟩
  | cons a p ih =>
    obtain ⟨h1, h2⟩ := ih hd.2
    exact ⟨h1, hd.1, h2⟩

theorem distinct_prefix {calls p : List Call} {c : Call} (hd : Distinct [] calls)
    (hp : p ++ [c] <+: calls) : Distinct (registered p) [c] ∧ (registered p).Nodup := by
  obtain ⟨q, rfl⟩ := hp
  obtain ⟨h1, h2⟩ := distinct_at hd
  exact ⟨h1, foldl_register_nodup List.nodup_nil h2⟩

theorem registered_length_le (calls : List Call) : (registered calls).length ≤ calls.length := by
  have : ∀ l : List BlkRef, (calls.foldl register l).length ≤ l.length + calls.length := by
    induction calls with
    | nil => simp
    | cons c calls ih =>
      intro l
      have h1 := ih (register l c)
      have h2 : (register l c).length ≤ l.length + 1 := by
        cases c with
        | add blk => simp [register]
        | del blk => exact (List.erase_sublist.length_le).trans (by omega)
      simp only [List.foldl_cons, List.length_cons]
      omega
  simpa [registered] using this []

theorem keepsTail_iff_prefix {calls : List Call} {l : List BlkRef} :
    KeepsTail l calls ↔ ∀ p c, p ++ [c] <+: calls → ¬ LosesTail (p.foldl register l) c := by
  induction calls generalizing l with
  | nil => simp [KeepsTail]
  | cons a calls ih =>
    rw [KeepsTail, ih]
    constructor
    · rintro ⟨ha, h⟩ p c hp
      cases p with
      | nil =>
        obtain rfl : c = a := by simpa using hp
        exact ha
      | cons b p =>
        obtain ⟨rfl, hp'⟩ := List.cons_prefix_cons.1 hp
        exact h p c hp'
    · intro h
      exact ⟨h [] a (by simp), fun p c hp => h (a :: p) c (List.cons_prefix_cons.2 ⟨rfl, hp⟩)⟩

theorem keepsTail_iff {calls : List Call} :
    KeepsTail [] calls ↔ ∀ p c, p ++ [c] <+: calls → ¬ LosesTail (registered p) c :=
  keepsTail_iff_prefix

/-- The registry is right after every prefix of the calls exactly when no call
deletes the head of the list while other devices follow it. -/
theorem registry_exact_iff (dev : BlkRef → Blk) {fuel : Nat} {calls : List Call}
    (hd : Distinct [] calls) (hf : calls.length ≤ fuel) :
    (∀ p, p <+: calls → ∃ r, (registry fuel).run {} p = some r ∧ Exact dev fuel r (registered p)) ↔
      KeepsTail [] calls := by
  rw [keepsTail_iff]
  constructor
  · intro h p c hpc hbad
    cases c with
    | add blk => exact hbad
    | del blk =>
      obtain ⟨r, hr, he⟩ := h p ((List.prefix_append p [_]).trans hpc)
      obtain ⟨r', hr', he'⟩ := h _ hpc
      obtain ⟨l, hl⟩ : ∃ l, registered p = blk :: l := by
        rw [LosesTail] at hbad
        cases hreg : registered p with
        | nil => simp [hreg] at hbad
        | cons a l =>
          simp [hreg] at hbad
          exact ⟨l, by rw [hbad.1]⟩
      have hpos : 0 < fuel := by
        have := hpc.length_le
        simp at this
        omega
      obtain ⟨r'', hdel, hnone⟩ := blkpartDelList_head (hl ▸ he.chain) hpos
      have hrr : r' = r'' := by
        rw [Machine.run_append, hr] at hr'
        simpa [registry, Machine.run_cons, hdel] using hr'.symm
      have hch := he'.chain
      rw [registered_snoc, hl, register, List.erase_cons_head, hrr, hnone] at hch
      have : l = [] := by simpa [eq_comm] using hch.head_eq
      rw [LosesTail, hl, this] at hbad
      simp at hbad
  · intro h p
    induction p using List.reverseRecOn with
    | nil => exact fun _ => ⟨{}, rfl, exact_of_chain rfl (by simp [registered])⟩
    | append_singleton p c ih =>
      intro hpc
      obtain ⟨r, hr, he⟩ := ih ((List.prefix_append p [_]).trans hpc)
      have hlen : p.length + 1 ≤ calls.length := by simpa using hpc.length_le
      have hle := registered_length_le p
      have hdp : Distinct (registered p) [c] ∧ (registered p).Nodup := distinct_prefix hd hpc
      have hstep : ∃ r', (registry fuel).next r c = some r' ∧
          Chain r'.next r'.blkHead (register (registered p) c) := by
        cases c with
        | add blk => exact blkpartAddList_chain he.chain hdp.2 (hdp.1.1 blk rfl) (by omega)
        | del blk => exact blkpartDelList_chain he.chain hdp.2 (h p _ hpc) (by omega)
      obtain ⟨r', hn, hc⟩ := hstep
      refine ⟨r', by simp [Machine.run_append, hr, Machine.run_cons, hn], ?_⟩
      rw [registered_snoc]
      refine exact_of_chain hc ?_
      have := registered_length_le (p ++ [c])
      rw [registered_snoc, List.length_append, List.length_singleton] at this
      omega

/-- Two devices named `a` and `b`, each with one partition. -/
def twoDevs : BlkRef → Blk
  | 1 => ⟨['a'], [⟨['x'], ['a', 'p', '1']⟩]⟩
  | _ => ⟨['b'], [⟨['y'], ['b', 'p', '1']⟩]⟩

theorem registry_exact_delete_last :
    ∃ r, (registry 3).run {} [.add 1, .add 2, .del 2] = some r ∧ Exact twoDevs 3 r [1] :=
  (registry_exact_iff twoDevs (by simp [Distinct, register]) (le_refl 3)).2
    (by simp [KeepsTail, LosesTail, register]) _ List.prefix_rfl

/-- Deleting the head of two devices: the other one is gone from the list, and
its name is not found any more. -/
theorem registry_delete_head_loses_rest :
    Distinct [] [.add 1, .add 2, .del 1] ∧ registered [.add 1, .add 2, .del 1] = [2] ∧
      ∃ r, (registry 3).run {} [.add 1, .add 2, .del 1] = some r ∧ r.blkHead = none ∧
        getBlkpartByName twoDevs 3 r (some ['b']) = some none ∧ ¬ Exact twoDevs 3 r [2] := by
  refine ⟨by simp [Distinct, register], by decide, ⟨_, rfl, rfl, rfl, fun h => ?_⟩⟩
  cases h.chain.head_eq

end Melis.Blkpart
