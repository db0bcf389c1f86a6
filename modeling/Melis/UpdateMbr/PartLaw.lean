import Mathlib.Data.List.GetD
import Mathlib.Data.List.TakeWhile
import Melis.UpdateMbr.Layout

/-!
# When the tables of the partitions are right

`update_for_part_info` does not count the sections against the room of the table, or the bytes of
a name against that of its field. `part_info_iff` says for which scripts it fails or makes tables
that are right.
-/

namespace Melis.UpdateMbr

open Lib

/-! ## What the tables should be -/

/-- The index of `partition_start`. -/
def Script.startIdx (script : Script) : Option Nat :=
  script.keys.findIdx? isPartitionStart

/-- The partitions of the script: the sections behind `partition_start`. -/
def Script.partitions (script : Script) : List script_main_key :=
  match script.startIdx with
  | none => []
  | some i => (script.keys.drop (i + 1)).takeWhile isPartition

/-- The table of the sections `ss`, with the disk of the user if it is not there. -/
def listing (ss : List Section) : List (List Byte × Nat) :=
  ss.map (·.listed) ++ if ∃ s ∈ ss, s.name = UDISK then [] else [(padded 16 UDISK, 0)]

/-- The sections `ss` are what the keys say. -/
def Reads (cwd : Option (List Byte)) (keys : List script_main_key) (ss : List Section) : Prop :=
  List.Forall₂ (fun key s => readSection cwd key = some (.ok s)) keys ss

structure Right (script : Script) (cwd : Option (List Byte)) (mbr_size : Word) (mbr : sunxi_mbr)
    (dl : sunxi_download_info) : Prop where
  few : mbr.PartCount.toNat ≤ 120 ∧ mbr.array.length = mbr.PartCount.toNat
  order : ∃ ss, Reads cwd script.partitions ss ∧ mbr.array.map (·.listed) = listing ss
  first : ∃ p, mbr.array.head? = some p ∧ (p.addr : Int) = mbr_size.toInt
  next : ∀ i p q, mbr.array[i]? = some p → mbr.array[i + 1]? = some q → q.addr = p.addr + p.len
  disjoint : mbr.array.Pairwise fun p q => Apart p.addr p.len q.addr q.len
  downloads : dl.one_part_info.length = dl.download_count.toNat ∧
    ∀ d ∈ dl.one_part_info, ∃ p ∈ mbr.array, d.name = p.name ∧
      (d.addrhi = p.addrhi ∧ d.addrlo = p.addrlo) ∧ d.lenhi = p.lenhi ∧ d.lenlo = p.lenlo

/-- The call stays within its variables and tables, and fails or makes the right tables. -/
def FailsOrRight (script : Script) (cwd : Option (List Byte)) (mbr_count mbr_size : Word) : Prop :=
  ∃ r, update_for_part_info script cwd mbr_count mbr_size = some r ∧
    match r with
    | .error _ => True
    | .ok (mbr, dl) => Right script cwd mbr_size mbr dl

/-- The sections that are read, one after another, up to a key that is no partition; `.error` at
one without a name or a size, `none` at one whose values do not fit, and behind `left` sections. -/
def enter (cwd : Option (List Byte)) : Nat → List script_main_key → Option (Except Unit (List Section))
  | _, [] => none
  | left, key :: keys =>
    if isPartition key = false then some (.ok [])
    else
      match left with
      | 0 => none
      | left + 1 =>
        match readSection cwd key with
        | none => none
        | some (.error _) => some (.error ())
        | some (.ok s) =>
          match enter cwd left keys with
          | some (.ok ss) => some (.ok (s :: ss))
          | r => r

/-- With the sections `ss` the tables have room for the partitions and their names. -/
structure Fitting (script : Script) (cwd : Option (List Byte)) (mbr_size : Word)
    (ss : List Section) : Prop where
  some : ss ≠ []
  few : (listing ss).length ≤ 120
  own : ∃ ss', Reads cwd script.partitions ss' ∧ listing ss = listing ss'
  names : ∀ s ∈ ss, s.download.isSome → s.name.length ≤ 24
  size : 0 ≤ mbr_size.toInt

/-- There is no `partition_start`, or it is the first key; or one of the sections has no name or
no size; or all are read, and fit. -/
def Handled (script : Script) (cwd : Option (List Byte)) (mbr_size : Word) : Prop :=
  match script.startIdx with
  | none | some 0 => True
  | some (i + 1) =>
    match enter cwd roomForParts (script.slots.drop (i + 2)) with
    | none => False
    | some (.error _) => True
    | some (.ok ss) => Fitting script cwd mbr_size ss

/-! ## The loop -/

variable {script : Script} {cwd : Option (List Byte)} {mbr_count mbr_size : Word} {c : Cursor}
  {t : Tables} {left : Nat} {ss : List Section}

theorem fetch_next (hc : c.start ≠ 0) :
    script_parser_fetch_partition script c =
      match script.slots[c.next + 1]? with
      | none => none
      | some key =>
        if isPartition key then some (((c.next + 1 : Nat) : Int), ⟨c.start, c.next + 1⟩)
        else some (0, ⟨c.start, c.next + 1⟩) := by
  unfold script_parser_fetch_partition
  cases hkey : script.slots[c.next + 1]? <;> simp only [if_neg hc, hkey]

theorem fillTables_eq (hc : c.start ≠ 0) :
    fillTables script cwd mbr_size left c t =
      match enter cwd left (script.slots.drop (c.next + 1)) with
      | none => none
      | some (.error _) => some (.error ())
      | some (.ok ss) => some (.ok (0, ss.foldl (Tables.add mbr_size) t)) := by
  induction left generalizing c t with
  | zero =>
    unfold fillTables
    rw [fetch_next hc]
    cases hkey : script.slots[c.next + 1]? with
    | none => rw [List.drop_eq_nil_of_le (List.getElem?_eq_none_iff.1 hkey)]; rfl
    | some key =>
      obtain ⟨hlt, hget⟩ := List.getElem?_eq_some_iff.1 hkey
      rw [List.drop_eq_getElem_cons hlt, hget, enter]
      by_cases hpart : isPartition key
      · simp [hpart]
      · simp [hpart]
  | succ left ih =>
    unfold fillTables
    rw [fetch_next hc]
    cases hkey : script.slots[c.next + 1]? with
    | none => rw [List.drop_eq_nil_of_le (List.getElem?_eq_none_iff.1 hkey)]; rfl
    | some key =>
      obtain ⟨hlt, hget⟩ := List.getElem?_eq_some_iff.1 hkey
      rw [List.drop_eq_getElem_cons hlt, hget, enter]
      by_cases hpart : isPartition key
      · have hpos : ¬ (((c.next + 1 : Nat) : Int) ≤ 0) := by omega
        simp only [hpart, if_true, if_neg hpos, hkey, Bool.true_eq_false, if_false]
        cases hread : readSection cwd key with
        | none => rfl
        | some r =>
          cases r with
          | error _ => rfl
          | ok s =>
            simp only
            rw [ih (c := ⟨c.start, c.next + 1⟩) hc]
            cases henter : enter cwd left (script.slots.drop (c.next + 1 + 1)) with
            | none => rfl
            | some r => cases r <;> rfl
      · simp [hpart]

theorem fetch_first {i : Nat} (h : script.startIdx = some (i + 1)) :
    script_parser_fetch_partition script ⟨0, 0⟩ =
      script_parser_fetch_partition script ⟨i + 1, i + 1⟩ := by
  unfold Script.startIdx at h
  unfold script_parser_fetch_partition
  simp [h]

theorem fetch_fails (h : script.startIdx = none ∨ script.startIdx = some 0) :
    script_parser_fetch_partition script ⟨0, 0⟩ = some (-1, ⟨0, 0⟩) := by
  unfold Script.startIdx at h
  unfold script_parser_fetch_partition
  rcases h with h | h <;> simp [h]

theorem fillTables_start {c' : Cursor}
    (h : script_parser_fetch_partition script c = script_parser_fetch_partition script c') :
    fillTables script cwd mbr_size left c t = fillTables script cwd mbr_size left c' t := by
  unfold fillTables
  rw [h]

theorem enter_cons {key : script_main_key} {keys : List script_main_key}
    (h : enter cwd left (key :: keys) = some (.ok ss)) :
    ss = [] ∨ ∃ left' s ss', left = left' + 1 ∧ readSection cwd key = some (.ok s) ∧
      enter cwd left' keys = some (.ok ss') ∧ ss = s :: ss' := by
  unfold enter at h
  by_cases hpart : isPartition key = false
  · rw [if_pos hpart] at h
    cases h
    exact .inl rfl
  · rw [if_neg hpart] at h
    cases left with
    | zero => cases h
    | succ left =>
      simp only at h
      cases hread : readSection cwd key with
      | none => simp [hread] at h
      | some r =>
        cases r with
        | error _ => simp [hread] at h
        | ok s =>
          simp only [hread] at h
          cases hrest : enter cwd left keys with
          | none => simp [hrest] at h
          | some r =>
            cases r with
            | error _ => simp [hrest] at h
            | ok ss' =>
              simp only [hrest, Option.some.injEq, Except.ok.injEq] at h
              exact .inr ⟨left, s, ss', rfl, rfl, hrest, h.symm⟩

/-- The sections that are entered have been read, and there is room for them. -/
theorem enter_spec {keys : List script_main_key} (h : enter cwd left keys = some (.ok ss)) :
    ss.length ≤ left ∧ ∀ s ∈ ss, ∃ key, readSection cwd key = some (.ok s) := by
  induction keys generalizing left ss with
  | nil => simp [enter] at h
  | cons key keys ih =>
    rcases enter_cons h with rfl | ⟨left', s, ss', rfl, hread, hrest, rfl⟩
    · simp
    · obtain ⟨hlen, hmem⟩ := ih hrest
      refine ⟨by simpa using hlen, ?_⟩
      intro s' hs'
      rcases List.mem_cons.1 hs' with rfl | hs'
      · exact ⟨key, hread⟩
      · exact hmem s' hs'

theorem Made.foldl {hi : Nat} {ss' : List Section} (h : Made mbr_size ss t hi)
    (hlt : t.array.length + ss'.length ≤ 2 ^ 31) :
    ∃ hi', Made mbr_size (ss ++ ss') (ss'.foldl (Tables.add mbr_size) t) hi' := by
  induction ss' generalizing ss t hi with
  | nil => exact ⟨hi, by simpa using h⟩
  | cons s ss' ih =>
    rw [List.length_cons] at hlt
    have hstep := h.add (by omega) s
    have hlen : (t.add mbr_size s).array.length = t.array.length + 1 := by
      rw [array_add, List.length_append, List.length_singleton]
    obtain ⟨hi', hmade⟩ := ih hstep (by omega)
    rw [List.append_assoc] at hmade
    exact ⟨hi', hmade⟩

/-! ## The disk of the user -/

theorem Made.length_eq {hi : Nat} (h : Made mbr_size ss t hi) : t.array.length = ss.length := by
  simpa using congrArg List.length h.listed

theorem appendUdisk_eq_none {hi : Nat} (h : Made mbr_size ss t hi) :
    appendUdisk mbr_size t = none ↔
      (¬ ∃ s ∈ ss, s.name = UDISK) ∧ (ss = [] ∨ ss.length ≥ roomForParts) := by
  have hnil : t.array = [] ↔ ss = [] := by
    rw [← List.length_eq_zero_iff, h.length_eq, List.length_eq_zero_iff]
  unfold appendUdisk
  rw [← h.udisk, ← hnil, ← h.length_eq]
  split
  · rename_i hu
    simp [hu]
  · rename_i hu
    split
    · rename_i hroom
      exact ⟨fun _ => ⟨hu, hroom⟩, fun _ => rfl⟩
    · rename_i hroom
      exact ⟨fun hnone => (nomatch hnone), fun hnone => absurd hnone.2 hroom⟩

/-- What is appended goes on with the layout. -/
theorem appendUdisk_eq_some {hi : Nat} {array : List sunxi_partition}
    (h : Made mbr_size ss t hi) (hlt : t.array.length < 2 ^ 31)
    (happ : appendUdisk mbr_size t = some array) :
    array.map (·.listed) = listing ss ∧ (∃ hi', Tiles mbr_size.toNat array hi') ∧
      (∀ p ∈ array, p.lenhi = 0) ∧ ∀ p ∈ t.array, p ∈ array := by
  unfold appendUdisk at happ
  unfold listing
  by_cases hudisk : t.udisk_exist = true
  · rw [if_pos hudisk] at happ
    cases happ
    rw [if_pos (h.udisk.1 hudisk), List.append_nil]
    exact ⟨h.listed, ⟨hi, h.tiles⟩, h.lenhi, fun p hp => hp⟩
  · rw [if_neg hudisk] at happ
    rw [if_neg (mt h.udisk.2 hudisk)]
    split at happ
    · cases happ
    · cases happ
      have hroom := h.hi_lt
      have haddr := nextAddr_eq h.tiles h.lenhi (by omega)
      refine ⟨?_, ⟨_, h.tiles.append haddr⟩, ?_, fun p hp => List.mem_append_left _ hp⟩
      · rw [List.map_append, h.listed]
        simp [sunxi_partition.listed, sunxi_partition.len]
      · intro p hp
        rcases List.mem_append.1 hp with hp | hp
        · exact h.lenhi p hp
        · rw [List.mem_singleton.1 hp]

/-! ## The names -/

theorem getD_padded {k : Nat} (name : List Byte) (hk : k < 32) :
    (padded 32 name).getD k 0 = name.getD k 0 := by
  unfold padded
  rw [List.getD_eq_getElem?_getD, List.getElem?_take, if_pos hk]
  rcases Nat.lt_or_ge k name.length with hlt | hge
  · rw [List.getElem?_append_left hlt, List.getD_eq_getElem?_getD]
  · rw [List.getElem?_append_right hge, List.getD_eq_default _ _ hge, List.getElem?_replicate,
      if_pos (by omega)]
    rfl

theorem byte_eq_zero {n : Nat} {x : BitVec n} {b : Byte} (h : x ++ b = 0#(n + 8)) : b = 0 := by
  have hnat := congrArg BitVec.toNat h
  rw [BitVec.toNat_append, BitVec.toNat_ofNat, Nat.zero_mod, Nat.or_eq_zero_iff] at hnat
  exact BitVec.eq_of_toNat_eq hnat.2

/-- A name of more than 24 characters goes on in the length of a download entry. -/
theorem wordAt_padded {name : List Byte} (h : ∀ b ∈ name, b ≠ 0) :
    wordAt (padded 32 name) 24 = 0 ↔ name.length ≤ 24 := by
  unfold wordAt
  rw [getD_padded name (by decide), getD_padded name (by decide), getD_padded name (by decide),
    getD_padded name (by decide)]
  constructor
  · intro hzero
    by_contra hlong
    have hbyte := byte_eq_zero hzero
    rw [List.getD_eq_getElem _ _ (by omega)] at hbyte
    exact h _ (List.getElem_mem _) hbyte
  · intro hshort
    rw [List.getD_eq_default _ _ (by omega), List.getD_eq_default _ _ (by omega),
      List.getD_eq_default _ _ (by omega), List.getD_eq_default _ _ hshort]
    decide

theorem ne_zero_of_cstr {buf name : List Byte} (h : cstr buf = some name) : ∀ b ∈ name, b ≠ 0 := by
  unfold cstr at h
  split at h
  · cases h
    intro b hb
    simpa using List.mem_takeWhile_imp hb
  · cases h

theorem name_ne_zero {key : script_main_key} {s : Section}
    (h : readSection cwd key = some (.ok s)) : ∀ b ∈ s.name, b ≠ 0 := by
  unfold readSection at h
  simp only [Option.bind_eq_bind, Option.bind_eq_some_iff] at h
  obtain ⟨⟨ret, value⟩, -, h⟩ := h
  split at h
  · cases h
  · simp only [Option.bind_eq_some_iff] at h
    obtain ⟨name, hname, file, -, uv, -, rv, -, kv, -, dv, -, h⟩ := h
    have hs : s.name = name := by
      split at h
      · cases h
        rfl
      · obtain ⟨sv, -, h⟩ := Option.bind_eq_some_iff.1 h
        split at h
        · cases h
          rfl
        · cases h
    rw [hs]
    exact ne_zero_of_cstr hname

/-! ## The tables -/

theorem length_listing (ss : List Section) : ss.length ≤ (listing ss).length := by
  unfold listing
  simp

theorem toInt_eq (h : 0 ≤ mbr_size.toInt) : mbr_size.toInt = mbr_size.toNat := by
  rw [BitVec.toInt_eq_toNat_cond] at h ⊢
  split at h <;> omega

theorem right_of_fitting {hi : Nat} (hmade : Made mbr_size ss t hi)
    (hread : ∀ s ∈ ss, ∃ key, readSection cwd key = some (.ok s))
    (hfit : Fitting script cwd mbr_size ss) :
    ∃ array, appendUdisk mbr_size t = some array ∧
      Right script cwd mbr_size (results mbr_count t array).1 (results mbr_count t array).2 := by
  have hfew := hfit.few
  have hlen := length_listing ss
  have hroom : roomForParts = 128 := rfl
  obtain ⟨array, happ⟩ : ∃ array, appendUdisk mbr_size t = some array := by
    rw [← Option.isSome_iff_exists, Option.isSome_iff_ne_none, Ne, appendUdisk_eq_none hmade]
    rintro ⟨-, rfl | hfull⟩
    · exact hfit.some rfl
    · omega
  have ht := hmade.length_eq
  obtain ⟨hlisted, ⟨hi', htiles⟩, hlenhi, hsub⟩ := appendUdisk_eq_some hmade (by omega) happ
  have harray : array.length = (listing ss).length := by
    rw [← hlisted, List.length_map]
  have hcount : (BitVec.ofNat 32 array.length).toNat = array.length := by
    rw [BitVec.toNat_ofNat]
    omega
  refine ⟨array, happ, ⟨?_, ?_⟩, ?_, ?_, ?_, htiles.disjoint, ?_, ?_⟩
  · show (BitVec.ofNat 32 array.length).toNat ≤ 120
    omega
  · exact hcount.symm
  · obtain ⟨ss', hown, heq⟩ := hfit.own
    exact ⟨ss', hown, hlisted.trans heq⟩
  · obtain ⟨p, hp⟩ : ∃ p, array.head? = some p := by
      cases harr : array with
      | nil =>
        rw [harr, List.length_nil] at harray
        exact absurd (List.length_eq_zero_iff.1 (by omega)) hfit.some
      | cons p array => exact ⟨p, rfl⟩
    refine ⟨p, hp, ?_⟩
    rw [htiles.head hp, toInt_eq hfit.size]
  · exact fun i p q hp hq => htiles.next hp hq
  · have hdl := hmade.count
    show t.downloads.length = (BitVec.ofNat 32 t.downloads.length).toNat
    rw [BitVec.toNat_ofNat]
    omega
  · intro d hd
    obtain ⟨s, hs, hdown, p, hp, hdp⟩ := hmade.downloads d hd
    obtain ⟨key, hkey⟩ := hread s hs
    have hzero := (wordAt_padded (name_ne_zero hkey)).2 (hfit.names s hs hdown)
    exact ⟨p, hsub p hp, hdp.name, hdp.address, by rw [hdp.lenhi, hzero, hmade.lenhi p hp],
      hdp.lenlo⟩

theorem fitting_of_right {hi : Nat} {array : List sunxi_partition} (hmade : Made mbr_size ss t hi)
    (hlen : ss.length ≤ roomForParts)
    (hread : ∀ s ∈ ss, ∃ key, readSection cwd key = some (.ok s))
    (happ : appendUdisk mbr_size t = some array)
    (hright : Right script cwd mbr_size (results mbr_count t array).1
      (results mbr_count t array).2) : Fitting script cwd mbr_size ss := by
  have hroom : roomForParts = 128 := rfl
  have ht := hmade.length_eq
  obtain ⟨hlisted, -, hlenhi, -⟩ := appendUdisk_eq_some hmade (by omega) happ
  refine ⟨?_, ?_, ?_, ?_, ?_⟩
  · rintro rfl
    rw [(appendUdisk_eq_none hmade).2 ⟨by simp, .inl rfl⟩] at happ
    cases happ
  · have hcount := hright.few
    rw [← hlisted, List.length_map]
    exact hcount.2.trans_le hcount.1
  · obtain ⟨ss', hown, horder⟩ := hright.order
    exact ⟨ss', hown, hlisted.symm.trans horder⟩
  · intro s hs hdown
    obtain ⟨key, hkey⟩ := hread s hs
    obtain ⟨d, hd, hword⟩ := hmade.all s hs hdown
    obtain ⟨p, hp, -, -, hpd, -⟩ := hright.downloads.2 d hd
    rw [← wordAt_padded (name_ne_zero hkey), ← hword, hpd]
    exact hlenhi p hp
  · obtain ⟨p, -, haddr⟩ := hright.first
    omega

/-! ## The whole call -/

theorem update_eq_of_start {i : Nat} (h : script.startIdx = some (i + 1)) :
    update_for_part_info script cwd mbr_count mbr_size =
      match enter cwd roomForParts (script.slots.drop (i + 2)) with
      | none => none
      | some (.error _) => some (.error ())
      | some (.ok ss) =>
        (appendUdisk mbr_size (ss.foldl (Tables.add mbr_size) ⟨[], [], false⟩)).map fun array =>
          .ok (results mbr_count (ss.foldl (Tables.add mbr_size) ⟨[], [], false⟩) array) := by
  unfold update_for_part_info
  rw [fillTables_start (fetch_first h), fillTables_eq (Nat.succ_ne_zero i)]
  cases enter cwd roomForParts (script.slots.drop (i + 1 + 1)) with
  | none => rfl
  | some r => cases r <;> rfl

theorem update_eq_of_no_start (h : script.startIdx = none ∨ script.startIdx = some 0) :
    update_for_part_info script cwd mbr_count mbr_size = some (.error ()) := by
  unfold update_for_part_info fillTables
  rw [fetch_fails h]
  rfl

/-- For which scripts the call fails, or makes the right tables. -/
theorem part_info_iff (script : Script) (cwd : Option (List Byte)) (mbr_count mbr_size : Word) :
    FailsOrRight script cwd mbr_count mbr_size ↔ Handled script cwd mbr_size := by
  unfold FailsOrRight Handled
  cases hstart : script.startIdx with
  | none =>
    rw [update_eq_of_no_start (.inl hstart)]
    simp
  | some k =>
    cases k with
    | zero =>
      rw [update_eq_of_no_start (.inr hstart)]
      simp
    | succ i =>
      rw [update_eq_of_start hstart]
      dsimp only
      cases henter : enter cwd roomForParts (script.slots.drop (i + 2)) with
      | none => simp
      | some r =>
        cases r with
        | error _ => simp
        | ok ss =>
          obtain ⟨hlen, hread⟩ := enter_spec henter
          have hroom : roomForParts = 128 := rfl
          have hlt : (⟨[], [], false⟩ : Tables).array.length + ss.length ≤ 2 ^ 31 := by
            simp only [List.length_nil]
            omega
          obtain ⟨hi, hmade⟩ := (Made.empty mbr_size).foldl hlt
          rw [List.nil_append] at hmade
          dsimp only
          constructor
          · rintro ⟨r, hr, hgood⟩
            obtain ⟨array, happ, rfl⟩ := Option.map_eq_some_iff.1 hr
            exact fitting_of_right hmade hlen hread happ hgood
          · intro hfit
            obtain ⟨array, happ, hright⟩ := right_of_fitting hmade hread hfit
            exact ⟨_, by rw [happ]; rfl, hright⟩

/-! ## A script with too many partitions -/

theorem enter_replicate {key stop : script_main_key} {s : Section} (hkey : isPartition key = true)
    (hread : readSection cwd key = some (.ok s)) (hstop : isPartition stop = false) {n : Nat}
    (hn : n ≤ left) :
    enter cwd left (List.replicate n key ++ [stop]) = some (.ok (List.replicate n s)) := by
  induction n generalizing left with
  | zero =>
    show enter cwd left [stop] = _
    unfold enter
    rw [if_pos hstop]
    rfl
  | succ n ih =>
    obtain ⟨left', rfl⟩ : ∃ left', left = left' + 1 := ⟨left - 1, by omega⟩
    show enter cwd (left' + 1) (key :: (List.replicate n key ++ [stop])) = _
    unfold enter
    simp only [hkey, hread, ih (Nat.le_of_succ_le_succ hn), Bool.true_eq_false, if_false]
    rfl

def onePart : script_main_key where
  main_name := "partition".toList
  subs := [⟨"name".toList, 2, 1, [0x70, 0, 0, 0]⟩, ⟨"size".toList, 1, 1, [1, 0, 0, 0]⟩]

/-- A script with 121 partitions of one sector. -/
def manyParts : Script where
  keys := ⟨"mbr".toList, []⟩ :: ⟨"partition_start".toList, []⟩ :: List.replicate 121 onePart
  behind := [⟨"name".toList, []⟩]

/-- There are more partitions than entries. -/
theorem many_parts_not : ¬ FailsOrRight manyParts none 4 32 := by
  rintro ⟨r, hr, hgood⟩
  have hstart : manyParts.startIdx = some (0 + 1) := rfl
  have hone : readSection none onePart = some (.ok ⟨[0x70], 0, 0, 0, 1, none⟩) := rfl
  have hdrop : manyParts.slots.drop (0 + 2) =
    List.replicate 121 onePart ++ [⟨"name".toList, []⟩] := rfl
  rw [update_eq_of_start hstart, hdrop, enter_replicate (by decide) hone (by decide)
    (by decide)] at hr
  obtain ⟨array, happ, rfl⟩ := Option.map_eq_some_iff.1 hr
  obtain ⟨hi, hmade⟩ := (Made.empty 32).foldl
    (by rw [List.length_replicate]; decide :
      (⟨[], [], false⟩ : Tables).array.length +
        (List.replicate 121 (⟨[0x70], 0, 0, 0, 1, none⟩ : Section)).length ≤ 2 ^ 31)
  have hlt : (List.foldl (Tables.add 32) ⟨[], [], false⟩
      (List.replicate 121 (⟨[0x70], 0, 0, 0, 1, none⟩ : Section))).array.length < 2 ^ 31 := by
    rw [hmade.length_eq, List.nil_append, List.length_replicate]
    decide
  have hlong := (appendUdisk_eq_some hmade hlt happ).1
  have hlen := congrArg List.length hlong
  have hmany := length_listing ([] ++ List.replicate 121 (⟨[0x70], 0, 0, 0, 1, none⟩ : Section))
  rw [List.length_map] at hlen
  have hfew := hgood.few
  rw [List.nil_append, List.length_replicate] at hmany
  have harray : array.length ≤ 120 := hfew.2.trans_le hfew.1
  rw [hlen, List.nil_append] at harray
  omega

end Melis.UpdateMbr
