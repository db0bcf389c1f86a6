import Melis.Libcore.CdxBuffer

/-!
# What a buffer shows

`Inv` ties a buffer to the window of its bytes. Each call keeps it, in whichever way it makes
room, just if `Align2Power` ends; it does for sizes up to 2^30. So a run upholds that
the buffer shows the bytes of the window just if its calls are `Bounded`.
-/

namespace Melis.Libcore

open Lib

/-! ## The capacity -/

variable {val rounds ret k : Nat}

/-- `ret` after `k` rounds. -/
theorem shift_round (hk : k < 10) : 2 ^ (10 + 2 * k) <<< 2 % 2 ^ 32 = 2 ^ (10 + 2 * (k + 1)) := by
  rw [Nat.shiftLeft_eq, ← Nat.pow_add]
  exact Nat.mod_eq_of_lt (Nat.pow_lt_pow_right Nat.one_lt_two (by omega))

theorem Align2PowerLoop_ends (hval : val ≤ 2 ^ 30) (hk : k ≤ 10) (hrounds : 10 - k < rounds) :
    ∃ r, Align2PowerLoop val rounds (2 ^ (10 + 2 * k)) = some r ∧ val ≤ r ∧ r ≤ 2 ^ 30 := by
  induction rounds generalizing k with
  | zero => cases hrounds
  | succ rounds ih =>
    unfold Align2PowerLoop
    split
    next hlt =>
      have hk10 : k ≠ 10 := by
        rintro rfl
        exact absurd hval (Nat.not_le.2 hlt)
      rw [shift_round (by omega)]
      exact ih (by omega) (by omega)
    next hge =>
      exact ⟨_, rfl, Nat.not_lt.1 hge, Nat.pow_le_pow_right Nat.two_pos (by omega)⟩

/-- From 2^30 on the shift gives 0, and 0 stays. -/
theorem Align2PowerLoop_zero (hval : 0 < val) : Align2PowerLoop val rounds 0 = none := by
  induction rounds with
  | zero => rfl
  | succ rounds ih =>
    unfold Align2PowerLoop
    rw [if_pos hval]
    exact ih

theorem Align2PowerLoop_runs (hval : 2 ^ 30 < val) (hk : k ≤ 10) :
    Align2PowerLoop val rounds (2 ^ (10 + 2 * k)) = none := by
  induction rounds generalizing k with
  | zero => rfl
  | succ rounds ih =>
    have hle : 2 ^ (10 + 2 * k) ≤ 2 ^ 30 := Nat.pow_le_pow_right Nat.two_pos (by omega)
    unfold Align2PowerLoop
    rw [if_pos (Nat.lt_of_le_of_lt hle hval)]
    rcases Nat.lt_or_eq_of_le hk with hlt | rfl
    · rw [shift_round hlt]
      exact ih hlt
    · exact Align2PowerLoop_zero (Nat.zero_lt_of_lt hval)

theorem Align2Power_ends (hval : val ≤ 2 ^ 30) :
    ∃ r, Align2Power val = some r ∧ val ≤ r ∧ r ≤ 2 ^ 30 :=
  Align2PowerLoop_ends (k := 0) hval (Nat.zero_le 10) (by decide)

/-- The twelve rounds are no bound of the model: no more of them end the loop. -/
theorem Align2Power_runs (hval : 2 ^ 30 < val) :
    Align2Power val = none ∧ ∀ rounds, Align2PowerLoop val rounds 1024 = none := by
  have h : ∀ rounds, Align2PowerLoop val rounds (2 ^ (10 + 2 * 0)) = none := fun _ =>
    Align2PowerLoop_runs hval (Nat.zero_le 10)
  exact ⟨h 12, h⟩

/-! ## The invariant -/

namespace CdxBuffer

variable {impl impl' : CdxBufferImplS} {w : Window UInt8} {s : CdxBufferImplS × Window UInt8}
  {i : Call × (Nat → UInt8)} {fresh : Nat → UInt8} {data : List UInt8}
  {offset len size capacity : Nat}

structure Inv (s : CdxBufferImplS × Window UInt8) : Prop where
  capacity : s.1.mCapacity ≤ 2 ^ 30
  offset : s.1.mRangeOffset = s.2.before.length
  len : s.1.mRangeLen = s.2.seen.length
  known : Known s.2.cells s.1.mData
  stored : s.2.cells.length ≤ s.1.mCapacity

theorem Inv.room (h : Inv s) : s.1.mRangeOffset + s.1.mRangeLen ≤ s.1.mCapacity := by
  have hlen := Window.length_cells (w := s.2)
  have hstored := h.stored
  rw [h.offset, h.len]
  omega

theorem Inv.describes (h : Inv s) : Describes s := by
  refine ⟨h.len, ?_, h.room⟩
  have hseen := (Window.known_iff.1 h.known).2.1
  rwa [← h.offset] at hseen

theorem memcpy_eq (hroom : offset + data.length ≤ impl.mCapacity) :
    impl.memcpy offset data =
      some { impl with mData := Memory.memcpy impl.mData offset data } := by
  rw [CdxBufferImplS.memcpy, if_pos hroom]

theorem memcpy_zero {mem : Nat → UInt8} {n : Nat} {x : UInt8} (hx : data[n]? = some x) :
    Memory.memcpy mem 0 data n = x := by
  rw [← Nat.zero_add n]
  exact Memory.memcpy_in hx

/-! ## Append -/

/-- The block after `onWrite` has made room. -/
structure Grown (impl impl' : CdxBufferImplS) (size : Nat) : Prop where
  room : size ≤ impl'.mCapacity
  capacity : impl'.mCapacity ≤ 2 ^ 30
  larger : impl.mCapacity ≤ impl'.mCapacity
  offset : impl'.mRangeOffset = impl.mRangeOffset
  len : impl'.mRangeLen = impl.mRangeLen
  data : ∀ i < impl.mCapacity, impl'.mData i = impl.mData i

theorem grow_spec (fresh : Nat → UInt8) (hcap : impl.mCapacity ≤ 2 ^ 30) (hsize : size ≤ 2 ^ 30) :
    ∃ impl', impl.grow fresh size = some impl' ∧ Grown impl impl' size := by
  unfold CdxBufferImplS.grow
  split
  next hlt =>
    obtain ⟨r, hr, hsize, hr30⟩ := Align2Power_ends hsize
    rw [hr]
    refine ⟨_, rfl, hsize, hr30, hlt.le.trans hsize, rfl, rfl, fun i hi => ?_⟩
    have hcopy : Memory.copyN fresh 0 impl.mData 0 impl.mCapacity (0 + i) = impl.mData (0 + i) :=
      Memory.copyN_in hi
    rwa [Nat.zero_add] at hcopy
  next hge => exact ⟨impl, rfl, Nat.not_lt.1 hge, hcap, le_rfl, rfl, rfl, fun _ _ => rfl⟩

theorem append_spec (fresh : Nat → UInt8) (h : Inv (impl, w))
    (hlen : impl.mRangeOffset + impl.mRangeLen + data.length ≤ 2 ^ 30) :
    ∃ impl', impl.append fresh data = some impl' ∧ Inv (impl', w.append data) := by
  have hroom : impl.mRangeOffset + impl.mRangeLen ≤ impl.mCapacity := h.room
  obtain ⟨hcap, hoff, hseen, hknown, hstored⟩ := h
  simp only at hcap hoff hseen hknown hstored
  have hend : impl.mRangeOffset + impl.mRangeLen = w.before.length + w.seen.length := by
    rw [hoff, hseen]
  obtain ⟨impl', hgrow, hg⟩ := grow_spec fresh hcap hlen
  have happend : impl.append fresh data = some
      { impl' with
        mData := Memory.memcpy impl'.mData (impl.mRangeOffset + impl.mRangeLen) data
        mRangeLen := impl.mRangeLen + data.length } := by
    unfold CdxBufferImplS.append CdxBufferImplS.onWrite
    rw [Nat.mod_eq_of_lt (by omega : impl.mRangeOffset + impl.mRangeLen < 2 ^ 32),
      Nat.mod_eq_of_lt (by omega : _ + data.length < 2 ^ 32), hgrow, Option.bind_some,
      memcpy_eq hg.room, Option.map_some]
    simp only [CdxBufferImplS.onSetRange, hg.len]
    rw [Nat.mod_eq_of_lt (by omega)]
  have hknown' : Known (w.append data).cells
      (Memory.memcpy impl'.mData (impl.mRangeOffset + impl.mRangeLen) data) := by
    rw [hend]
    refine Window.known_append hknown (fun i x hx => Memory.memcpy_in hx) ?_ ?_
    · intro i hi
      rw [Memory.memcpy_out (.inl hi)]
      exact hg.data i (by omega)
    · intro i hback hi
      rw [Memory.memcpy_out (.inr hback)]
      exact hg.data i (hi.trans_le hstored)
  refine ⟨_, happend, hg.capacity, hg.offset.trans hoff, ?_, hknown', ?_⟩
  · rw [Window.length_append_seen]
    exact congrArg (· + data.length) hseen
  · rw [Window.length_append_cells, ← hend]
    exact max_le (hstored.trans hg.larger) hg.room

theorem append_none (h : Inv (impl, w)) (hdata : data.length < 2 ^ 31)
    (hlen : 2 ^ 30 < impl.mRangeOffset + impl.mRangeLen + data.length) :
    impl.append fresh data = none := by
  have hcap : impl.mCapacity ≤ 2 ^ 30 := h.capacity
  have hroom : impl.mRangeOffset + impl.mRangeLen ≤ impl.mCapacity := h.room
  unfold CdxBufferImplS.append CdxBufferImplS.onWrite CdxBufferImplS.grow
  rw [Nat.mod_eq_of_lt (by omega : impl.mRangeOffset + impl.mRangeLen < 2 ^ 32),
    Nat.mod_eq_of_lt (by omega : _ + data.length < 2 ^ 32), if_pos (hcap.trans_lt hlen),
    (Align2Power_runs hlen).1]
  rfl

/-! ## Insert -/

/-- There is room before the range. -/
theorem insert_before (h : Inv (impl, w)) (hdata : data.length ≤ impl.mRangeOffset) :
    ∃ impl', impl.insert fresh data = some impl' ∧ Inv (impl', w.insert data) := by
  have hroom : impl.mRangeOffset + impl.mRangeLen ≤ impl.mCapacity := h.room
  obtain ⟨hcap, hoff, hseen, hknown, hstored⟩ := h
  simp only at hcap hoff hseen hknown hstored
  have hcells := Window.length_cells (w := w)
  have hle : data.length ≤ w.before.length := hdata.trans_eq hoff
  have hinsert : impl.insert fresh data = some
      { impl with
        mData := Memory.memcpy impl.mData (impl.mRangeOffset - data.length) data
        mRangeOffset := impl.mRangeOffset - data.length
        mRangeLen := impl.mRangeLen + data.length } := by
    unfold CdxBufferImplS.insert
    rw [if_pos hdata, Nat.mod_eq_of_lt (by omega), memcpy_eq (by simp only; omega)]
  have hknown' : Known (w.insert data).cells
      (Memory.memcpy impl.mData (impl.mRangeOffset - data.length) data) := by
    rw [hoff]
    refine Window.known_insert hknown (fun i x hx => Memory.memcpy_in hx) ?_ ?_ ?_
    · intro i hi
      exact Memory.memcpy_out (.inl hi)
    · intro i _
      rw [max_eq_left hle]
      exact Memory.memcpy_out (.inr (by omega))
    · intro i hback _
      rw [max_eq_left hle] at hback
      exact Memory.memcpy_out (.inr (by omega))
  refine ⟨_, hinsert, hcap, ?_, ?_, hknown', ?_⟩
  · rw [Window.length_insert_before]
    exact congrArg (· - data.length) hoff
  · rw [Window.length_insert_seen]
    exact congrArg (· + data.length) hseen
  · rw [Window.length_insert_cells]
    exact max_le hstored (by simp only at hoff hseen ⊢; omega)

/-- A block that has the new bytes in front and those seen behind them. -/
theorem known_moved {mem mem' : Nat → UInt8} (hknown : Known w.cells mem)
    (hdata : w.before.length < data.length)
    (hnew : ∀ i x, data[i]? = some x → mem' i = x)
    (hseen : ∀ i < w.seen.length, mem' (data.length + i) = mem (w.before.length + i))
    (hback : ∀ i, data.length + w.seen.length ≤ i → i < w.cells.length → mem' i = mem i) :
    Known (w.insert data).cells mem' := by
  have hzero : w.before.length - data.length = 0 := Nat.sub_eq_zero_of_le hdata.le
  refine Window.known_insert hknown ?_ ?_ ?_ ?_
  · intro i x hx
    rw [hzero, Nat.zero_add]
    exact hnew i x hx
  · intro i hi
    rw [hzero] at hi
    exact absurd hi (Nat.not_lt_zero i)
  · rw [max_eq_right hdata.le]
    exact hseen
  · rw [max_eq_right hdata.le]
    exact hback

/-- There is room in the block, and the bytes seen move. -/
theorem insert_moved (h : Inv (impl, w)) (hdata : impl.mRangeOffset < data.length)
    (hroom : impl.mRangeLen + data.length ≤ impl.mCapacity) :
    ∃ impl', impl.insert fresh data = some impl' ∧ Inv (impl', w.insert data) := by
  have hrange : impl.mRangeOffset + impl.mRangeLen ≤ impl.mCapacity := h.room
  obtain ⟨hcap, hoff, hseen, hknown, hstored⟩ := h
  simp only at hcap hoff hseen hknown hstored
  have hinsert : impl.insert fresh data = some
      { impl with
        mData := Memory.memcpy (Memory.copyN impl.mData data.length impl.mData
          impl.mRangeOffset impl.mRangeLen) 0 data
        mRangeOffset := 0
        mRangeLen := impl.mRangeLen + data.length } := by
    unfold CdxBufferImplS.insert
    rw [if_neg (Nat.not_le.2 hdata), Nat.mod_eq_of_lt (by omega), if_pos hroom,
      if_pos ⟨by omega, hrange⟩, memcpy_eq (by simp only; omega)]
  have hknown' : Known (w.insert data).cells (Memory.memcpy (Memory.copyN impl.mData data.length
      impl.mData impl.mRangeOffset impl.mRangeLen) 0 data) := by
    refine known_moved hknown (hoff ▸ hdata) (fun i x hx => memcpy_zero hx) ?_ ?_
    · intro i hi
      rw [Memory.memcpy_out (.inr (by omega)), Memory.copyN_in (by omega), hoff]
    · intro i hback _
      rw [Memory.memcpy_out (.inr (by omega)), Memory.copyN_out (.inr (by omega))]
  refine ⟨_, hinsert, hcap, ?_, ?_, hknown', ?_⟩
  · rw [Window.length_insert_before]
    exact (Nat.sub_eq_zero_of_le (by omega)).symm
  · rw [Window.length_insert_seen]
    exact congrArg (· + data.length) hseen
  · rw [Window.length_insert_cells]
    exact max_le hstored (by simp only; omega)

/-- A new block: nothing stored lies behind the range that it would lose. -/
theorem insert_fresh (h : Inv (impl, w)) (hdata : impl.mRangeOffset < data.length)
    (hroom : impl.mCapacity < impl.mRangeLen + data.length)
    (hlen : impl.mRangeLen + data.length ≤ 2 ^ 30) :
    ∃ impl', impl.insert fresh data = some impl' ∧ Inv (impl', w.insert data) := by
  have hrange : impl.mRangeOffset + impl.mRangeLen ≤ impl.mCapacity := h.room
  obtain ⟨hcap, hoff, hseen, hknown, hstored⟩ := h
  simp only at hcap hoff hseen hknown hstored
  obtain ⟨r, hr, hle, hr30⟩ := Align2Power_ends hlen
  have hinsert : impl.insert fresh data = some
      { mData := Memory.copyN (Memory.memcpy fresh 0 data) data.length impl.mData
          impl.mRangeOffset impl.mRangeLen
        mCapacity := r
        mRangeOffset := 0
        mRangeLen := impl.mRangeLen + data.length } := by
    unfold CdxBufferImplS.insert CdxBufferImplS.insertFresh
    rw [if_neg (Nat.not_le.2 hdata), Nat.mod_eq_of_lt (by omega), if_neg (Nat.not_le.2 hroom), hr,
      Option.bind_some, if_pos ⟨by omega, hrange⟩]
  have hknown' : Known (w.insert data).cells (Memory.copyN (Memory.memcpy fresh 0 data)
      data.length impl.mData impl.mRangeOffset impl.mRangeLen) := by
    refine known_moved hknown (hoff ▸ hdata) ?_ ?_ ?_
    · intro i x hx
      obtain ⟨hi, -⟩ := List.getElem?_eq_some_iff.1 hx
      rw [Memory.copyN_out (.inl hi)]
      exact memcpy_zero hx
    · intro i hi
      rw [Memory.copyN_in (by omega), hoff]
    · intro i hback hi
      omega
  refine ⟨_, hinsert, hr30, ?_, ?_, hknown', ?_⟩
  · rw [Window.length_insert_before]
    exact (Nat.sub_eq_zero_of_le (by omega)).symm
  · rw [Window.length_insert_seen]
    exact congrArg (· + data.length) hseen
  · rw [Window.length_insert_cells]
    exact max_le (by simp only; omega) (by simp only; omega)

theorem insert_spec (fresh : Nat → UInt8) (h : Inv (impl, w))
    (hlen : impl.mRangeLen + data.length ≤ 2 ^ 30) :
    ∃ impl', impl.insert fresh data = some impl' ∧ Inv (impl', w.insert data) := by
  rcases Nat.lt_or_ge impl.mRangeOffset data.length with hlt | hge
  · rcases Nat.lt_or_ge impl.mCapacity (impl.mRangeLen + data.length) with hsmall | hroom
    · exact insert_fresh h hlt hsmall hlen
    · exact insert_moved h hlt hroom
  · exact insert_before h hge

theorem insert_none (h : Inv (impl, w)) (hdata : data.length < 2 ^ 31)
    (hlen : 2 ^ 30 < impl.mRangeLen + data.length) : impl.insert fresh data = none := by
  have hcap : impl.mCapacity ≤ 2 ^ 30 := h.capacity
  have hroom : impl.mRangeOffset + impl.mRangeLen ≤ impl.mCapacity := h.room
  unfold CdxBufferImplS.insert CdxBufferImplS.insertFresh
  rw [if_neg (by omega), Nat.mod_eq_of_lt (by omega), if_neg (by omega), (Align2Power_runs hlen).1]
  rfl

/-! ## Ranges -/

theorem select_inv (h : Inv (impl, w)) (hroom : offset + len ≤ impl.mCapacity) :
    Inv ({ impl with mRangeOffset := offset, mRangeLen := len }, w.select offset len) where
  capacity := h.capacity
  offset := (Window.length_select_before offset len).symm
  len := (Window.length_select_seen offset len).symm
  known := Window.known_select h.known
  stored := by
    rw [Window.cells_select, Window.length_padded]
    exact max_le h.stored hroom

theorem seekRange_eq {left right : Int} (hcap : impl.mCapacity ≤ 2 ^ 30)
    (hrange : impl.mRangeOffset + impl.mRangeLen ≤ impl.mCapacity)
    (hleft : 0 ≤ impl.mRangeOffset + left) (hlen : 0 ≤ impl.mRangeLen + (right - left))
    (hroom : impl.mRangeOffset + impl.mRangeLen + right ≤ impl.mCapacity) :
    impl.seekRange left right =
      { impl with
        mRangeOffset := (impl.mRangeOffset + left).toNat
        mRangeLen := (impl.mRangeLen + (right - left)).toNat } := by
  unfold CdxBufferImplS.seekRange
  rw [i32_eq (by omega) (by omega), i32_eq (by omega) (by omega)]
  unfold u32
  rw [Int.emod_eq_of_lt hleft (by omega), Int.emod_eq_of_lt hlen (by omega)]

/-! ## Runs -/

theorem exact_of_some {impl' : CdxBufferImplS} (hC : Bounded s i)
    (hcall : call i.2 s.1 i.1 = some impl') (hI : Inv (impl', text s.2 i.1)) :
    buffer.Exact Inv Describes (fun _ _ _ => True) Bounded s i :=
  .kept hC _ (by simp only [buffer, hcall, Option.map_some]) trivial hI

theorem exact_of_none (hC : ¬ Bounded s i) (hcall : call i.2 s.1 i.1 = none) :
    buffer.Exact Inv Describes (fun _ _ _ => True) Bounded s i := by
  refine .lost hC fun s' hs => ?_
  have hnone : buffer.next s i = none := by
    simp only [buffer, hcall, Option.map_none]
  cases hnone.symm.trans hs

/-- What one call does. -/
theorem step_exact (h : Inv s) (hp : Promised s i) :
    buffer.Exact Inv Describes (fun _ _ _ => True) Bounded s i := by
  obtain ⟨impl, w⟩ := s
  obtain ⟨c, fresh⟩ := i
  cases c with
  | append data =>
    rcases Nat.lt_or_ge (2 ^ 30) (impl.mRangeOffset + impl.mRangeLen + data.length) with hlt | hle
    · exact exact_of_none (Nat.not_le.2 hlt) (append_none h hp hlt)
    · obtain ⟨impl', happend, hI⟩ := append_spec fresh h hle
      exact exact_of_some hle happend hI
  | insert data =>
    rcases Nat.lt_or_ge (2 ^ 30) (impl.mRangeLen + data.length) with hlt | hle
    · exact exact_of_none (Nat.not_le.2 hlt) (insert_none h hp hlt)
    · obtain ⟨impl', hinsert, hI⟩ := insert_spec fresh h hle
      exact exact_of_some hle hinsert hI
  | setRange offset len =>
    by_cases hroom : offset + len ≤ impl.mCapacity
    · exact exact_of_some hroom rfl (select_inv h hroom)
    · refine .lost hroom fun s' hs _ hP => hroom ?_
      cases hs
      exact hP.room
  | seekRange left right =>
    obtain ⟨hleft, hlen, hroom⟩ := hp
    refine exact_of_some trivial (congrArg some (seekRange_eq h.capacity h.room hleft hlen hroom)) ?_
    simp only [text]
    have hoff : w.before.length = impl.mRangeOffset := h.offset.symm
    have hseen : w.seen.length = impl.mRangeLen := h.len.symm
    rw [hoff, hseen]
    exact select_inv h (by simp only at hleft hlen hroom; omega)

/-- The window of a buffer with `initData`. -/
def start (initData : List UInt8) : Window UInt8 where
  before := []
  seen := initData.map some
  behind := []

theorem create_spec (fresh : Nat → UInt8) (hcap : capacity ≤ 2 ^ 30)
    (hlen : data.length ≤ capacity) :
    ∃ impl, CdxBufferCreate fresh capacity data = some impl ∧ Inv (impl, start data) := by
  obtain ⟨r, hr, hle, hr30⟩ := Align2Power_ends hcap
  have hcells : (start data).cells = data.map some := by simp [Window.cells, start]
  have hroom : 0 + data.length ≤ r := by omega
  unfold CdxBufferCreate
  rw [hr, Option.bind_some, memcpy_eq hroom]
  refine ⟨_, rfl, hr30, rfl, (List.length_map ..).symm, ?_, ?_⟩
  · rw [hcells, Known.map_some_iff]
    intro i x hx
    exact memcpy_zero hx
  · rw [hcells, List.length_map]
    exact hlen.trans hle

theorem create_none (hcap : 2 ^ 30 < capacity) : CdxBufferCreate fresh capacity data = none := by
  unfold CdxBufferCreate
  rw [(Align2Power_runs hcap).1]
  rfl

/-- A buffer that is created and then called shows the bytes of its window at every point of
the run, inside its block, just if neither `capacity` nor a call needs more than 2^30 bytes and
no range is set beyond the block. -/
theorem buffer_describes_iff (fresh : Nat → UInt8) (capacity : Nat) (initData : List UInt8)
    (calls : List (Call × (Nat → UInt8))) (hlen : initData.length ≤ capacity)
    (hp : ∀ impl, CdxBufferCreate fresh capacity initData = some impl →
      buffer.Meets Promised (impl, start initData) calls) :
    (∃ impl, CdxBufferCreate fresh capacity initData = some impl ∧
        buffer.Upholds Describes (fun _ _ _ => True) (impl, start initData) calls) ↔
      capacity ≤ 2 ^ 30 ∧ ∀ impl, CdxBufferCreate fresh capacity initData = some impl →
        buffer.Meets Bounded (impl, start initData) calls := by
  rcases Nat.lt_or_ge (2 ^ 30) capacity with hlt | hcap
  · have hnone : CdxBufferCreate fresh capacity initData = none := create_none hlt
    refine iff_of_false ?_ fun h => absurd h.1 (Nat.not_le.2 hlt)
    rintro ⟨impl, himpl, -⟩
    cases hnone.symm.trans himpl
  · obtain ⟨impl, himpl, hI⟩ := create_spec fresh hcap hlen
    have hruns := Machine.upholds_iff_meets (fun _ => Inv.describes) (fun _ _ => step_exact) hI
      (hp impl himpl)
    constructor
    · rintro ⟨impl', himpl', hup⟩
      cases himpl.symm.trans himpl'
      refine ⟨hcap, fun impl' himpl' => ?_⟩
      cases himpl.symm.trans himpl'
      exact hruns.1 hup
    · rintro ⟨-, hm⟩
      exact ⟨impl, himpl, hruns.2 (hm impl himpl)⟩

theorem buffer_describes_small :
    ∃ impl, CdxBufferCreate (fun _ => 0) 4 [2, 3] = some impl ∧
      buffer.Upholds Describes (fun _ _ _ => True) (impl, start [2, 3])
        [(.append [4], fun _ => 0), (.insert [1], fun _ => 0), (.seekRange 1 0, fun _ => 0)] := by
  refine (buffer_describes_iff _ _ _ _ (by decide) fun impl h => ?_).2 ⟨by decide, fun impl h => ?_⟩
  · cases h
    decide
  · cases h
    decide

/-- No block of `2 ^ 30 + 1` bytes is found. -/
theorem buffer_describes_not :
    ¬ ∃ impl, CdxBufferCreate (fun _ => 0) (2 ^ 30 + 1) [] = some impl ∧
      buffer.Upholds Describes (fun _ _ _ => True) (impl, start []) [] := by
  rintro ⟨impl, himpl, -⟩
  cases (create_none (by decide)).symm.trans himpl

end CdxBuffer

end Melis.Libcore
