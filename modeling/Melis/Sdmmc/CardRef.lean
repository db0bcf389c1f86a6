import Melis.Lib.Run
import Melis.Sdmmc.DrvOrder

/-!
# The users of a card

`mmc_card_open` counts a user of the card in `card_info[card_id]`, `mmc_card_close`
takes it away again, and `mmc_card_delete` refuses a card that has one (`core.c`).
The calls of the block device (`sdmmc_drv.c`) open the card at their start. The
geometry that a read and a write ask for is a call of `sunxi_sdmmc_control`, which
opens and closes the card itself.
-/

namespace Melis.Sdmmc.Drv

open Lib Function

/-! ## `card_info` -/

/-- `struct mmc_card`. -/
structure MmcCard where
  card : Card
  id : Nat
  ref : UInt16

abbrev CardInfo := Nat → Option MmcCard

namespace CardInfo

variable (cardInfo : CardInfo) (cardId : Nat)

/-- `card != NULL && card->id == card_id`. -/
def find : Option MmcCard := (cardInfo cardId).filter fun card => card.id = cardId

def setRef (ref : UInt16) : CardInfo :=
  update cardInfo cardId ((cardInfo cardId).map fun card => { card with ref })

/-- The count that stands in a slot. -/
def ref : Option UInt16 := (cardInfo cardId).map MmcCard.ref

end CardInfo

def mmcCardOpen (cardId : Nat) (cardInfo : CardInfo) : Option MmcCard × CardInfo :=
  match cardInfo.find cardId with
  | none => (none, cardInfo)
  | some card => (some { card with ref := card.ref + 1 }, cardInfo.setRef cardId (card.ref + 1))

def mmcCardClose (cardId : Nat) (cardInfo : CardInfo) : Int × CardInfo :=
  match cardInfo.find cardId with
  | none => (-1, cardInfo)
  | some card =>
    if card.ref ≤ 0 then (-1, cardInfo) else (0, cardInfo.setRef cardId (card.ref - 1))

def mmcCardDelete (cardId : Nat) (cardInfo : CardInfo) : Int × CardInfo :=
  match cardInfo.find cardId with
  | none => (-1, cardInfo)
  | some card =>
    if card.ref ≠ 0 then (-1, cardInfo) else (0, update cardInfo cardId none)

/-! ## Control -/

inductive Cmd where
  | eraseAll
  | eraseSector
  | getTotalSize
  | getPageSize
  | getBlockSize
  | getGeome
  | other

/-- `struct rt_device_blk_geometry`. -/
structure Geometry where
  sectorCount : Nat
  bytesPerSector : Nat
  blockSize : Nat

def Geometry.totalBytes (geometry : Geometry) : Nat :=
  geometry.bytesPerSector * geometry.sectorCount

/-- What a command writes to its argument. -/
inductive Args where
  | none
  | size (n : Nat)
  | geometry (geometry : Geometry)

/-- The geometry that was zeroed before the command. -/
def Args.toGeometry : Args → Geometry
  | .geometry g => g
  | _ => ⟨0, 0, 0⟩

def Cmd.args (card : Card) : Cmd → Args
  | .getTotalSize => .size (card.capacity * 1024 % 2 ^ 32)
  | .getPageSize => .size 512
  | .getBlockSize => .size 512
  | .getGeome => .geometry ⟨card.sectorCount, 512, 512⟩
  | _ => .none

/-- A device is its `user_data`. -/
def sunxiSdmmcControl (dev : Option Nat) (cmd : Cmd) (cardInfo : CardInfo) :
    Int × Args × CardInfo :=
  match dev with
  -- -EINVAL
  | none => (-22, .none, cardInfo)
  | some cardId =>
    match mmcCardOpen cardId cardInfo with
    | (none, cardInfo) => (0, .none, cardInfo)
    | (some card, cardInfo) => (0, cmd.args card.card, (mmcCardClose cardId cardInfo).2)

/-! ## Read and write -/

section

variable (port : Card → Port) (cardId : Nat) (malloc : Bool) (fuel : Nat) (pos : Int) (size : Nat)

/-- The steps of a request for the `size` bytes that the card has, up to `out`. -/
def transfers (port : Port) (card : Card) (m : Mem) : Option Outcome :=
  let r := headStep port ⟨{ m with sectorBuf := fun _ => 0 }, pos, 0, 0, size⟩
  if r.2 ≠ 0 then some (Body.outcome r)
  else (bodyLoop port card.maxTransLen fuel r.1).map fun r =>
    if r.2 ≠ 0 then Body.outcome r else Body.outcome (tailStep port r.1)

/-- A request with its uses of the card; `malloc` is whether `sector_buf` has its memory. -/
def countedRequest (m : Mem) (cardInfo : CardInfo) : Option (Outcome × CardInfo) :=
  match mmcCardOpen cardId cardInfo with
  -- -EIO
  | (none, cardInfo) => some ((.error (-5), m), cardInfo)
  | (some card, cardInfo) =>
    if size = 0 then some ((.ok 0, m), cardInfo)
    else
      let control := sunxiSdmmcControl (some cardId) .getGeome cardInfo
      let geometry := control.2.1.toGeometry
      let cardInfo := control.2.2
      if control.1 ≠ 0 then some ((.error (-5), m), cardInfo)
      else if geometry.totalBytes ≤ u64 pos then some ((.ok 0, m), cardInfo)
      else
        let size := min (geometry.totalBytes - u64 pos) size
        -- -ENOMEM
        if (u32 pos % geometry.bytesPerSector ≠ 0 ∨ size % geometry.bytesPerSector ≠ 0) ∧
            malloc = false then
          some ((.error (-12), m), cardInfo)
        else
          (transfers fuel pos size (port card.card) card.card m).map fun o =>
            (o, (mmcCardClose cardId cardInfo).2)

end

/-! ## The calls -/

inductive Call where
  | read (cardId : Nat) (malloc : Bool) (fuel : Nat) (pos : Int) (size : Nat)
  | write (cardId : Nat) (malloc : Bool) (fuel : Nat) (pos : Int) (size : Nat)
  | control (dev : Option Nat) (cmd : Cmd)

/-- The calls that come back, and what they leave. -/
def calls : Machine (CardInfo × Mem) Call where
  next s
    | .read cardId malloc fuel pos size =>
      (countedRequest reader cardId malloc fuel pos size s.2 s.1).map fun r => (r.2, r.1.2)
    | .write cardId malloc fuel pos size =>
      (countedRequest writer cardId malloc fuel pos size s.2 s.1).map fun r => (r.2, r.1.2)
    | .control dev cmd => some ((sunxiSdmmcControl dev cmd s.1).2.2, s.2)

/-- A call leaves the count of every card as it was. -/
def KeepsRef (s : CardInfo × Mem) (call : Call) : Prop :=
  ∀ s', calls.next s call = some s' → ∀ cardId, s'.1.ref cardId = s.1.ref cardId

/-- A request gets past the checks that return early. -/
structure Unstopped (card : Card) (malloc : Bool) (pos : Int) (size : Nat) : Prop where
  some : size ≠ 0
  inside : u64 pos < card.totalBytes
  malloc : u32 pos % 512 ≠ 0 ∨ min (card.totalBytes - u64 pos) size % 512 ≠ 0 → malloc = true

/-- What a call asks of the card that it opens: that the count, of 16 bits, takes its users, and of
a request that it gets past its checks. -/
def Closes (s : CardInfo × Mem) : Call → Prop
  | .read cardId malloc _ pos size => ∀ card, s.1.find cardId = some card →
    Unstopped card.card malloc pos size ∧ card.ref.toNat + 2 < 2 ^ 16
  | .write cardId malloc _ pos size => ∀ card, s.1.find cardId = some card →
    Unstopped card.card malloc pos size ∧ card.ref.toNat + 2 < 2 ^ 16
  | .control dev _ => ∀ cardId card, dev = some cardId → s.1.find cardId = some card →
    card.ref.toNat + 1 < 2 ^ 16

section

variable {cardInfo : CardInfo} {cardId i : Nat} {card : MmcCard} {ref ref' : UInt16}

/-! ## The slots -/

namespace CardInfo

theorem find_eq_some : cardInfo.find cardId = some card ↔
    cardInfo cardId = some card ∧ card.id = cardId := by
  simp [find, Option.filter_eq_some_iff]

@[simp] theorem setRef_apply : cardInfo.setRef cardId ref cardId =
    (cardInfo cardId).map fun card => { card with ref } :=
  update_self ..

@[simp] theorem setRef_setRef : (cardInfo.setRef cardId ref).setRef cardId ref' =
    cardInfo.setRef cardId ref' := by
  unfold setRef
  rw [update_self, update_idem, Option.map_map]
  rfl

theorem find_setRef (h : cardInfo.find cardId = some card) (ref : UInt16) :
    (cardInfo.setRef cardId ref).find cardId = some { card with ref } := by
  obtain ⟨hslot, hid⟩ := find_eq_some.1 h
  apply find_eq_some.2
  exact ⟨by rw [setRef_apply, hslot]; rfl, hid⟩

theorem setRef_self (h : cardInfo.find cardId = some card) :
    cardInfo.setRef cardId card.ref = cardInfo := by
  obtain ⟨hslot, -⟩ := find_eq_some.1 h
  unfold setRef
  rw [hslot, Option.map_some, ← hslot]
  apply update_eq_self

/-- Every slot has a count, or none to set. -/
theorem exists_setRef_eq (cardInfo : CardInfo) (cardId : Nat) :
    ∃ ref, cardInfo = cardInfo.setRef cardId ref := by
  cases hslot : cardInfo cardId with
  | none =>
    refine ⟨0, ?_⟩
    rw [setRef, hslot, Option.map_none, ← hslot, update_eq_self]
  | some card =>
    refine ⟨card.ref, ?_⟩
    rw [setRef, hslot, Option.map_some, ← hslot, update_eq_self]

/-- What has the counts that were there is what was there. -/
theorem setRef_eq_of_ref (h : ∀ i, (cardInfo.setRef cardId ref).ref i = cardInfo.ref i) :
    cardInfo.setRef cardId ref = cardInfo := by
  have hsame := h cardId
  cases hslot : cardInfo cardId with
  | none => rw [setRef, hslot, Option.map_none, ← hslot, update_eq_self]
  | some card =>
    have href : ref = card.ref := by simpa [CardInfo.ref, hslot] using hsame
    rw [setRef, hslot, Option.map_some, href, ← hslot, update_eq_self]

/-- A count that is the same in every slot is the count that was there. -/
theorem ref_setRef_iff (h : cardInfo.find cardId = some card) :
    (∀ i, (cardInfo.setRef cardId ref).ref i = cardInfo.ref i) ↔ ref = card.ref := by
  constructor
  · intro hall
    obtain ⟨hslot, -⟩ := find_eq_some.1 h
    have hsame := hall cardId
    simpa [CardInfo.ref, hslot] using hsame
  · rintro rfl i
    rw [setRef_self h]

end CardInfo

open CardInfo

/-- What a close leaves of a count. -/
def closed (ref : UInt16) : UInt16 := if ref ≤ 0 then ref else ref - 1

theorem mmcCardClose_eq (h : cardInfo.find cardId = some card) :
    (mmcCardClose cardId cardInfo).2 = cardInfo.setRef cardId (closed card.ref) := by
  unfold mmcCardClose closed
  rw [h]
  dsimp only
  split
  · exact (setRef_self h).symm
  · rfl

theorem mmcCardOpen_eq (h : cardInfo.find cardId = some card) : mmcCardOpen cardId cardInfo =
    (some { card with ref := card.ref + 1 }, cardInfo.setRef cardId (card.ref + 1)) := by
  rw [mmcCardOpen, h]

theorem mmcCardOpen_none (h : cardInfo.find cardId = none) :
    mmcCardOpen cardId cardInfo = (none, cardInfo) := by
  rw [mmcCardOpen, h]

/-- A card without users is deleted. -/
theorem mmcCardDelete_eq (h : cardInfo.find cardId = some card) (hzero : card.ref = 0) :
    (mmcCardDelete cardId cardInfo).1 = 0 := by
  rw [mmcCardDelete, h]
  simp [hzero]

theorem sunxiSdmmcControl_eq (h : cardInfo.find cardId = some card) (cmd : Cmd) :
    sunxiSdmmcControl (some cardId) cmd cardInfo =
      (0, cmd.args card.card, cardInfo.setRef cardId (closed (card.ref + 1))) := by
  have hopened := find_setRef h (card.ref + 1)
  unfold sunxiSdmmcControl
  dsimp only
  rw [mmcCardOpen_eq h]
  dsimp only
  rw [mmcCardClose_eq hopened, setRef_setRef]

/-! ## Counts of 16 bits -/

theorem closed_toNat : (closed ref).toNat = ref.toNat - 1 := by
  unfold closed
  split
  · rename_i hle
    have hzero : ref.toNat ≤ 0 := hle
    omega
  · rename_i hpos
    have hlt : ¬ ref.toNat ≤ 0 := hpos
    have hone : (1 : UInt16) ≤ ref := UInt16.le_iff_toNat_le.2 (Nat.not_le.1 hlt)
    exact UInt16.toNat_sub_of_le _ _ hone

theorem opened_toNat : (ref + 1).toNat = (ref.toNat + 1) % 2 ^ 16 := UInt16.toNat_add ..

theorem closed_open : closed (ref + 1) = ref ↔ ref.toNat + 1 < 2 ^ 16 := by
  have hlt := ref.toNat_lt
  rw [← UInt16.toNat_inj, closed_toNat, opened_toNat]
  omega

/-- A count of two users, of which the second has gone. -/
theorem closed_opened_ne : closed (ref + 1 + 1) ≠ ref := by
  have hlt := ref.toNat_lt
  rw [Ne, ← UInt16.toNat_inj, closed_toNat, opened_toNat, opened_toNat]
  omega

theorem closed_open_twice : closed (closed (ref + 1 + 1)) = ref ↔ ref.toNat + 2 < 2 ^ 16 := by
  have hlt := ref.toNat_lt
  rw [← UInt16.toNat_inj, closed_toNat, closed_toNat, opened_toNat, opened_toNat]
  omega

theorem opened_ne : ref + 1 ≠ ref := by
  have hlt := ref.toNat_lt
  rw [Ne, ← UInt16.toNat_inj, opened_toNat]
  omega

end

/-! ## The calls -/

section

variable {port : Card → Port} {cardInfo : CardInfo} {cardId fuel size : Nat} {card : MmcCard}
  {malloc : Bool} {pos : Int} {m : Mem} {r : Outcome × CardInfo} {s s' : CardInfo × Mem}
  {call : Call} {cs : List Call}

open CardInfo

/-- Without a card nothing is counted. -/
theorem countedRequest_none (h : cardInfo.find cardId = none) :
    countedRequest port cardId malloc fuel pos size m cardInfo =
      some ((.error (-5), m), cardInfo) := by
  unfold countedRequest
  rw [mmcCardOpen_none h]

theorem countedRequest_empty (h : cardInfo.find cardId = some card) :
    countedRequest port cardId malloc fuel pos 0 m cardInfo =
      some ((.ok 0, m), cardInfo.setRef cardId (card.ref + 1)) := by
  unfold countedRequest
  rw [mmcCardOpen_eq h]
  rfl

/-- Behind its checks a request has opened the card twice and closed it once. -/
theorem countedRequest_some (h : cardInfo.find cardId = some card) (hsize : size ≠ 0) :
    countedRequest port cardId malloc fuel pos size m cardInfo =
      if card.card.totalBytes ≤ u64 pos then
        some ((.ok 0, m), cardInfo.setRef cardId (closed (card.ref + 1 + 1)))
      else if (u32 pos % 512 ≠ 0 ∨ min (card.card.totalBytes - u64 pos) size % 512 ≠ 0) ∧
          malloc = false then
        some ((.error (-12), m), cardInfo.setRef cardId (closed (card.ref + 1 + 1)))
      else
        (transfers fuel pos (min (card.card.totalBytes - u64 pos) size) (port card.card) card.card
          m).map fun o => (o, cardInfo.setRef cardId (closed (closed (card.ref + 1 + 1)))) := by
  have hopened := find_setRef h (card.ref + 1)
  have hcontrol := sunxiSdmmcControl_eq hopened .getGeome
  have hclose := mmcCardClose_eq (find_setRef h (closed (card.ref + 1 + 1)))
  rw [setRef_setRef] at hcontrol hclose
  unfold countedRequest
  rw [mmcCardOpen_eq h]
  dsimp only
  rw [if_neg hsize, hcontrol]
  dsimp only
  rw [hclose]
  rfl

/-- The outcome is the one of the request on the card found, whose geometry is read. -/
theorem countedRequest_outcome (h : cardInfo.find cardId = some card) :
    (countedRequest port cardId malloc fuel pos size m cardInfo).map Prod.fst =
      request (port card.card) card.card ⟨true, 0, malloc⟩ fuel pos size m := by
  by_cases hsize : size = 0
  · subst hsize
    rw [countedRequest_empty h]
    rfl
  rw [countedRequest_some h hsize]
  unfold request toLoop
  dsimp only
  rw [if_neg (show ¬ true = false from Bool.noConfusion), if_neg hsize,
    if_neg (show ¬ (0 : Int) ≠ 0 from not_not.2 rfl)]
  by_cases hin : card.card.totalBytes ≤ u64 pos
  · rw [if_pos hin, if_pos hin]
    rfl
  rw [if_neg hin, if_neg hin]
  split
  · rfl
  · rw [Option.map_map]
    unfold transfers
    dsimp only
    split
    · rfl
    · exact congrFun Option.map_id _

theorem transferred (n : Nat) (ref : UInt16)
    (h : (transfers fuel pos n (port card.card) card.card m).map (fun o =>
      (o, cardInfo.setRef cardId ref)) = some r) : r.2 = cardInfo.setRef cardId ref := by
  obtain ⟨o, -, rfl⟩ := Option.map_eq_some_iff.1 h
  rfl

/-- A request keeps the count just if it closes the card that it has opened. -/
theorem countedRequest_keeps (h : cardInfo.find cardId = some card)
    (hr : countedRequest port cardId malloc fuel pos size m cardInfo = some r) :
    (∀ i, r.2.ref i = cardInfo.ref i) ↔
      Unstopped card.card malloc pos size ∧ card.ref.toNat + 2 < 2 ^ 16 := by
  by_cases hsize : size = 0
  · subst hsize
    rw [countedRequest_empty h] at hr
    cases hr
    rw [ref_setRef_iff h]
    exact iff_of_false opened_ne fun hpass => hpass.1.some rfl
  rw [countedRequest_some h hsize] at hr
  by_cases hin : card.card.totalBytes ≤ u64 pos
  · rw [if_pos hin] at hr
    cases hr
    rw [ref_setRef_iff h]
    exact iff_of_false closed_opened_ne fun hpass => Nat.not_lt.2 hin hpass.1.inside
  rw [if_neg hin] at hr
  split at hr
  · rename_i hmalloc
    cases hr
    rw [ref_setRef_iff h]
    refine iff_of_false closed_opened_ne fun hpass => ?_
    exact Bool.noConfusion (hmalloc.2.symm.trans (hpass.1.malloc hmalloc.1))
  · rename_i hmalloc
    rw [transferred _ _ hr, ref_setRef_iff h, closed_open_twice]
    refine ⟨fun hlt => ⟨⟨hsize, Nat.not_le.1 hin, fun hneed => ?_⟩, hlt⟩, And.right⟩
    by_contra hnone
    exact hmalloc ⟨hneed, Bool.not_eq_true _ ▸ hnone⟩

theorem control_keeps (h : cardInfo.find cardId = some card) (cmd : Cmd) :
    (∀ i, (sunxiSdmmcControl (some cardId) cmd cardInfo).2.2.ref i = cardInfo.ref i) ↔
      card.ref.toNat + 1 < 2 ^ 16 := by
  rw [sunxiSdmmcControl_eq h, ref_setRef_iff h, closed_open]

/-! ## Steps and runs -/

/-- A request changes one count at most. -/
theorem request_setRef (hr : countedRequest port cardId malloc fuel pos size m cardInfo = some r) :
    ∃ ref, r.2 = cardInfo.setRef cardId ref := by
  cases hfind : cardInfo.find cardId with
  | none =>
    rw [countedRequest_none hfind] at hr
    cases hr
    exact exists_setRef_eq cardInfo cardId
  | some card =>
    by_cases hsize : size = 0
    · subst hsize
      rw [countedRequest_empty hfind] at hr
      cases hr
      exact ⟨_, rfl⟩
    rw [countedRequest_some hfind hsize] at hr
    split at hr
    · cases hr
      exact ⟨_, rfl⟩
    · split at hr
      · cases hr
        exact ⟨_, rfl⟩
      · exact ⟨_, transferred _ _ hr⟩

theorem control_setRef (cardId : Nat) (cmd : Cmd) (cardInfo : CardInfo) :
    ∃ ref, (sunxiSdmmcControl (some cardId) cmd cardInfo).2.2 = cardInfo.setRef cardId ref := by
  cases hfind : cardInfo.find cardId with
  | none =>
    unfold sunxiSdmmcControl
    dsimp only
    rw [mmcCardOpen_none hfind]
    exact exists_setRef_eq cardInfo cardId
  | some card => exact ⟨_, congrArg (fun p => p.2.2) (sunxiSdmmcControl_eq hfind cmd)⟩

theorem step_setRef (hs : calls.next s call = some s') :
    ∃ cardId ref, s'.1 = s.1.setRef cardId ref := by
  cases call with
  | read cardId =>
    obtain ⟨r, hr, rfl⟩ := Option.map_eq_some_iff.1 hs
    exact ⟨cardId, request_setRef hr⟩
  | write cardId =>
    obtain ⟨r, hr, rfl⟩ := Option.map_eq_some_iff.1 hs
    exact ⟨cardId, request_setRef hr⟩
  | control dev cmd =>
    cases hs
    cases dev with
    | none => exact ⟨0, exists_setRef_eq s.1 0⟩
    | some cardId => exact ⟨cardId, control_setRef cardId cmd s.1⟩

/-- A request as a step. -/
theorem request_step {t : CardInfo × Mem}
    (hs : (countedRequest port cardId malloc fuel pos size s.2 s.1).map (fun r => (r.2, r.1.2)) =
      some t) :
    (∀ i, t.1.ref i = s.1.ref i) ↔ ∀ card, s.1.find cardId = some card →
      Unstopped card.card malloc pos size ∧ card.ref.toNat + 2 < 2 ^ 16 := by
  obtain ⟨r, hr, rfl⟩ := Option.map_eq_some_iff.1 hs
  cases hfind : s.1.find cardId with
  | none =>
    rw [countedRequest_none hfind] at hr
    cases hr
    exact iff_of_true (fun _ => rfl) fun _ hsome => nomatch hsome
  | some card =>
    rw [countedRequest_keeps hfind hr]
    constructor
    · rintro hpass _ ⟨⟩
      exact hpass
    · intro hall
      exact hall card rfl

theorem step_keeps (hs : calls.next s call = some s') :
    (∀ i, s'.1.ref i = s.1.ref i) ↔ Closes s call := by
  cases call with
  | read => exact request_step hs
  | write => exact request_step hs
  | control dev cmd =>
    cases hs
    cases dev with
    | none => exact iff_of_true (fun _ => rfl) fun _ _ hdev => nomatch hdev
    | some cardId =>
      cases hfind : s.1.find cardId with
      | none =>
        refine iff_of_true (fun i => ?_) fun _ _ hdev hsome => ?_
        · show (sunxiSdmmcControl (some cardId) cmd s.1).2.2.ref i = _
          unfold sunxiSdmmcControl
          dsimp only
          rw [mmcCardOpen_none hfind]
        · cases hdev
          rw [hfind] at hsome
          cases hsome
      | some card =>
        refine (control_keeps hfind cmd).trans ⟨?_, fun hall => hall cardId card rfl hfind⟩
        rintro hlt _ _ ⟨⟩ hsome
        cases hfind.symm.trans hsome
        exact hlt

theorem step_eq_of_ref (hs : calls.next s call = some s') (h : ∀ i, s'.1.ref i = s.1.ref i) :
    s'.1 = s.1 := by
  obtain ⟨cardId, ref, heq⟩ := step_setRef hs
  rw [heq] at h ⊢
  exact setRef_eq_of_ref h

theorem keeps_iff_closes (hs : calls.next s call = some s') :
    KeepsRef s call ↔ Closes s call := by
  rw [← step_keeps hs]
  constructor
  · intro hkeeps
    exact hkeeps s' hs
  · intro hall t ht
    cases hs.symm.trans ht
    exact hall

/-- All calls of a run that comes back leave every count as it was just if each of them closes the
card that it has opened, and then a card without users before the run can be deleted behind it. -/
theorem ref_balanced_iff (hr : calls.run s cs = some s') :
    (calls.Meets KeepsRef s cs ↔ calls.Meets Closes s cs) ∧
      (calls.Meets Closes s cs → s'.1 = s.1 ∧ ∀ cardId card, s.1.find cardId = some card →
        card.ref = 0 → (mmcCardDelete cardId s'.1).1 = 0) := by
  have hreturns := Machine.meets_of_run hr
  refine ⟨⟨fun hkeeps => ?_, fun hcloses => ?_⟩, fun hcloses => ?_⟩
  · refine (Machine.meets_and.2 ⟨hkeeps, hreturns⟩).mono fun s call h => ?_
    obtain ⟨hkeep, t, ht⟩ := h
    exact (keeps_iff_closes ht).1 hkeep
  · refine (Machine.meets_and.2 ⟨hcloses, hreturns⟩).mono fun s call h => ?_
    obtain ⟨hclose, t, ht⟩ := h
    exact (keeps_iff_closes ht).2 hclose
  · have hsame : s'.1 = s.1 := by
      refine Machine.run_inv (I := fun t => t.1 = s.1) ?_ rfl hcloses hr
      intro t call t' hI hC ht
      exact (step_eq_of_ref ht ((step_keeps ht).2 hC)).trans hI
    refine ⟨hsame, fun cardId card hfind hzero => ?_⟩
    rw [hsame]
    exact mmcCardDelete_eq hfind hzero

end

/-- A card of 1 MB without users, in slot 0. -/
def inserted : CardInfo := fun i => if i = 0 then some ⟨.plain 1024 (by decide), 0, 0⟩ else none

/-- A sector is read and the geometry asked for. -/
theorem ref_balanced_iff_sector : ∃ s',
    calls.run (inserted, .start (fun _ => 0) fun _ => 0)
      [.read 0 true 1 0 512, .control (some 0) .getGeome] = some s' ∧
    s'.1 = inserted ∧ (mmcCardDelete 0 s'.1).1 = 0 := by
  obtain ⟨s', hr⟩ := Option.isSome_iff_exists.1 (show (calls.run
    (inserted, .start (fun _ => 0) fun _ => 0)
    [.read 0 true 1 0 512, .control (some 0) .getGeome]).isSome = true from rfl)
  have hfind : inserted.find 0 = some ⟨.plain 1024 (by decide), 0, 0⟩ := rfl
  have hread : Closes (inserted, .start (fun _ => 0) fun _ => 0) (.read 0 true 1 0 512) := by
    intro card hcard
    cases hfind.symm.trans hcard
    exact ⟨⟨by decide, by decide, fun _ => rfl⟩, by decide⟩
  have hcloses : calls.Meets Closes (inserted, .start (fun _ => 0) fun _ => 0)
      [.read 0 true 1 0 512, .control (some 0) .getGeome] := by
    refine ⟨hread, fun t ht => ⟨?_, fun _ _ => trivial⟩⟩
    rintro _ card ⟨⟩ hcard
    rw [step_eq_of_ref ht ((step_keeps ht).2 hread)] at hcard
    cases hfind.symm.trans hcard
    decide
  obtain ⟨hsame, hdelete⟩ := (ref_balanced_iff hr).2 hcloses
  exact ⟨s', hr, hsame, hdelete 0 _ hfind rfl⟩

/-- A read of no bytes leaves a user behind. -/
theorem ref_balanced_not :
    ¬ ∀ s call s', calls.next s call = some s' → ∀ cardId, s'.1.ref cardId = s.1.ref cardId := by
  intro hall
  have hsame := hall (inserted, .start (fun _ => 0) fun _ => 0) (.read 0 true 0 0 0) _ rfl 0
  revert hsame
  decide

end Melis.Sdmmc.Drv
