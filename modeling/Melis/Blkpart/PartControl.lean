import Melis.Blkpart.PartWrite

/-!
# Erasing in a partition

The `DEVICE_PART_CMD_ERASE_SECTOR` branch of `part_control`. It cuts the length
of the request at the end of the partition, moves its address to the device,
both in the object of the caller, and hands that object to the device. The
subtraction is unsigned, so a request behind the end is not cut; and the moved
address is moved once more by the next call.
-/

namespace Melis.Blkpart

/-- `blk_dev_erase_t`. -/
structure BlkDevErase where
  addr : UInt32
  len : UInt32
deriving DecidableEq

/-- `off` and `bytes` of a `struct part`, as they are stored. -/
structure PartSpan where
  off : UInt64
  bytes : UInt64

/-- The bytes an erase works on. -/
def BlkDevErase.Covers (e : BlkDevErase) (x : Nat) : Prop :=
  e.addr.toNat ≤ x ∧ x < e.addr.toNat + e.len.toNat

/-- The bytes of a partition. -/
def PartSpan.Has (part : PartSpan) (x : Nat) : Prop :=
  part.off.toNat ≤ x ∧ x < part.off.toNat + part.bytes.toNat

/-- `MIN(part->bytes - erase_sector->addr, erase_sector->len)`. -/
def PartSpan.eraseLen (part : PartSpan) (req : BlkDevErase) : UInt64 :=
  if part.bytes - req.addr.toUInt64 > req.len.toUInt64 then req.len.toUInt64
  else part.bytes - req.addr.toUInt64

/-- What the branch makes of the request of the caller. -/
def PartSpan.translate (part : PartSpan) (req : BlkDevErase) : BlkDevErase where
  addr := (req.addr.toUInt64 + part.off).toUInt32
  len := (part.eraseLen req).toUInt32

/-- What a call leaves behind: the object of the caller, the erase issued to the device, and
the result. -/
structure EraseOutcome where
  req : BlkDevErase
  issued : Option BlkDevErase
  ret : Int

/-- `part_control(dev, DEVICE_PART_CMD_ERASE_SECTOR, &req)`; `control` is the hook of the
device below, if it has one. -/
def partControlErase (part : PartSpan) (control : Option (BlkDevErase → Int)) (req : BlkDevErase) :
    EraseOutcome :=
  let req := part.translate req
  match control with
  | none => ⟨req, none, -1⟩
  | some hook => ⟨req, some req, hook req⟩

/-- A request is served well: what it erases lies in the partition, and the same object
passed once more erases the same bytes. -/
structure ServedWell (part : PartSpan) (control : Option (BlkDevErase → Int)) (req : BlkDevErase) :
    Prop where
  inside : ∀ e, (partControlErase part control req).issued = some e → ∀ x, e.Covers x → part.Has x
  again : ∀ e, (partControlErase part control req).issued = some e →
    ∃ e', (partControlErase part control (partControlErase part control req).req).issued =
      some e' ∧ ∀ x, e'.Covers x ↔ e.Covers x

section

variable {part : PartSpan} {req e e' : BlkDevErase}

theorem covers_empty (h : e.len.toNat = 0) (x : Nat) : ¬ e.Covers x := by
  unfold BlkDevErase.Covers
  omega

/-- Two erases of some bytes work on the same ones only if they are the same. -/
theorem covers_iff (hlen : 0 < e.len.toNat) :
    (∀ x, e'.Covers x ↔ e.Covers x) ↔
      e'.addr.toNat = e.addr.toNat ∧ e'.len.toNat = e.len.toNat := by
  unfold BlkDevErase.Covers
  constructor
  · intro h
    have hfirst := h e.addr.toNat
    have hlast := h (e.addr.toNat + e.len.toNat - 1)
    have hfirst' := h e'.addr.toNat
    have hlast' := h (e'.addr.toNat + e'.len.toNat - 1)
    omega
  · rintro ⟨h1, h2⟩ x
    rw [h1, h2]

theorem translate_addr (part : PartSpan) (req : BlkDevErase) : (part.translate req).addr.toNat =
    (req.addr.toNat + part.off.toNat) % 2 ^ 32 := by
  simp only [PartSpan.translate, UInt64.toNat_toUInt32, UInt64.toNat_add, UInt32.toNat_toUInt64]
  omega

/-- A request that starts in the partition, or at its end, is cut at the end. -/
theorem translate_len_of_le (h : req.addr.toNat ≤ part.bytes.toNat) :
    (part.translate req).len.toNat = min (part.bytes.toNat - req.addr.toNat) req.len.toNat := by
  have hlen := req.len.toNat_lt
  have hsub : (part.bytes - req.addr.toUInt64).toNat = part.bytes.toNat - req.addr.toNat :=
    UInt64.toNat_sub_of_le _ _ (by rw [UInt64.le_iff_toNat_le, UInt32.toNat_toUInt64]; exact h)
  simp only [PartSpan.translate, PartSpan.eraseLen, gt_iff_lt, UInt64.lt_iff_toNat_lt, hsub,
    UInt32.toNat_toUInt64]
  split
  · rw [UInt64.toNat_toUInt32, UInt32.toNat_toUInt64]
    omega
  · rw [UInt64.toNat_toUInt32, hsub]
    omega

/-- A request that starts behind the end is not cut: the difference wraps around. -/
theorem translate_len_of_lt (h : part.bytes.toNat < req.addr.toNat) :
    (part.translate req).len.toNat = req.len.toNat := by
  have hlen := req.len.toNat_lt
  have haddr := req.addr.toNat_lt
  have hsub : (part.bytes - req.addr.toUInt64).toNat =
      2 ^ 64 - req.addr.toNat + part.bytes.toNat := by
    rw [UInt64.toNat_sub, UInt32.toNat_toUInt64]
    omega
  simp only [PartSpan.translate, PartSpan.eraseLen, gt_iff_lt, UInt64.lt_iff_toNat_lt, hsub,
    UInt32.toNat_toUInt64]
  rw [if_pos (by omega), UInt64.toNat_toUInt32, UInt32.toNat_toUInt64]
  omega

/-- Nothing is left to erase just where nothing was asked for, or the request starts at the end. -/
theorem translate_len_eq_zero : (part.translate req).len.toNat = 0 ↔
    req.len.toNat = 0 ∨ req.addr.toNat = part.bytes.toNat := by
  by_cases h : req.addr.toNat ≤ part.bytes.toNat
  · rw [translate_len_of_le h]
    omega
  · rw [translate_len_of_lt (by omega)]
    omega

/-- What is left to erase stays the same in a partition at the start of the device. -/
theorem translate_off_zero (hoff : part.off.toNat = 0) (h : req.addr.toNat ≤ part.bytes.toNat) :
    (part.translate req).addr.toNat = req.addr.toNat ∧
      (part.translate (part.translate req)).len.toNat = (part.translate req).len.toNat := by
  have haddr : (part.translate req).addr.toNat = req.addr.toNat := by
    have := req.addr.toNat_lt
    rw [translate_addr, hoff]
    omega
  refine ⟨haddr, ?_⟩
  rw [translate_len_of_le (by omega), translate_len_of_le h, haddr]
  omega

/-- A request with something left to erase is erased inside the partition and once more just
in a partition at the start of the device that it does not leave. -/
theorem served_iff (hlen : 0 < (part.translate req).len.toNat) :
    ((∀ x, (part.translate req).Covers x → part.Has x) ∧
        ∀ x, (part.translate (part.translate req)).Covers x ↔ (part.translate req).Covers x) ↔
      part.off.toNat = 0 ∧ req.addr.toNat ≤ part.bytes.toNat := by
  have haddr := req.addr.toNat_lt
  rw [covers_iff hlen]
  constructor
  · rintro ⟨hin, hagain, -⟩
    have hfirst := hin (part.translate req).addr.toNat ⟨le_refl _, by omega⟩
    have hlast := hin ((part.translate req).addr.toNat + (part.translate req).len.toNat - 1)
      ⟨by omega, by omega⟩
    unfold PartSpan.Has at hfirst hlast
    rw [translate_addr part (part.translate req)] at hagain
    rw [translate_addr] at hfirst hlast hagain
    -- the second move changes nothing, so the offset is 0 on the device
    have hoff : part.off.toNat = 0 := by omega
    exact ⟨hoff, by omega⟩
  · rintro ⟨hoff, hle⟩
    obtain ⟨h1, h2⟩ := translate_off_zero hoff hle
    refine ⟨fun x hx => ?_, ?_, h2⟩
    · unfold BlkDevErase.Covers at hx
      unfold PartSpan.Has
      rw [h1, translate_len_of_le hle] at hx
      omega
    · rw [translate_addr part (part.translate req), h1, hoff]
      omega

end

/-- **Erase requests.** A request is served well exactly when the device takes no erases, the
request asks for nothing or starts right at the end of the partition, or the partition is at
the start of the device and the request starts in it. -/
theorem eraseControl_served_iff (part : PartSpan) (control : Option (BlkDevErase → Int))
    (req : BlkDevErase) :
    ServedWell part control req ↔
      control = none ∨ req.len.toNat = 0 ∨ req.addr.toNat = part.bytes.toNat ∨
        part.off.toNat = 0 ∧ req.addr.toNat ≤ part.bytes.toNat := by
  cases control with
  | none =>
    refine iff_of_true ⟨fun e he => ?_, fun e he => ?_⟩ (.inl rfl)
    · cases he
    · cases he
  | some hook =>
    have hserved : ServedWell part (some hook) req ↔
        (∀ x, (part.translate req).Covers x → part.Has x) ∧
          ∀ x, (part.translate (part.translate req)).Covers x ↔ (part.translate req).Covers x := by
      constructor
      · rintro ⟨hin, hagain⟩
        obtain ⟨e', he', h⟩ := hagain _ rfl
        cases he'
        exact ⟨hin _ rfl, h⟩
      · rintro ⟨hin, hagain⟩
        refine ⟨fun e he => ?_, fun e he => ?_⟩
        · cases he
          exact hin
        · cases he
          exact ⟨_, rfl, hagain⟩
    rw [hserved]
    by_cases hlen : (part.translate req).len.toNat = 0
    · have hnone := translate_len_eq_zero.1 hlen
      have hnone' : (part.translate (part.translate req)).len.toNat = 0 :=
        translate_len_eq_zero.2 (.inl hlen)
      refine iff_of_true ⟨fun x hx => absurd hx (covers_empty hlen x), fun x => ?_⟩
        (.inr (hnone.imp_right .inl))
      exact iff_of_false (covers_empty hnone' x) (covers_empty hlen x)
    · rw [served_iff (Nat.pos_of_ne_zero hlen)]
      have hsome := mt translate_len_eq_zero.2 hlen
      rw [not_or] at hsome
      simp [hsome]

/-- A request for the sector behind a partition of 4K at 64K is handed on, and erases bytes
of the next partition. -/
theorem eraseControl_behind_end :
    (partControlErase ⟨65536, 4096⟩ (some fun _ => 0) ⟨4096, 4096⟩).issued =
        some ⟨69632, 0⟩ ∧
      (partControlErase ⟨65536, 4096⟩ (some fun _ => 0) ⟨8192, 4096⟩).issued =
        some ⟨73728, 4096⟩ ∧
      ¬ ServedWell ⟨65536, 4096⟩ (some fun _ => 0) ⟨8192, 4096⟩ := by
  refine ⟨by decide, by decide, fun h => ?_⟩
  have := h.inside ⟨73728, 4096⟩ (by decide) 73728 (by unfold BlkDevErase.Covers; decide)
  revert this
  unfold PartSpan.Has
  decide

end Melis.Blkpart
