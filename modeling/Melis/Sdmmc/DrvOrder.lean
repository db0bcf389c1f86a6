import Melis.Sdmmc.DrvRequest

/-!
# When a request ends

A request is orderly if its loops end, no transfer is longer than `maxTransLen`
and each pass takes bytes off. It is orderly unless a positive multiple of
`maxTransLen` is left behind the head and the transfers up to its last
`maxTransLen` bytes go through (`Stuck`).
-/

namespace Melis.Sdmmc.Drv

open Lib

/-- The memory before a call. -/
def Mem.start (dev buf : Nat → UInt8) : Mem := ⟨dev, buf, fun _ => 0, []⟩

/-- The bytes of a request behind its head. -/
def bodyLen (card : Card) (pos size : Nat) : Nat :=
  taken card pos size - headLen pos (taken card pos size)

/-- The first position behind the head. -/
def bodyPos (card : Card) (pos size : Nat) : Nat := pos + headLen pos (taken card pos size)

/-- The loops are left with `maxTransLen` bytes. -/
structure Stuck (card : Card) (calls : Calls) (start size : Nat) : Prop where
  enters : Enters card calls start size
  head : start % 512 ≠ 0 → card.responds 0 = 0
  pos : 0 < bodyLen card start size
  dvd : card.maxTransLen ∣ bodyLen card start size
  transfers : ∀ k, k + 1 < bodyLen card start size / card.maxTransLen →
    card.responds (headCount start + k) = 0 ∧
      card.Has (bodyPos card start size + k * card.maxTransLen) card.maxTransLen

/-- Some passes without a failure. -/
def Passes (port : Port) (maxTransLen : Nat) : Body → Body → Prop :=
  Relation.ReflTransGen fun c c' => 512 ≤ c.size ∧ pass port maxTransLen c = (c', 0)

/-- No transfer is too long. -/
def Mem.Short (m : Mem) (maxTransLen : Nat) : Prop := ∀ t ∈ m.log, 512 * t.2 ≤ maxTransLen

structure Orderly (port : Port) (card : Card) (calls : Calls) (pos : Int) (size : Nat) (m : Mem) :
    Prop where
  ends : ∃ fuel, (request port card calls fuel pos size m).isSome
  pass : ∀ b c c' r, toLoop port card calls pos size m = .inr b →
    Passes port card.maxTransLen b c → 512 ≤ c.size → pass port card.maxTransLen c = (c', r) →
      c'.mem.Short card.maxTransLen ∧ (r = 0 → c'.size < c.size)

section

variable {card : Card} {port : Port} {calls : Calls} {m : Mem} {b c c' : Body} {r : Int}
  {M n fuel size data s : Nat} {pos : Int} {dev buf : Nat → UInt8} {o : Outcome}

theorem Port.Follows.short (hf : port.Follows card) (h : m.Short M) (hn : 512 * n ≤ M) :
    (port.blocks m data s n).1.Short M := by
  intro t ht
  rw [hf.log] at ht
  rcases List.mem_append.1 ht with ht | ht
  · exact h t ht
  · rw [List.mem_singleton.1 ht]
    exact hn

theorem maxLoop_short (hf : port.Follows card) (h : c.mem.Short M) :
    (maxLoop port M fuel c).1.mem.Short M := by
  induction fuel generalizing c with
  | zero => exact h
  | succ fuel ih =>
    have hnext : (port.blocks c.mem c.data (sblk c.pos) (M / 512)).1.Short M :=
      hf.short h (Nat.mul_div_le M 512)
    rw [maxLoop]
    split
    · exact h
    · dsimp only
      split
      · exact hnext
      · exact ih hnext

theorem pass_short (hf : port.Follows card) (h : c.mem.Short M) :
    (pass port M c).1.mem.Short M := by
  unfold pass
  split
  · rename_i hlt
    have hnext : (port.blocks c.mem c.data (sblk c.pos) (c.size / 512)).1.Short M :=
      hf.short h ((Nat.mul_div_le c.size 512).trans (Nat.le_of_lt hlt))
    dsimp only
    split <;> exact hnext
  · exact maxLoop_short hf h

/-- What holds at the start of each pass. -/
theorem Passes.kept (hf : port.Follows card) (hp : Passes port M b c) (hb : b.mem.Short M)
    (ht : Terminates port M b) : c.mem.Short M ∧ Terminates port M c := by
  induction hp with
  | refl => exact ⟨hb, ht⟩
  | tail _ hstep ih =>
    obtain ⟨hsize, hpass⟩ := hstep
    refine ⟨?_, ih.2.pass hsize hpass⟩
    have hshort := pass_short hf ih.1
    rwa [hpass] at hshort

theorem orderly_of_inl (h : toLoop port card calls pos size m = .inl o) :
    Orderly port card calls pos size m where
  ends := ⟨0, by rw [request, h]; rfl⟩
  pass b c c' r hb := by
    rw [h] at hb
    cases hb

/-- Orderly is what ends. -/
theorem orderly_of_inr (hf : port.Follows card) (h : toLoop port card calls pos size m = .inr b)
    (hb : b.mem.Short card.maxTransLen) :
    Orderly port card calls pos size m ↔ Terminates port card.maxTransLen b := by
  have hM := card.le_maxTransLen
  constructor
  · rintro ⟨⟨fuel, hfuel⟩, -⟩
    rw [request, h, Option.isSome_map] at hfuel
    exact ⟨fuel, hfuel⟩
  · rintro ⟨fuel, hfuel⟩
    refine ⟨⟨fuel, ?_⟩, fun b' c c' r hb' hp hsize hpass => ?_⟩
    · rw [request, h, Option.isSome_map]
      exact hfuel
    · rw [h] at hb'
      obtain rfl := Sum.inr.inj hb'
      obtain ⟨hshort, hterm⟩ := hp.kept hf hb ⟨fuel, hfuel⟩
      constructor
      · have hshort' := pass_short hf hshort
        rwa [hpass] at hshort'
      · rintro rfl
        exact hterm.size_lt (by omega) hsize hpass

theorem orderly_natCast {start : Nat} (hf : port.Follows card) (hpos : start < 2 ^ 31) :
    Orderly port card calls start size (.start dev buf) ↔ ¬ Stuck card calls start size := by
  have hM := card.le_maxTransLen
  by_cases henters : Enters card calls start size
  · have hresult : (headStep port ((Mem.start dev buf).begin start (taken card start size))).2 = 0 ↔
        (start % 512 ≠ 0 → card.responds 0 = 0) := headStep_result hf hpos henters.inside rfl
    have hloop : toLoop port card calls start size (.start dev buf) = _ :=
      toLoop_of_enters hpos henters
    by_cases hhead : start % 512 ≠ 0 → card.responds 0 = 0
    · have hdone := headStep_done hf hpos rfl (hresult.2 hhead)
      rw [if_neg (not_not.2 (hresult.2 hhead))] at hloop
      have hshort : (headStep port ((Mem.start dev buf).begin start (taken card start size))).1.mem.Short
          card.maxTransLen := by
        intro t ht
        rcases hdone.mem t ht with ht | ht
        · cases ht
        · rw [ht]
          omega
      rw [orderly_of_inr hf hloop hshort, terminates_iff (by omega)]
      have hsize : _ = bodyLen card start size := hdone.size
      rw [hsize]
      have hcode : ∀ k, code port card.maxTransLen _ k = 0 ↔ _ := fun k =>
        code_eq_zero_iff hf hdone.pos
      have hlog : _ = headCount start := hdone.log.trans (Nat.zero_add _)
      simp only [hcode, hlog]
      constructor
      · exact fun h hstuck => h ⟨hstuck.pos, hstuck.dvd, hstuck.transfers⟩
      · exact fun h hleft => h ⟨henters, hhead, hleft.1, hleft.2.1, hleft.2.2⟩
    · rw [if_pos fun h0 => hhead (hresult.1 h0)] at hloop
      exact ⟨fun _ hstuck => hhead hstuck.head, fun _ => orderly_of_inl hloop⟩
  · obtain ⟨o, ho⟩ : ∃ o, toLoop port card calls start size (.start dev buf) = .inl o :=
      toLoop_of_not_enters hpos henters
    exact ⟨fun _ hstuck => henters hstuck.enters, fun _ => orderly_of_inl ho⟩

theorem orderly_port (hf : port.Follows card) (hmin : -2 ^ 31 ≤ pos) (hmax : pos < 2 ^ 31) :
    Orderly port card calls pos size (.start dev buf) ↔
      ¬ (0 ≤ pos ∧ Stuck card calls pos.toNat size) := by
  by_cases hneg : pos < 0
  · obtain ⟨o, ho⟩ : ∃ o, toLoop port card calls pos size (.start dev buf) = .inl o :=
      toLoop_of_neg hmin hneg
    exact ⟨fun _ h => by omega, fun _ => orderly_of_inl ho⟩
  · obtain ⟨start, rfl⟩ := Int.eq_ofNat_of_zero_le (Int.not_lt.1 hneg)
    rw [orderly_natCast hf (by omega), Int.toNat_natCast]
    exact ⟨fun h hstuck => h hstuck.2, fun h hstuck => h ⟨Int.natCast_nonneg start, hstuck⟩⟩

end

/-- The loops end, with short transfers and fewer bytes after each pass, for each position of 32
bits unless they get stuck. -/
theorem orderly_iff (card : Card) (calls : Calls) (pos : Int) (size : Nat) (dev buf : Nat → UInt8)
    (hmin : -2 ^ 31 ≤ pos) (hmax : pos < 2 ^ 31) :
    (Orderly (reader card) card calls pos size (.start dev buf) ↔
        ¬ (0 ≤ pos ∧ Stuck card calls pos.toNat size)) ∧
      (Orderly (writer card) card calls pos size (.start dev buf) ↔
        ¬ (0 ≤ pos ∧ Stuck card calls pos.toNat size)) :=
  ⟨orderly_port (reader_follows card) hmin hmax, orderly_port (writer_follows card) hmin hmax⟩

/-- A card of `capacity` KB that answers, with transfers of 256 KB. -/
def Card.plain (capacity : Nat) (h : capacity < 2 ^ 32) : Card where
  capacity := capacity
  capacity_lt := h
  blockaddr := true
  dmaBufSize := 256
  dmaBufSize_pos := Nat.succ_pos _
  dmaBufSize_lt := by decide
  responds _ := 0

/-- The calls before the transfers succeed. -/
def Calls.good : Calls := ⟨true, 0, true⟩

theorem orderly_iff_kilobyte : Orderly (reader (.plain 1024 (by decide))) (.plain 1024 (by decide))
    .good 0 1000 (.start (fun _ => 0) fun _ => 0) := by
  apply (orderly_iff (.plain 1024 (by decide)) .good 0 1000 (fun _ => 0) (fun _ => 0) (by decide)
    (by decide)).1.2
  rintro ⟨-, hstuck⟩
  have hdvd := hstuck.dvd
  revert hdvd
  decide

/-- A read of 256 KB does not end. -/
theorem orderly_not : ¬ Orderly (reader (.plain 1024 (by decide))) (.plain 1024 (by decide)) .good
    0 262144 (.start (fun _ => 0) fun _ => 0) := by
  rw [orderly_port (reader_follows _) (by decide) (by decide), not_not]
  refine ⟨by decide, ⟨rfl, by decide, rfl, by decide, fun _ => rfl⟩, fun _ => rfl, by decide,
    by decide, fun k hk => ?_⟩
  have hone : bodyLen (.plain 1024 (by decide)) (Int.toNat 0) 262144 / 262144 = 1 := by decide
  have hk' : k + 1 < 1 := hone ▸ hk
  omega

end Melis.Sdmmc.Drv
