import Melis.Ota.Upgrade

/-!
# A slice that is reported as copied

`upgrade_slice` returns 0 only after a pass that has compared every byte of the
slice with what it read back (`copyLoop_verified`). Every write of every try lies
in the slice (`copyLoop_writesIn`), whatever the devices do.
-/

namespace Melis.Ota

open Lib

/-- The byte `i` of the source. -/
def sourceByte (w : World) (sourceFile : Option CStr) (sourceBuffer : Option (List UInt8))
    (i : Nat) : UInt8 :=
  match sourceBuffer, sourceFile with
  | some buf, _ => buf.getD i 0
  | none, some src => w.file src i
  | none, none => 0

/-- `w'` comes of writes to `dest`, each to bytes from `lo` on and below `hi`. -/
inductive WritesIn (dest : CStr) (lo hi : Nat) (w : World) : World → Prop where
  | refl : WritesIn dest lo hi w w
  | write {w' : World} {pos : Nat} {bs : List UInt8} : WritesIn dest lo hi w w' → lo ≤ pos →
      pos + bs.length ≤ hi → WritesIn dest lo hi w (w'.write dest pos bs)

section

variable {dest f : CStr} {lo hi i : Nat} {w w' w'' : World}

theorem WritesIn.trans (h : WritesIn dest lo hi w w') (h' : WritesIn dest lo hi w' w'') :
    WritesIn dest lo hi w w'' := by
  induction h' with
  | refl => exact h
  | write _ hlo hhi ih => exact .write ih hlo hhi

/-- Outside the bounds nothing changes. -/
theorem WritesIn.file (h : WritesIn dest lo hi w w') (hf : f ≠ dest ∨ i < lo ∨ hi ≤ i) :
    w'.file f i = w.file f i := by
  induction h with
  | refl => rfl
  | @write w' pos bs _ hlo hhi ih =>
    rw [← ih]
    show Function.update w'.file dest _ f i = _
    by_cases hdest : f = dest
    · subst hdest
      have hout := hf.resolve_left (not_not.2 rfl)
      rw [Function.update_self]
      split
      · rw [List.getD_eq_getElem?_getD, List.getElem?_eq_none (by omega), Option.getD_none]
      · rfl
    · rw [Function.update_of_ne hdest]

end

/-! ## What goes through the buffer -/

section

variable {io : Io} {w w' : World} {dest : CStr} {sourceFile : Option CStr}
  {sourceBuffer : Option (List UInt8)} {offset sliceSize totalIn total : Int} {action : Action}
  {k fuel j : Nat} {ret : Int} {inBuf : List UInt8}

theorem getD_bytes {n : Nat} {f : CStr} {pos : Nat} (hj : j < n) :
    (w.bytes f pos n).getD j 0 = w.file f (pos + j) := by
  simp [World.bytes, List.getD, hj]

theorem length_bytes {n : Nat} {f : CStr} {pos : Nat} : (w.bytes f pos n).length = n := by
  simp [World.bytes]

theorem getD_bytesAt {buf l : List UInt8} {i n : Int} (h : bytesAt buf i n = some l)
    (hj : j < l.length) : l.getD j 0 = buf.getD (i.toNat + j) 0 := by
  unfold bytesAt at h
  split at h
  · obtain rfl := Option.some.inj h
    rw [List.length_take, List.length_drop] at hj
    rw [List.getD_eq_getElem?_getD, List.getElem?_take_of_lt (by omega), List.getElem?_drop,
      ← List.getD_eq_getElem?_getD]
  · cases h

/-- `in` holds the bytes of the source from `total_in` on. -/
theorem fill_getD
    (h : fill io w sourceFile sourceBuffer sliceSize k totalIn = some (some inBuf))
    (hj : j < inBuf.length) :
    inBuf.getD j 0 = sourceByte w sourceFile sourceBuffer (totalIn.toNat + j) := by
  unfold fill at h
  cases sourceBuffer with
  | some buf =>
    obtain ⟨sum, -, h⟩ := Option.bind_eq_some_iff.1 h
    obtain ⟨l, hl, h⟩ := Option.bind_eq_some_iff.1 h
    obtain rfl : l = inBuf := by simpa using h
    exact getD_bytesAt hl hj
  | none =>
    cases sourceFile with
    | none => cases h
    | some src =>
      dsimp only at h
      cases hread : io.readSource k with
      | none =>
        rw [hread] at h
        cases h
      | some n =>
        rw [hread] at h
        dsimp only at h
        split at h
        · cases h
        · obtain rfl := Option.some.inj (Option.some.inj h)
          rw [length_bytes] at hj
          exact getD_bytes hj

/-- Nothing is left of `in` past the end of the slice. -/
theorem length_trim (htotal : total = totalIn + inBuf.length) (hle : totalIn ≤ sliceSize) :
    totalIn + (trim sliceSize total inBuf).length = min total sliceSize := by
  unfold trim
  split
  · rw [List.length_take]
    omega
  · omega

theorem getD_trim (hj : j < (trim sliceSize total inBuf).length) :
    (trim sliceSize total inBuf).getD j 0 = inBuf.getD j 0 := by
  unfold trim at hj ⊢
  split
  · rename_i hend
    rw [if_pos hend, List.length_take] at hj
    rw [List.getD_eq_getElem?_getD, List.getElem?_take_of_lt (by omega),
      ← List.getD_eq_getElem?_getD]
  · rfl

/-- One pass: what was read, and the transfer of it. -/
theorem copyLoop_succ
    (h : copyLoop io sourceFile sourceBuffer dest offset sliceSize action (fuel + 1) k totalIn w =
      some (w', ret)) :
    (w' = w ∧ ret ≠ 0) ∨ ∃ inBuf,
      fill io w sourceFile sourceBuffer sliceSize k totalIn = some (some inBuf) ∧
      ((w', ret) = transfer io dest (offset + totalIn).toNat k
          (trim sliceSize (totalIn + inBuf.length) inBuf) w action ∧
          (ret ≠ 0 ∨ sliceSize ≤ totalIn + inBuf.length) ∨
        totalIn + inBuf.length < sliceSize ∧ ∃ w₁,
          (w₁, 0) = transfer io dest (offset + totalIn).toNat k
            (trim sliceSize (totalIn + inBuf.length) inBuf) w action ∧
          copyLoop io sourceFile sourceBuffer dest offset sliceSize action fuel (k + 1)
            (totalIn + inBuf.length) w₁ = some (w', ret)) := by
  rw [copyLoop] at h
  obtain ⟨r, hfill, h⟩ := Option.bind_eq_some_iff.1 h
  cases r with
  | none =>
    obtain ⟨rfl, rfl⟩ := Prod.mk.inj (Option.some.inj h)
    exact .inl ⟨rfl, by decide⟩
  | some inBuf =>
    obtain ⟨total, htotal, h⟩ := Option.bind_eq_some_iff.1 h
    obtain rfl : totalIn + inBuf.length = total := by
      unfold intAdd at htotal
      split at htotal
      · exact Option.some.inj htotal
      · cases htotal
    refine .inr ⟨inBuf, hfill, ?_⟩
    generalize htransfer : transfer io dest (offset + totalIn).toNat k
      (trim sliceSize (totalIn + inBuf.length) inBuf) w action = r at h ⊢
    obtain ⟨w₁, r⟩ := r
    dsimp only at h
    split at h
    · rename_i hend
      obtain ⟨rfl, rfl⟩ := Prod.mk.inj (Option.some.inj h)
      exact .inl ⟨rfl, hend⟩
    · rename_i hgo
      obtain ⟨hret, hlt⟩ := not_or.1 hgo
      obtain rfl := not_not.1 hret
      exact .inr ⟨by omega, w₁, rfl, h⟩

/-! ## The writes -/

theorem transfer_writesIn {pos lo hi : Nat} (hlo : lo ≤ pos) (hhi : pos + inBuf.length ≤ hi)
    (h : (w', ret) = transfer io dest pos k inBuf w action) : WritesIn dest lo hi w w' := by
  cases action with
  | write =>
    obtain ⟨rfl, -⟩ := Prod.mk.inj h
    refine .write .refl hlo ?_
    rw [List.length_take]
    omega
  | verify =>
    obtain ⟨rfl, -⟩ := Prod.mk.inj h
    exact .refl

theorem copyLoop_writesIn (hoffset : 0 ≤ offset) (h0 : 0 ≤ totalIn) (hle : totalIn ≤ sliceSize)
    (h : copyLoop io sourceFile sourceBuffer dest offset sliceSize action fuel k totalIn w =
      some (w', ret)) : WritesIn dest offset.toNat (offset + sliceSize).toNat w w' := by
  induction fuel generalizing k totalIn w with
  | zero => cases h
  | succ fuel ih =>
    rcases copyLoop_succ h with ⟨rfl, -⟩ | ⟨inBuf, -, hnext⟩
    · exact .refl
    · have hlen : totalIn + (trim sliceSize (totalIn + inBuf.length) inBuf).length =
          min (totalIn + inBuf.length) sliceSize := length_trim rfl hle
      rcases hnext with ⟨htransfer, -⟩ | ⟨hlt, w₁, htransfer, hrest⟩
      · exact transfer_writesIn (by omega) (by omega) htransfer
      · exact (transfer_writesIn (by omega) (by omega) htransfer).trans
          (ih (by omega) (Int.le_of_lt hlt) hrest)

/-! ## The comparison -/

/-- A chunk that passes is what the destination holds. -/
theorem transfer_verify {pos : Nat} (h : (w', 0) = transfer io dest pos k inBuf w .verify) :
    w' = w ∧ ∀ j < inBuf.length, w.file dest (pos + j) = inBuf.getD j 0 := by
  obtain ⟨rfl, hret⟩ := Prod.mk.inj h
  refine ⟨rfl, fun j hj => ?_⟩
  split at hret
  · rename_i hsame
    rw [← hsame.2, getD_bytes hj]
  · cases hret

/-- The pass that verifies compares the bytes from `totalIn` to the end of the slice. -/
theorem copyLoop_verified (hoffset : 0 ≤ offset) (h0 : 0 ≤ totalIn) (hle : totalIn ≤ sliceSize)
    (h : copyLoop io sourceFile sourceBuffer dest offset sliceSize .verify fuel k totalIn w =
      some (w', 0)) : w' = w ∧ ∀ i : Nat, totalIn ≤ i → (i : Int) < sliceSize →
        w.file dest (offset.toNat + i) = sourceByte w sourceFile sourceBuffer i := by
  induction fuel generalizing k totalIn w with
  | zero => cases h
  | succ fuel ih =>
    rcases copyLoop_succ h with ⟨-, hret⟩ | ⟨inBuf, hfill, hnext⟩
    · exact absurd rfl hret
    · have hlen : totalIn + (trim sliceSize (totalIn + inBuf.length) inBuf).length =
          min (totalIn + inBuf.length) sliceSize := length_trim rfl hle
      -- the bytes of this chunk
      have hchunk : ∀ w₁, (w₁, 0) = transfer io dest (offset + totalIn).toNat k
          (trim sliceSize (totalIn + inBuf.length) inBuf) w .verify →
          w₁ = w ∧ ∀ i : Nat, totalIn ≤ i → (i : Int) < min (totalIn + inBuf.length) sliceSize →
            w.file dest (offset.toNat + i) = sourceByte w sourceFile sourceBuffer i := by
        intro w₁ htransfer
        obtain ⟨rfl, hsame⟩ := transfer_verify htransfer
        refine ⟨rfl, fun i hi hlt => ?_⟩
        obtain ⟨j, rfl⟩ := Nat.exists_eq_add_of_le (show totalIn.toNat ≤ i by omega)
        have hj : j < (trim sliceSize (totalIn + inBuf.length) inBuf).length := by omega
        have hj' : j < inBuf.length := by omega
        have hpos : offset.toNat + (totalIn.toNat + j) = (offset + totalIn).toNat + j := by omega
        rw [hpos, hsame j hj, getD_trim hj, fill_getD hfill hj']
      rcases hnext with ⟨htransfer, hend⟩ | ⟨hlt, w₁, htransfer, hrest⟩
      · obtain ⟨rfl, hbytes⟩ := hchunk _ htransfer
        have hend' := hend.resolve_left (not_not.2 rfl)
        exact ⟨rfl, fun i hi hlt => hbytes i hi (by omega)⟩
      · obtain ⟨rfl, hbytes⟩ := hchunk _ htransfer
        obtain ⟨rfl, hbehind⟩ := ih (by omega) (Int.le_of_lt hlt) hrest
        refine ⟨rfl, fun i hi hlt => ?_⟩
        by_cases hin : (i : Int) < totalIn + inBuf.length
        · exact hbytes i hi (by omega)
        · exact hbehind i (by omega) hlt

/-! ## The tries -/

theorem opened_offset (h : opened io sourceFile sourceBuffer offset sliceSize = true) :
    0 ≤ offset := by
  unfold opened at h
  simp only [Bool.and_eq_true, decide_eq_true_eq] at h
  exact h.2.1

/-- A file has no negative size, and there is no negative number of bytes to copy from a buffer. -/
theorem opened_size (h : opened io sourceFile sourceBuffer offset sliceSize = true)
    (hloop : copyLoop io sourceFile sourceBuffer dest offset sliceSize action (fuel + 1) 0 0 w =
      some (w', ret)) : 0 ≤ sliceSize := by
  by_contra hneg
  cases sourceBuffer with
  | some buf =>
    have hsum : intAdd 0 chunk = some (0 + (chunk : Int)) := intAdd_eq (by decide) (by decide)
    have hlt : sliceSize < 0 + chunk := by
      unfold chunk
      omega
    have hnone : bytesAt buf 0 (sliceSize - 0) = none := if_neg (by omega)
    have hfill : fill io w sourceFile (some buf) sliceSize 0 0 = none := by
      simp only [fill, hsum, Option.bind_eq_bind, Option.bind_some, if_pos hlt, hnone,
        Option.bind_none]
    rw [copyLoop, hfill] at hloop
    cases hloop
  | none =>
    unfold opened at h
    simp only [Option.isSome_none, Bool.false_eq_true, if_false, Bool.and_eq_true] at h
    cases hst : io.stSize with
    | none => simp [hst] at h
    | some st =>
      cases sourceFile with
      | none => simp at h
      | some src =>
        have hsize : (st : Int) = sliceSize := by simpa [hst] using h.1.1.1.1.1
        omega

theorem upgradeSliceSubAction_writesIn
    (h : upgradeSliceSubAction io w sourceFile sourceBuffer dest offset sliceSize action =
      some (w', ret)) : WritesIn dest offset.toNat (offset + sliceSize).toNat w w' := by
  unfold upgradeSliceSubAction at h
  split at h
  · rename_i hopen
    exact copyLoop_writesIn (opened_offset hopen) (Int.le_refl 0) (opened_size hopen h) h
  · obtain ⟨rfl, -⟩ := Prod.mk.inj (Option.some.inj h)
    exact .refl

theorem upgradeSliceSubAction_verified
    (h : upgradeSliceSubAction io w sourceFile sourceBuffer dest offset sliceSize .verify =
      some (w', 0)) : w' = w ∧ 0 ≤ offset ∧ ∀ i : Nat, (i : Int) < sliceSize →
        w.file dest (offset.toNat + i) = sourceByte w sourceFile sourceBuffer i := by
  unfold upgradeSliceSubAction at h
  split at h
  · rename_i hopen
    obtain ⟨hw, hbytes⟩ :=
      copyLoop_verified (opened_offset hopen) (Int.le_refl 0) (opened_size hopen h) h
    exact ⟨hw, opened_offset hopen, fun i hi => hbytes i (Int.natCast_nonneg i) hi⟩
  · cases h

variable {io : Nat → Action → Io}

theorem tryLoop_writesIn {tryCount : Nat} {ret' : Int}
    (h : tryLoop io sourceFile sourceBuffer dest offset sliceSize tryCount w ret' =
      some (w', ret)) : WritesIn dest offset.toNat (offset + sliceSize).toNat w w' := by
  induction tryCount generalizing w ret' with
  | zero =>
    obtain ⟨rfl, -⟩ := Prod.mk.inj (Option.some.inj h)
    exact .refl
  | succ tryCount ih =>
    rw [tryLoop] at h
    obtain ⟨⟨w₁, r₁⟩, h₁, h⟩ := Option.bind_eq_some_iff.1 h
    have hw₁ := upgradeSliceSubAction_writesIn h₁
    dsimp only at h
    split at h
    · exact hw₁.trans (ih h)
    obtain ⟨⟨w₂, r₂⟩, h₂, h⟩ := Option.bind_eq_some_iff.1 h
    have hw₂ := hw₁.trans (upgradeSliceSubAction_writesIn h₂)
    dsimp only at h
    split at h
    · exact hw₂.trans (ih h)
    · obtain ⟨rfl, -⟩ := Prod.mk.inj (Option.some.inj h)
      exact hw₂

/-- A result of 0 comes of a pass that has verified the slice. -/
theorem tryLoop_verified {tryCount : Nat} {ret' : Int} (hret : tryCount = 0 → ret' ≠ 0)
    (h : tryLoop io sourceFile sourceBuffer dest offset sliceSize tryCount w ret' =
      some (w', 0)) : 0 ≤ offset ∧ ∀ i : Nat, (i : Int) < sliceSize →
        w'.file dest (offset.toNat + i) = sourceByte w' sourceFile sourceBuffer i := by
  induction tryCount generalizing w ret' with
  | zero =>
    obtain ⟨-, rfl⟩ := Prod.mk.inj (Option.some.inj h)
    exact absurd rfl (hret rfl)
  | succ tryCount ih =>
    rw [tryLoop] at h
    obtain ⟨⟨w₁, r₁⟩, -, h⟩ := Option.bind_eq_some_iff.1 h
    dsimp only at h
    split at h
    · rename_i hfail
      exact ih (fun _ => hfail) h
    obtain ⟨⟨w₂, r₂⟩, h₂, h⟩ := Option.bind_eq_some_iff.1 h
    dsimp only at h
    split at h
    · rename_i hfail
      exact ih (fun _ => hfail) h
    · obtain ⟨rfl, rfl⟩ := Prod.mk.inj (Option.some.inj h)
      obtain ⟨rfl, hbytes⟩ := upgradeSliceSubAction_verified h₂
      exact hbytes

end

/-- A slice that is reported as copied is in the destination, and every write was to bytes of the
slice there, so the other bytes and the other files are as they were. -/
theorem upgradeSlice_copied (io : Nat → Action → Io) (w w' : World) (sourceFile : Option CStr)
    (sourceBuffer : Option (List UInt8)) (dest : CStr) (offset sliceSize : Int)
    (h : upgradeSlice io w sourceFile sourceBuffer dest offset sliceSize = some (w', 0)) :
    0 ≤ offset ∧
      (∀ i : Nat, (i : Int) < sliceSize →
        w'.file dest (offset.toNat + i) = sourceByte w' sourceFile sourceBuffer i) ∧
      WritesIn dest offset.toNat (offset + sliceSize).toNat w w' ∧
      ∀ f i, f ≠ dest ∨ i < offset.toNat ∨ (offset + sliceSize).toNat ≤ i →
        w'.file f i = w.file f i := by
  have hwrites := tryLoop_writesIn h
  obtain ⟨hoffset, hbytes⟩ := tryLoop_verified (fun h0 => absurd h0 (Nat.succ_ne_zero _)) h
  exact ⟨hoffset, hbytes, hwrites, fun f i hout => hwrites.file hout⟩

/-- Devices on which nothing fails; a write returns what it stored. -/
def Io.good (n : Nat) : Io where
  stSize := none
  mallocIn := true
  mallocVerify := true
  openSource := true
  openDest := true
  lseek := true
  readSource _ := none
  write _ := (n, n)
  readDest _ := n

/-- Two bytes from a buffer. -/
theorem upgradeSlice_copied_two :
    ∃ w', upgradeSlice (fun _ _ => .good 2) ⟨fun _ _ => 0, []⟩ none (some [1, 2]) [] 4 2 =
        some (w', 0) ∧ w'.file [] 5 = 2 := by
  have hret : (upgradeSlice (fun _ _ => .good 2) ⟨fun _ _ => 0, []⟩ none (some [1, 2]) [] 4 2).map
      Prod.snd = some 0 := by decide
  obtain ⟨⟨w', r⟩, hcall, rfl⟩ := Option.map_eq_some_iff.1 hret
  exact ⟨w', hcall, (upgradeSlice_copied _ _ w' _ _ _ _ _ hcall).2.1 1 (by decide)⟩

end Melis.Ota
