import Melis.Lib.Run
import Melis.Ota.Env

/-!
# OTA upgrades

`awUpgradeSlice` copies one slice of an image into a partition and verifies it,
up to three times; a slice named `rtos` goes to the bank `getRtosToUpgrade`
reads off the boot environment. `awUpgradeEnd` points the environment at the
new bank. How the calls to the devices end is given by an `Io` for each pass.
A result `none` is a fault: a `NULL` string compared, a read outside an object,
a signed overflow.

`aw_upgrade_slice` does not look at the result of `get_rtos_to_upgrade`: with
no bank it copies the slice to whatever name the stack buffer holds.
-/

namespace Melis.Ota

open Lib

/-- `CHUNK`. -/
def chunk : Nat := 16384

/-- `UPGRADE_SLICE_RETRY`. -/
def upgradeSliceRetry : Nat := 2

/-- `DEFAULT_SOURCE_FILE`, `"/data/update/update.bin"`. -/
def defaultSourceFile : CStr :=
  ['/', 'd', 'a', 't', 'a', '/', 'u', 'p', 'd', 'a', 't', 'e', '/',
    'u', 'p', 'd', 'a', 't', 'e', '.', 'b', 'i', 'n']

inductive Action where
  | write
  | verify
  deriving DecidableEq

/-- The bytes of the files, and a log of the files `write` was called on. -/
structure World where
  file : CStr → Nat → UInt8
  written : List CStr

/-- The `n` bytes of a file from `pos`. -/
def World.bytes (w : World) (f : CStr) (pos n : Nat) : List UInt8 :=
  (List.range n).map fun i => w.file f (pos + i)

/-- One call of `write`, of which `bs` reaches the file. -/
def World.write (w : World) (f : CStr) (pos : Nat) (bs : List UInt8) : World where
  file := Function.update w.file f fun i =>
    if pos ≤ i then bs.getD (i - pos) (w.file f i) else w.file f i
  written := w.written ++ [f]

/-- How the calls of one pass over the slice end. -/
structure Io where
  /-- `st_size`, if `stat` succeeds. -/
  stSize : Option Nat
  mallocIn : Bool
  mallocVerify : Bool
  openSource : Bool
  openDest : Bool
  lseek : Bool
  /-- Bytes the `k`-th `read` of the source returns, `none` for -1. -/
  readSource : Nat → Option Nat
  /-- Bytes the `k`-th `write` stores, and its result. -/
  write : Nat → Nat × Int
  /-- Result of the `k`-th `read` of the destination. -/
  readDest : Nat → Int

/-- Filling `in`: its `avail_in` bytes, or `some none` where reading the source fails. -/
def fill (io : Io) (w : World) (sourceFile : Option CStr) (sourceBuffer : Option (List UInt8))
    (sliceSize : Int) (k : Nat) (totalIn : Int) : Option (Option (List UInt8)) := do
  match sourceBuffer, sourceFile with
  | some buf, _ =>
    let sum ← intAdd totalIn chunk
    let avail := if sliceSize < sum then sliceSize - totalIn else chunk
    return some (← bytesAt buf totalIn avail)
  | none, some src =>
    match io.readSource k with
    | none => return none
    | some n =>
      -- `read` returns at most what is left of the file
      let avail := min n (min chunk (sliceSize - totalIn).toNat)
      if avail = 0 then return none
      return some (w.bytes src totalIn.toNat avail)
  | none, none => return none

/-- `avail_in -= total_in - slice_size`, past the end of the slice. -/
def trim (sliceSize total : Int) (inBuf : List UInt8) : List UInt8 :=
  if sliceSize ≤ total then inBuf.take (inBuf.length - (total - sliceSize)).toNat else inBuf

/-- Writing `in` to the destination, or comparing it with what is there. -/
def transfer (io : Io) (dest : CStr) (pos : Nat) (k : Nat) (inBuf : List UInt8) (w : World) :
    Action → World × Int
  | .write =>
    (w.write dest pos (inBuf.take (io.write k).1), if (io.write k).2 = inBuf.length then 0 else -1)
  | .verify =>
    (w, if io.readDest k = inBuf.length ∧ w.bytes dest pos inBuf.length = inBuf then 0 else -1)

/-- The loop of `upgrade_slice_sub_action`; `fuel` bounds its passes. -/
def copyLoop (io : Io) (sourceFile : Option CStr) (sourceBuffer : Option (List UInt8))
    (dest : CStr) (offset sliceSize : Int) (action : Action) :
    Nat → Nat → Int → World → Option (World × Int)
  | 0, _, _, _ => none
  | fuel + 1, k, totalIn, w => do
    match ← fill io w sourceFile sourceBuffer sliceSize k totalIn with
    | none => return (w, -1)
    | some inBuf =>
      let total ← intAdd totalIn inBuf.length
      let (w, ret) :=
        transfer io dest (offset + totalIn).toNat k (trim sliceSize total inBuf) w action
      if ret ≠ 0 ∨ sliceSize ≤ total then return (w, ret)
      copyLoop io sourceFile sourceBuffer dest offset sliceSize action fuel (k + 1) total w

/-- The checks of `upgrade_slice_sub_action` before the loop. -/
def opened (io : Io) (sourceFile : Option CStr) (sourceBuffer : Option (List UInt8))
    (offset sliceSize : Int) : Bool :=
  (if sourceBuffer.isSome then true
    else if sourceFile.isSome then io.stSize.map Int.ofNat = some sliceSize
    else false) &&
  io.mallocIn && io.mallocVerify && (sourceBuffer.isSome || io.openSource) && io.openDest &&
  (decide (0 ≤ offset) && io.lseek)

/-- `upgrade_slice_sub_action`. -/
def upgradeSliceSubAction (io : Io) (w : World) (sourceFile : Option CStr)
    (sourceBuffer : Option (List UInt8)) (dest : CStr) (offset sliceSize : Int)
    (action : Action) : Option (World × Int) :=
  if opened io sourceFile sourceBuffer offset sliceSize then
    copyLoop io sourceFile sourceBuffer dest offset sliceSize action (sliceSize.toNat + 1) 0 0 w
  else some (w, -1)

/-- The loop of `upgrade_slice` with `tryCount` tries left. -/
def tryLoop (io : Nat → Action → Io) (sourceFile : Option CStr)
    (sourceBuffer : Option (List UInt8)) (dest : CStr) (offset sliceSize : Int) :
    Nat → World → Int → Option (World × Int)
  | 0, w, ret => some (w, ret)
  | tryCount + 1, w, _ => do
    let (w, ret) ← upgradeSliceSubAction (io tryCount .write) w sourceFile sourceBuffer dest offset
      sliceSize .write
    if ret ≠ 0 then tryLoop io sourceFile sourceBuffer dest offset sliceSize tryCount w ret
    else
      let (w, ret) ← upgradeSliceSubAction (io tryCount .verify) w sourceFile sourceBuffer dest
        offset sliceSize .verify
      if ret ≠ 0 then tryLoop io sourceFile sourceBuffer dest offset sliceSize tryCount w ret
      else return (w, ret)

/-- `upgrade_slice`. -/
def upgradeSlice (io : Nat → Action → Io) (w : World) (sourceFile : Option CStr)
    (sourceBuffer : Option (List UInt8)) (dest : CStr) (offset sliceSize : Int) :
    Option (World × Int) :=
  tryLoop io sourceFile sourceBuffer dest offset sliceSize (upgradeSliceRetry + 1) w 0

/-! ## What a slice writes -/

/-- All writes between two worlds go to `dest`. -/
structure WritesOnly (dest : CStr) (w w' : World) : Prop where
  written : ∃ n, w'.written = w.written ++ List.replicate n dest
  file : ∀ f, f ≠ dest → w'.file f = w.file f

section

variable {dest : CStr} {w w' w'' : World}

theorem WritesOnly.refl (dest : CStr) (w : World) : WritesOnly dest w w where
  written := ⟨0, by simp⟩
  file _ _ := rfl

theorem WritesOnly.trans (h1 : WritesOnly dest w w') (h2 : WritesOnly dest w' w'') :
    WritesOnly dest w w'' where
  written := by
    obtain ⟨m, hm⟩ := h1.written
    obtain ⟨n, hn⟩ := h2.written
    exact ⟨m + n, by rw [hn, hm, List.append_assoc, List.replicate_append_replicate]⟩
  file f hf := (h2.file f hf).trans (h1.file f hf)

theorem writesOnly_write (w : World) (dest : CStr) (pos : Nat) (bs : List UInt8) :
    WritesOnly dest w (w.write dest pos bs) where
  written := ⟨1, rfl⟩
  file f hf := by simp [World.write, hf]

theorem transfer_writesOnly (io : Io) (dest : CStr) (pos k : Nat) (inBuf : List UInt8) (w : World)
    (action : Action) : WritesOnly dest w (transfer io dest pos k inBuf w action).1 := by
  cases action with
  | write => exact writesOnly_write _ _ _ _
  | verify => exact .refl _ _

variable {io : Io} {sourceFile : Option CStr} {sourceBuffer : Option (List UInt8)}
  {offset sliceSize : Int} {action : Action} {ret : Int}

theorem copyLoop_writesOnly {fuel k : Nat} {totalIn : Int}
    (h : copyLoop io sourceFile sourceBuffer dest offset sliceSize action fuel k totalIn w =
      some (w', ret)) : WritesOnly dest w w' := by
  induction fuel generalizing k totalIn w with
  | zero => cases h
  | succ fuel ih =>
    rw [copyLoop] at h
    obtain ⟨r, -, h⟩ := Option.bind_eq_some_iff.1 h
    rcases r with - | inBuf
    · cases h
      exact .refl _ _
    obtain ⟨total, -, h⟩ := Option.bind_eq_some_iff.1 h
    have ht := transfer_writesOnly io dest (offset + totalIn).toNat k
      (trim sliceSize total inBuf) w action
    dsimp only at h
    split at h
    · cases h
      exact ht
    · exact ht.trans (ih h)

theorem upgradeSliceSubAction_writesOnly
    (h : upgradeSliceSubAction io w sourceFile sourceBuffer dest offset sliceSize action =
      some (w', ret)) : WritesOnly dest w w' := by
  unfold upgradeSliceSubAction at h
  split at h
  · exact copyLoop_writesOnly h
  · cases h
    exact .refl _ _

variable {io : Nat → Action → Io}

theorem tryLoop_writesOnly {tryCount : Nat} {ret' : Int}
    (h : tryLoop io sourceFile sourceBuffer dest offset sliceSize tryCount w ret' =
      some (w', ret)) : WritesOnly dest w w' := by
  induction tryCount generalizing w ret' with
  | zero =>
    cases h
    exact .refl _ _
  | succ tryCount ih =>
    rw [tryLoop] at h
    obtain ⟨⟨w1, r1⟩, h1, h⟩ := Option.bind_eq_some_iff.1 h
    have hw1 := upgradeSliceSubAction_writesOnly h1
    dsimp only at h
    split at h
    · exact hw1.trans (ih h)
    obtain ⟨⟨w2, r2⟩, h2, h⟩ := Option.bind_eq_some_iff.1 h
    have hw2 := hw1.trans (upgradeSliceSubAction_writesOnly h2)
    dsimp only at h
    split at h
    · exact hw2.trans (ih h)
    · cases h
      exact hw2

theorem upgradeSlice_writesOnly
    (h : upgradeSlice io w sourceFile sourceBuffer dest offset sliceSize = some (w', ret)) :
    WritesOnly dest w w' :=
  tryLoop_writesOnly h

end

/-! ## A slice is copied without a fault -/

/-- A buffer holds the slice, and `total_in + CHUNK` does not overflow on the way through it. -/
def Copyable (sourceBuffer : Option (List UInt8)) (sliceSize : Int) : Prop :=
  sliceSize < 2 ^ 31 ∧
    ∀ buf ∈ sourceBuffer, (buf.length : Int) = sliceSize ∧ sliceSize ≤ 2 ^ 31 - chunk

section

variable {io : Io} {w : World} {dest : CStr} {sourceFile : Option CStr}
  {sourceBuffer : Option (List UInt8)} {offset sliceSize : Int} {action : Action}

/-- A pass makes progress unless the whole slice was read. -/
theorem fill_returns (hc : Copyable sourceBuffer sliceSize) {k : Nat} {totalIn : Int}
    (hs : 0 ≤ sliceSize) (h0 : 0 ≤ totalIn) (hlt : totalIn < max sliceSize 1) :
    ∃ r, fill io w sourceFile sourceBuffer sliceSize k totalIn = some r ∧
      ∀ inBuf, r = some inBuf →
        totalIn + inBuf.length ≤ sliceSize ∧ (inBuf.length = 0 → sliceSize ≤ totalIn) := by
  have hchunk : (chunk : Int) = 16384 := rfl
  cases sourceBuffer with
  | some buf =>
    obtain ⟨hlen, hmax⟩ := hc.2 buf rfl
    have hsum : intAdd totalIn chunk = some (totalIn + chunk) :=
      intAdd_eq (by omega) (by omega)
    by_cases hlast : sliceSize < totalIn + chunk
    · obtain ⟨l, hl, hll⟩ := bytesAt_eq (show 0 ≤ totalIn from h0)
        (show 0 ≤ sliceSize - totalIn by omega)
        (show totalIn + (sliceSize - totalIn) ≤ buf.length by omega)
      refine ⟨some l, by simp [fill, hsum, hlast, hl], ?_⟩
      rintro inBuf ⟨rfl⟩
      omega
    · obtain ⟨l, hl, hll⟩ := bytesAt_eq (show 0 ≤ totalIn from h0)
        (show (0 : Int) ≤ chunk by omega) (show totalIn + chunk ≤ buf.length by omega)
      refine ⟨some l, by simp [fill, hsum, hlast, hl], ?_⟩
      rintro inBuf ⟨rfl⟩
      omega
  | none =>
    cases sourceFile with
    | none => exact ⟨none, rfl, by simp⟩
    | some src =>
      cases hr : io.readSource k with
      | none => exact ⟨none, by simp [fill, hr], by simp⟩
      | some n =>
        by_cases ha : min n (min chunk (sliceSize - totalIn).toNat) = 0
        · exact ⟨none, by simp [fill, hr, ha], by simp⟩
        · refine ⟨some (w.bytes src totalIn.toNat (min n (min chunk (sliceSize - totalIn).toNat))),
            by simp only [fill, hr, if_neg ha]; rfl, ?_⟩
          rintro inBuf ⟨rfl⟩
          rw [World.bytes, List.length_map, List.length_range]
          omega

theorem copyLoop_returns (hc : Copyable sourceBuffer sliceSize) {fuel k : Nat} {totalIn : Int}
    (hs : 0 ≤ sliceSize) (h0 : 0 ≤ totalIn) (hlt : totalIn < max sliceSize 1)
    (hf : sliceSize - totalIn < fuel) :
    ∃ w' ret, copyLoop io sourceFile sourceBuffer dest offset sliceSize action fuel k totalIn w =
      some (w', ret) := by
  induction fuel generalizing k totalIn w with
  | zero => omega
  | succ fuel ih =>
    obtain ⟨r, hr, hlen⟩ : ∃ r, fill io w sourceFile sourceBuffer sliceSize k totalIn = some r ∧ _ :=
      fill_returns hc hs h0 hlt
    rcases r with - | inBuf
    · exact ⟨w, -1, by rw [copyLoop, hr]; rfl⟩
    obtain ⟨hle, hzero⟩ := hlen inBuf rfl
    have hmax := hc.1
    simp only [copyLoop, hr, intAdd_eq (show -2 ^ 31 ≤ totalIn + inBuf.length by omega)
      (show totalIn + inBuf.length < 2 ^ 31 by omega), Option.bind_eq_bind, Option.bind_some]
    split
    · exact ⟨_, _, rfl⟩
    next hgo =>
      -- what was read is a proper part of the slice
      rw [not_or] at hgo
      exact ih (by omega) (by omega) (by omega)

theorem upgradeSliceSubAction_returns (hc : Copyable sourceBuffer sliceSize) :
    ∃ w' ret, upgradeSliceSubAction io w sourceFile sourceBuffer dest offset sliceSize action =
      some (w', ret) := by
  unfold upgradeSliceSubAction
  split
  next ho =>
    have hs : 0 ≤ sliceSize := by
      cases sourceBuffer with
      | some buf => have := (hc.2 buf rfl).1; omega
      | none =>
        simp only [opened, Option.isSome_none, Bool.false_eq_true, if_false, Bool.and_eq_true] at ho
        cases hst : io.stSize with
        | none => simp [hst] at ho
        | some st =>
          cases sourceFile with
          | none => simp at ho
          | some src =>
            have : (st : Int) = sliceSize := by simpa [hst] using ho.1.1.1.1.1
            omega
    exact copyLoop_returns hc hs (by omega) (by omega) (by omega)
  · exact ⟨_, _, rfl⟩

variable {io : Nat → Action → Io}

theorem tryLoop_returns (hc : Copyable sourceBuffer sliceSize) (tryCount : Nat) (w : World)
    (ret : Int) :
    ∃ w' ret', tryLoop io sourceFile sourceBuffer dest offset sliceSize tryCount w ret =
      some (w', ret') := by
  induction tryCount generalizing w ret with
  | zero => exact ⟨_, _, rfl⟩
  | succ tryCount ih =>
    rw [tryLoop]
    obtain ⟨w1, r1, h1⟩ : ∃ w' ret, upgradeSliceSubAction (io tryCount .write) w sourceFile
        sourceBuffer dest offset sliceSize .write = some (w', ret) :=
      upgradeSliceSubAction_returns hc
    obtain ⟨w2, r2, h2⟩ : ∃ w' ret, upgradeSliceSubAction (io tryCount .verify) w1 sourceFile
        sourceBuffer dest offset sliceSize .verify = some (w', ret) :=
      upgradeSliceSubAction_returns hc
    simp only [h1, h2, Option.bind_eq_bind, Option.bind_some]
    split
    · exact ih _ _
    split
    · exact ih _ _
    · exact ⟨_, _, rfl⟩

theorem upgradeSlice_returns (hc : Copyable sourceBuffer sliceSize) (w : World) :
    ∃ w' ret, upgradeSlice io w sourceFile sourceBuffer dest offset sliceSize = some (w', ret) :=
  tryLoop_returns hc _ _ _

end

/-! ## Banks -/

/-- `"rtos"`. -/
def rtos : CStr := ['r', 't', 'o', 's']

def rtosABNow : CStr := ['r', 't', 'o', 's', 'A', 'B', '_', 'n', 'o', 'w']

def rtosABNext : CStr := ['r', 't', 'o', 's', 'A', 'B', '_', 'n', 'e', 'x', 't']

def bootcount : CStr := ['b', 'o', 'o', 't', 'c', 'o', 'u', 'n', 't']

/-- `"upgrade_available"`. -/
def upgradeAvailable : CStr :=
  ['u', 'p', 'g', 'r', 'a', 'd', 'e', '_', 'a', 'v', 'a', 'i', 'l', 'a', 'b', 'l', 'e']

/-- `"/dev/bootA"`. -/
def devBootA : CStr := ['/', 'd', 'e', 'v', '/', 'b', 'o', 'o', 't', 'A']

/-- `"/dev/bootB"`. -/
def devBootB : CStr := ['/', 'd', 'e', 'v', '/', 'b', 'o', 'o', 't', 'B']

/-- `get_rtos_to_upgrade`: the contents of `target_rtos` afterwards, and its result. -/
def getRtosToUpgrade (opens : Bool) (env : Env) (targetRtos : CStr) : Option (CStr × Int) :=
  if opens then
    match fwGetenv env rtosABNow with
    | none => none
    -- `strncmp(NULL, "A", 1)`
    | some none => none
    | some (some now) =>
      if ['A'] <+: now then some (devBootB, 0)
      else if ['B'] <+: now then some (devBootA, 0)
      else some (targetRtos, -1)
  else some (targetRtos, -1)

/-- The arguments of `aw_upgrade_slice`; the buffer, if there is one, holds `size` bytes. -/
structure Slice where
  target : CStr
  buffer : Option (List UInt8)
  offset : BitVec 32
  size : BitVec 32
  buffer_length : ∀ b ∈ buffer, b.length = size.toNat

/-- `aw_upgrade_slice`; `stack` is what the uninitialised `target_rtos` holds. -/
def awUpgradeSlice (opens : Bool) (env : Env) (stack : CStr) (io : Nat → Action → Io) (w : World)
    (s : Slice) : Option (World × Int) :=
  if s.target = rtos then
    match getRtosToUpgrade opens env stack with
    | none => none
    | some (targetRtos, _) =>
      upgradeSlice io w defaultSourceFile s.buffer targetRtos s.offset.toInt s.size.toInt
  else if ['/'] <+: s.target then
    upgradeSlice io w defaultSourceFile s.buffer s.target s.offset.toInt s.size.toInt
  else some (w, -1)

/-- The writes of `aw_upgrade_end` and the flush: the environment in flash afterwards.
`flushed` says whether `fw_env_flush` gets it there; its result is not looked at. -/
def switchTo (envSize : Nat) (flushed : Bool) (env : Env) (next : CStr) : Option (Env × Int) := do
  let (env1, ret) ← fwEnvWrite envSize env rtosABNext next
  if ret ≠ 0 then return (env, ret)
  let (env2, ret) ← fwEnvWrite envSize env1 bootcount ['0']
  if ret ≠ 0 then return (env, ret)
  let (env3, ret) ← fwEnvWrite envSize env2 upgradeAvailable ['1']
  if ret ≠ 0 then return (env, ret)
  return (if flushed then env3 else env, 0)

/-- `aw_upgrade_end`. -/
def awUpgradeEnd (envSize : Nat) (opens flushed : Bool) (env : Env) : Option (Env × Int) :=
  if opens then
    match fwGetenv env rtosABNow with
    | none => none
    | some none => none
    | some (some now) =>
      if ['A'] <+: now then switchTo envSize flushed env ['B']
      else if ['B'] <+: now then switchTo envSize flushed env ['A']
      else some (env, -1)
  else some (env, -1)

end Melis.Ota
