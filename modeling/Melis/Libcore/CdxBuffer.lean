import Melis.Lib.C
import Melis.Lib.Memory
import Melis.Lib.Run
import Melis.Lib.Window

/-!
# CdxBuffer

`CdxBuffer.c`: bytes in a block of the pool, of which `getData` and `getSize` show a range.
Offsets and lengths have 32 bits. `Prealloc` keeps the bytes of the old block; what else
stands in a block of the pool is an argument of each call. A call is `none` where the code
does not return, or copies to or from a place outside the block. `CDX_CHECK` is empty but
in a debug build.
-/

namespace Melis.Libcore

open Lib

/-- `while (ret < val)` of `Align2Power`, for as many rounds. -/
def Align2PowerLoop (val : Nat) : Nat → Nat → Option Nat
  | 0, _ => none
  | rounds + 1, ret =>
    if ret < val then Align2PowerLoop val rounds (ret <<< 2 % 2 ^ 32) else some ret

/-- `none` is a loop that does not end: `ret` is 0 from the twelfth round on. -/
def Align2Power (val : Nat) : Option Nat := Align2PowerLoop val 12 1024

structure CdxBufferImplS where
  mData : Nat → UInt8
  mCapacity : Nat
  mRangeOffset : Nat
  mRangeLen : Nat

namespace CdxBufferImplS

variable (impl : CdxBufferImplS)

/-- `impl->mData + impl->mRangeOffset` -/
def getData : Nat → UInt8 := fun i => impl.mData (impl.mRangeOffset + i)

def getSize : Nat := impl.mRangeLen

/-- `memcpy` to the block. -/
def memcpy (offset : Nat) (data : List UInt8) : Option CdxBufferImplS :=
  if offset + data.length ≤ impl.mCapacity then
    some { impl with mData := Memory.memcpy impl.mData offset data }
  else none

/-- The branch of `onWrite` that makes the block larger. -/
def grow (fresh : Nat → UInt8) (size : Nat) : Option CdxBufferImplS :=
  if impl.mCapacity < size then
    (Align2Power size).map fun mCapacity =>
      { impl with mCapacity, mData := Memory.copyN fresh 0 impl.mData 0 impl.mCapacity }
  else some impl

def onWrite (fresh : Nat → UInt8) (offset : Nat) (data : List UInt8) : Option CdxBufferImplS :=
  (impl.grow fresh ((offset + data.length) % 2 ^ 32)).bind fun impl => impl.memcpy offset data

def onSetRange (offset len : Nat) : CdxBufferImplS :=
  { impl with mRangeOffset := offset, mRangeLen := len }

def setRange (offset len : Nat) : CdxBufferImplS := impl.onSetRange offset len

def seekRange (left right : Int) : CdxBufferImplS :=
  { impl with
    mRangeOffset := u32 (i32 impl.mRangeOffset + left)
    mRangeLen := u32 (i32 impl.mRangeLen + (right - left)) }

def append (fresh : Nat → UInt8) (data : List UInt8) : Option CdxBufferImplS :=
  (impl.onWrite fresh ((impl.mRangeOffset + impl.mRangeLen) % 2 ^ 32) data).map fun impl =>
    impl.onSetRange impl.mRangeOffset ((impl.mRangeLen + data.length) % 2 ^ 32)

/-- The third way of `insert`, where the capacity is too small. -/
def insertFresh (fresh : Nat → UInt8) (data : List UInt8) (mRangeLen : Nat) :
    Option CdxBufferImplS :=
  (Align2Power mRangeLen).bind fun mCapacity =>
    if data.length + impl.mRangeLen ≤ mCapacity ∧
        impl.mRangeOffset + impl.mRangeLen ≤ impl.mCapacity then
      let tmpData := Memory.memcpy fresh 0 data
      some { mData := Memory.copyN tmpData data.length impl.mData impl.mRangeOffset impl.mRangeLen
             mCapacity, mRangeOffset := 0, mRangeLen }
    else none

def insert (fresh : Nat → UInt8) (data : List UInt8) : Option CdxBufferImplS :=
  let mRangeLen := (impl.mRangeLen + data.length) % 2 ^ 32
  if data.length ≤ impl.mRangeOffset then
    let mRangeOffset := impl.mRangeOffset - data.length
    { impl with mRangeOffset, mRangeLen }.memcpy mRangeOffset data
  else if mRangeLen ≤ impl.mCapacity then
    if data.length + impl.mRangeLen ≤ impl.mCapacity ∧
        impl.mRangeOffset + impl.mRangeLen ≤ impl.mCapacity then
      let moved :=
        Memory.copyN impl.mData data.length impl.mData impl.mRangeOffset impl.mRangeLen
      { impl with mData := moved, mRangeOffset := 0, mRangeLen }.memcpy 0 data
    else none
  else impl.insertFresh fresh data mRangeLen

end CdxBufferImplS

/-- `__CdxBufferCreate` with the bytes of `initData`. -/
def CdxBufferCreate (fresh : Nat → UInt8) (capacity : Nat) (initData : List UInt8) :
    Option CdxBufferImplS :=
  (Align2Power capacity).bind fun mCapacity =>
    { mData := fresh, mCapacity, mRangeOffset := 0, mRangeLen := initData.length :
      CdxBufferImplS }.memcpy 0 initData

/-! ## Runs -/

namespace CdxBuffer

inductive Call
  | append (data : List UInt8)
  | insert (data : List UInt8)
  | setRange (offset len : Nat)
  | seekRange (left right : Int)

/-- What a call does to the buffer. -/
def call (fresh : Nat → UInt8) (impl : CdxBufferImplS) : Call → Option CdxBufferImplS
  | .append data => impl.append fresh data
  | .insert data => impl.insert fresh data
  | .setRange offset len => some (impl.setRange offset len)
  | .seekRange left right => some (impl.seekRange left right)

/-- What a call means for the bytes. -/
def text (w : Window UInt8) : Call → Window UInt8
  | .append data => w.append data
  | .insert data => w.insert data
  | .setRange offset len => w.select offset len
  | .seekRange left right =>
    w.select (w.before.length + left).toNat (w.seen.length + (right - left)).toNat

/-- A buffer with its bytes, fed with calls and what stands in new blocks. -/
def buffer : Machine (CdxBufferImplS × Window UInt8) (Call × (Nat → UInt8)) where
  next s i := (call i.2 s.1 i.1).map fun impl => (impl, text s.2 i.1)

/-- `getSize` and `getData` show the bytes of the window, inside the block. -/
structure Describes (s : CdxBufferImplS × Window UInt8) : Prop where
  size : s.1.getSize = s.2.seen.length
  data : Known s.2.seen s.1.getData
  room : s.1.mRangeOffset + s.1.mRangeLen ≤ s.1.mCapacity

/-- What a caller promises: less than 2^31 bytes, 32-bit arguments, and a range inside the
block where it is sought. -/
def Promised (s : CdxBufferImplS × Window UInt8) (i : Call × (Nat → UInt8)) : Prop :=
  match i.1 with
  | .append data => data.length < 2 ^ 31
  | .insert data => data.length < 2 ^ 31
  | .setRange offset len => offset < 2 ^ 32 ∧ len < 2 ^ 32
  | .seekRange left right => 0 ≤ s.1.mRangeOffset + left ∧ 0 ≤ s.1.mRangeLen + (right - left) ∧
      s.1.mRangeOffset + s.1.mRangeLen + right ≤ s.1.mCapacity

instance (s : CdxBufferImplS × Window UInt8) (i : Call × (Nat → UInt8)) :
    Decidable (Promised s i) :=
  match i with
  | (.append _, _) => inferInstanceAs (Decidable (_ < _))
  | (.insert _, _) => inferInstanceAs (Decidable (_ < _))
  | (.setRange _ _, _) => inferInstanceAs (Decidable (_ ∧ _))
  | (.seekRange _ _, _) => inferInstanceAs (Decidable (_ ∧ _ ∧ _))

/-- The block need not be larger than 2^30 bytes, and a range that is set lies inside it. -/
def Bounded (s : CdxBufferImplS × Window UInt8) (i : Call × (Nat → UInt8)) : Prop :=
  match i.1 with
  | .append data => s.1.mRangeOffset + s.1.mRangeLen + data.length ≤ 2 ^ 30
  | .insert data => s.1.mRangeLen + data.length ≤ 2 ^ 30
  | .setRange offset len => offset + len ≤ s.1.mCapacity
  | .seekRange _ _ => True

instance (s : CdxBufferImplS × Window UInt8) (i : Call × (Nat → UInt8)) :
    Decidable (Bounded s i) :=
  match i with
  | (.append _, _) => inferInstanceAs (Decidable (_ ≤ _))
  | (.insert _, _) => inferInstanceAs (Decidable (_ ≤ _))
  | (.setRange _ _, _) => inferInstanceAs (Decidable (_ ≤ _))
  | (.seekRange _ _, _) => inferInstanceAs (Decidable True)

end CdxBuffer

end Melis.Libcore
