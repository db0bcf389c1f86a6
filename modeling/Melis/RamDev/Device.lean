import Mathlib.Data.List.Intervals
import Melis.Lib.C
import Melis.Lib.Memory
import Melis.Lib.Run

/-!
# The RAM block device

`ramfs_device.c`: a block device on one buffer of `CONFIG_RAMFS_DEVICE_SIZE` bytes, and the
file operations over it. A position is a signed number of 32 bits, a size an unsigned one, and
a sum of them is unsigned. An access outside the buffer has no result.
-/

namespace Melis.RamDev

open Lib Lib.Memory

structure Config where
  /-- `CONFIG_RAMFS_DEVICE_SIZE`. -/
  size : Nat
  size_lt : size < 2 ^ 31

/-- `struct rt_device_blk_geometry`. -/
structure Geometry where
  sectorCount : Nat
  bytesPerSector : Nat
  blockSize : Nat

inductive Cmd where
  | eraseAll
  /-- With `blk_dev_erase_t`. -/
  | eraseSector (addr len : UInt32)
  | getTotalSize
  | getPageSize
  | getBlockSize
  | getGeome
  | other

/-- What a call gives back: its result, the bytes that it read, and what a command wrote to its
argument. -/
structure Reply where
  ret : Int
  bytes : List UInt8 := []
  number : Option Nat := none
  geometry : Option Geometry := none

/-- `struct dfs_fd`. -/
structure DfsFd where
  /-- `O_DIRECTORY` of `flags`. -/
  directory : Bool
  size : Int
  pos : Int

structure State where
  ramfsBuffer : Option (Nat → UInt8)
  fds : Nat → DfsFd

section

variable (cfg : Config) (s : State)

/-- `n` bytes from `ramfs_buffer + pos` on are in the buffer. -/
def Config.Has (pos : Int) (n : Nat) : Prop := n = 0 ∨ 0 ≤ pos ∧ pos + n ≤ cfg.size

instance (pos : Int) (n : Nat) : Decidable (cfg.Has pos n) := inferInstanceAs (Decidable (_ ∨ _))

/-- The size that a transfer goes on with. -/
def Config.clamp (pos : Int) (size : Nat) : Nat :=
  if cfg.size < u32 (pos + size) then u32 (cfg.size - pos) else size

def sunxiRamfsDevRead (pos : Int) (size : UInt32) : Option (Nat × List UInt8) :=
  match s.ramfsBuffer with
  | none => some (0, [])
  | some ramfsBuffer =>
    let size := cfg.clamp pos size.toNat
    if cfg.Has pos size then some (size, load ramfsBuffer (List.range' pos.toNat size)) else none

def sunxiRamfsDevWrite (pos : Int) (buffer : Nat → UInt8) (size : UInt32) : Option (Nat × State) :=
  match s.ramfsBuffer with
  | none => some (0, s)
  | some ramfsBuffer =>
    let size := cfg.clamp pos size.toNat
    if cfg.Has pos size then
      some (size, { s with ramfsBuffer := some (copyN ramfsBuffer pos.toNat buffer 0 size) })
    else none

/-- `memset(ramfs_buffer + addr, 0xff, len)`. -/
def erase (addr len : Nat) : Option State :=
  match s.ramfsBuffer with
  | none => some s
  | some ramfsBuffer =>
    if cfg.Has addr len then
      some { s with ramfsBuffer := some (copyN ramfsBuffer addr (fun _ => 0xff) 0 len) }
    else none

/-- `sunxi_ramfs_dev_control`. The `size` that the erase of a sector clamps is not used. -/
def sunxiRamfsDevControl : Cmd → Option (Reply × State)
  | .eraseAll => (erase cfg s 0 cfg.size).map fun s => ({ ret := 0 }, s)
  | .eraseSector addr len => (erase cfg s addr.toNat len.toNat).map fun s => ({ ret := 0 }, s)
  | .getTotalSize => some ({ ret := 0, number := some cfg.size }, s)
  | .getPageSize => some ({ ret := 0, number := some 256 }, s)
  | .getBlockSize => some ({ ret := 0, number := some 4096 }, s)
  | .getGeome => some ({ ret := 0, geometry := some ⟨cfg.size / 512, 512, 4096⟩ }, s)
  | .other => some ({ ret := 0 }, s)

/-! ## File operations -/

def State.setFd (fd : Nat) (f : DfsFd) : State := { s with fds := Function.update s.fds fd f }

/-- `fd->pos += ret` for a transfer that did not fail. -/
def State.advance (fd : Nat) (ret : Int) : State :=
  if 0 ≤ ret then s.setFd fd { s.fds fd with pos := (s.fds fd).pos + ret } else s

def sunxiRamfsDevFopsOpen (fd : Nat) : State := s.setFd fd { s.fds fd with size := cfg.size }

def sunxiRamfsDevFopsRead (fd : Nat) (count : UInt32) : Option (Reply × State) :=
  (sunxiRamfsDevRead cfg s (i32 (s.fds fd).pos) count).map fun r =>
    ({ ret := i32 r.1, bytes := r.2 }, s.advance fd (i32 r.1))

def sunxiRamfsDevFopsWrite (fd : Nat) (buf : Nat → UInt8) (count : UInt32) :
    Option (Reply × State) :=
  (sunxiRamfsDevWrite cfg s (i32 (s.fds fd).pos) buf count).map fun r =>
    ({ ret := i32 r.1 }, r.2.advance fd (i32 r.1))

def sunxiRamfsDevFopsLseek (fd : Nat) (offset : Int32) : Reply × State :=
  if (s.fds fd).directory then ({ ret := -1 }, s)
  else if (s.fds fd).size < offset.toInt then ({ ret := -1 }, s)
  else ({ ret := offset.toInt }, s.setFd fd { s.fds fd with pos := offset.toInt })

end

/-! ## Calls -/

inductive Call where
  | read (pos : Int32) (size : UInt32)
  | write (pos : Int32) (buffer : Nat → UInt8) (size : UInt32)
  | control (cmd : Cmd)
  | fopsOpen (fd : Nat)
  | fopsRead (fd : Nat) (count : UInt32)
  | fopsWrite (fd : Nat) (buf : Nat → UInt8) (count : UInt32)
  | fopsLseek (fd : Nat) (offset : Int32)
  | fopsIoctl (fd : Nat) (cmd : Cmd)

def step (cfg : Config) (s : State) : Call → Option (Reply × State)
  | .read pos size =>
    (sunxiRamfsDevRead cfg s pos.toInt size).map fun r => ({ ret := r.1, bytes := r.2 }, s)
  | .write pos buffer size =>
    (sunxiRamfsDevWrite cfg s pos.toInt buffer size).map fun r => ({ ret := r.1 }, r.2)
  | .control cmd => sunxiRamfsDevControl cfg s cmd
  | .fopsOpen fd => some ({ ret := 0 }, sunxiRamfsDevFopsOpen cfg s fd)
  | .fopsRead fd count => sunxiRamfsDevFopsRead cfg s fd count
  | .fopsWrite fd buf count => sunxiRamfsDevFopsWrite cfg s fd buf count
  | .fopsLseek fd offset => some (sunxiRamfsDevFopsLseek s fd offset)
  | .fopsIoctl _ cmd => sunxiRamfsDevControl cfg s cmd

def device (cfg : Config) : Machine State Call where
  next s call := (step cfg s call).map Prod.snd

end Melis.RamDev

namespace Melis.RamDev

/-! ## The device as an array of bytes

`device_iff` says which runs of the RAM device are those of an array of bytes: each call finds
its range in the array, `Within`. A transfer clamps the end of its range, an erase does not, and
neither looks at a start outside the device.
-/

open Lib Lib.Memory

section

variable (cfg : Config)

/-! ## Byte arrays -/

/-- The places of the device in the `n` bytes from `pos` on. -/
def Config.inside (pos : Int) (n : Nat) : List Nat :=
  (List.Ico 0 cfg.size).filter fun x => pos ≤ x ∧ (x : Int) < pos + n

/-- The bytes of the array behind a command. -/
def Config.commanded (c : Nat → UInt8) : Cmd → Nat → UInt8
  | .eraseAll, x => if x ∈ cfg.inside 0 cfg.size then 0xff else c x
  | .eraseSector addr len, x => if x ∈ cfg.inside addr.toNat len.toNat then 0xff else c x
  | _, x => c x

/-- The bytes of the array behind `n` bytes that are written from `pos` on. -/
def Config.written (c : Nat → UInt8) (pos : Int) (buffer : Nat → UInt8) (n x : Nat) : UInt8 :=
  if x ∈ cfg.inside pos n then buffer (x - pos).toNat else c x

/-- The bytes of the array behind a call. A call through a file is at its position. -/
def Config.applied (s : State) (c : Nat → UInt8) : Call → Nat → UInt8
  | .write pos buffer size => cfg.written c pos.toInt buffer size.toNat
  | .fopsWrite fd buf count => cfg.written c (s.fds fd).pos buf count.toNat
  | .control cmd => cfg.commanded c cmd
  | .fopsIoctl _ cmd => cfg.commanded c cmd
  | _ => c

/-- The bytes that a call gets from the array, and how many a transfer moves. -/
def Config.Answers (s : State) (c : Nat → UInt8) (r : Reply) : Call → Prop
  | .read pos size => r.ret = (cfg.inside pos.toInt size.toNat).length ∧
    r.bytes = load c (cfg.inside pos.toInt size.toNat)
  | .fopsRead fd count => r.ret = (cfg.inside (s.fds fd).pos count.toNat).length ∧
    r.bytes = load c (cfg.inside (s.fds fd).pos count.toNat)
  | .write pos _ size => r.ret = (cfg.inside pos.toInt size.toNat).length
  | .fopsWrite fd _ count => r.ret = (cfg.inside (s.fds fd).pos count.toNat).length
  | _ => True

/-- The call stays in the buffer and does what it does on an array of bytes. -/
def Behaves (s : State) (call : Call) (s' : State) : Prop :=
  ∃ r c c', step cfg s call = some (r, s') ∧ s.ramfsBuffer = some c ∧ s'.ramfsBuffer = some c' ∧
    (∀ x < cfg.size, c' x = cfg.applied s c call x) ∧ cfg.Answers s c r call

/-! ## Ranges -/

/-- A transfer that starts in the device, or at its end, and does not wrap around. -/
def Config.Starts (pos : Int) (n : Nat) : Prop := 0 ≤ pos ∧ pos ≤ cfg.size ∧ pos + n < 2 ^ 32

instance (pos : Int) (n : Nat) : Decidable (cfg.Starts pos n) :=
  inferInstanceAs (Decidable (_ ∧ _))

def Config.Commands : Cmd → Prop
  | .eraseSector addr len => len.toNat = 0 ∨ addr.toNat + len.toNat ≤ cfg.size
  | _ => True

/-- The ranges that a call may have. -/
def Within (s : State) : Call → Prop
  | .read pos size => cfg.Starts pos.toInt size.toNat
  | .write pos _ size => cfg.Starts pos.toInt size.toNat
  | .fopsRead fd count => cfg.Starts (s.fds fd).pos count.toNat
  | .fopsWrite fd _ count => cfg.Starts (s.fds fd).pos count.toNat
  | .control cmd => cfg.Commands cmd
  | .fopsIoctl _ cmd => cfg.Commands cmd
  | _ => True

instance : ∀ cmd, Decidable (cfg.Commands cmd)
  | .eraseSector .. => inferInstanceAs (Decidable (_ ∨ _))
  | .eraseAll | .getTotalSize | .getPageSize | .getBlockSize | .getGeome | .other => .isTrue trivial

instance (s : State) : ∀ call, Decidable (Within cfg s call)
  | .read pos size => inferInstanceAs (Decidable (cfg.Starts pos.toInt size.toNat))
  | .write pos _ size => inferInstanceAs (Decidable (cfg.Starts pos.toInt size.toNat))
  | .fopsRead fd count => inferInstanceAs (Decidable (cfg.Starts (s.fds fd).pos count.toNat))
  | .fopsWrite fd _ count => inferInstanceAs (Decidable (cfg.Starts (s.fds fd).pos count.toNat))
  | .control cmd => inferInstanceAs (Decidable (cfg.Commands cmd))
  | .fopsIoctl _ cmd => inferInstanceAs (Decidable (cfg.Commands cmd))
  | .fopsOpen .. | .fopsLseek .. => .isTrue trivial

variable {cfg} {pos : Int} {n x : Nat} {c c' : Nat → UInt8} {s s' : State} {r : Reply}
  {call : Call}

theorem Config.mem_inside :
    x ∈ cfg.inside pos n ↔ x < cfg.size ∧ pos ≤ x ∧ (x : Int) < pos + n := by
  simp [Config.inside]

theorem Config.inside_eq (h0 : 0 ≤ pos) :
    cfg.inside pos n = List.range' pos.toNat (min n (cfg.size - pos.toNat)) := by
  obtain ⟨p, rfl⟩ := Int.eq_ofNat_of_zero_le h0
  have hsplit : cfg.inside p n =
      ((List.Ico 0 cfg.size).filter fun x => p ≤ x).filter fun x => x < p + n := by
    unfold Config.inside
    rw [List.filter_filter]
    apply List.filter_congr
    intro x _
    simp only [Bool.decide_and, Bool.and_comm]
    congr 1 <;> simp only [decide_eq_decide] <;> omega
  rw [hsplit, List.Ico.filter_le, List.Ico.filter_lt, Nat.zero_max]
  unfold List.Ico
  rw [Int.toNat_natCast]
  congr 1
  omega

theorem Config.length_inside (h0 : 0 ≤ pos) :
    (cfg.inside pos n).length = min n (cfg.size - pos.toNat) := by
  rw [Config.inside_eq h0, List.length_range']

/-- A transfer has a place for all its bytes just if it starts in the device. -/
theorem Config.has_clamp (cfg : Config) (hmin : -2 ^ 31 ≤ pos) (hmax : pos < 2 ^ 31) (hn : n < 2 ^ 32) :
    cfg.Has pos (cfg.clamp pos n) ↔ cfg.Starts pos n := by
  have hsize := cfg.size_lt
  unfold Config.Has Config.clamp Config.Starts u32
  split <;> omega

theorem Config.clamp_eq (hmax : pos < 2 ^ 31) (h : cfg.Starts pos n) :
    cfg.clamp pos n = min n (cfg.size - pos.toNat) := by
  have hsize := cfg.size_lt
  unfold Config.Starts at h
  unfold Config.clamp u32
  split <;> omega

/-! ## Transfers -/

theorem sunxiRamfsDevRead_eq (cfg : Config) (hbuf : s.ramfsBuffer = some c)
    (hmin : -2 ^ 31 ≤ pos) (hmax : pos < 2 ^ 31) (size : UInt32) : sunxiRamfsDevRead cfg s pos size =
      if cfg.Starts pos size.toNat then some ((cfg.inside pos size.toNat).length,
        load c (cfg.inside pos size.toNat)) else none := by
  have hiff := cfg.has_clamp hmin hmax size.toNat_lt
  unfold sunxiRamfsDevRead
  rw [hbuf]
  dsimp only
  by_cases hstarts : cfg.Starts pos size.toNat
  · rw [if_pos (hiff.2 hstarts), if_pos hstarts, Config.clamp_eq hmax hstarts,
      Config.length_inside hstarts.1, Config.inside_eq hstarts.1]
  · rw [if_neg (mt hiff.1 hstarts), if_neg hstarts]

/-- A copy into the buffer is what is written to the array. -/
theorem Config.written_eq (h : cfg.Starts pos n) (buffer : Nat → UInt8) :
    copyN c pos.toNat buffer 0 (min n (cfg.size - pos.toNat)) = cfg.written c pos buffer n := by
  obtain ⟨h0, hle, -⟩ := h
  funext x
  unfold copyN Config.written
  by_cases hx : x ∈ cfg.inside pos n
  · obtain ⟨hlt, hge, hend⟩ := Config.mem_inside.1 hx
    rw [if_pos (by omega), if_pos hx, Nat.zero_add]
    congr 1
    omega
  · rw [if_neg hx, if_neg]
    intro hin
    exact hx (Config.mem_inside.2 (by omega))

theorem sunxiRamfsDevWrite_eq (cfg : Config) (hbuf : s.ramfsBuffer = some c)
    (hmin : -2 ^ 31 ≤ pos) (hmax : pos < 2 ^ 31) (buffer : Nat → UInt8) (size : UInt32) :
    sunxiRamfsDevWrite cfg s pos buffer size =
      if cfg.Starts pos size.toNat then some ((cfg.inside pos size.toNat).length,
        { s with ramfsBuffer := some (cfg.written c pos buffer size.toNat) }) else none := by
  have hiff := cfg.has_clamp hmin hmax size.toNat_lt
  unfold sunxiRamfsDevWrite
  rw [hbuf]
  dsimp only
  by_cases hstarts : cfg.Starts pos size.toNat
  · rw [if_pos (hiff.2 hstarts), if_pos hstarts, Config.clamp_eq hmax hstarts,
      Config.length_inside hstarts.1, Config.written_eq hstarts]
  · rw [if_neg (mt hiff.1 hstarts), if_neg hstarts]

/-- A transfer moves no more bytes than the device has. -/
theorem Config.length_inside_lt (h : cfg.Starts pos n) : (cfg.inside pos n).length < 2 ^ 31 := by
  have hsize := cfg.size_lt
  rw [Config.length_inside h.1]
  omega

/-! ## Commands -/

theorem erase_eq (hbuf : s.ramfsBuffer = some c) (addr len : Nat) : erase cfg s addr len =
    if len = 0 ∨ addr + len ≤ cfg.size then some { s with
      ramfsBuffer := some fun x => if x ∈ cfg.inside addr len then 0xff else c x }
    else none := by
  have hiff : cfg.Has addr len ↔ len = 0 ∨ addr + len ≤ cfg.size := by
    unfold Config.Has
    omega
  unfold erase
  rw [hbuf]
  dsimp only
  by_cases hin : len = 0 ∨ addr + len ≤ cfg.size
  · rw [if_pos (hiff.2 hin), if_pos hin]
    congr 3
    funext x
    unfold copyN
    by_cases hx : x ∈ cfg.inside addr len
    · have hmem := Config.mem_inside.1 hx
      rw [if_pos hx, if_pos (by omega)]
    · rw [if_neg hx, if_neg]
      intro h
      exact hx (Config.mem_inside.2 (by omega))
  · rw [if_neg (mt hiff.1 hin), if_neg hin]

/-- A command stays in the buffer just if its range does. -/
theorem sunxiRamfsDevControl_eq (cfg : Config) (hbuf : s.ramfsBuffer = some c) (cmd : Cmd) :
    (cfg.Commands cmd → ∃ r, sunxiRamfsDevControl cfg s cmd =
        some (r, { s with ramfsBuffer := some (cfg.commanded c cmd) })) ∧
      (¬ cfg.Commands cmd → sunxiRamfsDevControl cfg s cmd = none) := by
  have hsame : s = { s with ramfsBuffer := some c } := by
    cases s
    cases hbuf
    rfl
  cases cmd with
  | eraseAll =>
    refine ⟨fun _ => ⟨{ ret := 0 }, ?_⟩, fun h => absurd trivial h⟩
    unfold sunxiRamfsDevControl
    rw [erase_eq hbuf, if_pos (.inr (Nat.zero_add _).le)]
    rfl
  | eraseSector addr len =>
    have hmap : sunxiRamfsDevControl cfg s (.eraseSector addr len) =
      (erase cfg s addr.toNat len.toNat).map fun s => ({ ret := 0 }, s) := rfl
    rw [hmap, erase_eq hbuf]
    refine ⟨fun h => ⟨{ ret := 0 }, ?_⟩, fun h => ?_⟩
    · have hin : len.toNat = 0 ∨ addr.toNat + len.toNat ≤ cfg.size := h
      rw [if_pos hin]
      rfl
    · have hout : ¬ (len.toNat = 0 ∨ addr.toNat + len.toNat ≤ cfg.size) := h
      rw [if_neg hout]
      rfl
  | _ => exact ⟨fun _ => ⟨_, congrArg (fun t => some (_, t)) hsame⟩, fun h => absurd trivial h⟩

/-! ## Calls -/

/-- The buffer is there, and the positions of files are `off_t`. -/
structure Ready (s : State) : Prop where
  buffer : ∃ c, s.ramfsBuffer = some c
  pos : ∀ fd, -2 ^ 31 ≤ (s.fds fd).pos ∧ (s.fds fd).pos < 2 ^ 31

theorem i32_length (h : cfg.Starts pos n) : i32 (cfg.inside pos n).length =
    (cfg.inside pos n).length := by
  have hlt := Config.length_inside_lt h
  exact i32_eq (by omega) (by omega)

/-- A call that leaves the buffer. -/
theorem exact_of_none (hC : ¬ Within cfg s call) (hstep : step cfg s call = none) :
    (device cfg).Exact Ready (fun _ => True) (Behaves cfg) (Within cfg) s call := by
  refine .lost hC fun s' hs => ?_
  have hnext : (device cfg).next s call = none := congrArg (Option.map Prod.snd) hstep
  cases hnext.symm.trans hs

/-- A call that stays in it. -/
theorem exact_of_some (hC : Within cfg s call) (hstep : step cfg s call = some (r, s'))
    (hbuf : s.ramfsBuffer = some c) (hbuf' : s'.ramfsBuffer = some (cfg.applied s c call))
    (hanswers : cfg.Answers s c r call) (hready : Ready s') :
    (device cfg).Exact Ready (fun _ => True) (Behaves cfg) (Within cfg) s call := by
  refine .kept hC s' (congrArg (Option.map Prod.snd) hstep) ?_ hready
  exact ⟨r, c, _, hstep, hbuf, hbuf', fun _ _ => rfl, hanswers⟩

theorem Ready.setBuffer (h : Ready s) : Ready { s with ramfsBuffer := some c } :=
  ⟨⟨c, rfl⟩, h.pos⟩

theorem Ready.setFd {fd : Nat} {f : DfsFd} (h : Ready s)
    (hf : -2 ^ 31 ≤ f.pos ∧ f.pos < 2 ^ 31) : Ready (s.setFd fd f) := by
  refine ⟨h.buffer, fun fd' => ?_⟩
  unfold State.setFd
  dsimp only
  by_cases hfd : fd' = fd
  · subst hfd
    rw [Function.update_self]
    exact hf
  · rw [Function.update_of_ne hfd]
    exact h.pos fd'

/-- A file stays in the device when a transfer moves it. -/
theorem Ready.advance {fd : Nat} (h : Ready s) (hs : cfg.Starts (s.fds fd).pos n) :
    Ready (s.advance fd (cfg.inside (s.fds fd).pos n).length) := by
  have hsize := cfg.size_lt
  have hlen : (cfg.inside (s.fds fd).pos n).length =
    min n (cfg.size - (s.fds fd).pos.toNat) := Config.length_inside hs.1
  unfold Config.Starts at hs
  unfold State.advance
  rw [if_pos (Int.natCast_nonneg _)]
  apply h.setFd
  dsimp only
  omega

/-- A command, of the device or through a file. -/
theorem control_exact (h : Ready s) (cmd : Cmd) (hbuf : s.ramfsBuffer = some c)
    (hstep : step cfg s call = sunxiRamfsDevControl cfg s cmd)
    (hwithin : Within cfg s call ↔ cfg.Commands cmd)
    (happlied : cfg.applied s c call = cfg.commanded c cmd)
    (hanswers : ∀ r, cfg.Answers s c r call) :
    (device cfg).Exact Ready (fun _ => True) (Behaves cfg) (Within cfg) s call := by
  obtain ⟨hin, hout⟩ := sunxiRamfsDevControl_eq cfg hbuf cmd
  by_cases hcmd : cfg.Commands cmd
  · obtain ⟨r, hr⟩ := hin hcmd
    exact exact_of_some (hwithin.2 hcmd) (hstep.trans hr) hbuf
      (congrArg some happlied.symm) (hanswers r) h.setBuffer
  · exact exact_of_none (mt hwithin.1 hcmd) (hstep.trans (hout hcmd))

/-- What a call does in a state that is ready. -/
theorem step_exact (h : Ready s) (call : Call) :
    (device cfg).Exact Ready (fun _ => True) (Behaves cfg) (Within cfg) s call := by
  obtain ⟨c, hbuf⟩ := h.buffer
  cases call with
  | read pos size =>
    have heq := sunxiRamfsDevRead_eq cfg hbuf pos.le_toInt pos.toInt_lt size
    by_cases hstarts : cfg.Starts pos.toInt size.toNat
    · rw [if_pos hstarts] at heq
      exact exact_of_some hstarts (congrArg (Option.map _) heq) hbuf hbuf ⟨rfl, rfl⟩ h
    · rw [if_neg hstarts] at heq
      exact exact_of_none hstarts (congrArg (Option.map _) heq)
  | write pos buffer size =>
    have heq := sunxiRamfsDevWrite_eq cfg hbuf pos.le_toInt pos.toInt_lt buffer size
    by_cases hstarts : cfg.Starts pos.toInt size.toNat
    · rw [if_pos hstarts] at heq
      exact exact_of_some hstarts (congrArg (Option.map _) heq) hbuf rfl rfl h.setBuffer
    · rw [if_neg hstarts] at heq
      exact exact_of_none hstarts (congrArg (Option.map _) heq)
  | control cmd => exact control_exact h cmd hbuf rfl Iff.rfl rfl fun _ => trivial
  | fopsOpen fd => exact exact_of_some trivial rfl hbuf hbuf trivial (h.setFd (h.pos fd))
  | fopsRead fd count =>
    obtain ⟨hmin, hmax⟩ := h.pos fd
    have heq := sunxiRamfsDevRead_eq cfg hbuf hmin hmax count
    have hstep : step cfg s (.fopsRead fd count) =
        (sunxiRamfsDevRead cfg s (s.fds fd).pos count).map fun r =>
          ({ ret := i32 r.1, bytes := r.2 }, s.advance fd (i32 r.1)) := by
      show sunxiRamfsDevFopsRead cfg s fd count = _
      unfold sunxiRamfsDevFopsRead
      rw [i32_eq hmin hmax]
    rw [heq] at hstep
    by_cases hstarts : cfg.Starts (s.fds fd).pos count.toNat
    · rw [if_pos hstarts, Option.map_some, i32_length hstarts] at hstep
      refine exact_of_some hstarts hstep hbuf ?_ ⟨rfl, rfl⟩ (h.advance hstarts)
      unfold State.advance
      rw [if_pos (Int.natCast_nonneg _)]
      exact hbuf
    · rw [if_neg hstarts] at hstep
      exact exact_of_none hstarts hstep
  | fopsWrite fd buf count =>
    obtain ⟨hmin, hmax⟩ := h.pos fd
    have heq := sunxiRamfsDevWrite_eq cfg hbuf hmin hmax buf count
    have hstep : step cfg s (.fopsWrite fd buf count) =
        (sunxiRamfsDevWrite cfg s (s.fds fd).pos buf count).map fun r =>
          ({ ret := i32 r.1 }, r.2.advance fd (i32 r.1)) := by
      show sunxiRamfsDevFopsWrite cfg s fd buf count = _
      unfold sunxiRamfsDevFopsWrite
      rw [i32_eq hmin hmax]
    rw [heq] at hstep
    by_cases hstarts : cfg.Starts (s.fds fd).pos count.toNat
    · rw [if_pos hstarts, Option.map_some, i32_length hstarts] at hstep
      have hready : Ready { s with
        ramfsBuffer := some (cfg.written c (s.fds fd).pos buf count.toNat) } := h.setBuffer
      refine exact_of_some hstarts hstep hbuf ?_ rfl (hready.advance hstarts)
      unfold State.advance
      rw [if_pos (Int.natCast_nonneg _)]
      rfl
    · rw [if_neg hstarts] at hstep
      exact exact_of_none hstarts hstep
  | fopsLseek fd offset =>
    have hstep : step cfg s (.fopsLseek fd offset) =
      some (sunxiRamfsDevFopsLseek s fd offset) := rfl
    unfold sunxiRamfsDevFopsLseek at hstep
    split at hstep
    · exact exact_of_some trivial hstep hbuf hbuf trivial h
    · split at hstep
      · exact exact_of_some trivial hstep hbuf hbuf trivial h
      · exact exact_of_some trivial hstep hbuf hbuf trivial
          (h.setFd ⟨offset.le_toInt, offset.toInt_lt⟩)
  | fopsIoctl fd cmd => exact control_exact h cmd hbuf rfl Iff.rfl rfl fun _ => trivial

/-- In a run of any calls the device behaves as an array of bytes all along just if each call finds
its range in it. -/
theorem device_iff (cfg : Config) (s : State) (calls : List Call) (h : Ready s) :
    (device cfg).Upholds (fun _ => True) (Behaves cfg) s calls ↔
      (device cfg).Meets (Within cfg) s calls :=
  Machine.upholds_iff_meets (L := fun _ _ => True) (fun _ _ => trivial)
    (fun _ call hready _ => step_exact hready call) h
    (Machine.meets_of_forall (P := fun _ => True) fun _ _ => trivial)

end

/-- A device of 16 bytes. -/
def sixteen : Config := ⟨16, by decide⟩

def blank : State := ⟨some fun _ => 0, fun _ => ⟨false, 16, 0⟩⟩

theorem blank_ready : Ready blank :=
  ⟨⟨_, rfl⟩, fun _ => show -2 ^ 31 ≤ (0 : Int) ∧ (0 : Int) < 2 ^ 31 by decide⟩

/-- Four bytes are written across the end, erased in part, and read through a file. -/
theorem device_iff_sixteen : (device sixteen).Upholds (fun _ => True) (Behaves sixteen) blank
    [.write 14 (fun _ => 7) 4, .control (.eraseSector 15 1), .fopsLseek 0 12, .fopsRead 0 8] :=
  (device_iff sixteen blank _ blank_ready).2 (by decide)

/-- A read behind the end leaves the buffer. -/
theorem device_not :
    ¬ (device sixteen).Upholds (fun _ => True) (Behaves sixteen) blank [.read 17 1] := by
  rintro ⟨-, s', hs, -⟩
  have hnone : (device sixteen).next blank (.read 17 1) = none := by decide
  cases hnone.symm.trans hs

end Melis.RamDev
