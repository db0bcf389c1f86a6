import Mathlib.Data.Int.NatAbs
import Mathlib.Data.List.FinRange
import Melis.Lib.Chain
import Melis.Lib.Run

/-!
# DMA channels

`sunxi_dma_core.c`: a static array of channels, each with a chain of descriptors
(`vlln`) that are allocated one by one. A pointer is `none` where it is `NULL`.
What `hal_malloc` returns is an argument of the call. Interrupts and the count
that keeps the scheduler locked are state of the processor.
-/

namespace Melis.Dma

open Lib Function

abbrev NR_MAX_CHAN : Nat := 8

/-- An index into `dma_chan_source`. -/
abbrev ChanId := Fin NR_MAX_CHAN

abbrev Addr := UInt32

inductive Direction
  | DMA_MEM_TO_MEM
  | DMA_MEM_TO_DEV
  | DMA_DEV_TO_MEM
  | DMA_DEV_TO_DEV
  | DMA_TRANS_NONE
  deriving DecidableEq, Repr

structure SlaveConfig where
  direction : Direction
  src_addr : UInt32
  dst_addr : UInt32
  src_addr_width : UInt32
  dst_addr_width : UInt32
  src_maxburst : UInt32
  dst_maxburst : UInt32
  slave_id : UInt32
  deriving DecidableEq, Repr

/-- `sunxi_dma_lli` -/
structure Lli where
  cfg : UInt32
  src : UInt32
  dst : UInt32
  len : UInt32
  para : UInt32
  p_lln : UInt32
  vlln : Option Addr
  deriving DecidableEq, Repr

/-- `sunxi_dma_chan` -/
structure Chan where
  used : Bool
  chan_count : Nat
  cyclic : Bool
  cfg : SlaveConfig
  periods_pos : UInt32
  buf_len : UInt32
  desc : Option Addr
  irq_type : UInt32
  deriving DecidableEq, Repr

structure Regs where
  DMA_IRQ_EN : UInt32
  DMA_ENABLE : ChanId → UInt32
  DMA_PAUSE : ChanId → UInt32
  DMA_LLI_ADDR : ChanId → UInt32
  DMA_OP_MODE : ChanId → UInt32

structure Dmac where
  chan : ChanId → Chan
  /-- The descriptors that are allocated. -/
  lli : Addr → Option Lli
  regs : Regs
  /-- Interrupts are off. -/
  masked : Bool
  preempt_count : UInt32

def memsetLli : Lli := ⟨0, 0, 0, 0, 0, 0, none⟩

def memsetChan : Chan where
  used := false
  chan_count := 0
  cyclic := false
  cfg := ⟨.DMA_MEM_TO_MEM, 0, 0, 0, 0, 0, 0, 0⟩
  periods_pos := 0
  buf_len := 0
  desc := none
  irq_type := 0

/-- After `sunxi_dma_init`. -/
def init : Dmac where
  chan _ := memsetChan
  lli _ := none
  regs := ⟨0, fun _ => 0, fun _ => 0, fun _ => 0, fun _ => 0⟩
  masked := false
  preempt_count := 0

/-! ## Critical sections -/

def MELIS_CPU_CRITICAL_ENTER (s : Dmac) : Bool × Dmac := (s.masked, { s with masked := true })

def MELIS_CPU_CRITICAL_LEAVE (cpsr : Bool) (s : Dmac) : Dmac := { s with masked := cpsr }

def rt_enter_critical (s : Dmac) : Dmac := { s with preempt_count := s.preempt_count + 1 }

def rt_exit_critical (s : Dmac) : Dmac := { s with preempt_count := s.preempt_count - 1 }

def hal_spin_lock_irqsave (s : Dmac) : Bool × Dmac :=
  let (cpsr, s) := MELIS_CPU_CRITICAL_ENTER s
  (cpsr, rt_enter_critical s)

def hal_spin_unlock_irqrestore (cpsr : Bool) (s : Dmac) : Dmac :=
  MELIS_CPU_CRITICAL_LEAVE cpsr (rt_exit_critical s)

def setChan (s : Dmac) (i : ChanId) (f : Chan → Chan) : Dmac :=
  { s with chan := update s.chan i (f (s.chan i)) }

def setLli (s : Dmac) (a : Addr) (f : Lli → Lli) : Dmac :=
  { s with lli := update s.lli a ((s.lli a).map f) }

/-! ## Descriptors -/

def DMA_SLAVE_BUSWIDTH_8_BYTES : UInt32 := 8

def convert_buswidth (addr_width : UInt32) : UInt32 :=
  if DMA_SLAVE_BUSWIDTH_8_BYTES < addr_width then 0
  else match addr_width with
    | 2 => 1
    | 4 => 2
    | 8 => 3
    | _ => 0

def convert_burst : UInt32 → UInt32
  | 1 => 0
  | 4 => 1
  | 8 => 2
  | 16 => 3
  | _ => 0

def NORMAL_WAIT : UInt32 := 8

def LINK_END : UInt32 := 0xFFFFF800

def sunxi_cfg_lli (lli : Lli) (src_addr dst_addr len : UInt32) (config : SlaveConfig) : Lli :=
  let src_width := convert_buswidth config.src_addr_width
  let dst_width := convert_buswidth config.dst_addr_width
  { lli with
    cfg := config.src_maxburst <<< 6 ||| src_width <<< 9 ||| config.dst_maxburst <<< 22 |||
      dst_width <<< 25
    src := src_addr
    dst := dst_addr
    len
    para := NORMAL_WAIT }

def SRC_IO_MODE : UInt32 := 0x100

def DST_IO_MODE : UInt32 := 0x1000000

def GET_SRC_DRQ (x : UInt32) : UInt32 := x &&& 0xff

def GET_DST_DRQ (x : UInt32) : UInt32 := x &&& 0xff0000

/-- The requests of a direction; memory is request 0 and linear mode is 0. -/
def drq (config : SlaveConfig) : Direction → UInt32
  | .DMA_MEM_TO_DEV => GET_DST_DRQ config.slave_id ||| DST_IO_MODE
  | .DMA_DEV_TO_MEM => GET_SRC_DRQ config.slave_id ||| SRC_IO_MODE
  | .DMA_DEV_TO_DEV =>
    GET_SRC_DRQ config.slave_id ||| DST_IO_MODE ||| SRC_IO_MODE ||| GET_DST_DRQ config.slave_id
  | _ => 0

def withDrq (config : SlaveConfig) (dir : Direction) (lli : Lli) : Lli :=
  { lli with cfg := lli.cfg ||| drq config dir }

variable (va_to_pa : Addr → UInt32)

/-- Behind `prev`, or as the channel's chain. -/
def sunxi_lli_list (prev : Option Addr) (next : Addr) (i : ChanId) (s : Dmac) : Dmac :=
  let s := match prev with
    | none => setChan s i fun chan => { chan with desc := some next }
    | some prev => setLli s prev fun lli => { lli with p_lln := va_to_pa next, vlln := some next }
  setLli s next fun lli => { lli with p_lln := LINK_END, vlln := none }

/-! ## The calls -/

/-- The channels in turn; each is looked at under the lock. -/
def sunxi_dma_chan_request (s : Dmac) : Option ChanId × Dmac :=
  match (List.finRange NR_MAX_CHAN).find? fun i => !(s.chan i).used with
  | some i =>
    let (cpsr, s) := hal_spin_lock_irqsave s
    let s := setChan s i fun chan => { chan with used := true, chan_count := i }
    (some i, hal_spin_unlock_irqrestore cpsr s)
  | none => (none, s)

/-- `while (li_adr)`, in at most `fuel` passes; `none` where memory is used that is not
allocated. There is no chain of as many descriptors as there are addresses. -/
def freeLoop : Nat → Option Addr → Dmac → Option Dmac
  | _, none, s => some s
  | 0, some _, _ => none
  | fuel + 1, some li_adr, s => do
    let d ← s.lli li_adr
    freeLoop fuel d.vlln { s with lli := update s.lli li_adr none }

def sunxi_dma_free_ill (i : ChanId) (s : Dmac) : Option Dmac := freeLoop (2 ^ 32) (s.chan i).desc s

def SHIFT_IRQ_MASK (val : UInt32) (ch : Nat) : UInt32 := val <<< UInt32.ofNat (ch * 4)

def sunxi_dma_chan_free (i : ChanId) (s : Dmac) : Option (Int × Dmac) :=
  if (s.chan i).used then do
    let (cpsr, s) := MELIS_CPU_CRITICAL_ENTER s
    let chan := s.chan i
    let irq_val := s.regs.DMA_IRQ_EN &&& ~~~ SHIFT_IRQ_MASK chan.irq_type chan.chan_count
    let s := { s with regs := { s.regs with DMA_IRQ_EN := irq_val } }
    let s ← sunxi_dma_free_ill i s
    let s := setChan s i fun chan => { chan with used := false }
    some (0, MELIS_CPU_CRITICAL_LEAVE cpsr s)
  else
    some (-1, s)

def dma_slave_config (i : ChanId) (config : SlaveConfig) (s : Dmac) : Dmac :=
  let (cpsr, s) := hal_spin_lock_irqsave s
  let config := { config with
    src_maxburst := convert_burst config.src_maxburst
    dst_maxburst := convert_burst config.dst_maxburst }
  hal_spin_unlock_irqrestore cpsr (setChan s i fun chan => { chan with cfg := config })

/-- `hal_malloc` and `memset` -/
def malloc (a : Addr) (s : Dmac) : Dmac := { s with lli := update s.lli a (some memsetLli) }

def putLli (a : Addr) (lli : Lli) (s : Dmac) : Dmac := { s with lli := update s.lli a (some lli) }

def sunxi_prep_dma_memcpy (i : ChanId) (dest src len : UInt32) (l_item : Option Addr) (s : Dmac) :
    Int × Dmac :=
  match l_item with
  | none => (-1, s)
  | some l_item =>
    let s := malloc l_item s
    let (cpsr, s) := hal_spin_lock_irqsave s
    let config := (s.chan i).cfg
    let lli := sunxi_cfg_lli memsetLli (va_to_pa src) (va_to_pa dest) len config
    let s := putLli l_item lli s
    let s := sunxi_lli_list va_to_pa none l_item i s
    (0, hal_spin_unlock_irqrestore cpsr s)

/-- For other directions the descriptor stays empty. -/
def deviceLli (config : SlaveConfig) (dest src len : UInt32) (dir : Direction) : Lli :=
  match dir with
  | .DMA_MEM_TO_DEV => withDrq config dir (sunxi_cfg_lli memsetLli (va_to_pa src) dest len config)
  | .DMA_DEV_TO_MEM => withDrq config dir (sunxi_cfg_lli memsetLli src (va_to_pa dest) len config)
  | .DMA_DEV_TO_DEV => withDrq config dir (sunxi_cfg_lli memsetLli src dest len config)
  | _ => memsetLli

def sunxi_prep_dma_device (i : ChanId) (dest src len : UInt32) (dir : Direction)
    (l_item : Option Addr) (s : Dmac) : Int × Dmac :=
  match l_item with
  | none => (-1, s)
  | some l_item =>
    let s := malloc l_item s
    let (cpsr, s) := hal_spin_lock_irqsave s
    let s := putLli l_item (deviceLli va_to_pa (s.chan i).cfg dest src len dir) s
    let s := sunxi_lli_list va_to_pa none l_item i s
    (0, hal_spin_unlock_irqrestore cpsr s)

/-- The descriptor of a period that starts at `addr`. -/
def cyclicLli (config : SlaveConfig) (addr period_len : UInt32) (dir : Direction) : Lli :=
  match dir with
  | .DMA_MEM_TO_DEV =>
    withDrq config dir
      (sunxi_cfg_lli memsetLli (va_to_pa addr) config.dst_addr period_len config)
  | .DMA_DEV_TO_MEM =>
    withDrq config dir
      (sunxi_cfg_lli memsetLli config.src_addr (va_to_pa addr) period_len config)
  | .DMA_DEV_TO_DEV =>
    withDrq config dir (sunxi_cfg_lli memsetLli config.src_addr config.dst_addr period_len config)
  | _ => memsetLli

/-- The passes from `k` on, `rest` of them; whether there was memory, and the last descriptor. -/
def cyclicLoop (i : ChanId) (buf_addr period_len : UInt32) (dir : Direction)
    (l_item : Nat → Option Addr) :
    (rest k : Nat) → (prev : Option Addr) → Dmac → Bool × Option Addr × Dmac
  | 0, _, prev, s => (true, prev, s)
  | rest + 1, k, prev, s =>
    match l_item k with
    | none => (false, prev, s)
    | some a =>
      let s := malloc a s
      let addr := buf_addr + period_len * UInt32.ofNat k
      let s := putLli a (cyclicLli va_to_pa (s.chan i).cfg addr period_len dir) s
      let s := sunxi_lli_list va_to_pa prev a i s
      cyclicLoop i buf_addr period_len dir l_item rest (k + 1) (some a) s

/-- `none` where there is no period, for a division by `0` or the use of `prev`. -/
def sunxi_prep_dma_cyclic (i : ChanId) (buf_addr buf_len period_len : UInt32) (dir : Direction)
    (l_item : Nat → Option Addr) (s : Dmac) : Option (Int × Dmac) :=
  if period_len = 0 then none
  else
    let periods := buf_len / period_len
    let (cpsr, s) := MELIS_CPU_CRITICAL_ENTER s
    match cyclicLoop va_to_pa i buf_addr period_len dir l_item periods.toNat 0 none s with
    -- the scheduler is unlocked, which it was not locked for
    | (false, _, s) => some (-1, hal_spin_unlock_irqrestore cpsr s)
    | (true, none, _) => none
    | (true, some prev, s) =>
      let first := (s.chan i).desc.elim 0 va_to_pa
      let s := setLli s prev fun lli => { lli with p_lln := first }
      let s := setChan s i fun chan => { chan with cyclic := true }
      some (0, MELIS_CPU_CRITICAL_LEAVE cpsr s)

def IRQ_PKG : UInt32 := 2

def IRQ_QUEUE : UInt32 := 4

/-- `SRC_HS_MASK | DST_HS_MASK` -/
def HS_MASK : UInt32 := 12

/-- `for (prev = chan->desc; prev != NULL; prev = prev->vlln)`, as `freeLoop`. -/
def cleanLoop (s : Dmac) : Nat → Option Addr → Option Unit
  | _, none => some ()
  | 0, some _ => none
  | fuel + 1, some prev => do
    let d ← s.lli prev
    cleanLoop s fuel d.vlln

def sunxi_dma_start_desc (i : ChanId) (s : Dmac) : Option (Int × Dmac) := do
  let (cpsr, s) := hal_spin_lock_irqsave s
  let s := setChan s i fun chan =>
    { chan with irq_type := if chan.cyclic then IRQ_PKG else IRQ_QUEUE }
  let chan := s.chan i
  let irq_val := s.regs.DMA_IRQ_EN ||| SHIFT_IRQ_MASK chan.irq_type chan.chan_count
  cleanLoop s (2 ^ 32) chan.desc
  let s := { s with regs := { s.regs with
    DMA_IRQ_EN := irq_val
    DMA_OP_MODE := update s.regs.DMA_OP_MODE i HS_MASK
    DMA_LLI_ADDR := update s.regs.DMA_LLI_ADDR i (chan.desc.elim 0 va_to_pa)
    DMA_ENABLE := update s.regs.DMA_ENABLE i 1 } }
  some (0, hal_spin_unlock_irqrestore cpsr s)

def clearCyclic (chan : Chan) : Chan := if chan.cyclic then { chan with cyclic := false } else chan

/-- The channel is paused, stopped and then resumed. -/
def sunxi_dma_stop_desc (i : ChanId) (s : Dmac) : Dmac :=
  let (cpsr, s) := hal_spin_lock_irqsave s
  let s := { s with regs := { s.regs with
    DMA_ENABLE := update s.regs.DMA_ENABLE i 0
    DMA_PAUSE := update s.regs.DMA_PAUSE i 0 } }
  let s := setChan s i clearCyclic
  hal_spin_unlock_irqrestore cpsr s

/-- Whether the interrupt is one of a cyclic transfer of the channel. -/
def irqPeriod (chan : Chan) (status_l : UInt32) : Bool :=
  chan.used && chan.irq_type &&& status_l >>> UInt32.ofNat (chan.chan_count * 4) != 0 && chan.cyclic

/-- What the interrupt does at a channel; the callback makes calls of its own. -/
def sunxi_dma_irq_handle (i : ChanId) (status_l : UInt32) (s : Dmac) : Option Dmac :=
  let (cpsr, s) := hal_spin_lock_irqsave s
  match irqPeriod (s.chan i) status_l with
  | false => some (hal_spin_unlock_irqrestore cpsr s)
  | true => do
    let desc ← (s.chan i).desc
    let d ← s.lli desc
    let s := setChan s i fun chan =>
      let periods_pos := chan.periods_pos + 1
      { chan with periods_pos := if chan.buf_len ≤ periods_pos * d.len then 0 else periods_pos }
    some (hal_spin_unlock_irqrestore cpsr s)

inductive Call
  | request
  | free (i : ChanId)
  | config (i : ChanId) (config : SlaveConfig)
  | memcpy (i : ChanId) (dest src len : UInt32) (l_item : Option Addr)
  | device (i : ChanId) (dest src len : UInt32) (dir : Direction) (l_item : Option Addr)
  | cyclic (i : ChanId) (buf_addr buf_len period_len : UInt32) (dir : Direction)
      (l_item : Nat → Option Addr)
  | start (i : ChanId)
  | stop (i : ChanId)
  | irq (i : ChanId) (status_l : UInt32)

/-- `none` where the call is undefined. -/
def dmac : Machine Dmac Call where
  next s
    | .request => some (sunxi_dma_chan_request s).2
    | .free i => (sunxi_dma_chan_free i s).map (·.2)
    | .config i config => some (dma_slave_config i config s)
    | .memcpy i dest src len l_item => some (sunxi_prep_dma_memcpy va_to_pa i dest src len l_item s).2
    | .device i dest src len dir l_item =>
      some (sunxi_prep_dma_device va_to_pa i dest src len dir l_item s).2
    | .cyclic i buf_addr buf_len period_len dir l_item =>
      (sunxi_prep_dma_cyclic va_to_pa i buf_addr buf_len period_len dir l_item s).map (·.2)
    | .start i => (sunxi_dma_start_desc va_to_pa i s).map (·.2)
    | .stop i => some (sunxi_dma_stop_desc i s)
    | .irq i status_l => sunxi_dma_irq_handle i status_l s

/-! ## What is claimed of a run -/

/-- The chain of descriptors in memory. -/
def next (s : Dmac) (a : Addr) : Option Addr := (s.lli a).bind (·.vlln)

/-- Every channel has a chain of descriptors that are allocated, and each descriptor that is
allocated is in one chain. -/
structure Owns (s : Dmac) (chains : ChanId → List Addr) : Prop where
  chain : ∀ i, Chain (next s) (s.chan i).desc (chains i)
  live : ∀ i, ∀ a ∈ chains i, (s.lli a).isSome
  owner : ∀ a, (s.lli a).isSome → ∃! i, a ∈ chains i

def Sound (s : Dmac) : Prop := ∃ chains, Owns s chains

/-- Interrupts are left as they were, and a channel that is handed out is not cyclic and at its
first period. -/
def StepOk (s : Dmac) (c : Call) (s' : Dmac) : Prop :=
  s'.masked = s.masked ∧ match c with
    | .request => ∀ i, (sunxi_dma_chan_request s).1 = some i →
        (s'.chan i).cyclic = false ∧ (s'.chan i).periods_pos = 0
    | _ => True

/-- `hal_malloc` returns memory that is not in use. -/
def Legal (s : Dmac) : Call → Prop
  | .memcpy _ _ _ _ l_item | .device _ _ _ _ _ l_item => ∀ a ∈ l_item, s.lli a = none
  | .cyclic _ _ buf_len period_len _ l_item => ∀ k < (buf_len / period_len).toNat,
    ∀ a ∈ l_item k, s.lli a = none ∧ ∀ j < k, l_item j ≠ some a
  | _ => True

/-- A channel has no chain when it is freed or gets a new one, a cyclic transfer has a period,
and the free channel that is handed out was not made cyclic. -/
def Unchained (s : Dmac) : Call → Prop
  | .request => ∀ i, (sunxi_dma_chan_request s).1 = some i → (s.chan i).cyclic = false
  | .free i => (s.chan i).used → (s.chan i).desc = none
  | .memcpy i _ _ _ l_item | .device i _ _ _ _ l_item =>
    l_item ≠ none → (s.chan i).desc = none
  | .cyclic i _ buf_len period_len _ l_item =>
    (period_len ≠ 0 ∧ period_len ≤ buf_len) ∧ (l_item 0 ≠ none → (s.chan i).desc = none)
  | _ => True

-- There are too many addresses to go through them all.
instance (s : Dmac) : ∀ c, Decidable (Legal s c)
  | .memcpy _ _ _ _ l_item | .device _ _ _ _ _ l_item => Option.decidableForallMem l_item
  | .cyclic _ _ _ _ _ l_item =>
    have (k : Nat) : Decidable (∀ a ∈ l_item k, s.lli a = none ∧ ∀ j < k, l_item j ≠ some a) :=
      Option.decidableForallMem (l_item k)
    inferInstanceAs (Decidable (∀ k < _, ∀ a ∈ l_item k, _ ∧ ∀ j < k, l_item j ≠ some a))
  | .request | .free _ | .config .. | .start _ | .stop _ | .irq .. => .isTrue trivial

instance (s : Dmac) : ∀ c, Decidable (Unchained s c)
  | .request => Nat.decidableForallFin _
  | .free _ => inferInstanceAs (Decidable (_ → _))
  | .memcpy .. | .device .. => inferInstanceAs (Decidable (_ → _))
  | .cyclic .. => inferInstanceAs (Decidable ((_ ∧ _) ∧ (_ → _)))
  | .config .. | .start _ | .stop _ | .irq .. => .isTrue trivial

end Melis.Dma
