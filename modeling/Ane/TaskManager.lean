import Mathlib.Algebra.Group.Nat.Defs
import Mathlib.Logic.Function.Basic
import Mathlib.Tactic.Common

/-! The task manager of the engine as the two hardware back ends program it. The
register file is indexed by the byte offset from the mapped base and keeps the
value last written. What the hardware answers to a status poll is an input. -/
namespace Ane.TaskManager

/-- Negative return values of the driver and of the kernel services it calls. -/
inductive Errno
  | EINVAL
  | ENOMEM
  | EBUSY
  | EACCES
  | other (code : Nat)
deriving DecidableEq, Repr

abbrev RegFile := Nat → UInt32

/-- The registers, and the register file as it stood after each push write, the
newest first. The history is not read by the driver. -/
structure Engine where
  regs : RegFile
  pushes : List RegFile

def Engine.readl (e : Engine) (off : Nat) : UInt32 := e.regs off

def Engine.writel (e : Engine) (val : UInt32) (off : Nat) : Engine :=
  { e with regs := Function.update e.regs off val }

/-- Note the register file at a push. -/
def Engine.pushed (e : Engine) : Engine := { e with pushes := e.regs :: e.pushes }

@[simp] theorem Engine.writel_pushes (e : Engine) (val : UInt32) (off : Nat) :
    (e.writel val off).pushes = e.pushes := rfl

@[simp] theorem Engine.pushed_regs (e : Engine) : e.pushed.regs = e.regs := rfl

theorem Engine.writel_regs (e : Engine) (val : UInt32) (off a : Nat) :
    (e.writel val off).regs a = if a = off then val else e.regs a := by
  simp only [writel, Function.update_apply]

/-- A job as `aneSubmit` hands it to the hardware. `bar` stands for the array of
ANE_MAX_TILE_COUNT addresses. -/
structure AneRequest where
  qid : Nat
  nid : UInt32
  tdSize : UInt32
  tdCount : UInt32
  btspIova : UInt64
  bar : Nat → UInt64

/-- What polling the status register yields: idle, or the error of the time-out. -/
abbrev Status := Except Errno Unit

def lower32Bits (x : UInt64) : UInt32 := x.toUInt32
def upper32Bits (x : UInt64) : UInt32 := (x >>> 32).toUInt32

def aneTqCount : Nat := 8
def tqPrtyTable : List UInt32 := [0x1, 0x2, 0x3, 0x4, 0x5, 0x6, 0x1e, 0x1f]

namespace H13

def aneTmBase : Nat := 0x20000
def aneTqBase : Nat := 0x21000

def tmAddr : Nat := 0x0
def tmInfo : Nat := 0x4
def tmPush : Nat := 0x8
def tmTqEn : Nat := 0xc
def tmIrqEn1 : Nat := 0x68
def tmIrqAck : Nat := 0x6c
def tmIrqEn2 : Nat := 0x70

def tqStatus (qid : Nat) : Nat := 0x000 + qid * 0x148
def tqPrty (qid : Nat) : Nat := 0x010 + qid * 0x148
def tqBar1 (qid bdx : Nat) : Nat := 0x020 + qid * 0x148 + bdx * 0x4
def tqNid1 (qid : Nat) : Nat := 0x0a0 + qid * 0x148
def tqSize1 (qid : Nat) : Nat := 0x130 + qid * 0x148
def tqAddr1 (qid : Nat) : Nat := 0x134 + qid * 0x148

def aneH13TileCount : Nat := 0x20

def tmRead32 (e : Engine) (off : Nat) : UInt32 := e.readl (aneTmBase + off)
def tqRead32 (e : Engine) (off : Nat) : UInt32 := e.readl (aneTqBase + off)
def tmWrite32 (e : Engine) (off : Nat) (val : UInt32) : Engine := e.writel val (aneTmBase + off)
def tqWrite32 (e : Engine) (off : Nat) (val : UInt32) : Engine := e.writel val (aneTqBase + off)

def aneH13TmEnable (e : Engine) : Engine :=
  let e := tmWrite32 e tmTqEn (tmRead32 e tmTqEn ||| 0x1000)
  let e := (List.range aneTqCount).foldl
    (fun e qid => tqWrite32 e (tqPrty qid) (tqPrtyTable.getD qid 0)) e
  let e := tmWrite32 e tmIrqEn1 0x4000000
  tmWrite32 e tmIrqEn2 0x6

def aneH13TmEnqueue (e : Engine) (req : AneRequest) : Engine × Except Errno Unit :=
  let e := tqWrite32 e (tqStatus req.qid) 0x1
  let e := (List.range aneH13TileCount).foldl
    (fun e bdx => tqWrite32 e (tqBar1 req.qid bdx) (lower32Bits (req.bar bdx))) e
  let e := tqWrite32 e (tqSize1 req.qid) (((req.tdSize >>> 2) - 1) <<< 0x10)
  let e := tqWrite32 e (tqAddr1 req.qid) (lower32Bits req.btspIova)
  let e := tqWrite32 e (tqNid1 req.qid) (((req.nid &&& 0xff) <<< 8) ||| 1)
  (e, .ok ())

def aneTmPushTq (e : Engine) (req : AneRequest) : Engine :=
  let e := tmWrite32 e tmAddr (tqRead32 e (tqAddr1 req.qid))
  let e := tmWrite32 e tmInfo (tqRead32 e (tqSize1 req.qid) ||| req.tdCount)
  let e := tmWrite32 e tmPush
    (tqPrtyTable.getD req.qid 0 ||| ((UInt32.ofNat req.qid &&& 7) <<< 8))
  e.pushed

/-- The drained event words are dropped, only the acknowledgement is written. -/
def aneTmHandleIrq (e : Engine) : Engine :=
  tmWrite32 e tmIrqAck (tmRead32 e tmIrqAck ||| 2)

def aneH13TmExecute (e : Engine) (req : AneRequest) (status : Status) :
    Engine × Except Errno Unit :=
  let e := aneTmPushTq e req
  let e := aneTmHandleIrq e
  let e := tqWrite32 e (tqStatus req.qid) 0x0
  (e, status)

end H13

namespace H14

def tmAddr : Nat := 0x20400
def tmUnk08 : Nat := 0x20408
def tmUnk10 : Nat := 0x20410
def tmUnk14 : Nat := 0x20414
def tmPush : Nat := 0x20418
def tmTqEn : Nat := 0x20420
def tmIrqEn1 : Nat := 0x20484
def tmIrqEn2 : Nat := 0x2048C

def tqUnk0 (qid : Nat) : Nat := 0x20800 + qid * 0x2C
def tqPrty (qid : Nat) : Nat := 0x20810 + qid * 0x2C

def tmRead32 (e : Engine) (off : Nat) : UInt32 := e.readl off
def tmWrite32 (e : Engine) (off : Nat) (val : UInt32) : Engine := e.writel val off
def tmWrite64 (e : Engine) (off : Nat) (val : UInt64) : Engine :=
  (e.writel (lower32Bits val) off).writel (upper32Bits val) (off + 0x4)

def aneH14TmReset (e : Engine) : Engine :=
  let e := (List.range aneTqCount).foldl
    (fun e qid =>
      let e := tmWrite32 e (tqPrty qid) (tqPrtyTable.getD qid 0)
      tmWrite32 e (tqUnk0 qid) 0x201) e
  let e := tmWrite32 e tmIrqEn1 0x4000000
  tmWrite32 e tmIrqEn2 0x6

def aneH14TmEnable (e : Engine) : Engine :=
  aneH14TmReset (tmWrite32 e tmTqEn (tmRead32 e tmTqEn ||| 0x2000))

/-- Enqueueing implies execution on this engine, so nothing happens here. -/
def aneH14TmEnqueue (e : Engine) (_req : AneRequest) : Engine × Except Errno Unit := (e, .ok ())

/-- The back end does not poll: `status` is not read. -/
def aneH14TmExecute (e : Engine) (req : AneRequest) (_status : Status) :
    Engine × Except Errno Unit :=
  let slot : UInt32 := 0
  let e := tmWrite64 e tmAddr req.btspIova
  let e := tmWrite64 e tmUnk08 req.tdSize.toUInt64
  let e := tmWrite32 e tmUnk10 0x151
  let e := tmWrite32 e tmUnk14 req.tdCount
  let e := tmWrite32 e tmPush slot
  (e.pushed, .ok ())

end H14

/-- Engine generations, in the order of their identifiers. -/
inductive DrmAneId
  | M9
  | H11
  | T0
  | H12
  | H13
  | H14
  | H15
deriving DecidableEq, Repr

def DrmAneId.num : DrmAneId → UInt32
  | .M9 => 0
  | .H11 => 1
  | .T0 => 2
  | .H12 => 3
  | .H13 => 4
  | .H14 => 5
  | .H15 => 6

/-- Bytes of a page and of an IOMMU granule. -/
def pageShift : UInt32 := 14
def pageSize : UInt64 := 0x4000

/-- A hardware descriptor. `window` is what `drm_mm_init` asserts of the range the
driver asks it to manage. -/
structure AneHw where
  vmBase : UInt64
  vmSize : UInt64
  id : DrmAneId
  barCount : Nat
  tmEnable : Engine → Engine
  tmEnqueue : Engine → AneRequest → Engine × Except Errno Unit
  tmExecute : Engine → AneRequest → Status → Engine × Except Errno Unit
  window : vmBase.toNat + (vmBase + vmSize - pageSize).toNat < 2 ^ 64

def aneHwH13 : AneHw where
  vmBase := 0x4000
  vmSize := 0xe0000000
  id := .H13
  barCount := 0x20
  tmEnable := H13.aneH13TmEnable
  tmEnqueue := H13.aneH13TmEnqueue
  tmExecute := H13.aneH13TmExecute
  window := by decide

def aneHwH14 : AneHw where
  vmBase := 0x4000
  vmSize := 0xF00000000
  id := .H14
  barCount := 0x61
  tmEnable := H14.aneH14TmEnable
  tmEnqueue := H14.aneH14TmEnqueue
  tmExecute := H14.aneH14TmExecute
  window := by decide

/-- The devices the driver binds to, with their descriptors. -/
def aneOfMatch : List (String × AneHw) :=
  [("apple,t8103-ane", aneHwH13), ("apple,t6000-ane", aneHwH13), ("apple,t8112-ane", aneHwH14)]

theorem aneOfMatch_cases {entry : String × AneHw} (h : entry ∈ aneOfMatch) :
    entry.2 = aneHwH13 ∨ entry.2 = aneHwH14 := by
  simp only [aneOfMatch, List.mem_cons, List.not_mem_nil, or_false] at h
  obtain rfl | rfl | rfl := h
  · exact .inl rfl
  · exact .inl rfl
  · exact .inr rfl

end Ane.TaskManager
