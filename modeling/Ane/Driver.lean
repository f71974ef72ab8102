import Ane.PageTable
import Ane.RangeAllocator
import Ane.Runs
import Ane.TaskManager

/-! The kernel driver: buffer objects, their translation and handles, and job
submission. What the services of the DRM and IOMMU core answer is an input of each
call; an answer such a service could not give counts as its failure. Time-outs,
failed allocations and failed wake-ups are inputs as well. -/
namespace Ane.Driver
open PageTable RangeAllocator TaskManager

/-- Physical address of a page. -/
abbrev Page := Nat

/-- An open file of the device node. -/
abbrev FileId := Nat

/-- A buffer object. What it holds does not change once `aneBoInit` has returned,
so the record stands for the pointer as well. The driver keeps neither `requested`
nor `creator`. -/
structure AneBo where
  id : Nat
  gemSize : UInt64
  mm : Option Node
  npages : UInt32
  pages : List Page
  iova : UInt64
  requested : UInt64
  creator : FileId
deriving DecidableEq

structure HandleEntry where
  file : FileId
  handle : UInt32
  bo : AneBo

/-- The device and the parts of the DRM core that work for it. `bos` are the
objects allocated and not freed, `files` the open files. -/
structure Device where
  hw : AneHw
  mm : Allocator
  iommu : Table Nat Page
  bos : List AneBo
  nextBo : Nat
  refcount : Nat → Nat
  handles : List HandleEntry
  files : List FileId
  nextFile : FileId
  engine : Engine
  pmUsage : Int

structure DrmAneBoInit where
  pad : UInt32
  size : UInt64

structure DrmAneBoFree where
  handle : UInt32
  pad : UInt32

/-- `handles` stands for the array of ANE_MAX_TILE_COUNT handles. -/
structure DrmAneSubmit where
  tskSize : UInt64
  tdCount : UInt32
  tdSize : UInt32
  handles : Nat → UInt32
  btspHandle : UInt32
  pad : UInt32

/-- What the services called by one `aneBoInit` answer: the two allocations, the
object and its fake offset, its pages, the range reserved, each page mapping, the
handle. `err` is the code of the one that fails. -/
structure BoInitEnv where
  boAlloc : Bool
  gemInit : Bool
  mmapOffset : Option UInt64
  pages : Option (List Page)
  mmAlloc : Bool
  node : Option UInt64
  mapOk : Nat → Bool
  handle : Option UInt32
  err : Errno

/-- The services all succeed: the range begins at `node`. -/
def BoInitEnv.served (node : UInt64) (pages : List Page) (handle : UInt32) : BoInitEnv :=
  ⟨true, true, some 0x100000, some pages, true, some node, fun _ => true, some handle, .ENOMEM⟩

/-- `round_up` of the kernel, for a power of two. -/
def roundUp (x y : UInt64) : UInt64 := ((x - 1) ||| (y - 1)) + 1

/-- `x << shift` of a 32-bit page count or index: the shift is done in 32 bits. -/
def shiftPages (x : UInt32) : UInt64 := (x <<< pageShift).toUInt64

/-- Pages of the range from which the DRM core draws fake offsets,
DRM_FILE_PAGE_OFFSET_SIZE. -/
def drmFilePageOffsetSize : Nat := (0xFFFFFFFF >>> 14) * 256

/-- An object larger than the offset range gets no offset. -/
def drmGemCreateMmapOffset (size : UInt64) (pick : Option UInt64) : Option UInt64 :=
  if (size >>> 14).toNat ≤ drmFilePageOffsetSize then pick else none

/-- One page for each page of the object. -/
def drmGemGetPages (size : UInt64) (pick : Option (List Page)) : Option (List Page) :=
  pick.filter fun pages => decide (pages.length = (size >>> 14).toNat)

namespace Device

/-- The object a handle of a file names. -/
def named (dev : Device) (file : FileId) (handle : UInt32) : Option AneBo :=
  (dev.handles.find? fun e => e.file = file ∧ e.handle = handle).map HandleEntry.bo

def setRefcount (dev : Device) (bo : AneBo) (n : Nat) : Device :=
  { dev with refcount := Function.update dev.refcount bo.id n }

def get (dev : Device) (bo : AneBo) : Device := dev.setRefcount bo (dev.refcount bo.id + 1)

end Device

/-- Callbacks of an object, as far as its release goes. -/
structure GemObjectFuncs where
  free : Option (Device → AneBo → Device)

def aneGemObjectFuncs : GemObjectFuncs where
  free := none

/-- Drop one reference. The last one calls `free` if the object has it. -/
def drmGemObjectPut (dev : Device) (bo : AneBo) : Device :=
  let n := dev.refcount bo.id - 1
  let dev := dev.setRefcount bo n
  if n = 0 then
    match aneGemObjectFuncs.free with
    | some free => free dev bo
    | none => dev
  else dev

/-- A handle is not 0 and not in use in its file; it holds a reference. -/
def drmGemHandleCreate (dev : Device) (file : FileId) (bo : AneBo) (pick : Option UInt32) :
    Option (UInt32 × Device) :=
  match pick with
  | none => none
  | some handle =>
    if handle = 0 ∨ (dev.named file handle).isSome then none
    else some (handle, { dev.get bo with handles := ⟨file, handle, bo⟩ :: dev.handles })

def drmGemHandleDelete (dev : Device) (file : FileId) (handle : UInt32) : Device :=
  match dev.named file handle with
  | none => dev
  | some bo =>
    drmGemObjectPut
      { dev with handles := dev.handles.filter fun e => ¬ (e.file = file ∧ e.handle = handle) } bo

/-- A successful lookup takes a reference. -/
def boLookup (dev : Device) (file : FileId) (handle : UInt32) : Option AneBo × Device :=
  match dev.named file handle with
  | none => (none, dev)
  | some bo => (some bo, dev.get bo)

/-- Device address of page `i` of a buffer. -/
def pageIova (iova : UInt64) (i : Nat) : Nat := (iova + shiftPages (UInt32.ofNat i)).toNat

/-- Reserve a range and map the pages into it one by one; a mapping that fails is
taken back together with the range. -/
def aneIommuMapPages (dev : Device) (bo : AneBo) (env : BoInitEnv) :
    Device × Except Errno AneBo :=
  if bo.mm.isSome then (dev, .error .EBUSY)
  else if ¬ env.mmAlloc then (dev, .error .ENOMEM)
  else
    match dev.mm.insertNode (shiftPages bo.npages) pageSize env.node with
    | none => (dev, .error env.err)
    | some (node, mm) =>
      let bo := { bo with mm := some node, iova := node.start }
      match mapCells (pageIova bo.iova) (fun i => bo.pages.getD i 0) env.mapOk
          bo.npages.toNat 0 dev.iommu with
      | .ok iommu => ({ dev with mm := mm, iommu := iommu }, .ok bo)
      | .error (i, iommu) =>
        let iommu := unmapBelow (pageIova bo.iova) i iommu
        ({ dev with mm := mm.removeNode node, iommu := iommu }, .error env.err)

def aneIommuUnmapPages (dev : Device) (bo : AneBo) : Device :=
  match bo.mm with
  | none => dev
  | some node =>
    { dev with
      iommu := unmapFrom (pageIova bo.iova) bo.npages.toNat 0 dev.iommu
      mm := dev.mm.removeNode node }

/-- A buffer object with its pages, not yet mapped. -/
def newBo (dev : Device) (file : FileId) (args : DrmAneBoInit) (size : UInt64)
    (pages : List Page) : AneBo where
  id := dev.nextBo
  gemSize := size
  mm := none
  npages := (size >>> 14).toUInt32
  pages := pages
  iova := 0
  requested := args.size
  creator := file

/-- Map the buffer and make its handle, which then holds the only reference. -/
def aneBoInitMapped (dev : Device) (file : FileId) (bo : AneBo) (env : BoInitEnv) :
    Device × Except Errno UInt32 :=
  match aneIommuMapPages dev bo env with
  | (dev, .error err) => (dev, .error err)
  | (dev, .ok bo) =>
    match drmGemHandleCreate dev file bo env.handle with
    | none => (aneIommuUnmapPages (drmGemObjectPut dev bo) bo, .error env.err)
    | some (handle, dev) =>
      let dev := drmGemObjectPut dev bo
      ({ dev with bos := bo :: dev.bos, nextBo := dev.nextBo + 1 }, .ok handle)

/-- Pages and object memory carry no state of their own here, so the error labels
that release them are the returns. -/
def aneBoInit (dev : Device) (file : FileId) (args : DrmAneBoInit) (env : BoInitEnv) :
    Device × Except Errno (UInt32 × UInt64) :=
  if args.pad ≠ 0 then (dev, .error .EINVAL)
  else if ¬ env.boAlloc then (dev, .error .ENOMEM)
  else if ¬ env.gemInit then (dev, .error env.err)
  else
    let size := roundUp args.size pageSize
    match drmGemCreateMmapOffset size env.mmapOffset with
    | none => (dev, .error env.err)
    | some offset =>
      match drmGemGetPages size env.pages with
      | none => (dev, .error env.err)
      | some pages =>
        let bo := newBo dev file args size pages
        let result := aneBoInitMapped (dev.setRefcount bo 1) file bo env
        (result.1, result.2.map fun handle => (handle, offset))

/-- Give the object's memory back. -/
def kfree (dev : Device) (bo : AneBo) : Device :=
  { dev with bos := dev.bos.filter fun other => other.id ≠ bo.id }

def aneBoFree (dev : Device) (file : FileId) (args : DrmAneBoFree) : Device × Except Errno Unit :=
  match boLookup dev file args.handle with
  | (none, dev) => (dev, .error .EINVAL)
  | (some bo, dev) =>
    if args.pad ≠ 0 then (dev, .error .EINVAL)
    else
      let dev := drmGemHandleDelete dev file args.handle
      let dev := aneIommuUnmapPages dev bo
      (kfree dev bo, .ok ())

def cmdBufBdx : Nat := 0
def krnBufBdx : Nat := 1
def aneFifoNid : UInt32 := 0x40
def aneCmdGran : UInt64 := 0x10

/-- The check on the arguments that comes before any lookup. -/
def submitArgsRejected (args : DrmAneSubmit) : Prop :=
  args.pad ≠ 0 ∨ args.tskSize = 0 ∨ args.tdCount = 0 ∨ args.tdSize = 0 ∨
    args.handles cmdBufBdx = 0 ∨ args.handles krnBufBdx ≠ 0 ∨ args.btspHandle = 0

/-- Engines up to H13 have 32-bit addresses. -/
def iovaRejected (hw : AneHw) (bo : AneBo) : Prop :=
  hw.id.num ≤ DrmAneId.H13.num ∧ upper32Bits bo.iova ≠ 0

def barRejected (hw : AneHw) (args : DrmAneSubmit) (bdx : Nat) (bo : AneBo) : Prop :=
  (bo.iova = 0 ∨ (bdx = cmdBufBdx ∧ shiftPages bo.npages ≤ args.tskSize)) ∨ iovaRejected hw bo

instance (args : DrmAneSubmit) : Decidable (submitArgsRejected args) :=
  inferInstanceAs (Decidable (_ ∨ _))

instance (hw : AneHw) (bo : AneBo) : Decidable (iovaRejected hw bo) :=
  inferInstanceAs (Decidable (_ ∧ _))

instance (hw : AneHw) (args : DrmAneSubmit) (bdx : Nat) (bo : AneBo) :
    Decidable (barRejected hw args bdx bo) := inferInstanceAs (Decidable (_ ∨ _))

/-- The loop over the handles: `left` of them from `bdx` on. -/
def submitBars (file : FileId) (args : DrmAneSubmit) :
    (left bdx : Nat) → (Nat → UInt64) → Device → Device × Except Errno (Nat → UInt64)
  | 0, _, bar, dev => (dev, .ok bar)
  | left + 1, bdx, bar, dev =>
    if args.handles bdx ≠ 0 then
      match boLookup dev file (args.handles bdx) with
      | (none, dev) => (dev, .error .EINVAL)
      | (some bo, dev) =>
        if barRejected dev.hw args bdx bo then (dev, .error .EINVAL)
        else submitBars file args left (bdx + 1) (Function.update bar bdx bo.iova) dev
    else submitBars file args left (bdx + 1) bar dev

/-- The weights start behind the microcode, at the next multiple of the grain. -/
def withKrnBar (args : DrmAneSubmit) (bar : Nat → UInt64) : Nat → UInt64 :=
  Function.update bar krnBufBdx (bar cmdBufBdx + roundUp args.tskSize aneCmdGran)

def submitRequest (args : DrmAneSubmit) (bar : Nat → UInt64) (btsp : AneBo) : AneRequest where
  qid := 4
  nid := aneFifoNid
  tdSize := args.tdSize
  tdCount := args.tdCount
  btspIova := btsp.iova
  bar := withKrnBar args bar

/-- The part of `aneSubmit` under the engine lock. -/
def submitExecute (dev : Device) (req : AneRequest) (status : Status) :
    Device × Except Errno Unit :=
  match dev.hw.tmEnqueue dev.engine req with
  | (engine, .error err) => ({ dev with engine := engine }, .error err)
  | (engine, .ok ()) =>
    let executed := dev.hw.tmExecute engine req status
    ({ dev with engine := executed.1 }, executed.2)

/-- The part of `aneSubmit` before the engine lock: the checks and the lookups. -/
def submitValidate (dev : Device) (file : FileId) (args : DrmAneSubmit) :
    Device × Except Errno AneRequest :=
  if submitArgsRejected args then (dev, .error .EINVAL)
  else
    match submitBars file args dev.hw.barCount 0 (fun _ => 0) dev with
    | (dev, .error err) => (dev, .error err)
    | (dev, .ok bar) =>
      match boLookup dev file args.btspHandle with
      | (none, dev) => (dev, .error .EINVAL)
      | (some btsp, dev) =>
        if iovaRejected dev.hw btsp then (dev, .error .EINVAL)
        else (dev, .ok (submitRequest args bar btsp))

def aneSubmit (dev : Device) (file : FileId) (args : DrmAneSubmit) (status : Status) :
    Device × Except Errno Unit :=
  match submitValidate dev file args with
  | (dev, .error err) => (dev, .error err)
  | (dev, .ok req) => submitExecute dev req status

inductive Ioctl
  | info
  | boInit (args : DrmAneBoInit) (env : BoInitEnv)
  | boFree (args : DrmAneBoFree)
  | submit (args : DrmAneSubmit) (status : Status)

/-- What a completed ioctl hands back. -/
inductive Reply
  | done
  | info (id : UInt32)
  | buffer (handle : UInt32) (offset : UInt64)

def drmIoctl (dev : Device) (file : FileId) : Ioctl → Device × Except Errno Reply
  | .info => (dev, .ok (.info dev.hw.id.num))
  | .boInit args env =>
    let result := aneBoInit dev file args env
    (result.1, result.2.map fun r => .buffer r.1 r.2)
  | .boFree args =>
    let result := aneBoFree dev file args
    (result.1, result.2.map fun _ => .done)
  | .submit args status =>
    let result := aneSubmit dev file args status
    (result.1, result.2.map fun _ => .done)

/-- What waking the device up yields. -/
abbrev Wake := Except Errno Unit

/-- A failed wake-up does not count. -/
def pmRuntimeResumeAndGet (dev : Device) (wake : Wake) : Device × Except Errno Unit :=
  match wake with
  | .ok () => ({ dev with pmUsage := dev.pmUsage + 1 }, .ok ())
  | .error err => (dev, .error err)

def pmRuntimePutAutosuspend (dev : Device) : Device := { dev with pmUsage := dev.pmUsage - 1 }

/-- The wake-up failed for a reason other than runtime PM being off. -/
def wakeFailed : Except Errno Unit → Bool
  | .ok () => false
  | .error err => err ≠ .EACCES

def aneDrmOpen (dev : Device) (wake : Wake) : Device × Except Errno Unit :=
  let (dev, err) := pmRuntimeResumeAndGet dev wake
  if wakeFailed err then (pmRuntimePutAutosuspend dev, err)
  else (pmRuntimePutAutosuspend dev, err)

def aneDrmPostclose (dev : Device) (wake : Wake) : Device :=
  pmRuntimePutAutosuspend (pmRuntimeResumeAndGet dev wake).1

def aneDrmUnlockedIoctl (dev : Device) (file : FileId) (wake : Wake) (call : Ioctl) :
    Device × Except Errno Reply :=
  let (dev, err) := pmRuntimeResumeAndGet dev wake
  if wakeFailed err then (pmRuntimePutAutosuspend dev, err.map fun _ => .done)
  else
    let result := drmIoctl dev file call
    (pmRuntimePutAutosuspend result.1, result.2)

/-- Opening makes a file unless the driver's hook fails. -/
def drmOpen (dev : Device) (wake : Wake) : Device :=
  match aneDrmOpen dev wake with
  | (dev, .ok ()) => { dev with files := dev.nextFile :: dev.files, nextFile := dev.nextFile + 1 }
  | (dev, .error _) => dev

/-- Closing deletes the handles the file still has, then calls the driver's hook. -/
def drmRelease (dev : Device) (file : FileId) (wake : Wake) : Device :=
  let left := dev.handles.filter fun e => e.file = file
  let dev := left.foldl (fun dev e => drmGemHandleDelete dev file e.handle) dev
  { aneDrmPostclose dev wake with files := dev.files.filter (· ≠ file) }

def aneRuntimeResume (dev : Device) : Device := { dev with engine := dev.hw.tmEnable dev.engine }

/-- One step of a history. Only an open file can issue an ioctl or be closed. -/
inductive Op
  | openFile (wake : Wake)
  | ioctl (file : FileId) (wake : Wake) (call : Ioctl)
  | close (file : FileId) (wake : Wake)
  | runtimeResume

def exec (dev : Device) : Op → Device
  | .openFile wake => drmOpen dev wake
  | .ioctl file wake call =>
    if file ∈ dev.files then (aneDrmUnlockedIoctl dev file wake call).1 else dev
  | .close file wake => if file ∈ dev.files then drmRelease dev file wake else dev
  | .runtimeResume => aneRuntimeResume dev

/-- The managed range is set up from the window of the descriptor. -/
def aneIommuDomainInit (hw : AneHw) : Allocator :=
  RangeAllocator.init hw.vmBase (hw.vmBase + hw.vmSize - pageSize) hw.window

/-- A probed device that nobody has opened, with some register contents. -/
def probed (hw : AneHw) (regs : RegFile) : Device where
  hw := hw
  mm := aneIommuDomainInit hw
  iommu := fun _ => none
  bos := []
  nextBo := 0
  refcount := fun _ => 0
  handles := []
  files := []
  nextFile := 0
  engine := hw.tmEnable ⟨regs, []⟩
  pmUsage := 0

/-- A client with one buffer of a page. -/
def oneBuffer (node : UInt64) : List Op :=
  [.openFile (.ok ()), .ioctl 0 (.ok ()) (.boInit ⟨0, 0x4000⟩ (.served node [7] 1))]

end Ane.Driver
