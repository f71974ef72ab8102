import Ane.Hwx
import Mathlib.Logic.Function.Basic

/-! Opening and closing a network with libane. The world of a process is its heap and its
descriptors, the accel nodes it has open with their buffer handles, its mappings and its
memory. What the kernel answers is given by an environment: node by node for the scan of
the devices, call by call for the buffers. -/
namespace Ane.Libane
open Memory Posix Hwx

abbrev Addr := Nat

def ANE_MAX_TILE_COUNT : Nat := 0x61
def ANE_FIFO_NID : UInt32 := 0x40
def MAX_ANE_DEVICES : Int := 2
def MAX_NODE_COUNT : Nat := 64
def HWX_ANE_SEG_STATE : UInt32 := 4

/-- An accel node: whether it opens, the name of its driver, and whether the two
DRM_IOCTL_VERSION that ask for the length of the name and for the name are served. -/
structure Node where
  openError : Option Errno
  driver : Name
  lengthServed : Bool
  nameServed : Bool

/-- `hwx` is the HWX file and the heap. `boInit n` answers buffer ioctl number `n` if it is
a DRM_IOCTL_ANE_BO_INIT, with handle and offset, `boFree n` if it is a DRM_IOCTL_ANE_BO_FREE;
no handle is 0. `mmap` answers the calls of `mmap`. -/
structure Env where
  hwx : Posix.Env
  node : Nat → Node
  boInit : Nat → Option (UInt32 × UInt64)
  boInit_ne : ∀ n handle offset, boInit n = some (handle, offset) → handle ≠ 0
  boFree : Nat → Bool
  mmap : Nat → Option Addr

/-- An open accel node and the buffer handles made with it. -/
structure OpenNode where
  fd : Fd
  node : Nat
  handles : List UInt32
deriving DecidableEq

/-- What is given back without being held is counted, as are writes through null. -/
structure World where
  proc : Process
  devices : List OpenNode
  ioctls : Nat
  badHandles : Nat
  mmaps : Nat
  maps : List (Addr × UInt64)
  badUnmaps : Nat
  nullWrites : Nat
  ram : Mem

structure AneModel where
  size : UInt64
  tdSize : UInt32
  tdCount : UInt32
  tskSize : UInt64
  krnSize : UInt64
  tiles : Nat → UInt32
  hwx : Option HwxFile

structure AneBo where
  map : Option Addr
  size : UInt64
  handle : UInt32
  offset : UInt64
deriving DecidableEq

/-- `tiles` and `chans` stand for arrays of ANE_MAX_TILE_COUNT. -/
structure AneNn where
  block : BlockId
  fd : Fd
  model : AneModel
  chans : Nat → AneBo
  btspChan : AneBo

def AneModel.zero : AneModel := ⟨0, 0, 0, 0, 0, fun _ => 0, none⟩
def AneBo.zero : AneBo := ⟨none, 0, 0, 0⟩

/-- The network object in a zeroed block. -/
def AneNn.zero (block : BlockId) : AneNn := ⟨block, 0, .zero, fun _ => .zero, .zero⟩

/-- The characters before the first NUL. -/
def cString (bytes : Name) : Name := bytes.takeWhile (· ≠ 0)

def tileShift (x : UInt64) : UInt64 := x <<< 0xE
def tileAlign (x : UInt64) : UInt64 := (x + 0x4000 - 1) &&& (0 - 0x4000)
def tileSize (nn : AneNn) (bdx : Nat) : UInt64 := tileShift (nn.model.tiles bdx).toUInt64

variable (env : Env)

section Kernel

def World.free (block : Option BlockId) (w : World) : World := { w with proc := w.proc.free block }

def World.malloc (w : World) : Option BlockId × World :=
  match Posix.malloc env.hwx w.proc with
  | (block, p) => (block, { w with proc := p })

def World.openNode (i : Nat) (w : World) : Option Fd × World :=
  match (env.node i).openError with
  | some e => (none, { w with proc := w.proc.setErrno e })
  | none =>
    (some w.proc.opens,
      { w with
        proc := { w.proc with opens := w.proc.opens + 1, fds := w.proc.opens :: w.proc.fds }
        devices := ⟨w.proc.opens, i, []⟩ :: w.devices })

/-- With the descriptor of a node go the handles made with it. -/
def World.close (fd : Fd) (w : World) : World :=
  { w with proc := w.proc.close fd, devices := w.devices.eraseP (·.fd = fd) }

/-- The open node behind a descriptor. -/
def World.device (fd : Fd) (w : World) : Option OpenNode := w.devices.find? (·.fd = fd)

def withHandles (fd : Fd) (f : List UInt32 → List UInt32) : List OpenNode → List OpenNode
  | [] => []
  | d :: rest => if d.fd = fd then { d with handles := f d.handles } :: rest else
    d :: withHandles fd f rest

def World.ioctlBoInit (fd : Fd) (w : World) : Option (UInt32 × UInt64) × World :=
  match w.device fd, env.boInit w.ioctls with
  | some _, some (handle, offset) =>
    (some (handle, offset),
      { w with ioctls := w.ioctls + 1, devices := withHandles fd (handle :: ·) w.devices })
  | _, _ => (none, { w with ioctls := w.ioctls + 1 })

def World.ioctlBoFree (fd : Fd) (handle : UInt32) (w : World) : World :=
  if env.boFree w.ioctls then
    if (w.device fd).any (handle ∈ ·.handles) then
      { w with ioctls := w.ioctls + 1, devices := withHandles fd (·.erase handle) w.devices }
    else { w with ioctls := w.ioctls + 1, badHandles := w.badHandles + 1 }
  else { w with ioctls := w.ioctls + 1 }

def World.mmap (size : UInt64) (w : World) : Option Addr × World :=
  match env.mmap w.mmaps with
  | some addr => (some addr, { w with mmaps := w.mmaps + 1, maps := (addr, size) :: w.maps })
  | none => (none, { w with mmaps := w.mmaps + 1 })

def World.munmap (addr : Addr) (size : UInt64) (w : World) : World :=
  if (addr, size) ∈ w.maps then { w with maps := w.maps.erase (addr, size) }
  else { w with badUnmaps := w.badUnmaps + 1 }

def World.memset (addr : Addr) (value : UInt8) (size : Nat) (w : World) : World :=
  { w with ram := store w.ram addr (List.replicate size value) }

/-- A write through a pointer that should be a heap block. -/
def World.writeTo (block : Option BlockId) (w : World) : World :=
  if block = none then { w with nullWrites := w.nullWrites + 1 } else w

end Kernel

section Bootstrap

def setNid (td : Addr) (nid : UInt32) (w : World) : World :=
  let hdr0 := u32 w.ram td
  let hdr0 := (hdr0 &&& (0xf00ffff : UInt32)) ||| ((nid &&& (0xff : UInt32)) <<< 16)
  { w with ram := store w.ram td (toBytes 4 hdr0.toNat) }

/-- `hwxSectionRead` into memory at `addr`: its buffer is the memory from there on. -/
def readSection (file : HwxFile) (sec : HwxSection) (addr : Addr) (size : UInt64) (w : World) :
    Bool × World :=
  let r := hwxSectionRead env.hwx (some file) (some sec) 0 (some fun i => w.ram (addr + i)) size
    w.proc
  let ram := match r.dst with
    | some dst => fun a => if addr ≤ a then dst (a - addr) else w.ram a
    | none => w.ram
  (r.ok, { w with proc := r.proc, ram := ram })

/-- The bytes to copy, no more than the section and the buffer have. -/
def copySize (tdSize : UInt32) (textSize btspSize : UInt64) : UInt64 :=
  let copy := tdSize.toUInt64
  let copy := if copy = 0 ∨ copy > textSize then textSize else copy
  if copy > btspSize then btspSize else copy

/-- The tasks are copied from the file to the bootstrap buffer. -/
def copyTasks (file : HwxFile) (text : HwxSection) (copy : UInt64) (btsp : Addr) (w : World) :
    World :=
  if copy > 0 then
    match readSection env file text btsp copy w with
    | (true, w) => w
    | (false, w) => w.memset btsp 0 copy.toNat
  else w

def setBtspAndCommand (nn : AneNn) (w : World) : World :=
  match nn.model.hwx, nn.btspChan.map with
  | some file, some btsp =>
    let btspSize := nn.btspChan.size
    if btspSize = 0 then w
    else
      let w := w.memset btsp 0 btspSize.toNat
      let w := match hwxGetTskSection (some file) w.proc with
        | (some text, p) =>
          let copy := copySize nn.model.tdSize text.target.size btspSize
          copyTasks env file text.target copy btsp { w with proc := p }
        | (none, p) => { w with proc := p }
      setNid btsp ANE_FIFO_NID w
  | _, _ => w

end Bootstrap

section Buffers

/-- A negative return value is the error `-e`. -/
abbrev Status := Except Errno Unit

def boInit (fd : Fd) (bo : AneBo) (w : World) : Status × AneBo × World :=
  match w.ioctlBoInit env fd with
  | (none, w) => (.error EINVAL, bo, w)
  | (some (handle, offset), w) => (.ok (), { bo with handle := handle, offset := offset }, w)

def boFree (fd : Fd) (bo : AneBo) (w : World) : AneBo × World :=
  let w := if bo.handle ≠ 0 then w.ioctlBoFree env fd bo.handle else w
  ({ bo with handle := 0, offset := 0 }, w)

def boMmap (bo : AneBo) (w : World) : Status × AneBo × World :=
  match w.mmap env bo.size with
  | (none, w) => (.error EINVAL, { bo with map := none }, w)
  | (some addr, w) => (.ok (), { bo with map := some addr }, w)

def boMunmap (bo : AneBo) (w : World) : AneBo × World :=
  let w := match bo.map with
    | some addr => w.munmap addr bo.size
    | none => w
  ({ bo with map := none }, w)

def aneBoInit (fd : Fd) (bo : AneBo) (w : World) : Status × AneBo × World :=
  if bo.size = 0 then (.error EINVAL, bo, w)
  else
    match boInit env fd bo w with
    | (.error e, bo, w) => (.error e, bo, w)
    | (.ok _, bo, w) =>
      match boMmap env bo w with
      | (.ok _, bo, w) => (.ok (), bo, w)
      | (.error e, bo, w) =>
        match boFree env fd bo w with
        | (bo, w) => (.error e, bo, w)

def aneBoFree (fd : Fd) (bo : AneBo) (w : World) : AneBo × World :=
  match boMunmap bo w with
  | (bo, w) => boFree env fd bo w

def AneNn.setChan (bdx : Nat) (bo : AneBo) (nn : AneNn) : AneNn :=
  { nn with chans := Function.update nn.chans bdx bo }

/-- The loop of `aneChanFree` over `n` more channels from number `bdx` on. -/
def chanFreeLoop : Nat → Nat → AneNn → World → AneNn × World
  | 0, _, nn, w => (nn, w)
  | n + 1, bdx, nn, w =>
    match aneBoFree env nn.fd (nn.chans bdx) w with
    | (bo, w) => chanFreeLoop n (bdx + 1) (nn.setChan bdx bo) w

def aneChanFree (nn : AneNn) (w : World) : AneNn × World :=
  match aneBoFree env nn.fd nn.btspChan w with
  | (bo, w) => chanFreeLoop env ANE_MAX_TILE_COUNT 0 { nn with btspChan := bo } w

/-- The loop of `aneChanInit` over `n` more channels from number `bdx` on. -/
def chanInitLoop : Nat → Nat → AneNn → World → Status × AneNn × World
  | 0, _, nn, w => (.ok (), nn, w)
  | n + 1, bdx, nn, w =>
    if nn.model.tiles bdx ≠ 0 then
      match aneBoInit env nn.fd { nn.chans bdx with size := tileSize nn bdx } w with
      | (.error e, bo, w) => (.error e, nn.setChan bdx bo, w)
      | (.ok _, bo, w) => chanInitLoop n (bdx + 1) (nn.setChan bdx bo) w
    else chanInitLoop n (bdx + 1) nn w

/-- The label `error` of `aneChanInit`. -/
def chanInitError (e : Errno) (nn : AneNn) (w : World) : Status × AneNn × World :=
  match aneChanFree env nn w with
  | (nn, w) => (.error e, nn, w)

/-- The bootstrap channel. Without a size for it the channels are left as they are. -/
def btspChanInit (nn : AneNn) (w : World) : Status × AneNn × World :=
  if nn.model.tdSize = 0 then (.error EINVAL, nn, w)
  else
    match aneBoInit env nn.fd { nn.btspChan with size := tileAlign nn.model.tdSize.toUInt64 } w with
    | (.error e, bo, w) => chanInitError env e { nn with btspChan := bo } w
    | (.ok _, bo, w) =>
      let nn := { nn with btspChan := bo }
      (.ok (), nn, setBtspAndCommand env nn w)

def aneChanInit (nn : AneNn) (w : World) : Status × AneNn × World :=
  match chanInitLoop env ANE_MAX_TILE_COUNT 0 nn w with
  | (.error e, nn, w) => chanInitError env e nn w
  | (.ok _, nn, w) => btspChanInit env nn w

end Buffers

section Devices

/-- The driver behind a descriptor is compared by its name, read into a heap block. -/
def isAneDevice (fd : Fd) (w : World) : Status × World :=
  match w.device fd with
  | none => (.error EINVAL, w)
  | some d =>
    let node := env.node d.node
    if node.lengthServed = false then (.error EINVAL, w)
    else if node.driver.length = 0 then (.error EINVAL, w)
    else
      match w.malloc env with
      | (name, w) =>
        if node.nameServed = false then (.error EINVAL, w.free name)
        else
          let w := w.writeTo name
          if cString node.driver ≠ ascii ['a', 'n', 'e'] then (.error EINVAL, w.free name)
          else (.ok (), w.free name)

def openFd (i : Nat) (w : World) : Option Fd × World :=
  match w.openNode env i with
  | (none, w) => (none, w)
  | (some fd, w) =>
    match isAneDevice env fd w with
    | (.error _, w) => (none, w.close fd)
    | (.ok _, w) => (some fd, w)

/-- The loop of `deviceOpen` over `n` more nodes from number `i` on. -/
def deviceScan (devId : Int) : Nat → Nat → Nat → World → Option Fd × World
  | 0, _, _, w => (none, w)
  | n + 1, i, found, w =>
    match openFd env i w with
    | (none, w) => deviceScan devId n (i + 1) found w
    | (some fd, w) =>
      if devId = found then (some fd, w) else deviceScan devId n (i + 1) (found + 1) (w.close fd)

def deviceOpen (devId : Int) (w : World) : Option Fd × World :=
  if devId < 0 ∨ devId ≥ MAX_ANE_DEVICES then (none, w)
  else deviceScan env devId MAX_NODE_COUNT 0 0 w

def aneDeviceOpen (nn : AneNn) (devId : Int) (w : World) : Status × AneNn × World :=
  match deviceOpen env devId w with
  | (none, w) => (.error EINVAL, nn, w)
  | (some fd, w) => (.ok (), { nn with fd := fd }, w)

/-- A descriptor is not negative, so the check of `device_close` always passes. -/
def aneDeviceClose (nn : AneNn) (w : World) : AneNn × World := ({ nn with fd := 0 }, w.close nn.fd)

end Devices

section Models

/-- The fields of `struct hwx_ane_seg_state` that are used, and its size. -/
structure HwxAneSegState where
  segWords : UInt32
  tdCount : UInt32

def sizeofSegState : Nat := 2104

def HwxAneSegState.read (m : Mem) : HwxAneSegState := ⟨u32 m 2068, u32 m 2080⟩

/-- The search for a segment state. The cursor moves on at every turn, so a turn for each
thread state and one more are enough. -/
def segStateLoop (file : HwxFile) : Nat → Option Int → Process → Option ThreadStatePtr × Process
  | 0, _, p => (none, p)
  | fuel + 1, cursor, p =>
    match hwxThreadStateNext (some file) HWX_ANE_SEG_STATE cursor p with
    | (none, p) => (none, p)
    | (some ptr, p) =>
      if ptr.target.data.block ≠ none ∧ ptr.target.byteSize.toNat ≥ sizeofSegState then (some ptr, p)
      else segStateLoop file fuel (some ptr.index) p

/-- Closing the file again after a failure. -/
def modelInitError (file : HwxFile) (model : AneModel) (w : World) : Status × AneModel × World :=
  (.error EINVAL, { model with hwx := none }, { w with proc := hwxClose (some file) w.proc })

/-- What `aneModelInit` does with an open file. -/
def modelOfFile (file : HwxFile) (w : World) : Status × AneModel × World :=
  let model := { AneModel.zero with hwx := some file }
  match segStateLoop file (file.threadStates.elems.length + 1) none w.proc with
  | (none, p) => modelInitError file model { w with proc := p }
  | (some state, p) =>
    let w := { w with proc := p }
    let segMeta := HwxAneSegState.read (ofList state.target.data.elems)
    let tdSize := (segMeta.segWords.toUInt64 * 4).toUInt32
    let model := { model with tdSize := tdSize, tdCount := segMeta.tdCount, size := tdSize.toUInt64 }
    if model.tdSize = 0 then modelInitError file model w
    else
      match hwxGetTskSection (some file) w.proc with
      | (tsk, p) =>
        match hwxGetKrnSection (some file) p with
        | (krn, p) =>
          let w := { w with proc := p }
          match tsk, krn with
          | some tsk, some krn =>
            (.ok (), { model with tskSize := tsk.target.size, krnSize := krn.target.size }, w)
          | _, _ => modelInitError file model w

def aneModelInit (path : Option String) (w : World) : Status × AneModel × World :=
  match hwxOpen env.hwx path w.proc with
  | (none, p) => (.error EINVAL, .zero, { w with proc := p })
  | (some file, p) => modelOfFile file { w with proc := p }

def aneModelFree (nn : AneNn) (w : World) : AneNn × World :=
  match nn.model.hwx with
  | some file =>
    ({ nn with model := { nn.model with hwx := none } }, { w with proc := hwxClose (some file) w.proc })
  | none => (nn, w)

end Models

/-- The rest of `aneInit` with an open device. -/
def initChannels (nn : AneNn) (w : World) : Option AneNn × World :=
  match aneChanInit env nn w with
  | (.ok _, nn, w) => (some nn, w)
  | (.error _, nn, w) =>
    match aneDeviceClose nn w with
    | (nn, w) =>
      match aneModelFree nn w with
      | (nn, w) => (none, w.free (some nn.block))

def aneInit (path : Option String) (devId : Int) (w : World) : Option AneNn × World :=
  match w.malloc env with
  | (none, w) => (none, w)
  | (some block, w) =>
    match aneModelInit env path w with
    | (.error _, _, w) => (none, w.free (some block))
    | (.ok _, model, w) =>
      let nn := { AneNn.zero block with model := model }
      match aneDeviceOpen env nn devId w with
      | (.ok _, nn, w) => initChannels env nn w
      | (.error _, nn, w) =>
        match aneModelFree nn w with
        | (nn, w) => (none, w.free (some nn.block))

def aneFree (nn : AneNn) (w : World) : World :=
  match aneChanFree env nn w with
  | (nn, w) =>
    match aneDeviceClose nn w with
    | (nn, w) =>
      match aneModelFree nn w with
      | (nn, w) => w.free (some nn.block)

end Ane.Libane
