import Ane.Posix

/-! The HWX container reader of libane. A `goto error` returns the tables built so far,
which the label frees. The environment is the file behind the descriptor, so the calls
below do not name it. A pointer to a heap array is its block, `none` when null, together
with the elements; the element count the source keeps beside it is the list's length. -/
namespace Ane.Hwx
open Memory Posix

def HWX_CPU_SUBTYPE_MASK : UInt32 := 0xFF
def HWX_MACHO_MAGIC_64 : UInt32 := 0xBEEFFACE
def HWX_LOAD_COMMAND_SEGMENT_64 : UInt32 := 0x19
def HWX_LOAD_COMMAND_THREAD : UInt32 := 0x04

/-- The characters of a string or of a `char` array. -/
abbrev Name := List UInt8

def ascii (s : List Char) : Name := s.map fun c => UInt8.ofNat c.toNat

/-- The records of the file; they take 32, 8, 72 and 80 bytes. -/
structure MachHeader64 where
  magic : UInt32
  cputype : UInt32
  cpusubtype : UInt32
  filetype : UInt32
  ncmds : UInt32
  sizeofcmds : UInt32
  flags : UInt32
  reserved : UInt32
deriving DecidableEq

structure LoadCommand where
  cmd : UInt32
  cmdsize : UInt32
deriving DecidableEq

structure SegmentCommand64 where
  cmd : UInt32
  cmdsize : UInt32
  segname : Name
  vmaddr : UInt64
  vmsize : UInt64
  fileoff : UInt64
  filesize : UInt64
  maxprot : UInt32
  initprot : UInt32
  nsects : UInt32
  flags : UInt32
deriving DecidableEq

structure Section64 where
  sectname : Name
  segname : Name
  addr : UInt64
  size : UInt64
  offset : UInt32
  align : UInt32
  reloff : UInt32
  nreloc : UInt32
  flags : UInt32
  reserved1 : UInt32
  reserved2 : UInt32
  reserved3 : UInt32
deriving DecidableEq

def MachHeader64.read (m : Mem) (off : Nat) : MachHeader64 where
  magic := u32 m off
  cputype := u32 m (off + 4)
  cpusubtype := u32 m (off + 8)
  filetype := u32 m (off + 12)
  ncmds := u32 m (off + 16)
  sizeofcmds := u32 m (off + 20)
  flags := u32 m (off + 24)
  reserved := u32 m (off + 28)

def LoadCommand.read (m : Mem) (off : Nat) : LoadCommand where
  cmd := u32 m off
  cmdsize := u32 m (off + 4)

def SegmentCommand64.read (m : Mem) (off : Nat) : SegmentCommand64 where
  cmd := u32 m off
  cmdsize := u32 m (off + 4)
  segname := slice m (off + 8) 16
  vmaddr := u64 m (off + 24)
  vmsize := u64 m (off + 32)
  fileoff := u64 m (off + 40)
  filesize := u64 m (off + 48)
  maxprot := u32 m (off + 56)
  initprot := u32 m (off + 60)
  nsects := u32 m (off + 64)
  flags := u32 m (off + 68)

def Section64.read (m : Mem) (off : Nat) : Section64 where
  sectname := slice m off 16
  segname := slice m (off + 16) 16
  addr := u64 m (off + 32)
  size := u64 m (off + 40)
  offset := u32 m (off + 48)
  align := u32 m (off + 52)
  reloff := u32 m (off + 56)
  nreloc := u32 m (off + 60)
  flags := u32 m (off + 64)
  reserved1 := u32 m (off + 68)
  reserved2 := u32 m (off + 72)
  reserved3 := u32 m (off + 76)

structure HeapArray (α : Type) where
  block : Option BlockId
  elems : List α
deriving DecidableEq

def HeapArray.null {α : Type} : HeapArray α := ⟨none, []⟩

structure HwxSection where
  segmentName : Name
  sectionName : Name
  addr : UInt64
  size : UInt64
  offset : UInt32
  align : UInt32
  reloff : UInt32
  nreloc : UInt32
  flags : UInt32
  reserved1 : UInt32
  reserved2 : UInt32
  reserved3 : UInt32
deriving DecidableEq

structure HwxSegment where
  name : Name
  vmaddr : UInt64
  vmsize : UInt64
  fileoff : UInt64
  filesize : UInt64
  maxprot : UInt32
  initprot : UInt32
  flags : UInt32
  sections : HeapArray HwxSection
deriving DecidableEq

structure HwxThreadState where
  flavor : UInt32
  count : UInt32
  byteSize : UInt32
  data : HeapArray UInt8
deriving DecidableEq

inductive HwxCpuSubtype
  | M9
  | H11
  | T0
  | H12
  | H13
  | H14
  | H15
  | unknown
deriving DecidableEq

structure HwxFile where
  block : BlockId
  fd : Fd
  fileSize : UInt64
  header : MachHeader64
  segments : HeapArray HwxSegment
  tdVersion : UInt32
  threadStates : HeapArray HwxThreadState
deriving DecidableEq

def hwxWithinFile (fileSize offset length : UInt64) : Bool :=
  if offset > fileSize then false
  else if length > fileSize - offset then false
  else true

def trimLen : Name → Nat
  | [] => 0
  | c :: rest => if c ≠ 0 then trimLen rest + 1 else 0

/-- The string left in `dst`. -/
def hwxTrimName (src : Name) : Name := src.take (trimLen src)

/-- The result code, the buffer and the process after a read. -/
structure Transfer (β : Type) where
  ok : Bool
  dst : β
  proc : Process

variable (env : Env)

def preadLoop (size : Nat) (offset : UInt64) : Nat → Nat → Mem → Process → Transfer Mem
  | 0, _, dst, p => ⟨false, dst, p⟩
  | fuel + 1, total, dst, p =>
    if total < size then
      match pread env (size - total) (offset + UInt64.ofNat total) p with
      | (.error e, p) =>
        if e = EINTR then preadLoop size offset fuel total dst p else ⟨false, dst, p⟩
      | (.ok bytes, p) =>
        if bytes.length = 0 then ⟨false, dst, p.setErrno EINVAL⟩
        else preadLoop size offset fuel (total + bytes.length) (store dst total bytes) p
    else ⟨true, dst, p⟩

/-- Every turn of the loop transfers a byte or is one of the interruptions still to come,
so the loop ends before the fuel does. -/
def hwxPreadExact (dst : Mem) (size : Nat) (offset : UInt64) (p : Process) : Transfer Mem :=
  preadLoop env size offset (size + (env.lastEintr - p.preads) + 1) 0 dst p

def hwxCpuSubtype (file : HwxFile) : HwxCpuSubtype :=
  let subtype := file.header.cpusubtype &&& HWX_CPU_SUBTYPE_MASK
  if subtype = 0 then .M9
  else if subtype = 1 then .H11
  else if subtype = 2 then .T0
  else if subtype = 3 then .H12
  else if subtype = 4 then .H13
  else if subtype = 5 then .H14
  else if subtype = 6 then .H15
  else .unknown

def hwxTdVersionForCpu : HwxCpuSubtype → UInt32
  | .T0 => 4
  | .M9 | .H11 => 5
  | .H12 => 6
  | .H13 => 7
  | .H15 => 8
  | .H14 => 11
  | .unknown => 0

/-- A pointer into the section array of a segment: both indices and what it points to. -/
structure SectionPtr where
  segment : Nat
  index : Nat
  target : HwxSection
deriving DecidableEq

def sectionInSegment (sectionName : Name) (i : Nat) : Nat → List HwxSection → Option SectionPtr
  | _, [] => none
  | j, s :: rest =>
    if s.sectionName = sectionName then some ⟨i, j, s⟩
    else sectionInSegment sectionName i (j + 1) rest

def sectionInSegments (segmentName : Option Name) (sectionName : Name) :
    Nat → List HwxSegment → Option SectionPtr
  | _, [] => none
  | i, segment :: rest =>
    if ∃ name ∈ segmentName, name ≠ [] ∧ segment.name ≠ name then
      sectionInSegments segmentName sectionName (i + 1) rest
    else
      match sectionInSegment sectionName i 0 segment.sections.elems with
      | some ptr => some ptr
      | none => sectionInSegments segmentName sectionName (i + 1) rest

def hwxSectionByName (file : Option HwxFile) (segmentName sectionName : Option Name)
    (p : Process) : Option SectionPtr × Process :=
  match file, sectionName with
  | some file, some sectionName =>
    (sectionInSegments segmentName sectionName 0 file.segments.elems, p)
  | _, _ => (none, p.setErrno EINVAL)

def textSegment : Name := ascii ['_', '_', 'T', 'E', 'X', 'T']
def textSection : Name := ascii ['_', '_', 't', 'e', 'x', 't']
def constSection : Name := ascii ['_', '_', 'c', 'o', 'n', 's', 't']

def hwxGetTskSection (file : Option HwxFile) (p : Process) : Option SectionPtr × Process :=
  hwxSectionByName file (some textSegment) (some textSection) p

def hwxGetKrnSection (file : Option HwxFile) (p : Process) : Option SectionPtr × Process :=
  hwxSectionByName file (some textSegment) (some constSection) p

def hwxFreeSegments (segments : HeapArray HwxSegment) (p : Process) : Process :=
  if segments.block = none then p
  else (segments.elems.foldl (fun p s => p.free s.sections.block) p).free segments.block

def hwxFreeThreadStates (states : HeapArray HwxThreadState) (p : Process) : Process :=
  if states.block = none then p
  else (states.elems.foldl (fun p s => p.free s.data.block) p).free states.block

/-- The tables `hwxOpen` builds. -/
structure Parsed where
  segments : HeapArray HwxSegment
  threadStates : HeapArray HwxThreadState

/-- Where a piece of `hwxOpen` leaves control. -/
inductive Flow
  | next (parsed : Parsed) (p : Process)
  | gotoError (parsed : Parsed) (p : Process)

def Flow.parsed : Flow → Parsed
  | .next parsed _ => parsed
  | .gotoError parsed _ => parsed

def Flow.proc : Flow → Process
  | .next _ p => p
  | .gotoError _ p => p

/-- `hwxTrimName` reads a name field of 16 bytes up to its first NUL. -/
def nameField (off : Nat) (trimmed : Name) : Nat × Nat := (off, min (trimmed.length + 1) 16)

def HwxSection.ofSection64 (src : Section64) : HwxSection where
  segmentName := hwxTrimName src.segname
  sectionName := hwxTrimName src.sectname
  addr := src.addr
  size := src.size
  offset := src.offset
  align := src.align
  reloff := src.reloff
  nreloc := src.nreloc
  flags := src.flags
  reserved1 := src.reserved1
  reserved2 := src.reserved2
  reserved3 := src.reserved3

def sectionFields (dst : HwxSection) : List (Nat × Nat) :=
  [nameField 16 dst.segmentName, nameField 0 dst.sectionName, (32, 8), (40, 8), (48, 4), (52, 4),
    (56, 4), (60, 4), (64, 4), (68, 4), (72, 4), (76, 4)]

/-- The loop over the sections of a command of `size` bytes from number `i` on; `none`
when one lies outside the file. -/
def sectionLoop (fileSize : UInt64) (buf : Mem) (size : Nat) :
    Nat → Nat → Process → Option (List HwxSection) × Process
  | 0, _, p => (some [], p)
  | n + 1, i, p =>
    let base := 72 + 80 * i
    let dst := HwxSection.ofSection64 (Section64.read buf base)
    let p := p.note size base (sectionFields dst)
    if dst.size ≠ 0 ∧ hwxWithinFile fileSize dst.offset.toUInt64 dst.size = false then (none, p)
    else
      match sectionLoop fileSize buf size n (i + 1) p with
      | (none, p) => (none, p)
      | (some rest, p) => (some (dst :: rest), p)

/-- The section array of a segment command held in block `buffer`. -/
def segmentSections (fileSize : UInt64) (buffer : BlockId) (buf : Mem) (size : Nat)
    (sectionCount : UInt32) (p : Process) : Option (HeapArray HwxSection) × Process :=
  if sectionCount > 0 then
    match malloc env p with
    | (none, p) => (none, p.free (some buffer))
    | (some sections, p) =>
      match sectionLoop fileSize buf size sectionCount.toNat 0 p with
      | (none, p) => (none, ((p.free (some buffer)).free (some sections)).setErrno EINVAL)
      | (some elems, p) => (some ⟨some sections, elems⟩, p)
  else (some .null, p)

def HwxSegment.ofSegmentCommand64 (src : SegmentCommand64) (sections : HeapArray HwxSection) :
    HwxSegment where
  name := hwxTrimName src.segname
  vmaddr := src.vmaddr
  vmsize := src.vmsize
  fileoff := src.fileoff
  filesize := src.filesize
  maxprot := src.maxprot
  initprot := src.initprot
  flags := src.flags
  sections := sections

def segmentFields (name : Name) : List (Nat × Nat) :=
  [nameField 8 name, (24, 8), (32, 8), (40, 8), (48, 8), (56, 4), (60, 4), (68, 4), (64, 4)]

/-- A segment command of `lc.cmdsize` bytes, read into block `buffer`. The number of
sections is read before the size of the command is checked. -/
def segmentRecord (fileSize : UInt64) (lc : LoadCommand) (buffer : BlockId) (buf : Mem)
    (parsed : Parsed) (p : Process) : Flow :=
  let segCmd := SegmentCommand64.read buf 0
  let size := lc.cmdsize.toNat
  let p := p.note size 0 [(64, 4)]
  if lc.cmdsize.toUInt64 < 72 + segCmd.nsects.toUInt64 * 80 then
    .gotoError parsed ((p.free (some buffer)).setErrno EINVAL)
  else
    let p := p.note size 0 [(40, 8), (48, 8)]
    if hwxWithinFile fileSize segCmd.fileoff segCmd.filesize = false then
      .gotoError parsed ((p.free (some buffer)).setErrno EINVAL)
    else
      let p := p.note size 0 (segmentFields (hwxTrimName segCmd.segname))
      match segmentSections env fileSize buffer buf size segCmd.nsects p with
      | (none, p) => .gotoError parsed p
      | (some sections, p) =>
        let segment := HwxSegment.ofSegmentCommand64 segCmd sections
        match realloc env parsed.segments.block p with
        | (none, p) => .gotoError parsed ((p.free (some buffer)).free sections.block)
        | (some block, p) =>
          .next { parsed with segments := ⟨some block, parsed.segments.elems ++ [segment]⟩ }
            (p.free (some buffer))

/-- The payload of a thread state, copied to a block of its own. -/
def threadStateData (buf : Mem) (size cursor byteCount : Nat) (p : Process) :
    Option (HeapArray UInt8) × Process :=
  if byteCount > 0 then
    match malloc env p with
    | (none, p) => (none, p)
    | (some b, p) =>
      (some ⟨some b, slice buf cursor byteCount⟩, p.note size cursor [(0, byteCount)])
  else (some .null, p)

/-- The loop over the thread states in the `remaining` bytes at `cursor`. A turn takes 8
bytes at least, so `remaining / 8` turns are enough. -/
def threadStateLoop (buffer : BlockId) (buf : Mem) (size : Nat) :
    Nat → Nat → Nat → Parsed → Process → Flow
  | 0, _, _, parsed, p => .next parsed (p.free (some buffer))
  | fuel + 1, cursor, remaining, parsed, p =>
    if remaining ≥ 8 then
      let flavor := u32 buf cursor
      let count := u32 buf (cursor + 4)
      let p := p.note size cursor [(0, 4), (4, 4)]
      let byteCount := count.toUInt64 * 4
      if count ≠ 0 ∧ byteCount / 4 ≠ count.toUInt64 then
        .gotoError parsed ((p.free (some buffer)).setErrno EINVAL)
      else
        let byteCount := min (min byteCount.toNat (remaining - 8)) 0xFFFFFFFF
        match threadStateData env buf size (cursor + 8) byteCount p with
        | (none, p) => .gotoError parsed (p.free (some buffer))
        | (some data, p) =>
          let state : HwxThreadState := ⟨flavor, count, UInt32.ofNat byteCount, data⟩
          match realloc env parsed.threadStates.block p with
          | (none, p) => .gotoError parsed ((p.free data.block).free (some buffer))
          | (some block, p) =>
            threadStateLoop buffer buf size fuel (cursor + 8 + byteCount)
              (remaining - 8 - byteCount)
              { parsed with threadStates := ⟨some block, parsed.threadStates.elems ++ [state]⟩ } p
    else .next parsed (p.free (some buffer))

/-- The clamp on a payload makes its count fit a word. -/
theorem byteCount_toNat {asked left byteCount : Nat}
    (taken : min (min asked left) 0xFFFFFFFF = byteCount) :
    (UInt32.ofNat byteCount).toNat = byteCount := by
  apply UInt32.toNat_ofNat_of_lt'
  simp only [UInt32.size]
  omega

def segmentCommand (fileSize : UInt64) (lc : LoadCommand) (offset : UInt64) (parsed : Parsed)
    (p : Process) : Flow :=
  match malloc env p with
  | (none, p) => .gotoError parsed p
  | (some buffer, p) =>
    let r := hwxPreadExact env (env.heap buffer) lc.cmdsize.toNat offset p
    if r.ok then segmentRecord env fileSize lc buffer r.dst parsed r.proc
    else .gotoError parsed (r.proc.free (some buffer))

def threadCommand (lc : LoadCommand) (offset : UInt64) (parsed : Parsed) (p : Process) : Flow :=
  if lc.cmdsize < 8 + 2 * 4 then .gotoError parsed (p.setErrno EINVAL)
  else
    match malloc env p with
    | (none, p) => .gotoError parsed p
    | (some buffer, p) =>
      let r := hwxPreadExact env (env.heap buffer) lc.cmdsize.toNat offset p
      if r.ok then
        let remaining := lc.cmdsize.toNat
        if remaining < 8 then
          .gotoError parsed ((r.proc.free (some buffer)).setErrno EINVAL)
        else
          let remaining := remaining - 8
          threadStateLoop env buffer r.dst lc.cmdsize.toNat (remaining / 8) 8
            remaining parsed r.proc
      else .gotoError parsed (r.proc.free (some buffer))

/-- What a load command of each type does to the tables. -/
def loadCommand (fileSize : UInt64) (lc : LoadCommand) (offset : UInt64) (parsed : Parsed)
    (p : Process) : Flow :=
  if lc.cmd = HWX_LOAD_COMMAND_SEGMENT_64 then segmentCommand env fileSize lc offset parsed p
  else if lc.cmd = HWX_LOAD_COMMAND_THREAD then threadCommand env lc offset parsed p
  else .next parsed p

/-- The loop over the load commands, with the check that nothing is left after it. -/
def loadCommands (fileSize : UInt64) : Nat → UInt64 → UInt64 → Parsed → Process → Flow
  | 0, _, remainingBytes, parsed, p =>
    if remainingBytes ≠ 0 then .gotoError parsed (p.setErrno EINVAL) else .next parsed p
  | n + 1, offset, remainingBytes, parsed, p =>
    if remainingBytes < 8 then .gotoError parsed (p.setErrno EINVAL)
    else
      let r := hwxPreadExact env env.stack 8 offset p
      if r.ok then
        let lc := LoadCommand.read r.dst 0
        if lc.cmdsize < 8 ∨ lc.cmdsize.toUInt64 > remainingBytes then
          .gotoError parsed (r.proc.setErrno EINVAL)
        else
          match loadCommand env fileSize lc offset parsed r.proc with
          | .gotoError parsed p => .gotoError parsed p
          | .next parsed p =>
            loadCommands fileSize n (offset + lc.cmdsize.toUInt64)
              (remainingBytes - lc.cmdsize.toUInt64) parsed p
      else .gotoError parsed r.proc

/-- The label `error`. -/
def errorLabel (fd : Fd) (file : BlockId) (parsed : Parsed) (p : Process) : Process :=
  (((hwxFreeSegments parsed.segments (hwxFreeThreadStates parsed.threadStates p)).close fd).free
    (some file))

/-- The rest of `hwxOpen` once the header is read and checked and the object allocated. -/
def openCommands (fd : Fd) (fileSize : UInt64) (header : MachHeader64) (block : BlockId)
    (p : Process) : Option HwxFile × Process :=
  match loadCommands env fileSize header.ncmds.toNat 32 header.sizeofcmds.toUInt64
      ⟨.null, .null⟩ p with
  | .gotoError parsed p => (none, errorLabel fd block parsed p)
  | .next parsed p =>
    let file : HwxFile := ⟨block, fd, fileSize, header, parsed.segments, 0, parsed.threadStates⟩
    let file := { file with tdVersion := hwxTdVersionForCpu (hwxCpuSubtype file) }
    match hwxGetTskSection (some file) p with
    | (none, p) => (none, errorLabel fd block parsed (p.setErrno ENOENT))
    | (some _, p) =>
      match hwxGetKrnSection (some file) p with
      | (none, p) => (none, errorLabel fd block parsed (p.setErrno ENOENT))
      | (some _, p) => (some file, p)

/-- The part of `hwxOpen` that has a descriptor of a regular file. -/
def openRegular (fd : Fd) (p : Process) : Option HwxFile × Process :=
  let fileSize := UInt64.ofNat env.content.length
  let r := hwxPreadExact env env.stack 32 0 p
  if r.ok then
    let header := MachHeader64.read r.dst 0
    if header.magic ≠ HWX_MACHO_MAGIC_64 then (none, (r.proc.close fd).setErrno EINVAL)
    else if hwxWithinFile fileSize 32 header.sizeofcmds.toUInt64 = false then
      (none, (r.proc.close fd).setErrno EINVAL)
    else
      match malloc env r.proc with
      | (none, p) => (none, p.close fd)
      | (some block, p) => openCommands env fd fileSize header block p
  else (none, r.proc.close fd)

def hwxOpen (path : Option String) (p : Process) : Option HwxFile × Process :=
  match path with
  | none => (none, p.setErrno EINVAL)
  | some _ =>
    match openFile env p with
    | (none, p) => (none, p)
    | (some fd, p) =>
      match env.fstatError with
      | some e => (none, (p.setErrno e).close fd)
      | none =>
        if env.regular then openRegular env fd p
        else (none, (p.close fd).setErrno EINVAL)

def hwxClose (file : Option HwxFile) (p : Process) : Process :=
  match file with
  | none => p
  | some file =>
    ((hwxFreeThreadStates file.threadStates (hwxFreeSegments file.segments p)).close file.fd).free
      (some file.block)

/-- A pointer into the thread states: the index and what it points to. -/
structure ThreadStatePtr where
  index : Nat
  target : HwxThreadState
deriving DecidableEq

def threadStateFrom (flavor : UInt32) : Nat → List HwxThreadState → Option ThreadStatePtr
  | _, [] => none
  | i, s :: rest =>
    if s.flavor = flavor then some ⟨i, s⟩ else threadStateFrom flavor (i + 1) rest

/-- A cursor that is not null is its distance, in elements, from the start of the array. -/
def hwxThreadStateNext (file : Option HwxFile) (flavor : UInt32) (current : Option Int)
    (p : Process) : Option ThreadStatePtr × Process :=
  match file with
  | none => (none, p.setErrno EINVAL)
  | some file =>
    let states := file.threadStates.elems
    match current with
    | none => (threadStateFrom flavor 0 states, p)
    | some current =>
      if current < 0 ∨ current ≥ states.length then (none, p.setErrno EINVAL)
      else
        let startIndex := current.toNat + 1
        (threadStateFrom flavor startIndex (states.drop startIndex), p)

def hwxValidateRead (file : Option HwxFile) (offset size : UInt64) (p : Process) :
    Bool × Process :=
  match file with
  | none => (false, p.setErrno EINVAL)
  | some file =>
    if hwxWithinFile file.fileSize offset size = false then (false, p.setErrno EINVAL)
    else (true, p)

/-- The common body of the two readers: `range` is the start and the length of what may be
read, `none` for a null segment or section. -/
def readRange (file : Option HwxFile) (range : Option (UInt64 × UInt64)) (offset : UInt64)
    (buffer : Option Mem) (size : UInt64) (p : Process) : Transfer (Option Mem) :=
  match range with
  | none => ⟨false, buffer, p.setErrno EINVAL⟩
  | some (base, length) =>
    if buffer = none ∧ size > 0 then ⟨false, buffer, p.setErrno EINVAL⟩
    else if size = 0 then ⟨true, buffer, p⟩
    else if offset > length ∨ size > length - offset then ⟨false, buffer, p.setErrno EINVAL⟩
    else
      match hwxValidateRead file (base + offset) size p with
      | (false, p) => ⟨false, buffer, p⟩
      | (true, p) =>
        match buffer with
        | none => ⟨false, none, p⟩
        | some dst =>
          let r := hwxPreadExact env dst size.toNat (base + offset) p
          ⟨r.ok, some r.dst, r.proc⟩

def hwxSegmentRead (file : Option HwxFile) (segment : Option HwxSegment) (offset : UInt64)
    (buffer : Option Mem) (size : UInt64) (p : Process) : Transfer (Option Mem) :=
  readRange env file (segment.map fun s => (s.fileoff, s.filesize)) offset buffer size p

def hwxSectionRead (file : Option HwxFile) (sec : Option HwxSection) (offset : UInt64)
    (buffer : Option Mem) (size : UInt64) (p : Process) : Transfer (Option Mem) :=
  readRange env file (sec.map fun s => (s.offset.toUInt64, s.size)) offset buffer size p

end Ane.Hwx
