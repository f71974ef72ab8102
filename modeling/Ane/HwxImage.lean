import Ane.HwxOpen
import Ane.Records

/-! What an HWX container says, as an image of records that can be written out. -/
namespace Ane.Hwx
open Memory Posix

section Records

def MachHeader64.write (h : MachHeader64) : List UInt8 :=
  toBytes 4 h.magic.toNat ++ toBytes 4 h.cputype.toNat ++ toBytes 4 h.cpusubtype.toNat ++
    toBytes 4 h.filetype.toNat ++ toBytes 4 h.ncmds.toNat ++ toBytes 4 h.sizeofcmds.toNat ++
    toBytes 4 h.flags.toNat ++ toBytes 4 h.reserved.toNat

def LoadCommand.write (lc : LoadCommand) : List UInt8 :=
  toBytes 4 lc.cmd.toNat ++ toBytes 4 lc.cmdsize.toNat

def SegmentCommand64.write (s : SegmentCommand64) : List UInt8 :=
  toBytes 4 s.cmd.toNat ++ toBytes 4 s.cmdsize.toNat ++ s.segname ++ toBytes 8 s.vmaddr.toNat ++
    toBytes 8 s.vmsize.toNat ++ toBytes 8 s.fileoff.toNat ++ toBytes 8 s.filesize.toNat ++
    toBytes 4 s.maxprot.toNat ++ toBytes 4 s.initprot.toNat ++ toBytes 4 s.nsects.toNat ++
    toBytes 4 s.flags.toNat

def Section64.write (s : Section64) : List UInt8 :=
  s.sectname ++ s.segname ++ toBytes 8 s.addr.toNat ++ toBytes 8 s.size.toNat ++
    toBytes 4 s.offset.toNat ++ toBytes 4 s.align.toNat ++ toBytes 4 s.reloff.toNat ++
    toBytes 4 s.nreloc.toNat ++ toBytes 4 s.flags.toNat ++ toBytes 4 s.reserved1.toNat ++
    toBytes 4 s.reserved2.toNat ++ toBytes 4 s.reserved3.toNat

def MachHeader64.record : Record MachHeader64 where
  size := 32
  Good _ := True
  write := MachHeader64.write
  read := MachHeader64.read
  length h _ := by simp only [MachHeader64.write, List.length_append, toBytes_length, Nat.reduceAdd]
  good_read _ _ := trivial
  placed m off h _ := by
    obtain ⟨⟩ := h
    simp only [MachHeader64.write, MachHeader64.read, at_append, at_u32, toBytes_length,
      List.length_append, Nat.reduceAdd, MachHeader64.mk.injEq, and_assoc]

def LoadCommand.record : Record LoadCommand where
  size := 8
  Good _ := True
  write := LoadCommand.write
  read := LoadCommand.read
  length lc _ := by simp only [LoadCommand.write, List.length_append, toBytes_length, Nat.reduceAdd]
  good_read _ _ := trivial
  placed m off lc _ := by
    obtain ⟨⟩ := lc
    simp only [LoadCommand.write, LoadCommand.read, at_append, at_u32, toBytes_length,
      LoadCommand.mk.injEq]

theorem LoadCommand.write_length (lc : LoadCommand) : lc.write.length = 8 :=
  LoadCommand.record.length lc trivial

theorem MachHeader64.write_length (h : MachHeader64) : h.write.length = 32 :=
  MachHeader64.record.length h trivial

/-- A name field takes 16 bytes, whatever the name is. -/
def SegmentCommand64.record : Record SegmentCommand64 where
  size := 72
  Good s := s.segname.length = 16
  write := SegmentCommand64.write
  read := SegmentCommand64.read
  length s good := by
    simp only [SegmentCommand64.write, List.length_append, toBytes_length, good, Nat.reduceAdd]
  good_read _ _ := slice_length
  placed m off s good := by
    obtain ⟨⟩ := s
    simp only at good
    simp only [SegmentCommand64.write, SegmentCommand64.read, at_append, at_u32, at_u64,
      at_bytes good, toBytes_length, List.length_append, good, Nat.reduceAdd,
      SegmentCommand64.mk.injEq, and_assoc]

def Section64.record : Record Section64 where
  size := 80
  Good s := s.sectname.length = 16 ∧ s.segname.length = 16
  write := Section64.write
  read := Section64.read
  length s good := by
    simp only [Section64.write, List.length_append, toBytes_length, good, Nat.reduceAdd]
  good_read _ _ := ⟨slice_length, slice_length⟩
  placed m off s good := by
    obtain ⟨⟩ := s
    simp only at good
    simp only [Section64.write, Section64.read, at_append, at_u32, at_u64, at_bytes good.1,
      at_bytes good.2, toBytes_length, List.length_append, good, Nat.reduceAdd,
      Section64.mk.injEq, and_assoc]

end Records

/-- A thread state as it stands in a command. -/
structure StateImage where
  flavor : UInt32
  count : UInt32
  payload : List UInt8

def StateImage.write (s : StateImage) : List UInt8 :=
  toBytes 4 s.flavor.toNat ++ toBytes 4 s.count.toNat ++ s.payload

def StateImage.ofState (s : HwxThreadState) : StateImage := ⟨s.flavor, s.count, s.data.elems⟩

/-- Each state has its payload in full, or it is the last and the command ends before its
payload does. Less than the start of another state may follow. -/
def StatesFit : List StateImage → List UInt8 → Prop
  | [], tail => tail.length < 8
  | s :: rest, tail =>
    (s.payload.length = 4 * s.count.toNat ∨
      s.payload.length < 4 * s.count.toNat ∧ rest = [] ∧ tail = []) ∧ StatesFit rest tail

/-- A load command. What stands behind the last record of a command is kept, though nothing
reads it. -/
inductive CommandImage
  | segment (record : SegmentCommand64) (sections : List Section64) (tail : List UInt8)
  | thread (record : LoadCommand) (states : List StateImage) (tail : List UInt8)
  | other (record : LoadCommand) (body : List UInt8)

namespace CommandImage

def write : CommandImage → List UInt8
  | segment record sections tail => record.write ++ (sections.flatMap Section64.write ++ tail)
  | thread record states tail => record.write ++ (states.flatMap StateImage.write ++ tail)
  | other record body => record.write ++ body

def start : CommandImage → LoadCommand
  | segment record _ _ => ⟨record.cmd, record.cmdsize⟩
  | thread record _ _ => record
  | other record _ => record

/-- The demands of its type on a command in a file of `len` bytes. -/
def TypeOk (len : Nat) : CommandImage → Prop
  | segment record sections _ => record.cmd = HWX_LOAD_COMMAND_SEGMENT_64 ∧
    record.segname.length = 16 ∧ record.nsects.toNat = sections.length ∧
    record.fileoff.toNat + record.filesize.toNat ≤ len ∧
    ∀ s ∈ sections, Section64.record.Good s ∧ SectionOk len s
  | thread record states tail => record.cmd = HWX_LOAD_COMMAND_THREAD ∧ states ≠ [] ∧
    StatesFit states tail
  | other record _ => record.cmd ≠ HWX_LOAD_COMMAND_SEGMENT_64 ∧
    record.cmd ≠ HWX_LOAD_COMMAND_THREAD

structure Valid (len : Nat) (c : CommandImage) : Prop where
  size : c.start.cmdsize.toNat = c.write.length
  typeOk : c.TypeOk len

def segments : CommandImage → List (SegmentCommand64 × List Section64)
  | segment record sections _ => [(record, sections)]
  | _ => []

def states : CommandImage → List StateImage
  | thread _ states _ => states
  | _ => []

end CommandImage

/-- A container: the header, the load commands, and whatever the file holds behind them. -/
structure Image where
  header : MachHeader64
  commands : List CommandImage
  rest : List UInt8

namespace Image

def write (I : Image) : List UInt8 :=
  I.header.write ++ (I.commands.flatMap CommandImage.write ++ I.rest)

def HasSection (I : Image) (name : Name) : Prop :=
  ∃ p ∈ I.commands.flatMap CommandImage.segments, cut p.1.segname = textSegment ∧
    ∃ s ∈ p.2, cut s.sectname = name

structure Valid (I : Image) : Prop where
  magic : I.header.magic = HWX_MACHO_MAGIC_64
  ncmds : I.header.ncmds.toNat = I.commands.length
  sizeofcmds : I.header.sizeofcmds.toNat = (I.commands.flatMap CommandImage.write).length
  commands : ∀ c ∈ I.commands, c.Valid I.write.length
  text : I.HasSection textSection
  const : I.HasSection constSection

/-- The tables of `file` hold what the image says, record by record and in its order. -/
structure Shown (I : Image) (file : HwxFile) : Prop where
  header : file.header = I.header
  fileSize : file.fileSize.toNat = I.write.length
  segments : List.Forall₂ (fun p s => ∃ block, s = HwxSegment.ofSegmentCommand64 p.1
      ⟨block, p.2.map HwxSection.ofSection64⟩)
    (I.commands.flatMap CommandImage.segments) file.segments.elems
  states : file.threadStates.elems.map StateImage.ofState = I.commands.flatMap CommandImage.states
  byteSize : ∀ s ∈ file.threadStates.elems, s.byteSize.toNat = s.data.elems.length
  tdVersion : file.tdVersion = hwxTdVersionForCpu (hwxCpuSubtype file)

end Image

section States
variable {m : Mem} {off remaining : Nat} {s : StateImage} {images images' : List StateImage}
  {tail tail' : List UInt8}

theorem StateImage.write_length (s : StateImage) : s.write.length = 8 + s.payload.length := by
  simp only [StateImage.write, List.length_append, toBytes_length, Nat.reduceAdd]

theorem StateImage.at_write : At m off s.write ↔
    u32 m off = s.flavor ∧ u32 m (off + 4) = s.count ∧ At m (off + 8) s.payload := by
  simp only [StateImage.write, at_append, at_u32, toBytes_length, List.length_append, and_assoc,
    Nat.reduceAdd]

/-- The payload of the first state is as long as its count and the command allow. -/
theorem StatesFit.payload (fit : StatesFit (s :: images) tail) : s.payload.length =
    min (4 * s.count.toNat) (((s :: images).flatMap StateImage.write ++ tail).length - 8) := by
  have first := fit.1
  simp only [List.flatMap_cons, List.length_append, s.write_length]
  obtain whole | ⟨short, rfl, rfl⟩ := first
  · omega
  · simp only [List.flatMap_nil, List.length_nil]
    omega

/-- The states read are the states written. -/
theorem ThreadStates.image {states : List HwxThreadState}
    (decoded : ThreadStates m off remaining states) (fit : StatesFit images tail)
    (at_ : At m off (images.flatMap StateImage.write ++ tail))
    (all : remaining = (images.flatMap StateImage.write ++ tail).length) :
    states.map StateImage.ofState = images ∧
      ∀ s ∈ states, s.byteSize.toNat = s.data.elems.length := by
  induction images generalizing off remaining states with
  | nil =>
    cases decoded with
    | done => simp
    | next header =>
      have short : tail.length < 8 := fit
      simp only [List.flatMap_nil, List.nil_append] at all
      omega
  | cons s images ih =>
    have length := s.write_length
    have payload := fit.payload
    rw [← all] at payload
    simp only [List.flatMap_cons, List.append_assoc] at at_ all
    rw [at_append, StateImage.at_write, length] at at_
    obtain ⟨⟨flavor, count, here⟩, later⟩ := at_
    rw [List.length_append, length] at all
    cases decoded with
    | done short => omega
    | @next _ _ first _ header state states =>
      have size := state.byteSize
      rw [count, ← payload] at size
      have data := state.data
      rw [size, here] at data
      rw [size, Nat.add_assoc] at states
      obtain ⟨same, sizes⟩ := ih states fit.2 later (by omega)
      refine ⟨?_, ?_⟩
      · rw [List.map_cons, same, StateImage.ofState, state.flavor, state.count, flavor, count, data]
      · rw [List.forall_mem_cons]
        exact ⟨by rw [size, data], sizes⟩

/-- Bytes can be read as states in one way only. -/
theorem StatesFit.unique (fit : StatesFit images tail) (fit' : StatesFit images' tail')
    (same : images.flatMap StateImage.write ++ tail = images'.flatMap StateImage.write ++ tail') :
    images = images' ∧ tail = tail' := by
  have length := congrArg List.length same
  induction images generalizing images' with
  | nil =>
    cases images' with
    | nil => exact ⟨rfl, same⟩
    | cons s' images' =>
      have short : tail.length < 8 := fit
      simp only [List.flatMap_nil, List.nil_append, List.flatMap_cons, List.length_append,
        s'.write_length] at length
      omega
  | cons s images ih =>
    cases images' with
    | nil =>
      have short : tail'.length < 8 := fit'
      simp only [List.flatMap_nil, List.nil_append, List.flatMap_cons, List.length_append,
        s.write_length] at length
      omega
    | cons s' images' =>
      have here := at_ofList ((s :: images).flatMap StateImage.write ++ tail)
      have here' : At (ofList ((s :: images).flatMap StateImage.write ++ tail)) 0
          ((s' :: images').flatMap StateImage.write ++ tail') := by
        rw [← same]
        exact here
      simp only [List.flatMap_cons, List.append_assoc] at here here' same
      obtain ⟨flavor, count, payload⟩ := StateImage.at_write.mp (at_append.mp here).1
      obtain ⟨flavor', count', payload'⟩ := StateImage.at_write.mp (at_append.mp here').1
      have sizes := fit'.payload
      rw [← length, ← count', count, ← fit.payload] at sizes
      have first : s = s' := by
        obtain ⟨⟩ := s
        obtain ⟨⟩ := s'
        rw [StateImage.mk.injEq]
        exact ⟨flavor.symm.trans flavor', count.symm.trans count', payload.unique payload' sizes.symm⟩
      rw [← first] at same
      have rest := List.append_cancel_left same
      obtain ⟨same, ends⟩ := ih fit.2 fit'.2 rest (congrArg List.length rest)
      exact ⟨by rw [first, same], ends⟩

/-- Every string of bytes can be read as states. -/
theorem exists_states (bytes : List UInt8) :
    ∃ images tail, StatesFit images tail ∧ images.flatMap StateImage.write ++ tail = bytes := by
  induction length : bytes.length using Nat.strongRecOn generalizing bytes with
  | ind n ih =>
    by_cases short : bytes.length < 8
    · exact ⟨[], bytes, short, rfl⟩
    -- the first state, with as much of its payload as there is
    let count := u32 (ofList bytes) 4
    let size := min (4 * count.toNat) (bytes.length - 8)
    let s : StateImage := ⟨u32 (ofList bytes) 0, count, slice (ofList bytes) 8 size⟩
    have payload : s.payload.length = size := slice_length
    have front : s.write = bytes.take (8 + size) := by
      have whole : At (ofList bytes) 0 s.write := StateImage.at_write.mpr ⟨rfl, rfl, at_slice _ _ _⟩
      rw [At, s.write_length, payload, ofList_slice bytes (by omega), List.drop_zero] at whole
      exact whole.symm
    obtain ⟨images, tail, fit, rest⟩ := ih _ (by rw [List.length_drop]; omega)
      (bytes.drop (8 + size)) rfl
    refine ⟨s :: images, tail, ⟨?_, fit⟩, ?_⟩
    · by_cases whole : size = 4 * count.toNat
      · exact .inl (payload.trans whole)
      · have none_left : bytes.drop (8 + size) = [] := List.drop_eq_nil_of_le (by omega)
        rw [none_left, List.append_eq_nil_iff] at rest
        have less : size < 4 * count.toNat := by omega
        refine .inr ⟨payload ▸ less, ?_, rest.2⟩
        cases images with
        | nil => rfl
        | cons s' _ =>
          have length := congrArg List.length rest.1
          simp only [List.flatMap_cons, List.length_append, s'.write_length, List.length_nil]
            at length
          omega
    · rw [List.flatMap_cons, List.append_assoc, rest, front, List.take_append_drop]

end States

section Commands
variable {m : Mem} {off len n left : Nat} {c c' : CommandImage}

theorem sectionAt_eq_read (m : Mem) (off n : Nat) :
    (List.range n).map (sectionAt m off) = Section64.record.readAll m (off + 72) n := by
  apply List.map_congr_left
  intro i _
  rw [sectionAt, ← Nat.add_assoc]
  rfl

/-- A segment command stands where its records are read. -/
theorem at_segment {record : SegmentCommand64} {sections : List Section64} {tail : List UInt8}
    (typeOk : CommandImage.TypeOk len (.segment record sections tail)) :
    At m off (CommandImage.write (.segment record sections tail)) ↔
      segmentAt m off = record ∧ (List.range sections.length).map (sectionAt m off) = sections ∧
        At m (off + 72 + 80 * sections.length) tail := by
  obtain ⟨-, name, -, -, all⟩ := typeOk
  have good : ∀ s ∈ sections, Section64.record.Good s := fun s mem => (all s mem).1
  have first := SegmentCommand64.record.placed m off record name
  have second : At m (off + 72) (sections.flatMap Section64.write) ↔
      Section64.record.readAll m (off + 72) sections.length = sections :=
    Section64.record.at_flatMap good
  have length : record.write.length = 72 := SegmentCommand64.record.length record name
  have lengths : (sections.flatMap Section64.write).length = 80 * sections.length :=
    Section64.record.flatMap_length good
  rw [CommandImage.write, at_append, at_append, length, lengths, sectionAt_eq_read]
  exact and_congr first (and_congr second Iff.rfl)

theorem at_loadCommand {record : LoadCommand} {bytes : List UInt8} :
    At m off (record.write ++ bytes) ↔ commandAt m off = record ∧ At m (off + 8) bytes := by
  rw [at_append, record.write_length]
  exact and_congr (LoadCommand.record.placed m off record trivial) Iff.rfl

theorem at_start (typeOk : c.TypeOk len) (at_ : At m off c.write) : commandAt m off = c.start := by
  cases c with
  | segment record sections tail =>
    rw [CommandImage.start, ← ((at_segment typeOk).mp at_).1]
    rfl
  | thread record states tail => exact (at_loadCommand.mp at_).1
  | other record body => exact (at_loadCommand.mp at_).1

theorem CommandImage.Valid.cmdsizeAt (valid : c.Valid len) (at_ : At m off c.write) :
    cmdsizeAt m off = c.write.length := by
  rw [Hwx.cmdsizeAt, at_start valid.typeOk at_, valid.size]

theorem CommandImage.TypeOk.write_length {record : SegmentCommand64} {sections : List Section64}
    {tail : List UInt8} (typeOk : TypeOk len (.segment record sections tail)) :
    (segment record sections tail).write.length = 72 + 80 * sections.length + tail.length := by
  have length : record.write.length = 72 := SegmentCommand64.record.length record typeOk.2.1
  have lengths : (sections.flatMap Section64.write).length = 80 * sections.length :=
    Section64.record.flatMap_length fun s mem => (typeOk.2.2.2.2 s mem).1
  rw [write, List.length_append, List.length_append, length, lengths, Nat.add_assoc]

/-- Whether a command that stands at an address is a segment or a thread is as it says. -/
theorem CommandImage.TypeOk.kind (typeOk : c.TypeOk len) (at_ : At m off c.write) :
    (isSegment m off = true ↔ c.segments ≠ []) ∧ (isThread m off = true ↔ c.states ≠ []) := by
  have start := at_start typeOk at_
  cases c with
  | segment record sections tail =>
    simp [isSegment, isThread, start, CommandImage.start, typeOk.1, segments, states,
      HWX_LOAD_COMMAND_SEGMENT_64, HWX_LOAD_COMMAND_THREAD]
  | thread record states tail =>
    simp [isSegment, isThread, start, CommandImage.start, typeOk.1, segments, CommandImage.states,
      HWX_LOAD_COMMAND_SEGMENT_64, HWX_LOAD_COMMAND_THREAD, typeOk.2.1]
  | other record body =>
    simp [isSegment, isThread, start, CommandImage.start, typeOk.1, typeOk.2, segments, states]

/-- A command that stands at an address meets the demands on what is read there. -/
theorem CommandImage.Valid.commandOk (valid : c.Valid len) (at_ : At m off c.write) :
    CommandOk m len off := by
  have size := valid.cmdsizeAt at_
  have typeOk := valid.typeOk
  have kind := typeOk.kind at_
  refine ⟨fun segment => ?_, fun thread => ?_⟩
  · cases c with
    | segment record sections tail =>
      obtain ⟨read, elems, -⟩ := (at_segment typeOk).mp at_
      have nsects : nsectsAt m off = sections.length := by rw [nsectsAt, read, typeOk.2.2.1]
      refine ⟨?_, ?_, ?_⟩
      · rw [size, nsects, typeOk.write_length]
        exact Nat.le_add_right _ _
      · rw [read]
        exact typeOk.2.2.2.1
      · intro i below
        rw [nsects] at below
        have mem : sectionAt m off i ∈ sections := by
          rw [← elems]
          exact List.mem_map_of_mem (List.mem_range.mpr below)
        exact (typeOk.2.2.2.2 _ mem).2
    | _ => exact absurd rfl (kind.1.mp segment)
  · cases c with
    | thread record states tail =>
      cases states with
      | nil => exact absurd rfl (kind.2.mp thread)
      | cons s states =>
        simp only [size, CommandImage.write, List.flatMap_cons, List.length_append,
          record.write_length, s.write_length]
        omega
    | _ => exact absurd rfl (kind.2.mp thread)

end Commands

end Ane.Hwx
