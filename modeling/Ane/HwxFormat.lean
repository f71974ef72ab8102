import Ane.HwxPread
import Mathlib.Data.List.Forall2

/-! What an HWX container is, over the natural numbers and without reference to how it is
read: a header, `ncmds` load commands that take `sizeofcmds` bytes together, and the
records inside them. `c` is the file as a memory; its length is a bound beside it. -/
namespace Ane.Hwx
open Memory Posix

section Format

variable (c : Mem)

def header : MachHeader64 := MachHeader64.read c 0

def commandAt (off : Nat) : LoadCommand := LoadCommand.read c off

def cmdsizeAt (off : Nat) : Nat := (commandAt c off).cmdsize.toNat

def segmentAt (off : Nat) : SegmentCommand64 := SegmentCommand64.read c off

def nsectsAt (off : Nat) : Nat := (segmentAt c off).nsects.toNat

def sectionAt (off i : Nat) : Section64 := Section64.read c (off + (72 + 80 * i))

def isSegment (off : Nat) : Bool := (commandAt c off).cmd = HWX_LOAD_COMMAND_SEGMENT_64

def isThread (off : Nat) : Bool := (commandAt c off).cmd = HWX_LOAD_COMMAND_THREAD

/-- A name field up to its first NUL. -/
def cut (field : Name) : Name := field.takeWhile (· ≠ 0)

/-- From `off`, `n` commands at the listed offsets take exactly `left` bytes. -/
inductive Walk : Nat → Nat → Nat → List Nat → Prop
  | done (off : Nat) : Walk off 0 0 []
  | next {off n left : Nat} {offs : List Nat} (header : 8 ≤ cmdsizeAt c off)
      (fits : cmdsizeAt c off ≤ left)
      (rest : Walk (off + cmdsizeAt c off) n (left - cmdsizeAt c off) offs) :
      Walk off (n + 1) left (off :: offs)

structure HeaderOk (len : Nat) : Prop where
  whole : 32 ≤ len
  magic : (header c).magic = HWX_MACHO_MAGIC_64
  commands : 32 + (header c).sizeofcmds.toNat ≤ len

structure SectionOk (len : Nat) (src : Section64) : Prop where
  range : src.size ≠ 0 → src.offset.toNat + src.size.toNat ≤ len

structure SegmentOk (len off : Nat) : Prop where
  cmdsize : 72 + 80 * nsectsAt c off ≤ cmdsizeAt c off
  range : (segmentAt c off).fileoff.toNat + (segmentAt c off).filesize.toNat ≤ len
  sections : ∀ i < nsectsAt c off, SectionOk len (sectionAt c off i)

/-- The demands on a command, by its type. -/
structure CommandOk (len off : Nat) : Prop where
  segment : isSegment c off = true → SegmentOk c len off
  thread : isThread c off = true → 16 ≤ cmdsizeAt c off

def HasSection (offs : List Nat) (name : Name) : Prop :=
  ∃ off ∈ offs, isSegment c off = true ∧ cut (segmentAt c off).segname = textSegment ∧
    ∃ i < nsectsAt c off, cut (sectionAt c off i).sectname = name

/-- What the reader is to accept: a file of `len` bytes with commands at `offs`. -/
structure WellFormed (len : Nat) (offs : List Nat) : Prop where
  start : HeaderOk c len
  walk : Walk c 32 (header c).ncmds.toNat (header c).sizeofcmds.toNat offs
  commands : ∀ off ∈ offs, CommandOk c len off
  text : HasSection c offs textSection
  const : HasSection c offs constSection

structure SectionDecoded (src : Section64) (s : HwxSection) : Prop where
  segmentName : s.segmentName = cut src.segname
  sectionName : s.sectionName = cut src.sectname
  addr : s.addr = src.addr
  size : s.size = src.size
  offset : s.offset = src.offset
  align : s.align = src.align
  reloff : s.reloff = src.reloff
  nreloc : s.nreloc = src.nreloc
  flags : s.flags = src.flags
  reserved1 : s.reserved1 = src.reserved1
  reserved2 : s.reserved2 = src.reserved2
  reserved3 : s.reserved3 = src.reserved3

structure SegmentDecoded (off : Nat) (s : HwxSegment) : Prop where
  name : s.name = cut (segmentAt c off).segname
  vmaddr : s.vmaddr = (segmentAt c off).vmaddr
  vmsize : s.vmsize = (segmentAt c off).vmsize
  fileoff : s.fileoff = (segmentAt c off).fileoff
  filesize : s.filesize = (segmentAt c off).filesize
  maxprot : s.maxprot = (segmentAt c off).maxprot
  initprot : s.initprot = (segmentAt c off).initprot
  flags : s.flags = (segmentAt c off).flags
  sections : List.Forall₂ (fun i => SectionDecoded (sectionAt c off i))
    (List.range (nsectsAt c off)) s.sections.elems

/-- The state `s` at `off`, with `remaining` bytes of its command from there. A payload cut
short by the end of the command is kept as far as it goes. -/
structure ThreadStateDecoded (off remaining : Nat) (s : HwxThreadState) : Prop where
  flavor : s.flavor = u32 c off
  count : s.count = u32 c (off + 4)
  byteSize : s.byteSize.toNat = min (4 * (u32 c (off + 4)).toNat) (remaining - 8)
  data : s.data.elems = slice c (off + 8) s.byteSize.toNat

/-- The states in the `remaining` bytes from `off`; fewer than 8 are ignored. -/
inductive ThreadStates : Nat → Nat → List HwxThreadState → Prop
  | done {off remaining : Nat} (short : remaining < 8) : ThreadStates off remaining []
  | next {off remaining : Nat} {s : HwxThreadState} {rest : List HwxThreadState}
      (header : 8 ≤ remaining) (state : ThreadStateDecoded c off remaining s)
      (states : ThreadStates (off + 8 + s.byteSize.toNat) (remaining - 8 - s.byteSize.toNat) rest) :
      ThreadStates off remaining (s :: rest)

/-- The tables hold what the commands at `offs` say, in their order: a segment for each
segment command, the states of each thread command, nothing for any other. -/
structure Decoded (offs : List Nat) (segments : List HwxSegment)
    (threadStates : List HwxThreadState) : Prop where
  segments : List.Forall₂ (SegmentDecoded c) (offs.filter (isSegment c)) segments
  threadStates : ∃ parts, threadStates = parts.flatten ∧
    List.Forall₂ (fun off => ThreadStates c (off + 8) (cmdsizeAt c off - 8))
      (offs.filter (isThread c)) parts

end Format

/-- The offsets are determined by the file. -/
theorem Walk.unique {c : Mem} {off n left : Nat} {offs offs' : List Nat}
    (walk : Walk c off n left offs) (walk' : Walk c off n left offs') : offs = offs' := by
  induction walk generalizing offs' with
  | done => cases walk' with
    | done => rfl
  | next _ _ _ ih => cases walk' with
    | next _ _ rest => rw [ih rest]

theorem trimLen_eq (src : Name) : trimLen src = (cut src).length := by
  induction src with
  | nil => rfl
  | cons ch rest ih =>
    by_cases nul : ch = 0
    · simp [trimLen, cut, nul]
    · simp only [cut] at ih
      simp [trimLen, cut, nul, ih]

theorem hwxTrimName_eq (src : Name) : hwxTrimName src = cut src := by
  rw [hwxTrimName, trimLen_eq]
  exact (List.prefix_iff_eq_take.mp (List.takeWhile_prefix _)).symm

variable {m m' : Mem} {off off' n : Nat}

theorem header_eq (same : SameBytes 32 m 0 m' 0) : header m = header m' := by
  have word (k : Nat) (h : k + 4 ≤ 32) := same.u32 k h
  simp only [Nat.zero_add] at word
  simp only [header, MachHeader64.read, Nat.zero_add]
  congr 1 <;> apply word <;> omega

theorem commandAt_eq (same : SameBytes n m off m' off') (h : 8 ≤ n) :
    commandAt m off = commandAt m' off' := by
  have word (k : Nat) (h : k + 4 ≤ 8) := same.u32 k (by omega : k + 4 ≤ n)
  simp only [commandAt, LoadCommand.read, word 4, Nat.le_refl]
  exact congrArg (LoadCommand.mk · _) (word 0 (by omega))

theorem segmentAt_eq (same : SameBytes n m off m' off') (h : 72 ≤ n) :
    segmentAt m off = segmentAt m' off' := by
  have word (k : Nat) (h : k + 4 ≤ 72) := same.u32 k (by omega : k + 4 ≤ n)
  have wide (k : Nat) (h : k + 8 ≤ 72) := same.u64 k (by omega : k + 8 ≤ n)
  have name := same.slice 8 16 (by omega)
  have first := word 0 (by omega)
  simp only [Nat.add_zero] at first
  simp only [segmentAt, SegmentCommand64.read, first, name, word 4, word 56, word 60, word 64,
    word 68, wide 24, wide 32, wide 40, wide 48, Nat.reduceAdd, Nat.reduceLeDiff]

theorem sectionAt_eq (same : SameBytes n m off m' off') {i : Nat} (h : 72 + 80 * (i + 1) ≤ n) :
    sectionAt m off i = sectionAt m' off' i := by
  have record := same.sub (72 + 80 * i) (by omega : 72 + 80 * i + 80 ≤ n)
  have word (k : Nat) (h : k + 4 ≤ 80) := record.u32 k h
  have wide (k : Nat) (h : k + 8 ≤ 80) := record.u64 k h
  have segname := record.slice 16 16 (by omega)
  have sectname := record.slice 0 16 (by omega)
  simp only [Nat.add_zero] at sectname
  simp only [sectionAt, Section64.read, segname, sectname, word 48, word 52, word 56, word 60,
    word 64, word 68, word 72, word 76, wide 32, wide 40, Nat.reduceAdd, Nat.reduceLeDiff]

end Ane.Hwx
