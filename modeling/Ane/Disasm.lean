import Ane.HwxLedger
import Ane.HwxLookup
import Ane.HwxReads

/-! The disassembler: how `main` picks the section it dumps. What it prints on the way and the
dumpers themselves are left out; the two loops that print the tables are kept for the section
they pick. -/
namespace Ane.Disasm
open Memory Posix Hwx

/-- The dumper that is called, with its section. -/
inductive Dump
  | tdV5 (tdSection : SectionPtr)
  | tdV11 (tdSection : SectionPtr)
  | unsupported (version : UInt32)
  | noSection
deriving DecidableEq

inductive Outcome
  | usage
  | notLoaded
  | dumped (dump : Dump)
deriving DecidableEq

/-- The loop over the sections of segment number `i` from number `j` on. -/
def sectionScan (segment : HwxSegment) (i : Nat) :
    Nat → List HwxSection → Option SectionPtr → Option SectionPtr
  | _, [], tdSection => tdSection
  | j, s :: rest, tdSection =>
    if tdSection = none ∧ segment.name = textSegment ∧ s.sectionName = textSection then
      sectionScan segment i (j + 1) rest (some ⟨i, j, s⟩)
    else sectionScan segment i (j + 1) rest tdSection

/-- The loop over the segments from number `i` on. -/
def segmentScan : Nat → List HwxSegment → Option SectionPtr → Option SectionPtr
  | _, [], tdSection => tdSection
  | i, segment :: rest, tdSection =>
    segmentScan (i + 1) rest (sectionScan segment i 0 segment.sections.elems tdSection)

def tdSection (file : HwxFile) : Option SectionPtr := segmentScan 0 file.segments.elems none

def selectDump (file : HwxFile) : Dump :=
  match tdSection file with
  | none => .noSection
  | some ptr =>
    if file.tdVersion = 5 then .tdV5 ptr
    else if file.tdVersion = 7 then .tdV5 ptr
    else if file.tdVersion = 11 then .tdV11 ptr
    else .unsupported file.tdVersion

/-- An open file has a header, so the check after `hwxHeader` always passes. -/
def main (env : Env) (path : Option String) (p : Process) : Outcome × Process :=
  match path with
  | none => (.usage, p)
  | some path =>
    match hwxOpen env (some path) p with
    | (none, p) => (.notLoaded, p)
    | (some file, p) => (.dumped (selectDump file), hwxClose (some file) p)

variable {env : Env} {file : HwxFile} {segment : HwxSegment} {segments : List HwxSegment}
  {elems : List HwxSection} {i j : Nat}

/-- Behind the first hit the loops change nothing. -/
theorem sectionScan_some (ptr : SectionPtr) : sectionScan segment i j elems (some ptr) = some ptr := by
  induction elems generalizing j with
  | nil => rfl
  | cons s rest ih => simp only [sectionScan, reduceCtorEq, false_and, if_false, ih]

theorem segmentScan_some (ptr : SectionPtr) : segmentScan i segments (some ptr) = some ptr := by
  induction segments generalizing i with
  | nil => rfl
  | cons segment rest ih => simp only [segmentScan, sectionScan_some, ih]

theorem sectionScan_text (text : segment.name = textSegment) :
    sectionScan segment i j elems none = sectionInSegment textSection i j elems := by
  induction elems generalizing j with
  | nil => rfl
  | cons s rest ih =>
    simp only [sectionScan, sectionInSegment, text, true_and]
    split
    · exact sectionScan_some _
    · exact ih

theorem sectionScan_other (other : segment.name ≠ textSegment) :
    sectionScan segment i j elems none = none := by
  induction elems generalizing j with
  | nil => rfl
  | cons s rest ih => simp only [sectionScan, other, false_and, and_false, if_false, ih]

/-- The scan that keeps going picks what the search with an early return finds. -/
theorem segmentScan_eq : segmentScan i segments none =
    sectionInSegments (some textSegment) textSection i segments := by
  induction segments generalizing i with
  | nil => rfl
  | cons segment rest ih =>
    have named : textSegment ≠ [] := by decide
    simp only [segmentScan, sectionInSegments, Option.mem_some_iff, exists_eq_left', ne_eq, named,
      not_false_eq_true, true_and]
    by_cases text : segment.name = textSegment
    · rw [sectionScan_text text, if_neg (not_not.mpr text)]
      cases sectionInSegment textSection i 0 segment.sections.elems with
      | none => exact ih
      | some ptr => exact segmentScan_some ptr
    · rw [sectionScan_other text, if_pos text]
      exact ih

theorem tdSection_eq (file : HwxFile) (p : Process) :
    tdSection file = (hwxGetTskSection (some file) p).1 := segmentScan_eq

/-- The two searches of an open file: by name libane finds the first section in file order, or
null if there is none; and what the disassembler picks is the task section, which is there. -/
theorem lookups_agree {path : Option String} {p : Process}
    (opened : (hwxOpen env path p).1 = some file) (q : Process) :
    (∀ segmentName sectionName,
      (∀ ptr ∈ (hwxSectionByName (some file) segmentName (some sectionName) q).1,
        file.FirstNamed segmentName sectionName ptr) ∧
      ((hwxSectionByName (some file) segmentName (some sectionName) q).1 = none ↔
        ∀ ptr, ¬ file.Named segmentName sectionName ptr)) ∧
    ∃ ptr, tdSection file = some ptr ∧ (hwxGetTskSection (some file) q).1 = some ptr := by
  refine ⟨fun segmentName sectionName => hwxSectionByName_first file segmentName sectionName q, ?_⟩
  obtain ⟨ptr, found⟩ := (hwxOpen_sections opened).1
  exact ⟨ptr, (tdSection_eq file q).trans found, found⟩

/-- A section that is there, a name that is not, and the task section. -/
theorem lookups_agree_smallFile :
    (∃ ptr, (hwxSectionByName (some smallFile) none (some constSection) .fresh).1 = some ptr ∧
      ptr.target = smallConst ∧ smallFile.FirstNamed none constSection ptr) ∧
    (∀ ptr, ¬ smallFile.Named none [1] ptr) ∧
    ∃ ptr, tdSection smallFile = some ptr ∧
      (hwxGetTskSection (some smallFile) .fresh).1 = some ptr := by
  have agree := lookups_agree smallFile_opened .fresh
  have found : (hwxSectionByName (some smallFile) none (some constSection) .fresh).1.map
      SectionPtr.target = some smallConst := by
    decide +kernel
  have missing : (hwxSectionByName (some smallFile) none (some [1]) .fresh).1 = none := by
    decide +kernel
  obtain ⟨ptr, at_, target⟩ := Option.map_eq_some_iff.mp found
  exact ⟨⟨ptr, at_, target, (agree.1 none constSection).1 ptr at_⟩,
    (agree.1 none [1]).2.mp missing, agree.2⟩

theorem selectDump_ne_noSection {path : Option String} {p : Process}
    (opened : (hwxOpen env path p).1 = some file) : selectDump file ≠ .noSection := by
  obtain ⟨ptr, found⟩ := (hwxOpen_sections opened).1
  have picked : tdSection file = some ptr := (tdSection_eq file p).trans found
  simp only [selectDump, picked]
  split_ifs <;> exact nofun

/-- `main` never misses the section of a file it could load, and gives back what it took. -/
theorem main_dumps (env : Env) (path : String) (p : Process) :
    (main env (some path) p).1 ≠ .dumped .noSection ∧ p.Holds (main env (some path) p).2 [] [] := by
  have ledger := hwxOpen_holds env (some path) (Process.Holds.refl p)
  simp only [main]
  generalize result : hwxOpen env (some path) p = r at ledger
  obtain ⟨opened, q⟩ := r
  cases opened with
  | none => exact ⟨nofun, ledger.null rfl⟩
  | some file =>
    obtain ⟨sound, held⟩ := ledger.file file rfl
    have picked : selectDump file ≠ .noSection := selectDump_ne_noSection (congrArg Prod.fst result)
    refine ⟨?_, hwxClose_holds sound held⟩
    simpa using picked

end Ane.Disasm
