import Ane.PosixLedger
import Ane.HwxPread

/-! The blocks and descriptors of `hwxOpen` and `hwxClose`. At every exit the process holds
what the tables built so far own, beside the file object and its descriptor. -/
namespace Ane.Hwx
open Memory Posix Process

variable {env : Env} {base p p' : Process} {blocks : List BlockId} {fds : List Fd}
  {buf : Mem} {size : Nat} {fileSize offset : UInt64} {parsed parsed' : Parsed}

theorem hwxPreadExact_holds (env : Env) (holds : base.Holds p blocks fds) (dst : Mem) (size : Nat)
    (offset : UInt64) : base.Holds (hwxPreadExact env dst size offset p).proc blocks fds := by
  obtain ⟨e, k, after⟩ := hwxPreadExact_proc env dst size offset p
  rw [after]
  exact holds.congr rfl rfl rfl rfl

section Tables

/-- The block of an array and those its elements point to. -/
def HeapArray.owned {α : Type} (inner : α → Option BlockId) (table : HeapArray α) :
    List BlockId :=
  table.elems.flatMap (fun a => (inner a).toList) ++ table.block.toList

def Parsed.owned (parsed : Parsed) : List BlockId :=
  parsed.segments.owned (·.sections.block) ++ parsed.threadStates.owned (·.data.block)

/-- A null table is empty, and a thread state has a block exactly for a payload. -/
structure Parsed.Sound (parsed : Parsed) : Prop where
  segments : parsed.segments.block = none → parsed.segments.elems = []
  threadStates : parsed.threadStates.block = none → parsed.threadStates.elems = []
  data : ∀ s ∈ parsed.threadStates.elems, s.data.block.isSome = true ↔ 0 < s.byteSize.toNat

theorem Parsed.Sound.empty : Parsed.Sound ⟨.null, .null⟩ where
  segments _ := rfl
  threadStates _ := rfl
  data _ mem := absurd mem (List.not_mem_nil)

/-- Freeing a table gives back the blocks it owns. -/
theorem freeTable_holds {α : Type} {inner : α → Option BlockId} {table : HeapArray α}
    (null : table.block = none → table.elems = [])
    (holds : base.Holds p (table.owned inner ++ blocks) fds) :
    base.Holds (if table.block = none then p
      else (table.elems.foldl (fun p a => p.free (inner a)) p).free table.block) blocks fds := by
  split
  · rename_i none
    simpa [HeapArray.owned, none, null none] using holds
  · rw [HeapArray.owned, List.append_assoc] at holds
    exact (holds.freeAll inner).freeOption

theorem hwxFreeSegments_holds {segments : HeapArray HwxSegment}
    (null : segments.block = none → segments.elems = [])
    (holds : base.Holds p (segments.owned (·.sections.block) ++ blocks) fds) :
    base.Holds (hwxFreeSegments segments p) blocks fds :=
  freeTable_holds null holds

theorem hwxFreeThreadStates_holds {states : HeapArray HwxThreadState}
    (null : states.block = none → states.elems = [])
    (holds : base.Holds p (states.owned (·.data.block) ++ blocks) fds) :
    base.Holds (hwxFreeThreadStates states p) blocks fds :=
  freeTable_holds null holds

/-- A grown table owns what the old one owned, with the new block in place of the old, and
what the new element points to. -/
theorem HeapArray.owned_push {α : Type} (inner : α → Option BlockId) (table : HeapArray α)
    (b : BlockId) (a : α) :
    (HeapArray.mk (some b) (table.elems ++ [a])).owned inner =
      table.elems.flatMap (fun a => (inner a).toList) ++ ((inner a).toList ++ [b]) := by
  simp [HeapArray.owned]

end Tables

/-- Where control goes, the tables are sound and the process holds what they own, beside
`blocks` and `fds`. -/
structure Flow.Holds (base : Process) (blocks : List BlockId) (fds : List Fd) (flow : Flow) :
    Prop where
  sound : flow.parsed.Sound
  holds : base.Holds flow.proc (flow.parsed.owned ++ blocks) fds

section Segments

theorem sectionLoop_holds {n i : Nat} {elems : Option (List HwxSection)}
    (holds : base.Holds p blocks fds)
    (h : sectionLoop fileSize buf size n i p = (elems, p')) : base.Holds p' blocks fds := by
  induction n generalizing i p elems with
  | zero =>
    cases h
    exact holds
  | succ n ih =>
    simp only [sectionLoop] at h
    split at h
    · cases h
      exact holds.note
    · split at h <;>
      · rename_i tail
        cases h
        exact ih holds.note tail

/-- Without a section array the buffer has been given back as well. -/
theorem segmentSections_holds {buffer : BlockId} {sectionCount : UInt32}
    {sections : Option (HeapArray HwxSection)} (holds : base.Holds p (buffer :: blocks) fds)
    (h : segmentSections env fileSize buffer buf size sectionCount p = (sections, p')) :
    (sections = none → base.Holds p' blocks fds) ∧
      ∀ s ∈ sections, base.Holds p' (s.block.toList ++ buffer :: blocks) fds := by
  simp only [segmentSections] at h
  split at h
  · split at h
    · rename_i refused
      cases h
      exact ⟨fun _ => (holds.malloc refused).free, nofun⟩
    · rename_i b p₁ granted
      have taken : base.Holds p₁ (b :: buffer :: blocks) fds := holds.malloc granted
      split at h
      · rename_i failed
        cases h
        have swapped := (sectionLoop_holds taken failed).perm (List.Perm.swap buffer b blocks)
        exact ⟨fun _ => swapped.free.free.setErrno, nofun⟩
      · rename_i done
        cases h
        refine ⟨nofun, ?_⟩
        rintro s ⟨⟩
        exact sectionLoop_holds taken done
  · cases h
    refine ⟨nofun, ?_⟩
    rintro s ⟨⟩
    exact holds

theorem segmentRecord_holds {lc : LoadCommand} {buffer : BlockId} (sound : parsed.Sound)
    (holds : base.Holds p (buffer :: (parsed.owned ++ blocks)) fds) :
    (segmentRecord env fileSize lc buffer buf parsed p).Holds base blocks fds := by
  simp only [segmentRecord]
  split
  · exact ⟨sound, holds.note.free.setErrno⟩
  split
  · exact ⟨sound, holds.note.note.free.setErrno⟩
  split
  · rename_i failed
    exact ⟨sound, (segmentSections_holds holds.note.note.note failed).1 rfl⟩
  rename_i sections p₁ made
  have taken := (segmentSections_holds holds.note.note.note made).2 sections rfl
  have sorted : base.Holds p₁ (parsed.segments.block.toList ++ (buffer :: (sections.block.toList ++
      (parsed.segments.elems.flatMap (fun s => s.sections.block.toList) ++
        (parsed.threadStates.owned (·.data.block) ++ blocks))))) fds := by
    apply taken.perm
    simp only [Parsed.owned, HeapArray.owned, List.perm_iff_count, List.count_append,
      List.count_cons]
    omega
  split
  · rename_i p₂ refused
    have kept := sorted.realloc refused
    refine ⟨sound, Holds.freeOption (Holds.free (kept.perm ?_))⟩
    simp only [Flow.parsed, Parsed.owned, HeapArray.owned, List.perm_iff_count, List.count_append,
      List.count_cons, Option.none_or]
    omega
  · rename_i block p₂ granted
    have grown := sorted.realloc granted
    refine ⟨⟨nofun, sound.threadStates, sound.data⟩, Holds.free (grown.perm ?_)⟩
    simp only [Flow.parsed, Parsed.owned, HeapArray.owned_push, HwxSegment.ofSegmentCommand64,
      List.perm_iff_count, List.count_append, List.count_cons, Option.some_or, Option.toList]
    omega

end Segments

section Threads

theorem threadStateData_holds {cursor n : Nat} {data : Option (HeapArray UInt8)}
    (holds : base.Holds p blocks fds)
    (h : threadStateData env buf size cursor n p = (data, p')) :
    (data = none → base.Holds p' blocks fds) ∧
      ∀ d ∈ data, base.Holds p' (d.block.toList ++ blocks) fds ∧
        (d.block.isSome = true ↔ 0 < n) := by
  simp only [threadStateData] at h
  split at h
  · rename_i some
    split at h
    · rename_i refused
      cases h
      exact ⟨fun _ => holds.malloc refused, nofun⟩
    · rename_i granted
      cases h
      refine ⟨nofun, ?_⟩
      rintro d ⟨⟩
      exact ⟨(holds.malloc granted).note, by simpa using some⟩
  · rename_i empty
    cases h
    refine ⟨nofun, ?_⟩
    rintro d ⟨⟩
    exact ⟨holds, by simpa [HeapArray.null] using empty⟩

theorem threadStateLoop_holds {fuel cursor remaining : Nat} {buffer : BlockId}
    (sound : parsed.Sound) (holds : base.Holds p (buffer :: (parsed.owned ++ blocks)) fds) :
    (threadStateLoop env buffer buf size fuel cursor remaining parsed p).Holds base blocks fds := by
  induction fuel generalizing cursor remaining parsed p with
  | zero => exact ⟨sound, holds.free⟩
  | succ fuel ih =>
    simp only [threadStateLoop]
    split
    · split
      · exact ⟨sound, holds.note.free.setErrno⟩
      generalize taken : min (min _ (remaining - 8)) _ = byteCount
      have small := byteCount_toNat taken
      split
      · rename_i refused
        exact ⟨sound, ((threadStateData_holds holds.note refused).1 rfl).free⟩
      rename_i data p₁ copied
      obtain ⟨taken, block⟩ := (threadStateData_holds holds.note copied).2 data rfl
      have sorted : base.Holds p₁ (parsed.threadStates.block.toList ++ (data.block.toList ++ (buffer ::
          (parsed.threadStates.elems.flatMap (fun s => s.data.block.toList) ++
            (parsed.segments.owned (·.sections.block) ++ blocks))))) fds := by
        apply taken.perm
        simp only [Parsed.owned, HeapArray.owned, List.perm_iff_count, List.count_append,
          List.count_cons]
        omega
      split
      · rename_i refused
        have kept := sorted.realloc refused
        refine ⟨sound, Holds.free (Holds.freeOption (kept.perm ?_))⟩
        simp only [Flow.parsed, Parsed.owned, HeapArray.owned, List.perm_iff_count,
          List.count_append, List.count_cons, Option.none_or]
        omega
      · rename_i granted
        have grown := sorted.realloc granted
        apply ih
        · refine ⟨sound.segments, nofun, ?_⟩
          simp only [List.forall_mem_append, List.forall_mem_singleton, small]
          exact ⟨sound.data, block⟩
        · apply grown.perm
          simp only [Parsed.owned, HeapArray.owned_push, List.perm_iff_count, List.count_append,
            List.count_cons, Option.some_or, Option.toList]
          omega
    · exact ⟨sound, holds.free⟩

end Threads

section Commands

theorem segmentCommand_holds {lc : LoadCommand} (sound : parsed.Sound)
    (holds : base.Holds p (parsed.owned ++ blocks) fds) :
    (segmentCommand env fileSize lc offset parsed p).Holds base blocks fds := by
  simp only [segmentCommand]
  split
  · rename_i refused
    exact ⟨sound, holds.malloc refused⟩
  · rename_i buffer p₁ granted
    have read := hwxPreadExact_holds env (holds.malloc granted) (env.heap buffer)
      lc.cmdsize.toNat offset
    split
    · exact segmentRecord_holds sound read
    · exact ⟨sound, read.free⟩

theorem threadCommand_holds {lc : LoadCommand} (sound : parsed.Sound)
    (holds : base.Holds p (parsed.owned ++ blocks) fds) :
    (threadCommand env lc offset parsed p).Holds base blocks fds := by
  simp only [threadCommand]
  split
  · exact ⟨sound, holds.setErrno⟩
  split
  · rename_i refused
    exact ⟨sound, holds.malloc refused⟩
  · rename_i buffer p₁ granted
    have read := hwxPreadExact_holds env (holds.malloc granted) (env.heap buffer)
      lc.cmdsize.toNat offset
    split
    · split
      · exact ⟨sound, read.free.setErrno⟩
      · exact threadStateLoop_holds sound read
    · exact ⟨sound, read.free⟩

theorem loadCommand_holds (lc : LoadCommand) (sound : parsed.Sound)
    (holds : base.Holds p (parsed.owned ++ blocks) fds) :
    (loadCommand env fileSize lc offset parsed p).Holds base blocks fds := by
  simp only [loadCommand]
  split
  · exact segmentCommand_holds sound holds
  split
  · exact threadCommand_holds sound holds
  · exact ⟨sound, holds⟩

theorem loadCommands_holds {n : Nat} {left : UInt64} (sound : parsed.Sound)
    (holds : base.Holds p (parsed.owned ++ blocks) fds) :
    (loadCommands env fileSize n offset left parsed p).Holds base blocks fds := by
  induction n generalizing offset left parsed p with
  | zero =>
    simp only [loadCommands]
    split
    · exact ⟨sound, holds.setErrno⟩
    · exact ⟨sound, holds⟩
  | succ n ih =>
    simp only [loadCommands]
    split
    · exact ⟨sound, holds.setErrno⟩
    have read := hwxPreadExact_holds env holds env.stack 8 offset
    split
    · split
      · exact ⟨sound, read.setErrno⟩
      generalize LoadCommand.read _ 0 = lc
      split
      · rename_i failed
        have step := failed ▸ loadCommand_holds lc sound read
        exact ⟨step.sound, step.holds⟩
      · rename_i done
        have step := done ▸ loadCommand_holds lc sound read
        exact ih step.sound step.holds
    · exact ⟨sound, read⟩

end Commands

section Files

/-- What a file object owns beside its descriptor. -/
def HwxFile.owned (file : HwxFile) : List BlockId :=
  Parsed.owned ⟨file.segments, file.threadStates⟩ ++ [file.block]

def HwxFile.Sound (file : HwxFile) : Prop := Parsed.Sound ⟨file.segments, file.threadStates⟩

theorem errorLabel_holds {fd : Fd} {file : BlockId} (sound : parsed.Sound)
    (holds : base.Holds p (parsed.owned ++ file :: blocks) (fd :: fds)) :
    base.Holds (errorLabel fd file parsed p) blocks fds := by
  apply Holds.free
  apply Holds.close
  apply hwxFreeSegments_holds sound.segments
  apply hwxFreeThreadStates_holds sound.threadStates
  apply holds.perm
  simp only [Parsed.owned, List.perm_iff_count, List.count_append]
  omega

/-- `hwxClose` gives back what the file object owns, and its descriptor. -/
theorem hwxClose_holds {file : HwxFile} (sound : file.Sound)
    (holds : base.Holds p (file.owned ++ blocks) (file.fd :: fds)) :
    base.Holds (hwxClose (some file) p) blocks fds := by
  apply Holds.free
  apply Holds.close
  apply hwxFreeThreadStates_holds sound.threadStates
  apply hwxFreeSegments_holds sound.segments
  apply holds.perm
  simp only [HwxFile.owned, Parsed.owned, List.append_assoc, List.singleton_append]
  exact .refl _

/-- What is held after `hwxOpen`: nothing new without a file, the file's with one. -/
structure OpenHolds (base : Process) (blocks : List BlockId) (fds : List Fd)
    (file : Option HwxFile) (p : Process) : Prop where
  null : file = none → base.Holds p blocks fds
  file : ∀ f ∈ file, f.Sound ∧ base.Holds p (f.owned ++ blocks) (f.fd :: fds)

theorem OpenHolds.none (holds : base.Holds p blocks fds) : OpenHolds base blocks fds none p :=
  ⟨fun _ => holds, nofun⟩

theorem openCommands_holds {fd : Fd} {header : MachHeader64} {block : BlockId}
    (holds : base.Holds p (block :: blocks) (fd :: fds)) :
    OpenHolds base blocks fds (openCommands env fd fileSize header block p).1
      (openCommands env fd fileSize header block p).2 := by
  have run : Flow.Holds base (block :: blocks) (fd :: fds) (loadCommands env fileSize
      header.ncmds.toNat 32 header.sizeofcmds.toUInt64 ⟨.null, .null⟩ p) :=
    loadCommands_holds .empty holds
  simp only [openCommands, hwxGetTskSection, hwxGetKrnSection, hwxSectionByName]
  split
  · rename_i failed
    rw [failed] at run
    exact .none (errorLabel_holds run.sound run.holds)
  · rename_i parsed p₁ done
    rw [done] at run
    have sound : parsed.Sound := run.sound
    have kept : base.Holds p₁ (parsed.owned ++ block :: blocks) (fd :: fds) := run.holds
    cases sectionInSegments (some textSegment) textSection 0 parsed.segments.elems with
    | none => exact .none (errorLabel_holds sound kept.setErrno)
    | some tsk =>
    cases sectionInSegments (some textSegment) constSection 0 parsed.segments.elems with
    | none => exact .none (errorLabel_holds sound kept.setErrno)
    | some krn =>
      refine ⟨nofun, ?_⟩
      rintro f ⟨⟩
      rw [HwxFile.owned, List.append_assoc]
      exact ⟨sound, kept⟩

theorem hwxOpen_holds (env : Env) (path : Option String) (holds : base.Holds p blocks fds) :
    OpenHolds base blocks fds (hwxOpen env path p).1 (hwxOpen env path p).2 := by
  simp only [hwxOpen]
  split
  · exact .none holds.setErrno
  split
  · rename_i refused
    exact .none (holds.openFile refused)
  rename_i fd p₁ opened
  have taken : base.Holds p₁ blocks (fd :: fds) := holds.openFile opened
  split
  · exact .none taken.setErrno.close
  split
  · simp only [openRegular]
    have read := hwxPreadExact_holds env taken env.stack 32 0
    split
    · split
      · exact .none read.close.setErrno
      split
      · exact .none read.close.setErrno
      split
      · rename_i refused
        exact .none (read.malloc refused).close
      · rename_i granted
        exact openCommands_holds (read.malloc granted)
    · exact .none read.close
  · exact .none taken.close.setErrno

/-- What is to hold of a call of `hwxOpen`, and of `hwxClose` right after it. -/
structure OpenLedger (env : Env) (path : Option String) (p : Process) : Prop where
  null : (hwxOpen env path p).1 = none → p.Holds (hwxOpen env path p).2 [] []
  file : ∀ file ∈ (hwxOpen env path p).1, p.Holds (hwxOpen env path p).2 file.owned [file.fd]
  closed : ∀ file ∈ (hwxOpen env path p).1,
    p.Holds (hwxClose (some file) (hwxOpen env path p).2) [] []

/-- Whatever the file is and whichever calls fail, everything taken is given back once, or it
is the file object's and given back with it. -/
theorem hwxOpen_ledger (env : Env) (path : Option String) (p : Process) : OpenLedger env path p := by
  have opened := hwxOpen_holds env path (Holds.refl p)
  have owned (file : HwxFile) (mem : file ∈ (hwxOpen env path p).1) :
      p.Holds (hwxOpen env path p).2 (file.owned ++ []) [file.fd] := (opened.file file mem).2
  refine ⟨opened.null, ?_, ?_⟩
  · intro file mem
    have held := owned file mem
    rwa [List.append_nil] at held
  · intro file mem
    exact hwxClose_holds (opened.file file mem).1 (owned file mem)

/-- Reading a section allocates nothing. -/
theorem hwxSectionRead_holds (file : Option HwxFile) (sec : Option HwxSection) (buffer : Option Mem)
    (size : UInt64) (holds : base.Holds p blocks fds) :
    base.Holds (hwxSectionRead env file sec offset buffer size p).proc blocks fds := by
  simp only [hwxSectionRead, readRange]
  split
  · exact holds.setErrno
  split
  · exact holds.setErrno
  split
  · exact holds
  split
  · exact holds.setErrno
  rename_i base' _ _ _ _ _
  have validated : base.Holds (hwxValidateRead file (base' + offset) size p).2 blocks fds := by
    simp only [hwxValidateRead]
    split
    · exact holds.setErrno
    split
    · exact holds.setErrno
    · exact holds
  split
  · rename_i refused
    rw [refused] at validated
    exact validated
  · rename_i accepted
    rw [accepted] at validated
    split
    · exact validated
    · exact hwxPreadExact_holds env validated _ _ _

end Files

end Ane.Hwx
