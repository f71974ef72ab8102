import Ane.HwxOpen

/-! The reads `hwxOpen` makes of the buffers that hold load commands. All of them stay in
the buffer except one: the number of sections of a segment command is read before the size
of the command is compared with that of its record. -/
namespace Ane.Hwx
open Memory Posix Process

variable {env : Env} {c buf : Mem} {len off size : Nat} {fileSize offset : UInt64}
  {parsed : Parsed} {p p' : Process}

theorem hwxPreadExact_bounded (env : Env) (bounded : p.Bounded) (dst : Mem) (size : Nat)
    (offset : UInt64) : (hwxPreadExact env dst size offset p).proc.Bounded := by
  obtain ⟨e, k, after⟩ := hwxPreadExact_proc env dst size offset p
  rw [after]
  exact bounded

section Segments

theorem sectionFields_le (dst : HwxSection) : ∀ f ∈ sectionFields dst, f.1 + f.2 ≤ 80 := by
  simp [sectionFields, nameField]
  omega

theorem segmentFields_le (name : Name) : ∀ f ∈ segmentFields name, f.1 + f.2 ≤ 72 := by
  simp [segmentFields, nameField]
  omega

theorem sectionLoop_bounded {n i : Nat} (fits : 72 + 80 * (i + n) ≤ size) (bounded : p.Bounded)
    {elems : Option (List HwxSection)} (h : sectionLoop fileSize buf size n i p = (elems, p')) :
    p'.Bounded := by
  induction n generalizing i p elems with
  | zero =>
    cases h
    exact bounded
  | succ n ih =>
    simp only [sectionLoop] at h
    generalize HwxSection.ofSection64 _ = dst at h
    have noted : (p.note size (72 + 80 * i) (sectionFields dst)).Bounded := by
      apply bounded.note
      intro f mem
      have inRecord := sectionFields_le dst f mem
      omega
    split at h
    · cases h
      exact noted
    · split at h <;>
      · rename_i tail
        cases h
        exact ih (by omega) noted tail

theorem segmentSections_bounded {buffer : BlockId} {sectionCount : UInt32}
    {sections : Option (HeapArray HwxSection)} (fits : 72 + 80 * sectionCount.toNat ≤ size)
    (bounded : p.Bounded)
    (h : segmentSections env fileSize buffer buf size sectionCount p = (sections, p')) :
    p'.Bounded := by
  simp only [segmentSections] at h
  split at h
  · split at h
    · rename_i refused
      cases h
      exact (bounded.malloc refused).free
    · rename_i granted
      have after := bounded.malloc granted
      split at h
      · rename_i failed
        cases h
        exact (sectionLoop_bounded (by simpa using fits) after failed).free.free.setErrno
      · rename_i done
        cases h
        exact sectionLoop_bounded (by simpa using fits) after done
  · cases h
    exact bounded

/-- From 68 bytes on, the number of sections lies in the command. -/
theorem segmentRecord_bounded {lc : LoadCommand} {buffer : BlockId}
    (large : 68 ≤ lc.cmdsize.toNat) (bounded : p.Bounded) :
    (segmentRecord env fileSize lc buffer buf parsed p).proc.Bounded := by
  simp only [segmentRecord]
  have noted : (p.note lc.cmdsize.toNat 0 [(64, 4)]).Bounded := by
    apply bounded.note
    simpa using large
  split
  · exact noted.free.setErrno
  rename_i enough
  rw [expected_iff, Nat.not_lt] at enough
  have noted : ((p.note lc.cmdsize.toNat 0 [(64, 4)]).note lc.cmdsize.toNat 0
      [(40, 8), (48, 8)]).Bounded := by
    apply noted.note
    simp
    omega
  have inRecord (name : Name) : ∀ f ∈ segmentFields name, 0 + f.1 + f.2 ≤ lc.cmdsize.toNat := by
    intro f mem
    have inRecord := segmentFields_le name f mem
    omega
  split
  · exact noted.free.setErrno
  split
  · rename_i failed
    exact segmentSections_bounded enough (noted.note (inRecord _)) failed
  · rename_i done
    have made := segmentSections_bounded enough (noted.note (inRecord _)) done
    split
    · rename_i refused
      exact (made.realloc refused).free.free
    · rename_i granted
      exact (made.realloc granted).free (b := some buffer)

/-- A shorter command is read past its end, and then refused. -/
theorem segmentRecord_short {lc : LoadCommand} {buffer : BlockId} (short : lc.cmdsize.toNat < 68) :
    ∃ p', segmentRecord env fileSize lc buffer buf parsed p = .gotoError parsed p' ∧
      ¬ p'.Bounded := by
  have small : lc.cmdsize.toUInt64 < 72 + (SegmentCommand64.read buf 0).nsects.toUInt64 * 80 := by
    rw [expected_iff]
    omega
  simp only [segmentRecord, if_pos small]
  refine ⟨_, rfl, ?_⟩
  intro bounded
  have kept : ((p.note lc.cmdsize.toNat 0 [(64, 4)]).free (some buffer)).reads =
      (p.note lc.cmdsize.toNat 0 [(64, 4)]).reads := Process.free_reads _ _
  simp only [Bounded, Process.setErrno, kept] at bounded
  have last : 64 + 4 ≤ lc.cmdsize.toNat := bounded ⟨_, 64, 4⟩ (by simp [Process.note])
  omega

/-- What happens to it once it is read from the file. -/
theorem segmentCommand_short (favourable : env.Favourable) (fileSize : UInt64) (parsed : Parsed)
    (p : Process) {lc : LoadCommand} (inside : offset.toNat + lc.cmdsize.toNat ≤ env.content.length)
    (short : lc.cmdsize.toNat < 68) :
    ∃ p', segmentCommand env fileSize lc offset parsed p = .gotoError parsed p' ∧
      ¬ p'.Bounded := by
  obtain ⟨buffer, p₁, granted⟩ := favourable.malloc p
  have read : (hwxPreadExact env (env.heap buffer) lc.cmdsize.toNat offset p₁).ok = true :=
    hwxPreadExact_ok favourable.reads inside
  simp only [segmentCommand, granted, read, if_true]
  exact segmentRecord_short short

end Segments

section Threads

theorem threadStateData_bounded {cursor n : Nat} {data : Option (HeapArray UInt8)}
    (fits : cursor + n ≤ size) (bounded : p.Bounded)
    (h : threadStateData env buf size cursor n p = (data, p')) : p'.Bounded := by
  simp only [threadStateData] at h
  split at h
  · split at h
    · rename_i refused
      cases h
      exact bounded.malloc refused
    · rename_i granted
      cases h
      apply (bounded.malloc granted).note
      simpa using fits
  · cases h
    exact bounded

theorem threadStateLoop_bounded {fuel cursor remaining : Nat} {buffer : BlockId}
    (ends : cursor + remaining ≤ size) (bounded : p.Bounded) :
    (threadStateLoop env buffer buf size fuel cursor remaining parsed p).proc.Bounded := by
  induction fuel generalizing cursor remaining parsed p with
  | zero => exact bounded.free (b := some buffer)
  | succ fuel ih =>
    simp only [threadStateLoop]
    split
    · have noted : (p.note size cursor [(0, 4), (4, 4)]).Bounded := by
        apply bounded.note
        simp
        omega
      split
      · exact noted.free.setErrno
      generalize taken : min (min _ (remaining - 8)) _ = byteCount
      have fits : cursor + 8 + byteCount ≤ size := by omega
      split
      · rename_i refused
        exact (threadStateData_bounded fits noted refused).free (b := some buffer)
      · rename_i copied
        have after := threadStateData_bounded fits noted copied
        split
        · rename_i refused
          exact (after.realloc refused).free.free (b := some buffer)
        · rename_i granted
          exact ih (by omega) (after.realloc granted)
    · exact bounded.free (b := some buffer)

end Threads

section Commands

theorem loadCommand_bounded {lc : LoadCommand}
    (large : lc.cmd = HWX_LOAD_COMMAND_SEGMENT_64 → 68 ≤ lc.cmdsize.toNat) (bounded : p.Bounded)
    {flow : Flow} (h : loadCommand env fileSize lc offset parsed p = flow) :
    flow.proc.Bounded := by
  simp only [← h, loadCommand]
  split
  · rename_i cmd
    simp only [segmentCommand]
    split
    · rename_i refused
      exact bounded.malloc refused
    · rename_i granted
      have read := hwxPreadExact_bounded env (bounded.malloc granted)
      split
      · exact segmentRecord_bounded (large cmd) (read _ _ _)
      · exact (read _ _ _).free (b := some _)
  · split
    · simp only [threadCommand]
      split
      · exact bounded.setErrno
      split
      · rename_i refused
        exact bounded.malloc refused
      · rename_i granted
        have read := hwxPreadExact_bounded env (bounded.malloc granted)
        split
        · split
          · exact (read _ _ _).free.setErrno
          · apply threadStateLoop_bounded _ (read _ _ _)
            omega
        · exact (read _ _ _).free (b := some _)
    · exact bounded

/-- In a walk from `off` the reader gets to the command at `off'`: the commands before it
are in order. -/
inductive Reached (c : Mem) (len : Nat) : Nat → Nat → Nat → Nat → Nat → Prop
  | here {n off left : Nat} : Reached c len (n + 1) off left off left
  | later {n off left off' left' : Nat} (header : 8 ≤ cmdsizeAt c off)
      (fits : cmdsizeAt c off ≤ left) (ok : CommandOk c len off)
      (rest : Reached c len n (off + cmdsizeAt c off) (left - cmdsizeAt c off) off' left') :
      Reached c len (n + 1) off left off' left'

/-- No segment command in `left` bytes that the reader gets to ends before its number of
sections does. -/
def NoShortSegment (c : Mem) (len n off left : Nat) : Prop :=
  ∀ off' left', Reached c len n off left off' left' → isSegment c off' = true →
    8 ≤ cmdsizeAt c off' → cmdsizeAt c off' ≤ left' → 68 ≤ cmdsizeAt c off'

theorem loadCommands_bounded (parsed : Parsed) (total : fileSize.toNat = env.content.length)
    {n : Nat}
    {left : UInt64} (inside : offset.toNat + left.toNat ≤ env.content.length)
    (long : NoShortSegment (ofList env.content) env.content.length n offset.toNat left.toNat)
    (bounded : p.Bounded) :
    (loadCommands env fileSize n offset left parsed p).proc.Bounded := by
  induction n generalizing offset left parsed p with
  | zero =>
    simp only [loadCommands]
    split
    · exact bounded.setErrno
    · exact bounded
  | succ n ih =>
    have read := hwxPreadExact_bounded env bounded env.stack 8 offset
    simp only [loadCommands]
    split
    · exact bounded.setErrno
    split
    · rename_i ok
      rw [readCommand ok]
      split
      · exact read.setErrno
      rename_i accepted
      rw [accepted_iff] at accepted
      have large (cmd : (commandAt (ofList env.content) offset.toNat).cmd =
          HWX_LOAD_COMMAND_SEGMENT_64) :
          68 ≤ (commandAt (ofList env.content) offset.toNat).cmdsize.toNat :=
        long _ _ .here (decide_eq_true cmd) accepted.1 accepted.2
      split
      · rename_i failed
        exact loadCommand_bounded large read failed
      · rename_i done
        have made := loadCommand_bounded large read done
        obtain ⟨next, rest⟩ := advance accepted.2 inside
        apply ih _ (by omega) _ made
        rw [next, rest]
        intro off' left' reached
        exact long off' left' (.later accepted.1 accepted.2 (loadCommand_next total rfl done).1 reached)
    · exact read

theorem loadCommands_short (favourable : env.Favourable) (parsed : Parsed) (p : Process)
    (total : fileSize.toNat = env.content.length) {n : Nat} {left : UInt64}
    (inside : offset.toNat + left.toNat ≤ env.content.length) {off' left' : Nat}
    (reached : Reached (ofList env.content) env.content.length n offset.toNat left.toNat off' left')
    (type : isSegment (ofList env.content) off' = true)
    (header : 8 ≤ cmdsizeAt (ofList env.content) off')
    (fits : cmdsizeAt (ofList env.content) off' ≤ left')
    (short : cmdsizeAt (ofList env.content) off' < 68) :
    ∃ parsed' p', loadCommands env fileSize n offset left parsed p = .gotoError parsed' p' ∧
      ¬ p'.Bounded := by
  induction n generalizing offset left parsed p with
  | zero => cases reached
  | succ n ih =>
    have first : 8 ≤ cmdsizeAt (ofList env.content) offset.toNat ∧
        cmdsizeAt (ofList env.content) offset.toNat ≤ left.toNat := by
      cases reached with
      | here => exact ⟨header, fits⟩
      | later header fits _ _ => exact ⟨header, fits⟩
    obtain ⟨some, read⟩ := commandHeader_read favourable p (by omega) inside
    have accepted := accepted_iff.mpr first
    simp only [loadCommands, if_neg some, read, if_true, readCommand read, if_neg accepted]
    generalize hleft : left.toNat = l at reached first
    cases reached with
    | here =>
      have cmd : (commandAt (ofList env.content) offset.toNat).cmd = HWX_LOAD_COMMAND_SEGMENT_64 :=
        of_decide_eq_true type
      have room : offset.toNat + (commandAt (ofList env.content) offset.toNat).cmdsize.toNat ≤
          env.content.length := by
        simp only [cmdsizeAt] at fits
        omega
      obtain ⟨p', refused, past⟩ := segmentCommand_short favourable fileSize parsed
        (hwxPreadExact env env.stack 8 offset p).proc room short
      simp only [loadCommand, if_pos cmd, refused]
      exact ⟨_, _, rfl, past⟩
    | later header' fits' ok rest =>
      subst hleft
      simp only [cmdsizeAt] at header' fits'
      obtain ⟨parsed₁, p₁, made⟩ := loadCommand_goesOn favourable parsed
        (hwxPreadExact env env.stack 8 offset p).proc total rfl (by omega) ok
      simp only [made]
      obtain ⟨next, left⟩ := advance fits' inside
      apply ih parsed₁ p₁ (by omega)
      rwa [next, left]

end Commands

theorem foldl_free_reads {α : Type} (block : α → Option BlockId) (elems : List α) (p : Process) :
    (elems.foldl (fun p s => p.free (block s)) p).reads = p.reads := by
  induction elems generalizing p with
  | nil => rfl
  | cons s rest ih => simp only [List.foldl_cons, ih, Process.free_reads]

theorem errorLabel_reads (fd : Fd) (block : BlockId) (parsed : Parsed) (p : Process) :
    (errorLabel fd block parsed p).reads = p.reads := by
  simp only [errorLabel, hwxFreeSegments, hwxFreeThreadStates, Process.free_reads,
    Process.close_reads]
  split <;> split <;> simp only [Process.free_reads, foldl_free_reads]

/-- The reads of the command buffers in a file of these bytes stay in the buffers, whatever
the environment answers. -/
def ReadsBounded (content : List UInt8) : Prop :=
  ∀ (env : Env) (path : Option String) (p : Process), env.content = content → p.Bounded →
    (hwxOpen env path p).2.Bounded

def NoShortCommand (content : List UInt8) : Prop :=
  HeaderOk (ofList content) content.length →
    NoShortSegment (ofList content) content.length (header (ofList content)).ncmds.toNat 32
      (header (ofList content)).sizeofcmds.toNat

theorem openCommands_bounded {fd : Fd} {block : BlockId} (total : fileSize.toNat = env.content.length)
    (start : HeaderOk (ofList env.content) env.content.length) (long : NoShortCommand env.content)
    (bounded : p.Bounded) :
    (openCommands env fd fileSize (header (ofList env.content)) block p).2.Bounded := by
  have room : (32 : UInt64).toNat + (header (ofList env.content)).sizeofcmds.toUInt64.toNat ≤
      env.content.length := by simpa using start.commands
  have run := loadCommands_bounded ⟨.null, .null⟩ total room
    (by simpa using long start) bounded
  simp only [openCommands, hwxGetTskSection, hwxGetKrnSection, hwxSectionByName]
  split
  · rename_i failed
    rw [failed] at run
    exact run.of_reads (errorLabel_reads _ _ _ _)
  · rename_i parsed p' done
    rw [done] at run
    have label : (errorLabel fd block parsed (p'.setErrno ENOENT)).Bounded :=
      run.setErrno.of_reads (errorLabel_reads _ _ _ _)
    cases sectionInSegments (some textSegment) textSection 0 parsed.segments.elems with
    | none => exact label
    | some tsk =>
      cases sectionInSegments (some textSegment) constSection 0 parsed.segments.elems with
      | none => exact label
      | some krn => exact run

theorem hwxOpen_bounded {path : Option String} (long : NoShortCommand env.content)
    (bounded : p.Bounded) : (hwxOpen env path p).2.Bounded := by
  simp only [hwxOpen]
  split
  · exact bounded.setErrno
  simp only [openFile]
  split
  · rename_i refused
    split at refused
    · cases refused
      exact bounded.setErrno
    · simp at refused
  rename_i fd p₁ opened
  have after : p₁.Bounded := by
    split at opened
    · simp at opened
    · cases opened
      exact bounded
  split
  · exact after.setErrno.close
  split
  · simp only [openRegular]
    have read := hwxPreadExact_bounded env after env.stack 32 0
    split
    · rename_i ok
      obtain ⟨whole, fields⟩ := readHeader ok
      rw [fields]
      split
      · exact read.close.setErrno
      rename_i magic
      split
      · exact read.close.setErrno
      rename_i commands
      rw [ne_eq, not_not] at magic
      rw [Bool.not_eq_false] at commands
      have total := content_toNat env
      split
      · rename_i refused
        exact (read.malloc refused).close
      · rename_i granted
        exact openCommands_bounded total (headerOk_of_accepted total whole magic commands) long
          (read.malloc granted)
    · exact read.close
  · exact after.close.setErrno

theorem hwxOpen_short (favourable : env.Favourable) (path : String) (p : Process)
    (short : ¬ NoShortCommand env.content) : ¬ (hwxOpen env (some path) p).2.Bounded := by
  simp only [NoShortCommand, NoShortSegment, not_forall, Nat.not_le] at short
  obtain ⟨start, off, left, reached, type, size, fits, short⟩ := short
  have total := content_toNat env
  have room : (32 : UInt64).toNat + (header (ofList env.content)).sizeofcmds.toUInt64.toNat ≤
      env.content.length := by simpa using start.commands
  have read (p : Process) : (hwxPreadExact env env.stack 32 0 p).ok = true :=
    hwxPreadExact_ok favourable.reads (by simpa using start.whole)
  have fields (p : Process) := (readHeader (read p)).2
  have commands : hwxWithinFile (UInt64.ofNat env.content.length) 32
      (header (ofList env.content)).sizeofcmds.toUInt64 = true := by
    rw [hwxWithinFile_iff, total]
    exact room
  simp only [hwxOpen, openFile, favourable.opens, favourable.stats, favourable.regular, if_true,
    openRegular, read, fields, start.magic, ne_eq, not_true_eq_false, if_false,
    commands, Bool.true_eq_false]
  split
  · rename_i refused
    simp [malloc, favourable.allocs] at refused
  · rename_i block p₁ granted
    obtain ⟨parsed, p₂, failed, past⟩ := loadCommands_short favourable
      ⟨.null, .null⟩ p₁ total room (by simpa using reached) type size fits short
    simp only [openCommands, failed]
    intro bounded
    exact past (bounded.of_reads (errorLabel_reads _ _ _ _).symm)

/-- The reads stay in the buffers for the files without such a command, and for no other. -/
theorem readsBounded_iff (content : List UInt8) (h : content.length < 2 ^ 63) :
    ReadsBounded content ↔ NoShortCommand content := by
  constructor
  · intro bounded
    by_contra short
    have plain := Env.plain_favourable content h
    apply hwxOpen_short plain "" .fresh short
    apply bounded (Env.plain content h) (some "") .fresh rfl
    simp [Bounded, Process.fresh]
  · intro long env path p same bounded
    subst same
    exact hwxOpen_bounded long bounded

theorem readsBounded_iff_smallContainer : ReadsBounded smallContainer := by
  refine (readsBounded_iff smallContainer smallContainer_lt).mpr ?_
  intro _ off left reached _ _ _
  have one : (header (ofList smallContainer)).ncmds.toNat = 1 := by decide +kernel
  rw [one] at reached
  cases reached with
  | here => decide +kernel
  | later _ _ _ rest => cases rest

/-- A header and one segment command of 8 bytes. -/
def shortContainer : List UInt8 :=
  [0xCE, 0xFA, 0xEF, 0xBE] ++ List.replicate 12 0 ++ [1, 0, 0, 0, 8, 0, 0, 0] ++
    List.replicate 8 0 ++ [0x19, 0, 0, 0, 8, 0, 0, 0]

theorem not_readsBounded_shortContainer : ¬ ReadsBounded shortContainer := by
  intro bounded
  have run := bounded (Env.plain shortContainer (by decide +kernel)) (some "a.hwx") .fresh rfl
    (by decide)
  exact absurd run (by decide +kernel)

end Ane.Hwx
