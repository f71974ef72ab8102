import Ane.HwxCommands

/-! `hwxOpen` accepts exactly the well-formed containers and decodes them. -/
namespace Ane.Hwx
open Memory Posix

variable {env : Env} {c : Mem} {len : Nat} {offs : List Nat} {file : HwxFile}
  {p p' : Process}

section Lookup

theorem sectionInSegment_isSome {name : Name} {i j : Nat} {elems : List HwxSection} :
    (sectionInSegment name i j elems).isSome = true ↔ ∃ s ∈ elems, s.sectionName = name := by
  induction elems generalizing j with
  | nil => simp [sectionInSegment]
  | cons s rest ih =>
    simp only [sectionInSegment]
    split
    · simp [*]
    · rw [ih]
      simp [*]

theorem sectionInSegments_isSome {segmentName sectionName : Name} (named : segmentName ≠ [])
    {i : Nat} {segments : List HwxSegment} :
    (sectionInSegments (some segmentName) sectionName i segments).isSome = true ↔
      ∃ segment ∈ segments, segment.name = segmentName ∧
        ∃ s ∈ segment.sections.elems, s.sectionName = sectionName := by
  induction segments generalizing i with
  | nil => simp [sectionInSegments]
  | cons segment rest ih =>
    simp only [sectionInSegments, Option.mem_some_iff, exists_eq_left', ne_eq, named,
      not_false_eq_true, true_and, List.exists_mem_cons_iff]
    rw [← ih (i := i + 1), ← sectionInSegment_isSome (i := i) (j := 0)]
    by_cases same : segment.name = segmentName
    · simp only [same, not_true_eq_false, if_false, true_and]
      split <;> simp [*]
    · simp [same]

theorem exists_iff_of_forall₂ {α β : Type} {R : α → β → Prop} {P : α → Prop} {Q : β → Prop}
    (same : ∀ a b, R a b → (P a ↔ Q b)) {l : List α} {l' : List β} (rel : List.Forall₂ R l l') :
    (∃ a ∈ l, P a) ↔ ∃ b ∈ l', Q b := by
  induction rel with
  | nil => simp
  | cons head _ ih => simp [same _ _ head, ih]

/-- The section is found in the tables exactly if some segment command has it. -/
theorem Decoded.found_iff {segments : List HwxSegment} {threadStates : List HwxThreadState}
    (decoded : Decoded c offs segments threadStates) {name : Name} {i : Nat} :
    (sectionInSegments (some textSegment) name i segments).isSome = true ↔
      HasSection c offs name := by
  have inside (off : Nat) (segment : HwxSegment) (same : SegmentDecoded c off segment) :
      (cut (segmentAt c off).segname = textSegment ∧
        ∃ i ∈ List.range (nsectsAt c off), cut (sectionAt c off i).sectname = name) ↔
      (segment.name = textSegment ∧ ∃ s ∈ segment.sections.elems, s.sectionName = name) := by
    rw [same.name]
    apply and_congr_right
    intro _
    apply exists_iff_of_forall₂ _ same.sections
    intro i s same
    rw [same.sectionName]
  rw [sectionInSegments_isSome (by decide), ← exists_iff_of_forall₂ inside decoded.segments]
  simp [HasSection, and_assoc]

end Lookup

/-- `file` is the container of `len` bytes with commands at `offs`. -/
structure Opened (c : Mem) (len : Nat) (offs : List Nat) (file : HwxFile) : Prop where
  header : file.header = header c
  fileSize : file.fileSize.toNat = len
  tables : Decoded c offs file.segments.elems file.threadStates.elems
  tdVersion : file.tdVersion = hwxTdVersionForCpu (hwxCpuSubtype file)

theorem headerOk_of_accepted {fileSize : UInt64} (total : fileSize.toNat = len)
    (whole : 32 ≤ len) (magic : (header c).magic = HWX_MACHO_MAGIC_64)
    (h : hwxWithinFile fileSize 32 (header c).sizeofcmds.toUInt64 = true) : HeaderOk c len where
  whole := whole
  magic := magic
  commands := by
    rw [hwxWithinFile_iff, total, UInt32.toNat_toUInt64] at h
    simpa using h

theorem openCommands_some {fd : Fd} {fileSize : UInt64} {block : BlockId}
    (total : fileSize.toNat = env.content.length)
    (start : HeaderOk (ofList env.content) env.content.length)
    (h : (openCommands env fd fileSize (header (ofList env.content)) block p).1 = some file) :
    ∃ offs, WellFormed (ofList env.content) env.content.length offs ∧
      Opened (ofList env.content) env.content.length offs file := by
  simp only [openCommands, hwxGetTskSection, hwxGetKrnSection, hwxSectionByName] at h
  split at h
  · simp at h
  rename_i parsed p' run
  have room := start.commands
  obtain ⟨offs, walk, goods, segments, threadStates, hs, ht, decoded⟩ :=
    loadCommands_next total (by simpa using room) run
  simp only [HeapArray.null, List.nil_append] at hs ht
  rw [← hs, ← ht] at decoded
  cases text : sectionInSegments (some textSegment) textSection 0 parsed.segments.elems with
  | none => simp [text] at h
  | some tsk =>
  cases const : sectionInSegments (some textSegment) constSection 0 parsed.segments.elems with
  | none => simp [text, const] at h
  | some krn =>
  simp only [text, const, Option.some.injEq] at h
  have text := decoded.found_iff.mp (Option.isSome_of_eq_some text)
  have const := decoded.found_iff.mp (Option.isSome_of_eq_some const)
  refine ⟨offs, ⟨start, by simpa using walk, goods, text, const⟩, ?_⟩
  rw [← h]
  exact ⟨rfl, total, decoded, rfl⟩

theorem content_toNat (env : Env) :
    (UInt64.ofNat env.content.length).toNat = env.content.length := by
  have bound := env.content_lt
  apply UInt64.toNat_ofNat_of_lt'
  simp only [UInt64.size]
  omega

theorem readHeader (ok : (hwxPreadExact env env.stack 32 0 p).ok = true) :
    32 ≤ env.content.length ∧
      MachHeader64.read (hwxPreadExact env env.stack 32 0 p).dst 0 = header (ofList env.content) := by
  have filled := hwxPreadExact_bytes ok
  have whole := filled.inside (by omega)
  simp only [UInt64.toNat_zero, Nat.zero_add] at whole
  exact ⟨whole, header_eq filled.bytes⟩

/-- Whatever the environment answers, a file returned is a well-formed container. -/
theorem hwxOpen_some {path : Option String} (h : (hwxOpen env path p).1 = some file) :
    ∃ offs, WellFormed (ofList env.content) env.content.length offs ∧
      Opened (ofList env.content) env.content.length offs file := by
  simp only [hwxOpen] at h
  split at h
  · simp at h
  split at h
  · simp at h
  split at h
  · simp at h
  split at h
  · simp only [openRegular] at h
    split at h
    · rename_i ok
      obtain ⟨whole, read⟩ := readHeader ok
      rw [read] at h
      split at h
      · simp at h
      rename_i magic
      split at h
      · simp at h
      rename_i commands
      split at h
      · simp at h
      rw [ne_eq, not_not] at magic
      rw [Bool.not_eq_false] at commands
      have total := content_toNat env
      exact openCommands_some total (headerOk_of_accepted total whole magic commands) h
    · simp at h
  · simp at h

theorem openCommands_isSome (favourable : env.Favourable) {fd : Fd} {fileSize : UInt64}
    {block : BlockId} (total : fileSize.toNat = env.content.length)
    (wellFormed : WellFormed (ofList env.content) env.content.length offs) :
    (openCommands env fd fileSize (header (ofList env.content)) block p).1.isSome = true := by
  have room : (32 : UInt64).toNat + (header (ofList env.content)).sizeofcmds.toUInt64.toNat ≤
      env.content.length := by simpa using wellFormed.start.commands
  obtain ⟨parsed, p', run⟩ := loadCommands_goesOn favourable ⟨.null, .null⟩ p total room
    (by simpa using wellFormed.walk) wellFormed.commands
  obtain ⟨offs', walk, -, segments, threadStates, hs, ht, decoded⟩ :=
    loadCommands_next total room run
  obtain rfl : offs = offs' := wellFormed.walk.unique (by simpa using walk)
  simp only [HeapArray.null, List.nil_append] at hs ht
  rw [← hs, ← ht] at decoded
  have found {name : Name} (has : HasSection (ofList env.content) offs name) :
      ∃ ptr, sectionInSegments (some textSegment) name 0 parsed.segments.elems = some ptr :=
    Option.isSome_iff_exists.mp (decoded.found_iff.mpr has)
  obtain ⟨tsk, text⟩ := found wellFormed.text
  obtain ⟨krn, const⟩ := found wellFormed.const
  simp only [openCommands, run, hwxGetTskSection, hwxGetKrnSection, hwxSectionByName, text, const,
    Option.isSome_some]

/-- Over a well-formed container a favourable environment lets `hwxOpen` succeed. -/
theorem hwxOpen_isSome (favourable : env.Favourable) (path : String)
    (wellFormed : WellFormed (ofList env.content) env.content.length offs) :
    (hwxOpen env (some path) p).1.isSome = true := by
  have start := wellFormed.start
  have total := content_toNat env
  have read (p : Process) : (hwxPreadExact env env.stack 32 0 p).ok = true :=
    hwxPreadExact_ok favourable.reads (by simpa using start.whole)
  have commands : hwxWithinFile (UInt64.ofNat env.content.length) 32
      (header (ofList env.content)).sizeofcmds.toUInt64 = true := by
    rw [hwxWithinFile_iff, total, UInt32.toNat_toUInt64]
    simpa using start.commands
  have fields (p : Process) := (readHeader (read p)).2
  simp only [hwxOpen, openFile, favourable.opens, favourable.stats, favourable.regular, if_true,
    openRegular, read, fields, start.magic, ne_eq, not_true_eq_false, if_false,
    commands, Bool.true_eq_false]
  split
  · rename_i refused
    simp [malloc, favourable.allocs] at refused
  · exact openCommands_isSome favourable total wellFormed

/-- When the file can be opened and read and memory does not run out, `hwxOpen` succeeds on
the well-formed containers and on no other, and returns what they contain. A command that is
neither a segment nor a thread is a step of the walk and nothing else. -/
theorem hwxOpen_isSome_iff (favourable : env.Favourable) (path : String) (p : Process) :
    ((hwxOpen env (some path) p).1.isSome = true ↔
        ∃ offs, WellFormed (ofList env.content) env.content.length offs) ∧
      ∀ file offs, (hwxOpen env (some path) p).1 = some file →
        WellFormed (ofList env.content) env.content.length offs →
          Opened (ofList env.content) env.content.length offs file := by
  constructor
  · constructor
    · intro opened
      obtain ⟨file, opened⟩ := Option.isSome_iff_exists.mp opened
      obtain ⟨offs, wellFormed, -⟩ := hwxOpen_some opened
      exact ⟨offs, wellFormed⟩
    · rintro ⟨offs, wellFormed⟩
      exact hwxOpen_isSome favourable path wellFormed
  · intro file offs opened wellFormed
    obtain ⟨offs', wellFormed', decoded⟩ := hwxOpen_some opened
    rwa [wellFormed.walk.unique wellFormed'.walk]

/-- A container with one segment and two sections, the first of them 8 bytes at 32. -/
def smallContainer : List UInt8 :=
  [0xCE, 0xFA, 0xEF, 0xBE] ++ List.replicate 12 0 ++ [1, 0, 0, 0, 232, 0, 0, 0] ++
    List.replicate 8 0 ++ [0x19, 0, 0, 0, 232, 0, 0, 0] ++ textSegment ++ List.replicate 34 0 ++
    [8, 1] ++ List.replicate 14 0 ++ [2, 0, 0, 0] ++ List.replicate 4 0 ++
    textSection ++ List.replicate 34 0 ++ [8] ++ List.replicate 7 0 ++ [32] ++
    List.replicate 31 0 ++ constSection ++ List.replicate 73 0

theorem smallContainer_lt : smallContainer.length < 2 ^ 63 := by
  decide +kernel

theorem hwxOpen_isSome_iff_smallContainer :
    ∃ offs, WellFormed (ofList smallContainer) smallContainer.length offs :=
  (hwxOpen_isSome_iff (Env.plain_favourable smallContainer smallContainer_lt) "a.hwx"
    .fresh).1.mp (by decide +kernel)

end Ane.Hwx
