import Ane.HwxFormat

/-! The load commands as `hwxOpen` reads them. Each piece has two lemmas: what it says of
the file when it goes on, whatever the environment answers, and that it goes on over a good
record when the environment is favourable. -/
namespace Ane.Hwx
open Memory Posix

variable {env : Env} {c buf : Mem} {len off size : Nat} {fileSize offset : UInt64}
  {parsed parsed' : Parsed} {p p' : Process}

section Sections

theorem ofSection64_decoded (src : Section64) : SectionDecoded src (.ofSection64 src) := by
  constructor <;> simp only [HwxSection.ofSection64, hwxTrimName_eq]

theorem sectionRejected_iff {src : Section64} (total : fileSize.toNat = len) :
    ((HwxSection.ofSection64 src).size ≠ 0 ∧ hwxWithinFile fileSize
        (HwxSection.ofSection64 src).offset.toUInt64 (HwxSection.ofSection64 src).size = false) ↔
      ¬ SectionOk len src := by
  simp only [HwxSection.ofSection64]
  rw [← Bool.not_eq_true, hwxWithinFile_iff, total, UInt32.toNat_toUInt64]
  constructor
  · rintro ⟨nonempty, outside⟩ ok
    exact outside (ok.range nonempty)
  · intro bad
    by_contra h
    apply bad
    constructor
    intro nonempty
    by_contra outside
    exact h ⟨nonempty, outside⟩

theorem sectionLoop_some (total : fileSize.toNat = len) (same : SameBytes size buf 0 c off)
    {n i : Nat} (fits : 72 + 80 * (i + n) ≤ size) {elems : List HwxSection}
    (h : (sectionLoop fileSize buf size n i p).1 = some elems) :
    (∀ j ∈ List.range' i n, SectionOk len (sectionAt c off j)) ∧
      List.Forall₂ (fun j => SectionDecoded (sectionAt c off j)) (List.range' i n) elems := by
  induction n generalizing i p elems with
  | zero =>
    simp only [sectionLoop, Option.some.injEq] at h
    subst h
    simp
  | succ n ih =>
    have record : Section64.read buf (72 + 80 * i) = sectionAt c off i := by
      rw [← sectionAt_eq same (by omega : 72 + 80 * (i + 1) ≤ size), sectionAt, Nat.zero_add]
    simp only [sectionLoop, record] at h
    rw [List.range'_succ]
    split at h
    · simp at h
    · rename_i accepted
      have ok : SectionOk len (sectionAt c off i) := by
        by_contra bad
        exact accepted ((sectionRejected_iff total).mpr bad)
      split at h
      · simp at h
      · rename_i rest p' tail
        simp only [Option.some.injEq] at h
        subst h
        have later := ih (by omega) (congrArg Prod.fst tail)
        constructor
        · simp only [List.forall_mem_cons]
          exact ⟨ok, later.1⟩
        · exact .cons (ofSection64_decoded _) later.2

theorem sectionLoop_isSome (total : fileSize.toNat = len) (same : SameBytes size buf 0 c off)
    {n i : Nat} (fits : 72 + 80 * (i + n) ≤ size)
    (ok : ∀ j ∈ List.range' i n, SectionOk len (sectionAt c off j)) :
    ∃ elems p', sectionLoop fileSize buf size n i p = (some elems, p') := by
  induction n generalizing i p with
  | zero => exact ⟨_, _, rfl⟩
  | succ n ih =>
    have record : Section64.read buf (72 + 80 * i) = sectionAt c off i := by
      rw [← sectionAt_eq same (by omega : 72 + 80 * (i + 1) ≤ size), sectionAt, Nat.zero_add]
    rw [List.range'_succ, List.forall_mem_cons] at ok
    have accepted := fun rejected => (sectionRejected_iff total).mp rejected ok.1
    simp only [sectionLoop, record]
    rw [if_neg accepted]
    obtain ⟨elems, p', tail⟩ := ih (p := p.note size (72 + 80 * i)
      (sectionFields (.ofSection64 (sectionAt c off i)))) (by omega) ok.2
    simp only [tail]
    exact ⟨_, _, rfl⟩

end Sections

section Segments

theorem segmentSections_some (total : fileSize.toNat = len) (same : SameBytes size buf 0 c off)
    (fits : 72 + 80 * nsectsAt c off ≤ size) {buffer : BlockId} {sections : HeapArray HwxSection}
    (h : segmentSections env fileSize buffer buf size (segmentAt c off).nsects p =
      (some sections, p')) :
    (∀ i < nsectsAt c off, SectionOk len (sectionAt c off i)) ∧
      List.Forall₂ (fun i => SectionDecoded (sectionAt c off i))
        (List.range (nsectsAt c off)) sections.elems := by
  simp only [segmentSections] at h
  split at h
  · split at h
    · simp at h
    · split at h
      · simp at h
      · rename_i elems p'' loop
        simp only [Prod.mk.injEq, Option.some.injEq] at h
        rw [← h.1]
        have decoded := sectionLoop_some total same (by simpa [nsectsAt] using fits)
          (congrArg Prod.fst loop)
        simpa [List.range_eq_range', nsectsAt] using decoded
  · rename_i none
    have zero : nsectsAt c off = 0 := by
      simp only [gt_iff_lt, UInt32.lt_iff_toNat_lt] at none
      simpa [nsectsAt] using none
    simp only [Prod.mk.injEq, Option.some.injEq] at h
    rw [zero, ← h.1]
    simp [HeapArray.null]

theorem segmentSections_isSome (favourable : env.Favourable) (total : fileSize.toNat = len)
    (same : SameBytes size buf 0 c off) (fits : 72 + 80 * nsectsAt c off ≤ size)
    (ok : ∀ i < nsectsAt c off, SectionOk len (sectionAt c off i)) (buffer : BlockId) :
    ∃ sections p', segmentSections env fileSize buffer buf size (segmentAt c off).nsects p =
      (some sections, p') := by
  simp only [segmentSections]
  split
  · obtain ⟨b, p₁, granted⟩ := favourable.malloc p
    obtain ⟨elems, p', loop⟩ := sectionLoop_isSome (p := p₁) (i := 0) (n := nsectsAt c off) total
      same (by simpa using fits) (by simpa using ok)
    simp only [nsectsAt] at loop
    simp only [granted, loop]
    exact ⟨_, _, rfl⟩
  · exact ⟨_, _, rfl⟩

theorem ofSegmentCommand64_decoded {sections : HeapArray HwxSection}
    (decoded : List.Forall₂ (fun i => SectionDecoded (sectionAt c off i))
      (List.range (nsectsAt c off)) sections.elems) :
    SegmentDecoded c off (.ofSegmentCommand64 (segmentAt c off) sections) := by
  constructor
  case name => exact hwxTrimName_eq _
  case sections => exact decoded
  all_goals rfl

theorem expected_iff (cmdsize nsects : UInt32) :
    cmdsize.toUInt64 < 72 + nsects.toUInt64 * 80 ↔
      cmdsize.toNat < 72 + 80 * nsects.toNat := by
  have bound := nsects.toNat_lt
  have expected : (72 + nsects.toUInt64 * 80).toNat = 72 + 80 * nsects.toNat := by
    simp only [UInt64.toNat_add, UInt64.toNat_mul, UInt32.toNat_toUInt64, UInt64.reduceToNat]
    omega
  rw [UInt64.lt_iff_toNat_lt, UInt32.toNat_toUInt64, expected]

/-- The tables grow by what the commands at `offs` say. -/
def Extends (c : Mem) (offs : List Nat) (parsed parsed' : Parsed) : Prop :=
  ∃ segments threadStates, parsed'.segments.elems = parsed.segments.elems ++ segments ∧
    parsed'.threadStates.elems = parsed.threadStates.elems ++ threadStates ∧
      Decoded c offs segments threadStates

theorem isThread_of_isSegment (h : isSegment c off = true) : isThread c off = false := by
  simp only [isSegment, isThread, decide_eq_true_eq] at h ⊢
  simp [h, HWX_LOAD_COMMAND_SEGMENT_64, HWX_LOAD_COMMAND_THREAD]

theorem segmentRecord_next (total : fileSize.toNat = len) {lc : LoadCommand} {buffer : BlockId}
    (command : commandAt c off = lc) (type : isSegment c off = true)
    (same : SameBytes lc.cmdsize.toNat buf 0 c off)
    (h : segmentRecord env fileSize lc buffer buf parsed p = .next parsed' p') :
    SegmentOk c len off ∧ Extends c [off] parsed parsed' := by
  simp only [segmentRecord] at h
  split at h
  · simp at h
  rename_i enough
  rw [expected_iff, Nat.not_lt] at enough
  have record : SegmentCommand64.read buf 0 = segmentAt c off :=
    segmentAt_eq same (by omega)
  rw [record] at h enough
  split at h
  · simp at h
  rename_i inside
  rw [Bool.not_eq_false, hwxWithinFile_iff, total] at inside
  split at h
  · simp at h
  rename_i sections p₁ made
  have decoded := segmentSections_some total same enough made
  split at h
  · simp at h
  simp only [Flow.next.injEq] at h
  refine ⟨⟨?_, inside, decoded.1⟩, [.ofSegmentCommand64 (segmentAt c off) sections], [], ?_, ?_, ?_⟩
  · rw [cmdsizeAt, command]
    exact enough
  · simp [← h.1]
  · simp [← h.1]
  · have segment := ofSegmentCommand64_decoded decoded.2
    exact ⟨by simp [type, segment], [], by simp, by simp [isThread_of_isSegment type]⟩

theorem segmentRecord_goesOn (favourable : env.Favourable) (total : fileSize.toNat = len)
    {lc : LoadCommand} {buffer : BlockId} (command : commandAt c off = lc)
    (same : SameBytes lc.cmdsize.toNat buf 0 c off) (ok : SegmentOk c len off) :
    ∃ parsed' p', segmentRecord env fileSize lc buffer buf parsed p = .next parsed' p' := by
  have enough : 72 + 80 * nsectsAt c off ≤ lc.cmdsize.toNat := by
    simpa [cmdsizeAt, command] using ok.cmdsize
  have record : SegmentCommand64.read buf 0 = segmentAt c off :=
    segmentAt_eq same (by omega)
  have fits : ¬ lc.cmdsize.toUInt64 < 72 + (segmentAt c off).nsects.toUInt64 * 80 := by
    rw [expected_iff, Nat.not_lt]
    exact enough
  have inside : hwxWithinFile fileSize (segmentAt c off).fileoff (segmentAt c off).filesize = true := by
    rw [hwxWithinFile_iff, total]
    exact ok.range
  simp only [segmentRecord, record, if_neg fits, inside, Bool.true_eq_false, if_false]
  generalize Process.note _ _ (segmentFields _) _ = p₀
  obtain ⟨sections, p₁, made⟩ := segmentSections_isSome (p := p₀) favourable total same enough
    ok.sections buffer
  obtain ⟨block, p₂, grown⟩ := favourable.realloc parsed.segments.block p₁
  simp only [made, grown]
  exact ⟨_, _, rfl⟩

end Segments

section Threads

theorem payload_toNat (count : UInt32) : (count.toUInt64 * 4).toNat = 4 * count.toNat := by
  have bound := count.toNat_lt
  simp only [UInt64.toNat_mul, UInt32.toNat_toUInt64, UInt64.reduceToNat]
  omega

/-- The overflow test of the payload size never fires. -/
theorem payload_exact (count : UInt32) : count.toUInt64 * 4 / 4 = count.toUInt64 := by
  apply UInt64.toNat_inj.mp
  simp only [UInt64.toNat_div, payload_toNat, UInt32.toNat_toUInt64, UInt64.reduceToNat]
  omega

theorem threadStateData_some {cursor n : Nat} {data : HeapArray UInt8}
    (h : threadStateData env buf size cursor n p = (some data, p')) :
    data.elems = slice buf cursor n := by
  simp only [threadStateData] at h
  split at h
  · split at h
    · simp at h
    · simp only [Prod.mk.injEq, Option.some.injEq] at h
      rw [← h.1]
  · rename_i empty
    have zero : n = 0 := by omega
    simp only [Prod.mk.injEq, Option.some.injEq] at h
    rw [← h.1, zero]
    rfl

theorem threadStateData_isSome (favourable : env.Favourable) (buf : Mem) (size cursor n : Nat) :
    ∃ data p', threadStateData env buf size cursor n p = (some data, p') := by
  simp only [threadStateData]
  split
  · obtain ⟨b, p', granted⟩ := favourable.malloc p
    simp only [granted]
    exact ⟨_, _, rfl⟩
  · exact ⟨_, _, rfl⟩

theorem threadStateLoop_next (same : SameBytes size buf 0 c off) (word : size < 2 ^ 32)
    {fuel cursor remaining : Nat} {buffer : BlockId} (ends : cursor + remaining = size)
    (enough : remaining < 8 * (fuel + 1))
    (h : threadStateLoop env buffer buf size fuel cursor remaining parsed p = .next parsed' p') :
    ∃ states, ThreadStates c (off + cursor) remaining states ∧
      parsed'.segments = parsed.segments ∧
        parsed'.threadStates.elems = parsed.threadStates.elems ++ states := by
  induction fuel generalizing cursor remaining parsed p with
  | zero =>
    simp only [threadStateLoop, Flow.next.injEq] at h
    exact ⟨[], .done (by omega), by rw [h.1], by simp [h.1]⟩
  | succ fuel ih =>
    simp only [threadStateLoop] at h
    split at h
    · rename_i header
      have flavor := same.u32 cursor (by omega)
      have count := same.u32 (cursor + 4) (by omega)
      simp only [Nat.zero_add, ← Nat.add_assoc] at flavor count
      simp only [payload_exact, ne_eq, not_true_eq_false, and_false, if_false, payload_toNat,
        flavor, count] at h
      generalize taken : min (min _ (remaining - 8)) _ = byteCount at h
      split at h
      · simp at h
      rename_i data p₁ copied
      split at h
      · simp at h
      have small := byteCount_toNat taken
      have payload := same.slice (cursor + 8) byteCount (by omega)
      simp only [Nat.zero_add, ← Nat.add_assoc] at payload
      obtain ⟨states, decoded, segments, appended⟩ := ih (by omega) (by omega) h
      have state : ThreadStateDecoded c (off + cursor) remaining
          ⟨u32 c (off + cursor), u32 c (off + cursor + 4), UInt32.ofNat byteCount, data⟩ := by
        refine ⟨rfl, rfl, ?_, ?_⟩
        · simp only [small]
          omega
        · simp only [small, threadStateData_some copied, payload]
      refine ⟨_ :: states, .next header state ?_, segments, ?_⟩
      · simpa only [small, Nat.add_assoc] using decoded
      · simpa using appended
    · simp only [Flow.next.injEq] at h
      exact ⟨[], .done (by omega), by rw [h.1], by simp [h.1]⟩

theorem threadStateLoop_goesOn (favourable : env.Favourable) {fuel cursor remaining : Nat}
    {buffer : BlockId} : ∃ parsed' p',
      threadStateLoop env buffer buf size fuel cursor remaining parsed p = .next parsed' p' := by
  induction fuel generalizing cursor remaining parsed p with
  | zero => exact ⟨_, _, rfl⟩
  | succ fuel ih =>
    simp only [threadStateLoop]
    split
    · simp only [payload_exact, ne_eq, not_true_eq_false, and_false, if_false]
      generalize (min (min _ _) _ : Nat) = byteCount
      generalize Process.note _ _ _ _ = p₀
      obtain ⟨data, p₁, copied⟩ := threadStateData_isSome (p := p₀) favourable buf size (cursor + 8)
        byteCount
      obtain ⟨block, p₂, grown⟩ := favourable.realloc parsed.threadStates.block p₁
      simp only [copied, grown]
      exact ih
    · exact ⟨_, _, rfl⟩

end Threads

section Commands

theorem threadCommand_next {lc : LoadCommand}
    (command : commandAt (ofList env.content) offset.toNat = lc)
    (type : isSegment (ofList env.content) offset.toNat = false)
    (type' : isThread (ofList env.content) offset.toNat = true)
    (h : threadCommand env lc offset parsed p = .next parsed' p') :
    16 ≤ lc.cmdsize.toNat ∧ Extends (ofList env.content) [offset.toNat] parsed parsed' := by
  simp only [threadCommand] at h
  split at h
  · simp at h
  rename_i large
  have large : 16 ≤ lc.cmdsize.toNat := by
    simpa [UInt32.lt_iff_toNat_lt] using large
  split at h
  · simp at h
  split at h
  · rename_i ok
    have same := (hwxPreadExact_bytes ok).bytes
    have notShort : ¬ lc.cmdsize.toNat < 8 := by omega
    simp only [if_neg notShort] at h
    obtain ⟨states, decoded, segments, appended⟩ := threadStateLoop_next same lc.cmdsize.toNat_lt
      (by omega) (by omega) h
    refine ⟨large, [], states, by simp [segments], appended, by simp [type], [states], by simp, ?_⟩
    simpa [type', cmdsizeAt, command] using decoded
  · simp at h

theorem loadCommand_next (total : fileSize.toNat = env.content.length) {lc : LoadCommand}
    (command : commandAt (ofList env.content) offset.toNat = lc)
    (h : loadCommand env fileSize lc offset parsed p = .next parsed' p') :
    CommandOk (ofList env.content) env.content.length offset.toNat ∧
      Extends (ofList env.content) [offset.toNat] parsed parsed' := by
  simp only [loadCommand] at h
  split at h
  · rename_i cmd
    have type : isSegment (ofList env.content) offset.toNat = true := by
      simpa [isSegment, command] using cmd
    simp only [segmentCommand] at h
    split at h
    · simp at h
    split at h
    · rename_i ok
      have same := (hwxPreadExact_bytes ok).bytes
      obtain ⟨segment, grown⟩ := segmentRecord_next total command type same h
      exact ⟨⟨fun _ => segment, by simp [isThread_of_isSegment type]⟩, grown⟩
    · simp at h
  · rename_i cmd
    have type : isSegment (ofList env.content) offset.toNat = false := by
      simpa [isSegment, command] using cmd
    split at h
    · rename_i cmd'
      have type' : isThread (ofList env.content) offset.toNat = true := by
        simpa [isThread, command] using cmd'
      obtain ⟨large, grown⟩ := threadCommand_next command type type' h
      refine ⟨⟨by simp [type], fun _ => ?_⟩, grown⟩
      rw [cmdsizeAt, command]
      exact large
    · rename_i cmd'
      have type' : isThread (ofList env.content) offset.toNat = false := by
        simpa [isThread, command] using cmd'
      simp only [Flow.next.injEq] at h
      refine ⟨⟨by simp [type], by simp [type']⟩, [], [], by simp [h.1], by simp [h.1], ?_⟩
      exact ⟨by simp [type], [], by simp, by simp [type']⟩

theorem threadCommand_goesOn (favourable : env.Favourable) {lc : LoadCommand}
    (large : 16 ≤ lc.cmdsize.toNat) (inside : offset.toNat + lc.cmdsize.toNat ≤ env.content.length) :
    ∃ parsed' p', threadCommand env lc offset parsed p = .next parsed' p' := by
  have notSmall : ¬ lc.cmdsize < 8 + 2 * 4 := by
    simpa [UInt32.lt_iff_toNat_lt] using large
  have notShort : ¬ lc.cmdsize.toNat < 8 := by omega
  obtain ⟨buffer, p₁, granted⟩ := favourable.malloc p
  simp only [threadCommand, if_neg notSmall, granted, hwxPreadExact_ok favourable.reads inside,
    if_true, if_neg notShort]
  exact threadStateLoop_goesOn favourable

theorem loadCommand_goesOn (favourable : env.Favourable) (parsed : Parsed) (p : Process)
    (total : fileSize.toNat = env.content.length) {lc : LoadCommand}
    (command : commandAt (ofList env.content) offset.toNat = lc)
    (inside : offset.toNat + lc.cmdsize.toNat ≤ env.content.length)
    (ok : CommandOk (ofList env.content) env.content.length offset.toNat) :
    ∃ parsed' p', loadCommand env fileSize lc offset parsed p = .next parsed' p' := by
  simp only [loadCommand]
  split
  · rename_i cmd
    have type : isSegment (ofList env.content) offset.toNat = true := by
      simpa [isSegment, command] using cmd
    obtain ⟨buffer, p₁, granted⟩ := favourable.malloc p
    have read : (hwxPreadExact env (env.heap buffer) lc.cmdsize.toNat offset p₁).ok = true :=
      hwxPreadExact_ok favourable.reads inside
    simp only [segmentCommand, granted, read, if_true]
    exact segmentRecord_goesOn favourable total command (hwxPreadExact_bytes read).bytes
      (ok.segment type)
  · split
    · rename_i cmd
      have type : isThread (ofList env.content) offset.toNat = true := by
        simpa [isThread, command] using cmd
      have large := ok.thread type
      rw [cmdsizeAt, command] at large
      exact threadCommand_goesOn favourable large inside
    · exact ⟨_, _, rfl⟩

theorem Extends.nil : Extends c [] parsed parsed :=
  ⟨[], [], by simp, by simp, by simp, [], by simp, by simp⟩

theorem Extends.cons {offs : List Nat} {parsed'' : Parsed} (first : Extends c [off] parsed parsed')
    (rest : Extends c offs parsed' parsed'') : Extends c (off :: offs) parsed parsed'' := by
  obtain ⟨s, t, hs, ht, segments, parts, rfl, threads⟩ := first
  obtain ⟨s', t', hs', ht', segments', parts', rfl, threads'⟩ := rest
  refine ⟨s ++ s', (parts ++ parts').flatten, ?_, ?_, ?_, parts ++ parts', rfl, ?_⟩
  · simp [hs', hs]
  · simp [ht', ht]
  · rw [← List.singleton_append, List.filter_append]
    exact List.rel_append segments segments'
  · rw [← List.singleton_append, List.filter_append]
    exact List.rel_append threads threads'

/-- One command further, neither the position nor the bytes left wrap. -/
theorem advance {left : UInt64} {cmdsize : UInt32} (fits : cmdsize.toNat ≤ left.toNat)
    (inside : offset.toNat + left.toNat ≤ env.content.length) :
    (offset + cmdsize.toUInt64).toNat = offset.toNat + cmdsize.toNat ∧
      (left - cmdsize.toUInt64).toNat = left.toNat - cmdsize.toNat := by
  have bound := env.content_lt
  constructor
  · simp only [UInt64.toNat_add, UInt32.toNat_toUInt64]
    omega
  · rw [UInt64.toNat_sub_of_le, UInt32.toNat_toUInt64]
    rwa [UInt64.le_iff_toNat_le, UInt32.toNat_toUInt64]

theorem accepted_iff {left : UInt64} {cmdsize : UInt32} :
    ¬ (cmdsize < 8 ∨ cmdsize.toUInt64 > left) ↔ 8 ≤ cmdsize.toNat ∧ cmdsize.toNat ≤ left.toNat := by
  simp [UInt32.lt_iff_toNat_lt, UInt64.lt_iff_toNat_lt]

theorem readCommand (ok : (hwxPreadExact env env.stack 8 offset p).ok = true) :
    LoadCommand.read (hwxPreadExact env env.stack 8 offset p).dst 0 =
      commandAt (ofList env.content) offset.toNat :=
  commandAt_eq (hwxPreadExact_bytes ok).bytes (Nat.le_refl 8)

theorem loadCommands_next (total : fileSize.toNat = env.content.length) {n : Nat} {left : UInt64}
    (inside : offset.toNat + left.toNat ≤ env.content.length)
    (h : loadCommands env fileSize n offset left parsed p = .next parsed' p') :
    ∃ offs, Walk (ofList env.content) offset.toNat n left.toNat offs ∧
      (∀ off ∈ offs, CommandOk (ofList env.content) env.content.length off) ∧
        Extends (ofList env.content) offs parsed parsed' := by
  induction n generalizing offset left parsed p with
  | zero =>
    simp only [loadCommands] at h
    split at h
    · simp at h
    · rename_i none
      rw [not_not] at none
      simp only [Flow.next.injEq] at h
      refine ⟨[], ?_, by simp, ?_⟩
      · rw [none]
        exact .done _
      · rw [h.1]
        exact .nil
  | succ n ih =>
    simp only [loadCommands] at h
    split at h
    · simp at h
    split at h
    · rename_i ok
      rw [readCommand ok] at h
      split at h
      · simp at h
      rename_i accepted
      rw [accepted_iff] at accepted
      split at h
      · simp at h
      rename_i parsed₁ p₁ made
      obtain ⟨good, grown⟩ := loadCommand_next total rfl made
      obtain ⟨next, rest⟩ := advance accepted.2 inside
      obtain ⟨offs, walk, goods, grown'⟩ := ih (by omega) h
      refine ⟨offset.toNat :: offs, .next accepted.1 accepted.2 ?_, ?_, .cons grown grown'⟩
      · rwa [next, rest] at walk
      · simp only [List.forall_mem_cons]
        exact ⟨good, goods⟩
    · simp at h

/-- With 8 bytes left the header of the next command is read. -/
theorem commandHeader_read {left : UInt64} (favourable : env.Favourable) (p : Process)
    (room : 8 ≤ left.toNat) (inside : offset.toNat + left.toNat ≤ env.content.length) :
    ¬ left < 8 ∧ (hwxPreadExact env env.stack 8 offset p).ok = true := by
  refine ⟨?_, hwxPreadExact_ok favourable.reads (by omega)⟩
  simp only [UInt64.lt_iff_toNat_lt, UInt64.reduceToNat]
  omega

theorem loadCommands_goesOn (favourable : env.Favourable) (parsed : Parsed) (p : Process)
    (total : fileSize.toNat = env.content.length) {n : Nat} {left : UInt64} {offs : List Nat}
    (inside : offset.toNat + left.toNat ≤ env.content.length)
    (walk : Walk (ofList env.content) offset.toNat n left.toNat offs)
    (goods : ∀ off ∈ offs, CommandOk (ofList env.content) env.content.length off) :
    ∃ parsed' p', loadCommands env fileSize n offset left parsed p = .next parsed' p' := by
  induction n generalizing offset left parsed p offs with
  | zero =>
    have none : left = 0 := by
      apply UInt64.toNat_inj.mp
      generalize left.toNat = l at walk
      cases walk
      rfl
    simp only [loadCommands, none, ne_eq, not_true_eq_false, if_false]
    exact ⟨_, _, rfl⟩
  | succ n ih =>
    generalize hleft : left.toNat = l at walk
    cases walk with
    | next header fits rest =>
      subst hleft
      rw [List.forall_mem_cons] at goods
      obtain ⟨some, read⟩ := commandHeader_read favourable p (by omega) inside
      have accepted := accepted_iff.mpr ⟨header, fits⟩
      simp only [cmdsizeAt] at header fits
      simp only [loadCommands, if_neg some, read, if_true, readCommand read, if_neg accepted]
      obtain ⟨parsed₁, p₁, made⟩ := loadCommand_goesOn favourable parsed
        (hwxPreadExact env env.stack 8 offset p).proc total rfl
        (by omega) goods.1
      simp only [made]
      obtain ⟨next, left'⟩ := advance fits inside
      apply ih parsed₁ p₁ (by omega) _ goods.2
      rwa [next, left']

end Commands

end Ane.Hwx
