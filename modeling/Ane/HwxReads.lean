import Ane.HwxOpen

/-! Reading sections and segments of a file `hwxOpen` returned. The range checks of
`hwxOpen` are an invariant of the file object; the readers rely on it. -/
namespace Ane.Hwx
open Memory Posix

variable {env : Env} {file : HwxFile} {base length offset size : UInt64} {p : Process}

/-- Every nonempty range the readers serve lies in the file of `len` bytes. -/
structure RangesOk (len : Nat) (file : HwxFile) : Prop where
  fileSize : file.fileSize.toNat = len
  segments : ∀ segment ∈ file.segments.elems,
    segment.fileoff.toNat + segment.filesize.toNat ≤ len
  sections : ∀ segment ∈ file.segments.elems, ∀ s ∈ segment.sections.elems, s.size ≠ 0 →
    s.offset.toNat + s.size.toNat ≤ len

theorem exists_of_forall₂ {α β : Type} {R : α → β → Prop} {l : List α} {l' : List β}
    (rel : List.Forall₂ R l l') {b : β} (h : b ∈ l') : ∃ a ∈ l, R a b := by
  induction rel with
  | nil => simp at h
  | cons head _ ih =>
    rcases List.mem_cons.mp h with rfl | h
    · exact ⟨_, List.mem_cons_self, head⟩
    · obtain ⟨a, ha, rel⟩ := ih h
      exact ⟨a, List.mem_cons_of_mem _ ha, rel⟩

theorem Opened.rangesOk {c : Mem} {len : Nat} {offs : List Nat} (opened : Opened c len offs file)
    (wellFormed : WellFormed c len offs) : RangesOk len file := by
  have source (segment : HwxSegment) (h : segment ∈ file.segments.elems) :
      ∃ off, SegmentOk c len off ∧ SegmentDecoded c off segment := by
    obtain ⟨off, mem, decoded⟩ := exists_of_forall₂ opened.tables.segments h
    obtain ⟨mem, type⟩ := List.mem_filter.mp mem
    exact ⟨off, (wellFormed.commands off mem).segment type, decoded⟩
  refine ⟨opened.fileSize, ?_, ?_⟩
  · intro segment h
    obtain ⟨off, ok, decoded⟩ := source segment h
    rw [decoded.fileoff, decoded.filesize]
    exact ok.range
  · intro segment h s hs nonempty
    obtain ⟨off, ok, decoded⟩ := source segment h
    obtain ⟨i, mem, same⟩ := exists_of_forall₂ decoded.sections hs
    rw [same.offset, same.size]
    apply (ok.sections i (List.mem_range.mp mem)).range
    rwa [← same.size]

/-- What a read `r` of `size` bytes at `offset` of the `length` bytes from `base` on is to
do: it succeeds in this range alone, and then the buffer has the file's bytes. In the range
the second check passes and no sum wraps. -/
structure ReadsExactly (content : List UInt8) (file : HwxFile) (base length offset size : UInt64)
    (dst : Mem) (p : Process) (r : Transfer (Option Mem)) : Prop where
  ok_iff : r.ok = true ↔ offset.toNat + size.toNat ≤ length.toNat
  bytes : r.ok = true → base.toNat + offset.toNat + size.toNat ≤ content.length ∧
    ∃ dst', r.dst = some dst' ∧
      slice dst' 0 size.toNat = (content.drop (base.toNat + offset.toNat)).take size.toNat ∧
        ∀ i, size.toNat ≤ i → dst' i = dst i
  validated : offset.toNat + size.toNat ≤ length.toNat →
    (hwxValidateRead (some file) (base + offset) size p).1 = true
  noWrap : offset.toNat + size.toNat ≤ length.toNat →
    (base + offset).toNat = base.toNat + offset.toNat ∧
      base.toNat + offset.toNat + size.toNat < 2 ^ 64

theorem beyond_iff : (offset > length ∨ size > length - offset) ↔
    ¬ offset.toNat + size.toNat ≤ length.toNat := by
  rw [← hwxWithinFile_iff, hwxWithinFile]
  by_cases before : offset > length
  · simp [before]
  · by_cases past : size > length - offset
    · simp [past]
    · simp only [before, past, or_self, if_false, not_true_eq_false]

theorem readRange_exact (reads : env.Reads) (pos : 0 < size)
    (total : file.fileSize.toNat = env.content.length)
    (range : length ≠ 0 → base.toNat + length.toNat ≤ env.content.length) (dst : Mem) :
    ReadsExactly env.content file base length offset size dst p
      (readRange env (some file) (some (base, length)) offset (some dst) size p) := by
  have nonempty : ¬ size = 0 := by
    rintro rfl
    simp at pos
  have sizePos : 0 < size.toNat := by simpa [UInt64.lt_iff_toNat_lt] using pos
  have bound := env.content_lt
  simp only [readRange, reduceCtorEq, false_and, if_false, if_neg nonempty, beyond_iff]
  by_cases inside : offset.toNat + size.toNat ≤ length.toNat
  · have used : length ≠ 0 := by
      rintro rfl
      simp only [UInt64.toNat_zero] at inside
      omega
    have room := range used
    have position : (base + offset).toNat = base.toNat + offset.toNat := by
      rw [UInt64.toNat_add]
      omega
    have within : hwxWithinFile file.fileSize (base + offset) size = true := by
      rw [hwxWithinFile_iff, position, total]
      omega
    have ok : (hwxPreadExact env dst size.toNat (base + offset) p).ok = true := by
      apply hwxPreadExact_ok reads
      omega
    have filled := hwxPreadExact_bytes ok
    simp only [inside, not_true_eq_false, if_false, hwxValidateRead, within, Bool.true_eq_false]
    refine ⟨by simp [ok, inside], fun _ => ⟨by omega, _, rfl, ?_, filled.rest⟩, ?_, ?_⟩
    · have same := filled.bytes.slice 0 size.toNat (by omega)
      rw [Nat.add_zero, Nat.add_zero, ofList_slice _ (by omega), position] at same
      exact same
    · intro _
      simp [hwxValidateRead, within]
    · intro _
      exact ⟨position, by omega⟩
  · simp only [inside, not_false_eq_true, if_true]
    constructor <;> simp [inside]

/-- Whatever happens, a read leaves the buffer with some first bytes of the range and, behind
them, as it was; with all that were asked for when it succeeds. -/
theorem readRange_filled (env : Env) (file : HwxFile) (base length offset size : UInt64) (dst : Mem)
    (p : Process) : ∃ n ≤ size.toNat, ∃ dst',
      (readRange env (some file) (some (base, length)) offset (some dst) size p).dst = some dst' ∧
      Filled env (base + offset) dst n dst' ∧
      ((readRange env (some file) (some (base, length)) offset (some dst) size p).ok = true →
        n = size.toNat) := by
  have untouched : Filled env (base + offset) dst 0 dst := .start
  simp only [readRange, reduceCtorEq, false_and, if_false]
  split
  · rename_i zero
    exact ⟨0, Nat.zero_le _, dst, rfl, untouched, fun _ => by rw [zero]; rfl⟩
  split
  · exact ⟨0, Nat.zero_le _, dst, rfl, untouched, nofun⟩
  split
  · exact ⟨0, Nat.zero_le _, dst, rfl, untouched, nofun⟩
  · rename_i q _
    obtain ⟨n, le, filled, all⟩ := hwxPreadExact_filled env dst size.toNat (base + offset) q
    exact ⟨n, le, _, rfl, filled, all⟩

/-- Whether a read succeeds does not depend on what the buffer held. -/
theorem readRange_ok_eq (env : Env) (file : Option HwxFile) (range : Option (UInt64 × UInt64))
    (offset size : UInt64) (dst dst' : Mem) (p : Process) :
    (readRange env file range offset (some dst) size p).ok =
      (readRange env file range offset (some dst') size p).ok := by
  simp only [readRange, reduceCtorEq, false_and, if_false]
  split
  · rfl
  split
  · rfl
  split
  · rfl
  split
  · rfl
  · exact preadLoop_ok_eq dst dst' _

/-- Once `hwxOpen` has returned a file, whatever the environment was then, and while its
content stays the same, reads of its sections and segments are exact under every schedule of
short reads and interruptions. -/
theorem hwxRead_exact {env₀ : Env} {path : Option String} {p₀ : Process}
    (opened : (hwxOpen env₀ path p₀).1 = some file) (unchanged : env.content = env₀.content)
    (reads : env.Reads) (offset : UInt64) {size : UInt64} (pos : 0 < size) (dst : Mem)
    (p : Process) :
    ∀ segment ∈ file.segments.elems,
      ReadsExactly env.content file segment.fileoff segment.filesize offset size dst p
        (hwxSegmentRead env (some file) (some segment) offset (some dst) size p) ∧
      ∀ s ∈ segment.sections.elems,
        ReadsExactly env.content file s.offset.toUInt64 s.size offset size dst p
          (hwxSectionRead env (some file) (some s) offset (some dst) size p) := by
  obtain ⟨offs, wellFormed, decoded⟩ := hwxOpen_some opened
  have ranges := decoded.rangesOk wellFormed
  rw [← unchanged] at ranges
  intro segment mem
  constructor
  · exact readRange_exact reads pos ranges.fileSize (fun _ => ranges.segments segment mem) dst
  · intro s memS
    apply readRange_exact reads pos ranges.fileSize _ dst
    simpa using ranges.sections segment mem s memS

/-- The small container, one byte at a time after three interruptions. -/
def byteWise : Env :=
  { Env.plain smallContainer smallContainer_lt with
    pread := fun n => if n < 3 then .error EINTR else .upTo 0
    lastEintr := 3
    eintr_lt := by
      intro n h
      by_contra late
      simp [late] at h }

theorem byteWise_reads : byteWise.Reads := by
  intro n e h
  simp only [byteWise] at h
  split at h
  · exact (PreadOutcome.error.inj h).symm
  · simp at h

def smallText : HwxSection := ⟨[], textSection, 0, 8, 32, 0, 0, 0, 0, 0, 0, 0⟩

def smallConst : HwxSection := ⟨[], constSection, 0, 0, 0, 0, 0, 0, 0, 0, 0, 0⟩

def smallSegment : HwxSegment :=
  ⟨textSegment, 0, 0, 0, 264, 0, 0, 0, ⟨some 2, [smallText, smallConst]⟩⟩

def smallFile : HwxFile :=
  ⟨0, 0, 264, ⟨HWX_MACHO_MAGIC_64, 0, 0, 0, 1, 232, 0, 0⟩, ⟨some 3, [smallSegment]⟩, 5, .null⟩

theorem smallFile_opened : (hwxOpen (Env.plain smallContainer smallContainer_lt) (some "a.hwx")
    .fresh).1 = some smallFile := by
  decide +kernel

theorem byteWise_content :
    byteWise.content = (Env.plain smallContainer smallContainer_lt).content := rfl

theorem hwxRead_exact_smallFile :
    ReadsExactly smallContainer smallFile 32 8 2 4 (fun _ => 7) .fresh
      (hwxSectionRead byteWise (some smallFile) (some smallText) 2 (some fun _ => 7) 4 .fresh) := by
  have inFile : smallSegment ∈ smallFile.segments.elems := List.mem_singleton.mpr rfl
  have inSegment : smallText ∈ smallSegment.sections.elems := List.mem_cons_self
  have exact := hwxRead_exact smallFile_opened byteWise_content byteWise_reads
    2 (by decide : (0 : UInt64) < 4) (fun _ => 7) .fresh smallSegment inFile
  exact exact.2 smallText inSegment

end Ane.Hwx
