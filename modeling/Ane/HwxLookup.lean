import Ane.HwxOpen

/-! Which section a search by name finds. A section is named by its position, its segment and
its place in it, and file order is the order of positions; the searches are compared with
what stands first in that order, whatever names are repeated. -/
namespace Ane.Hwx
open Memory Posix

variable {env : Env} {file : HwxFile} {p : Process} {segmentName : Option Name}
  {sectionName : Name} {segment : HwxSegment} {segments : List HwxSegment}
  {elems : List HwxSection} {ptr other : SectionPtr} {i j : Nat}

/-- `ptr` points to a section of this segment that goes by these names; no segment name, or
an empty one, is every segment's. -/
structure InSegment (segment : HwxSegment) (segmentName : Option Name) (sectionName : Name)
    (ptr : SectionPtr) : Prop where
  segmentName : ∀ name ∈ segmentName, name = [] ∨ segment.name = name
  target : segment.sections.elems[ptr.index]? = some ptr.target
  sectionName : ptr.target.sectionName = sectionName

def HwxFile.Named (file : HwxFile) (segmentName : Option Name) (sectionName : Name)
    (ptr : SectionPtr) : Prop :=
  ∃ segment, file.segments.elems[ptr.segment]? = some segment ∧
    InSegment segment segmentName sectionName ptr

/-- Segments in order, then sections in order. -/
def SectionPtr.Before (ptr other : SectionPtr) : Prop :=
  ptr.segment < other.segment ∨ ptr.segment = other.segment ∧ ptr.index < other.index

structure HwxFile.FirstNamed (file : HwxFile) (segmentName : Option Name) (sectionName : Name)
    (ptr : SectionPtr) : Prop where
  named : file.Named segmentName sectionName ptr
  first : ∀ other, file.Named segmentName sectionName other → ¬ other.Before ptr

section Segment

theorem sectionInSegment_some (h : sectionInSegment sectionName i j elems = some ptr) :
    ptr.segment = i ∧ ∃ k, ptr.index = j + k ∧ elems[k]? = some ptr.target ∧
      ptr.target.sectionName = sectionName ∧
        ∀ l s, elems[l]? = some s → s.sectionName = sectionName → k ≤ l := by
  induction elems generalizing j with
  | nil => cases h
  | cons s rest ih =>
    simp only [sectionInSegment] at h
    split at h
    · rename_i same
      cases h
      exact ⟨rfl, 0, rfl, rfl, same, fun _ _ _ _ => Nat.zero_le _⟩
    · rename_i differs
      obtain ⟨segment, k, index, target, name, first⟩ := ih h
      refine ⟨segment, k + 1, by omega, target, name, ?_⟩
      intro l s' at_ called
      cases l with
      | zero =>
        cases at_
        exact absurd called differs
      | succ l => exact Nat.succ_le_succ (first l s' at_ called)

theorem sectionInSegment_none (h : sectionInSegment sectionName i j elems = none) :
    ∀ s ∈ elems, s.sectionName ≠ sectionName := by
  have absent : ¬ (sectionInSegment sectionName i j elems).isSome = true := by simp [h]
  rw [sectionInSegment_isSome] at absent
  intro s mem called
  exact absent ⟨s, mem, called⟩

end Segment

section Segments

/-- `HwxFile.Named` for the segments from number `i` on. -/
def NamedFrom (i : Nat) (segments : List HwxSegment) (segmentName : Option Name)
    (sectionName : Name) (ptr : SectionPtr) : Prop :=
  ∃ k segment, ptr.segment = i + k ∧ segments[k]? = some segment ∧
    InSegment segment segmentName sectionName ptr

theorem namedFrom_cons : NamedFrom i (segment :: segments) segmentName sectionName ptr ↔
    (ptr.segment = i ∧ InSegment segment segmentName sectionName ptr) ∨
      NamedFrom (i + 1) segments segmentName sectionName ptr := by
  constructor
  · rintro ⟨k, found, place, at_, inside⟩
    cases k with
    | zero =>
      cases at_
      exact Or.inl ⟨place, inside⟩
    | succ k => exact Or.inr ⟨k, found, by omega, at_, inside⟩
  · rintro (⟨place, inside⟩ | ⟨k, found, place, at_, inside⟩)
    · exact ⟨0, segment, place, rfl, inside⟩
    · exact ⟨k + 1, found, by omega, at_, inside⟩

theorem HwxFile.named_iff : file.Named segmentName sectionName ptr ↔
    NamedFrom 0 file.segments.elems segmentName sectionName ptr := by
  constructor
  · rintro ⟨segment, at_, inside⟩
    exact ⟨ptr.segment, segment, (Nat.zero_add _).symm, at_, inside⟩
  · rintro ⟨k, segment, place, at_, inside⟩
    rw [Nat.zero_add] at place
    exact ⟨segment, place ▸ at_, inside⟩

/-- A segment passed over has another name than the one asked for. -/
theorem skipped_iff : (∃ name ∈ segmentName, name ≠ [] ∧ segment.name ≠ name) ↔
    ¬ ∀ name ∈ segmentName, name = [] ∨ segment.name = name := by
  simp only [not_forall, not_or, exists_prop]

/-- What the search through the segments from number `i` on is to find: the first section of
these names, or nothing if there is none. -/
structure Searched (i : Nat) (segments : List HwxSegment) (segmentName : Option Name)
    (sectionName : Name) (found : Option SectionPtr) : Prop where
  named : ∀ ptr ∈ found, NamedFrom i segments segmentName sectionName ptr
  first : ∀ ptr ∈ found, ∀ other, NamedFrom i segments segmentName sectionName other →
    ¬ other.Before ptr
  absent : found = none → ∀ other, ¬ NamedFrom i segments segmentName sectionName other

/-- A segment without such a section leaves the search to the rest. -/
theorem Searched.skip {found : Option SectionPtr}
    (rest : Searched (i + 1) segments segmentName sectionName found)
    (empty : ∀ other, ¬ InSegment segment segmentName sectionName other) :
    Searched i (segment :: segments) segmentName sectionName found := by
  have only (other : SectionPtr) : NamedFrom i (segment :: segments) segmentName sectionName other ↔
      NamedFrom (i + 1) segments segmentName sectionName other := by
    rw [namedFrom_cons]
    exact ⟨fun h => h.resolve_left fun here => empty other here.2, Or.inr⟩
  constructor <;> simp only [only]
  · exact rest.named
  · exact rest.first
  · exact rest.absent

theorem sectionInSegments_searched (segmentName : Option Name) (sectionName : Name) (i : Nat)
    (segments : List HwxSegment) : Searched i segments segmentName sectionName
      (sectionInSegments segmentName sectionName i segments) := by
  induction segments generalizing i with
  | nil =>
    refine ⟨by simp [sectionInSegments], by simp [sectionInSegments], ?_⟩
    rintro - other ⟨k, segment, -, at_, -⟩
    cases at_
  | cons segment rest ih =>
    simp only [sectionInSegments]
    split
    · rename_i skipped
      apply (ih (i + 1)).skip
      intro other inside
      exact skipped_iff.mp skipped inside.segmentName
    rename_i skipped
    have called := not_not.mp (mt skipped_iff.mpr skipped)
    split
    · rename_i hit found
      obtain ⟨place, k, index, target, name, least⟩ := sectionInSegment_some found
      rw [Nat.zero_add] at index
      refine ⟨?_, ?_, by simp⟩
      · rintro ptr ⟨⟩
        exact namedFrom_cons.mpr (Or.inl ⟨place, called, index ▸ target, name⟩)
      · rintro ptr ⟨⟩ other named before
        rcases namedFrom_cons.mp named with ⟨here, inside⟩ | ⟨l, _, there, -, -⟩
        · have above := least _ _ inside.target inside.sectionName
          rcases before with before | ⟨-, before⟩ <;> omega
        · rcases before with before | ⟨same, -⟩ <;> omega
    · rename_i found
      apply (ih (i + 1)).skip
      intro other inside
      exact sectionInSegment_none found _ (List.mem_of_getElem? inside.target) inside.sectionName

/-- What `hwxSectionByName` finds in an open file. -/
theorem hwxSectionByName_first (file : HwxFile) (segmentName : Option Name) (sectionName : Name)
    (p : Process) :
    (∀ ptr ∈ (hwxSectionByName (some file) segmentName (some sectionName) p).1,
      file.FirstNamed segmentName sectionName ptr) ∧
    ((hwxSectionByName (some file) segmentName (some sectionName) p).1 = none ↔
      ∀ ptr, ¬ file.Named segmentName sectionName ptr) := by
  have searched := sectionInSegments_searched segmentName sectionName 0 file.segments.elems
  have named := searched.named
  have first := searched.first
  have absent := searched.absent
  simp only [← HwxFile.named_iff] at named first absent
  refine ⟨fun ptr mem => ⟨named ptr mem, first ptr mem⟩, absent, fun nowhere => ?_⟩
  rw [Option.eq_none_iff_forall_not_mem]
  intro ptr mem
  exact nowhere ptr (named ptr mem)

/-- The first section of these names is one only. -/
theorem HwxFile.FirstNamed.unique (first : file.FirstNamed segmentName sectionName ptr)
    (first' : file.FirstNamed segmentName sectionName other) : ptr = other := by
  have before := first.first other first'.named
  have after := first'.first ptr first.named
  obtain ⟨segment, at_, inside⟩ := first.named
  obtain ⟨segment', at', inside'⟩ := first'.named
  obtain ⟨i, j, s⟩ := ptr
  obtain ⟨i', j', s'⟩ := other
  simp only [SectionPtr.Before, not_or, not_and] at before after
  obtain rfl : i = i' := by omega
  obtain rfl : j = j' := by omega
  obtain rfl : segment = segment' := Option.some.inj (at_.symm.trans at')
  obtain rfl : s = s' := Option.some.inj (inside.target.symm.trans inside'.target)
  rfl

end Segments

section Opened

/-- A file that `hwxOpen` returns has both sections libane looks for. -/
theorem hwxOpen_sections {path : Option String} (opened : (hwxOpen env path p).1 = some file) :
    (∃ ptr, sectionInSegments (some textSegment) textSection 0 file.segments.elems = some ptr) ∧
      ∃ ptr, sectionInSegments (some textSegment) constSection 0 file.segments.elems = some ptr := by
  obtain ⟨offs, wellFormed, opened⟩ := hwxOpen_some opened
  exact ⟨Option.isSome_iff_exists.mp (opened.tables.found_iff.mpr wellFormed.text),
    Option.isSome_iff_exists.mp (opened.tables.found_iff.mpr wellFormed.const)⟩

end Opened

end Ane.Hwx
