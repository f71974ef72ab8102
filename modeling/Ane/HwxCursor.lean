import Ane.HwxStates

/-! Walking the thread states of one flavor with a cursor. Each call starts behind the state
the cursor points to; the induction is along what is left of the array there. -/
namespace Ane.Hwx
open Memory Posix

variable {env : Env} {file : HwxFile} {flavor : UInt32} {elems rest : List HwxThreadState}
  {ptr : ThreadStatePtr} {i start : Nat}

/-- `ptr` points to a thread state of this flavor. -/
structure HwxFile.HasState (file : HwxFile) (flavor : UInt32) (ptr : ThreadStatePtr) : Prop where
  target : file.threadStates.elems[ptr.index]? = some ptr.target
  flavor : ptr.target.flavor = flavor

/-- Calls of `hwxThreadStateNext`, the first with this cursor and each other one with what the
last one returned, return `ptrs` and then null. -/
inductive Enumerates (file : HwxFile) (flavor : UInt32) : Option Int → List ThreadStatePtr → Prop
  | done {cursor : Option Int} (null : ∀ q, (hwxThreadStateNext (some file) flavor cursor q).1 = none) :
      Enumerates file flavor cursor []
  | next {cursor : Option Int} {ptr : ThreadStatePtr} {ptrs : List ThreadStatePtr}
      (found : ∀ q, (hwxThreadStateNext (some file) flavor cursor q).1 = some ptr)
      (later : Enumerates file flavor (some ptr.index) ptrs) :
      Enumerates file flavor cursor (ptr :: ptrs)

section Scan

/-- The states of a flavor, in order, in an array whose first element is number `i`. -/
def statesFrom (flavor : UInt32) : Nat → List HwxThreadState → List ThreadStatePtr
  | _, [] => []
  | i, s :: rest =>
    if s.flavor = flavor then ⟨i, s⟩ :: statesFrom flavor (i + 1) rest
    else statesFrom flavor (i + 1) rest

theorem mem_statesFrom : ptr ∈ statesFrom flavor i elems ↔
    ∃ k, ptr.index = i + k ∧ elems[k]? = some ptr.target ∧ ptr.target.flavor = flavor := by
  induction elems generalizing i with
  | nil => simp [statesFrom]
  | cons s rest ih =>
    have later : (∃ k, ptr.index = i + 1 + k ∧ rest[k]? = some ptr.target ∧
          ptr.target.flavor = flavor) ↔
        ∃ k, ptr.index = i + (k + 1) ∧ (s :: rest)[k + 1]? = some ptr.target ∧
          ptr.target.flavor = flavor := by
      simp only [List.getElem?_cons_succ, Nat.add_assoc, Nat.add_comm 1]
    rw [← Nat.or_exists_add_one, ← later, ← ih]
    simp only [statesFrom, List.getElem?_cons_zero, Option.some.injEq, Nat.add_zero]
    split
    · rename_i same
      rw [List.mem_cons]
      apply or_congr_left
      constructor
      · rintro rfl
        exact ⟨rfl, rfl, same⟩
      · rintro ⟨index, target, -⟩
        rw [← index, target]
    · rename_i differs
      refine ⟨Or.inr, fun h => h.resolve_left ?_⟩
      rintro ⟨-, target, same⟩
      exact differs (target ▸ same)

theorem statesFrom_sorted (flavor : UInt32) (i : Nat) (elems : List HwxThreadState) :
    (statesFrom flavor i elems).Pairwise (·.index < ·.index) := by
  induction elems generalizing i with
  | nil => exact .nil
  | cons s rest ih =>
    simp only [statesFrom]
    split
    · refine List.pairwise_cons.mpr ⟨fun ptr mem => ?_, ih (i + 1)⟩
      obtain ⟨k, index, -⟩ := mem_statesFrom.mp mem
      simp only
      omega
    · exact ih (i + 1)

theorem threadStateFrom_eq : threadStateFrom flavor i elems = (statesFrom flavor i elems).head? := by
  induction elems generalizing i with
  | nil => rfl
  | cons s rest ih =>
    simp only [threadStateFrom, statesFrom]
    split
    · rfl
    · exact ih

/-- The scan stops at the first state of the flavor from `i` on, or there is none. -/
theorem threadStateFrom_first (flavor : UInt32) (i : Nat) (elems : List HwxThreadState) :
    (∀ ptr ∈ threadStateFrom flavor i elems, ptr ∈ statesFrom flavor i elems ∧
      ∀ other ∈ statesFrom flavor i elems, ptr.index ≤ other.index) ∧
    (threadStateFrom flavor i elems = none ↔ ∀ ptr, ptr ∉ statesFrom flavor i elems) := by
  have sorted := statesFrom_sorted flavor i elems
  rw [threadStateFrom_eq]
  cases ptrs : statesFrom flavor i elems with
  | nil => simp
  | cons first later =>
    rw [ptrs, List.pairwise_cons] at sorted
    refine ⟨?_, ?_⟩
    · rintro ptr ⟨⟩
      refine ⟨List.mem_cons_self, fun other mem => ?_⟩
      rcases List.mem_cons.mp mem with rfl | mem
      · exact Nat.le_refl _
      · exact Nat.le_of_lt (sorted.1 other mem)
    · refine ⟨nofun, fun empty => ?_⟩
      exact absurd List.mem_cons_self (empty first)

end Scan

section Cursor

theorem hwxThreadStateNext_null (file : HwxFile) (flavor : UInt32) (q : Process) :
    (hwxThreadStateNext (some file) flavor none q).1 =
      threadStateFrom flavor 0 file.threadStates.elems := rfl

/-- Where the rest of an array starts with an element, that is one of the array. -/
theorem of_drop_eq_cons {α : Type} {l rest : List α} {x : α} (left : l.drop start = x :: rest) :
    start < l.length ∧ l.drop (start + 1) = rest := by
  constructor
  · apply Nat.lt_of_not_le
    intro beyond
    rw [List.drop_eq_nil_of_le beyond] at left
    cases left
  · rw [← List.drop_drop, left, List.drop_one, List.tail_cons]

/-- A state as cursor: the scan starts at the one behind it. -/
theorem hwxThreadStateNext_state (inside : i < file.threadStates.elems.length) (flavor : UInt32)
    (q : Process) : (hwxThreadStateNext (some file) flavor (some i) q).1 =
      threadStateFrom flavor (i + 1) (file.threadStates.elems.drop (i + 1)) := by
  have valid : ¬ ((i : Int) < 0 ∨ (i : Int) ≥ file.threadStates.elems.length) := by omega
  simp only [hwxThreadStateNext, if_neg valid, Int.toNat_natCast]

theorem hwxThreadStateNext_outside {current : Int}
    (outside : current < 0 ∨ (file.threadStates.elems.length : Int) ≤ current) (flavor : UInt32)
    (q : Process) : (hwxThreadStateNext (some file) flavor (some current) q).1 = none := by
  simp only [hwxThreadStateNext, if_pos outside]

/-- A cursor whose next call scans the array from `start` on enumerates the states there. -/
theorem enumerates_from {cursor : Option Int} (left : file.threadStates.elems.drop start = rest)
    (scans : ∀ q, (hwxThreadStateNext (some file) flavor cursor q).1 =
      threadStateFrom flavor start rest) :
    Enumerates file flavor cursor (statesFrom flavor start rest) := by
  induction rest generalizing start cursor with
  | nil => exact .done scans
  | cons s rest ih =>
    obtain ⟨inside, behind⟩ := of_drop_eq_cons left
    simp only [threadStateFrom] at scans
    simp only [statesFrom]
    split
    · rename_i same
      simp only [same, if_true] at scans
      refine .next scans (ih behind fun q => ?_)
      rw [hwxThreadStateNext_state inside, behind]
    · rename_i differs
      simp only [differs, if_false] at scans
      exact ih behind scans

/-- The state the call returns is the first of its flavor behind number `i`. -/
theorem mem_statesFrom_drop : ptr ∈ statesFrom flavor start (file.threadStates.elems.drop start) ↔
    start ≤ ptr.index ∧ file.HasState flavor ptr := by
  rw [mem_statesFrom]
  constructor
  · rintro ⟨k, index, target, same⟩
    rw [List.getElem?_drop, ← index] at target
    exact ⟨by omega, target, same⟩
  · rintro ⟨from_, target, same⟩
    refine ⟨ptr.index - start, by omega, ?_, same⟩
    rw [List.getElem?_drop, Nat.add_sub_cancel' from_, target]

end Cursor

section Counts

/-- Every state takes 8 bytes of its command at least. -/
theorem ThreadStates.length_le {c : Mem} {off remaining : Nat}
    (decoded : ThreadStates c off remaining elems) : 8 * elems.length ≤ remaining := by
  induction decoded with
  | done => simp
  | next header state _ ih =>
    rw [List.length_cons]
    omega

/-- The thread states of a walk take no more bytes than its commands. -/
theorem Walk.threadStates_le {c : Mem} {off n left : Nat} {offs : List Nat}
    {parts : List (List HwxThreadState)} (walk : Walk c off n left offs)
    (decoded : List.Forall₂ (fun off => ThreadStates c (off + 8) (cmdsizeAt c off - 8))
      (offs.filter (isThread c)) parts) : 8 * parts.flatten.length ≤ left := by
  induction walk generalizing parts with
  | done =>
    cases decoded
    simp
  | @next off n left offs header fits _ ih =>
    by_cases thread : isThread c off = true
    · rw [List.filter_cons_of_pos thread] at decoded
      cases decoded with
      | cons first others =>
        have here := first.length_le
        have there := ih others
        rw [List.flatten_cons, List.length_append]
        omega
    · rw [List.filter_cons_of_neg thread] at decoded
      have there := ih decoded
      omega

/-- The source counts the thread states in 32 bits. -/
theorem hwxOpen_threadStateCount {path : Option String} {p : Process}
    (opened : (hwxOpen env path p).1 = some file) : file.threadStates.elems.length < 2 ^ 32 := by
  obtain ⟨offs, wellFormed, opened⟩ := hwxOpen_some opened
  obtain ⟨parts, concatenated, decoded⟩ := opened.tables.threadStates
  have bytes := wellFormed.walk.threadStates_le decoded
  have word := (header (ofList env.content)).sizeofcmds.toNat_lt
  rw [concatenated]
  omega

end Counts

/-- From null on, the calls return exactly the states of the flavor, each once and in file
order, and then null; a state as cursor gives the first one strictly behind it, and a cursor
that is no state of the file gives null. -/
theorem threadStates_enumerated {path : Option String} {p : Process}
    (opened : (hwxOpen env path p).1 = some file) (flavor : UInt32) :
    file.threadStates.elems.length < 2 ^ 32 ∧
    (∃ ptrs, Enumerates file flavor none ptrs ∧ ptrs.Pairwise (·.index < ·.index) ∧
      ∀ ptr, ptr ∈ ptrs ↔ file.HasState flavor ptr) ∧
    (∀ i < file.threadStates.elems.length, ∀ q,
      (∀ ptr ∈ (hwxThreadStateNext (some file) flavor (some i) q).1,
        i < ptr.index ∧ file.HasState flavor ptr ∧
          ∀ other, i < other.index → file.HasState flavor other → ptr.index ≤ other.index) ∧
      ((hwxThreadStateNext (some file) flavor (some i) q).1 = none ↔
        ∀ ptr, i < ptr.index → ¬ file.HasState flavor ptr)) ∧
    ∀ current : Int, current < 0 ∨ (file.threadStates.elems.length : Int) ≤ current → ∀ q,
      (hwxThreadStateNext (some file) flavor (some current) q).1 = none := by
  refine ⟨hwxOpen_threadStateCount opened, ?_, ?_, ?_⟩
  · have all : Enumerates file flavor none (statesFrom flavor 0 file.threadStates.elems) :=
      enumerates_from List.drop_zero (hwxThreadStateNext_null file flavor)
    refine ⟨_, all, statesFrom_sorted flavor 0 _, fun ptr => ?_⟩
    have member : ptr ∈ statesFrom flavor 0 (file.threadStates.elems.drop 0) ↔
        0 ≤ ptr.index ∧ file.HasState flavor ptr := mem_statesFrom_drop
    rw [List.drop_zero] at member
    rw [member]
    exact and_iff_right (Nat.zero_le _)
  · intro i inside q
    rw [hwxThreadStateNext_state inside]
    obtain ⟨found, absent⟩ := threadStateFrom_first flavor (i + 1)
      (file.threadStates.elems.drop (i + 1))
    simp only [mem_statesFrom_drop, Nat.succ_le_iff] at found absent
    refine ⟨fun ptr mem => ?_, ?_⟩
    · obtain ⟨⟨behind, state⟩, first⟩ := found ptr mem
      exact ⟨behind, state, fun other later has => first other ⟨later, has⟩⟩
    · rw [absent]
      simp only [not_and]
  · intro current outside q
    exact hwxThreadStateNext_outside outside flavor q

/-- One of the two states of the small container is a segment state. -/
theorem threadStates_enumerated_threadFile :
    ∃ ptrs, Enumerates threadFile 4 none ptrs ∧ ptrs.Pairwise (·.index < ·.index) ∧
      ∀ ptr, ptr ∈ ptrs ↔ threadFile.HasState 4 ptr :=
  (threadStates_enumerated threadFile_opened 4).2.1

end Ane.Hwx
