import Ane.Bitfield
import Mathlib.Tactic.IntervalCases

/-! Fields of type `bool`. The template admits the type, but its mask and its shift are of the
type as well and become 1. So an assignment to a field above bit 0 clears the whole word. -/
namespace Ane.Libane
open IntType Bitfield

theorem IntType.eq_cppBool {T : IntType} (boolean : T.boolean = true) : T = CppBool := by
  obtain ⟨bits, signed, _, standard, ofBoolean⟩ := T
  obtain ⟨rfl, rfl⟩ := ofBoolean boolean
  cases boolean
  rfl

theorem getLsbD_held {data : CppBool.Word} (held : data = 0 ∨ data = 1) {b : Nat}
    (above : b ≠ 0) : data.getLsbD b = false := by
  obtain rfl | rfl := held
  · simp
  · simp [above]

namespace Bitfield
variable (f : Bitfield CppBool) {v data data' : CppBool.Word}

theorem bounds_bool : f.N + f.S ≤ 8 ∧ 0 < f.S := ⟨f.inside, f.positive⟩

theorem mask_bool : f.mask = 1 := by
  have bit : ((((1 : BitVec 64) <<< f.S) - 1) <<< f.N).getLsbD f.N = true := by
    have bounds := bounds_bool f
    rw [BitVec.getLsbD_shiftLeft, getLsbD_ones f.short, decide_eq_true (by omega),
      decide_eq_false (Nat.lt_irrefl _), Nat.sub_self, decide_eq_true bounds.2]
    rfl
  have set : (((1 : BitVec 64) <<< f.S) - 1) <<< f.N ≠ 0 := by
    intro zero
    rw [zero] at bit
    simp at bit
  rw [mask, convert, if_pos (by rfl), if_neg set]

theorem shift_bool : f.shift = if f.N = 0 then 0 else 1 := by
  have bounds := bounds_bool f
  rw [shift]
  generalize f.N = n at *
  have below : n < 8 := by omega
  interval_cases n <;> rfl

theorem max_bool : f.max = if f.S = 8 then 1 else 0 := by
  have bounds := bounds_bool f
  rw [max, bitsFree, bitsData, bitsUsed]
  generalize f.S = n at *
  have inside : n ≤ 8 := by omega
  have positive := bounds.2
  interval_cases n <;> decide

/-- Only a field at bit 0 is read from the word. -/
theorem get_bool (held : data = 0 ∨ data = 1) : f.get data = if f.N = 0 then data else 0 := by
  rw [get, if_neg (by decide), mask_bool, shift_bool]
  by_cases zero : f.N = 0
  · rw [if_pos zero, if_pos zero]
    obtain rfl | rfl := held <;> decide
  · rw [if_neg zero, if_neg zero]
    obtain rfl | rfl := held <;> decide

theorem put_bool (held : data = 0 ∨ data = 1) (valid : v = 0 ∨ v = 1) :
    f.put v data = if f.N = 0 then v else 0 := by
  rw [put, mask_bool, shift_bool]
  by_cases zero : f.N = 0
  · rw [if_pos zero, if_pos zero]
    obtain rfl | rfl := held <;> obtain rfl | rfl := valid <;> decide
  · rw [if_neg zero, if_neg zero]
    obtain rfl | rfl := held <;> obtain rfl | rfl := valid <;> decide

/-- No field but one of all eight bits can be assigned `true`. -/
theorem inRange_bool (valid : f.InRange v) : v = 0 ∨ f.S = 8 ∧ v = 1 := by
  have high := valid.2
  rw [max_bool] at high
  split at high
  · next whole =>
    have small : v.toNat ≤ 1 := by simpa [value, CppBool] using high
    obtain none | one : v.toNat = 0 ∨ v.toNat = 1 := by omega
    · exact .inl (BitVec.eq_of_toNat_eq none)
    · exact .inr ⟨whole, BitVec.eq_of_toNat_eq one⟩
  · have small : v.toNat ≤ 0 := by simpa [value, CppBool] using high
    exact .inl (BitVec.eq_of_toNat_eq (Nat.le_zero.mp small))

/-- Whatever the field, the word becomes the value assigned. -/
theorem assign_bool (held : data = 0 ∨ data = 1) (done : f.assign v data = some data') :
    data' = v ∧ (v = 0 ∨ f.S = 8 ∧ v = 1) := by
  rw [assign] at done
  split at done
  · next valid =>
    have range := inRange_bool f valid
    obtain rfl : f.put v data = data' := Option.some.inj done
    refine ⟨?_, range⟩
    rw [put_bool f held (range.imp_right And.right)]
    split
    · rfl
    · next above =>
      have bounds := bounds_bool f
      obtain zero | ⟨whole, -⟩ := range
      · exact zero.symm
      · omega
  · cases done

theorem bits_bool (held : data = 0 ∨ data = 1) :
    (f.bits data).setWidth CppBool.bits = if f.N = 0 then data else 0 := by
  have bounds := bounds_bool f
  apply BitVec.eq_of_getLsbD_eq
  intro i below
  rw [bits, BitVec.getLsbD_setWidth, BitVec.getLsbD_extractLsb', decide_eq_true below, Bool.true_and]
  split
  · next zero =>
    rw [zero, Nat.zero_add]
    by_cases inside : i < f.S
    · rw [decide_eq_true inside, Bool.true_and]
    · rw [decide_eq_false inside, Bool.false_and, getLsbD_held held (by omega)]
  · rw [getLsbD_held held (by omega), Bool.and_false]
    exact BitVec.getLsbD_zero.symm

end Bitfield

section Families
variable {T : IntType} {ι : Type*} [DecidableEq ι]

/-- What is asked of a run of assignments to the fields of a word: each field reads as the value
last assigned to it, or as its bits if there was none, the bits outside the fields are as before,
and every run with the same assignments to each field in the same order ends in the same word. -/
structure Independent (F : ι → Bitfield T) (data : T.Word) (ops : List (ι × Assignment T))
    (data' : T.Word) : Prop where
  fields : ∀ i, (F i).get data' =
    (lastAssigned F i data ops).getD (((F i).bits data).setWidth T.bits)
  others : ∀ b, (∀ i, ¬ (F i).Covers b) → data'.getLsbD b = data.getLsbD b
  order : ∀ (ops' : List (ι × Assignment T)) data'',
    (∀ i, ops.filter (·.1 = i) = ops'.filter (·.1 = i)) →
      execAll F data ops' = some data'' → data'' = data'

theorem Independent.of_binary [T.Binary] {F : ι → Bitfield T} {data data' : T.Word}
    {ops : List (ι × Assignment T)} (unsigned : T.signed = false)
    (apart : Pairwise fun i j => (F i).Disjoint (F j)) (done : execAll F data ops = some data') :
    Independent F data ops data' := by
  obtain ⟨runs, order⟩ := fields_independent unsigned apart data
  obtain ⟨fields, others⟩ := runs ops data' done
  refine ⟨fields, others, fun ops' data'' same done' => ?_⟩
  rw [← order ops ops' same, done] at done'
  exact (Option.some.inj done').symm

theorem eq_nil_congr {α : Type*} {ops ops' : List (ι × α)}
    (same : ∀ i, ops.filter (·.1 = i) = ops'.filter (·.1 = i)) : ops = [] ↔ ops' = [] := by
  have mem_iff (op : ι × α) : op ∈ ops ↔ op ∈ ops' := by
    have here : op ∈ ops.filter (·.1 = op.1) ↔ op ∈ ops'.filter (·.1 = op.1) := by rw [same]
    simpa using here
  simp only [List.eq_nil_iff_forall_not_mem, mem_iff]

section Boolean
variable {F : ι → Bitfield CppBool} {data data' : CppBool.Word}
  {ops : List (ι × Assignment CppBool)} {i : ι}

/-- One assignment of a run: the word becomes a value that the field admits. -/
theorem execAll_cons_bool {op : ι × Assignment CppBool} (held : data = 0 ∨ data = 1)
    (done : execAll F data (op :: ops) = some data') :
    ∃ v, (v = 0 ∨ (F op.1).S = 8 ∧ v = 1) ∧ execAll F v ops = some data' ∧
      ∀ i, lastAssigned F i data (op :: ops) =
        (lastAssigned F i v ops).or (if op.1 = i then some v else none) := by
  obtain ⟨j, op⟩ := op
  rw [execAll, Bitfield.exec_eq] at done
  cases assigned : (F j).assign (op.value ((F j).get data)) data with
  | none =>
    rw [assigned] at done
    cases done
  | some mid =>
    rw [assigned] at done
    obtain ⟨rfl, range⟩ := (F j).assign_bool held assigned
    have stored : (F j).put (op.value ((F j).get data)) data = op.value ((F j).get data) := by
      rw [Bitfield.assign] at assigned
      split at assigned
      · exact Option.some.inj assigned
      · cases assigned
    refine ⟨_, range, done, fun i => ?_⟩
    rw [lastAssigned, stored]

/-- Among fields of less than eight bits only `false` is ever assigned. -/
theorem execAll_narrow (narrow : ∀ i, (F i).S ≠ 8) (held : data = 0 ∨ data = 1)
    (done : execAll F data ops = some data') : data' = (if ops = [] then data else 0) ∧
      ∀ i, lastAssigned F i data ops = if i ∈ ops.map Prod.fst then some 0 else none := by
  induction ops generalizing data with
  | nil =>
    obtain rfl : data = data' := Option.some.inj done
    exact ⟨rfl, fun i => rfl⟩
  | cons op ops ih =>
    obtain ⟨v, range, rest, last⟩ := execAll_cons_bool held done
    obtain rfl : v = 0 := range.resolve_right fun whole => narrow op.1 whole.1
    obtain ⟨word, later⟩ := ih (.inl rfl) rest
    refine ⟨by simpa using word, fun i => ?_⟩
    have parts : i ∈ (op :: ops).map Prod.fst ↔ i ∈ ops.map Prod.fst ∨ op.1 = i := by
      rw [List.map_cons, List.mem_cons, eq_comm, or_comm]
    simp only [last, later, parts]
    by_cases again : i ∈ ops.map Prod.fst
    · simp only [again, if_true, true_or, Option.some_or]
    · simp only [again, if_false, false_or, Option.none_or]

/-- A field of eight bits is alone, and holds what it was last assigned. -/
theorem execAll_whole (only : ∀ j, j = i) (held : data = 0 ∨ data = 1)
    (done : execAll F data ops = some data') : (data' = 0 ∨ data' = 1) ∧
      lastAssigned F i data ops = if ops = [] then none else some data' := by
  induction ops generalizing data with
  | nil =>
    obtain rfl : data = data' := Option.some.inj done
    exact ⟨held, rfl⟩
  | cons op ops ih =>
    obtain ⟨v, range, rest, last⟩ := execAll_cons_bool held done
    obtain ⟨held', later⟩ := ih (range.imp_right And.right) rest
    refine ⟨held', ?_⟩
    rw [last, later, if_pos (only op.1), if_neg (List.cons_ne_nil _ _)]
    split
    · next none_left =>
      subst none_left
      exact rest
    · rfl

omit [DecidableEq ι] in
/-- Two fields at bit 0 overlap. -/
theorem eq_of_bottom (apart : Pairwise fun i j => (F i).Disjoint (F j)) {i j : ι}
    (first : (F i).N = 0) (second : (F j).N = 0) : i = j := by
  by_contra ne
  have positive := (F i).positive
  have positive' := (F j).positive
  obtain before | after := apart ne <;> omega

/-- A run of fields of less than eight bits keeps them independent unless it clears a true word
from above. -/
theorem independent_narrow (apart : Pairwise fun i j => (F i).Disjoint (F j))
    (narrow : ∀ i, (F i).S ≠ 8) (held : data = 0 ∨ data = 1)
    (done : execAll F data ops = some data') : Independent F data ops data' ↔
      data = 0 ∨ ops = [] ∨ ∃ op ∈ ops, (F op.1).N = 0 := by
  obtain ⟨word, last⟩ := execAll_narrow narrow held done
  have zero_get (i : ι) : (F i).get 0 = 0 := by
    rw [(F i).get_bool (.inl rfl)]
    split <;> rfl
  constructor
  · intro independent
    by_contra disturbed
    obtain ⟨true_, some_, above⟩ : data ≠ 0 ∧ ops ≠ [] ∧ ∀ op ∈ ops, (F op.1).N ≠ 0 := by
      simpa only [not_or, not_exists, not_and] using disturbed
    obtain rfl : data = 1 := held.resolve_left true_
    rw [if_neg some_] at word
    subst word
    by_cases bottom : ∃ i, (F i).N = 0
    · obtain ⟨i, zero⟩ := bottom
      have unassigned : i ∉ ops.map Prod.fst := by
        intro mem
        obtain ⟨op, listed, rfl⟩ := List.mem_map.mp mem
        exact above op listed zero
      have read := independent.fields i
      rw [zero_get, last, if_neg unassigned, Option.getD_none, (F i).bits_bool (.inr rfl),
        if_pos zero] at read
      exact absurd read (by decide)
    · have outside : ∀ i, ¬ (F i).Covers 0 := fun i covers =>
        bottom ⟨i, Nat.le_zero.mp covers.1⟩
      exact absurd (independent.others 0 outside) (by decide)
  · intro undisturbed
    refine ⟨fun i => ?_, fun b outside => ?_, fun ops' data'' same done' => ?_⟩
    · rw [last, word]
      by_cases assigned : i ∈ ops.map Prod.fst
      · have some_ : ops ≠ [] := by
          rintro rfl
          cases assigned
        rw [if_neg some_, if_pos assigned, zero_get]
        rfl
      · rw [if_neg assigned, Option.getD_none, (F i).bits_bool held]
        split
        · exact (F i).get_bool held
        · next some_ =>
          rw [zero_get]
          split
          · next bottom =>
            obtain zero | empty | ⟨op, mem, cleared⟩ := undisturbed
            · exact zero.symm
            · exact absurd empty some_
            · -- the field at bit 0 is the one assigned to
              obtain rfl := eq_of_bottom apart cleared bottom
              exact absurd (List.mem_map_of_mem mem) assigned
          · rfl
    · rw [word]
      split
      · rfl
      · next some_ =>
        obtain zero | empty | ⟨op, mem, cleared⟩ := undisturbed
        · rw [zero]
        · exact absurd empty some_
        · have positive := (F op.1).positive
          have above : b ≠ 0 := fun bottom => outside op.1 ⟨by omega, by omega⟩
          rw [getLsbD_held held above, getLsbD_held (.inl rfl) above]
    · rw [word, (execAll_narrow narrow held done').1]
      simp only [eq_nil_congr same]

/-- A field of eight bits is alone and so independent. -/
theorem independent_whole (only : ∀ j, j = i) (whole : (F i).S = 8) (held : data = 0 ∨ data = 1)
    (done : execAll F data ops = some data') : Independent F data ops data' := by
  obtain ⟨held', last⟩ := execAll_whole only held done
  have bounds := (F i).bounds_bool
  have bottom : (F i).N = 0 := by omega
  refine ⟨fun j => ?_, fun b outside => ?_, fun ops' data'' same done' => ?_⟩
  · rw [only j, (F i).get_bool held', if_pos bottom, last]
    split
    · next empty =>
      subst empty
      obtain rfl : data = data' := Option.some.inj done
      rw [Option.getD_none, (F i).bits_bool held, if_pos bottom]
    · rfl
  · have above : b ≠ 0 := fun zero => outside i ⟨by omega, by omega⟩
    rw [getLsbD_held held' above, getLsbD_held held above]
  · have all (ops : List (ι × Assignment CppBool)) : ops.filter (·.1 = i) = ops := by
      rw [List.filter_eq_self]
      intro op _
      exact decide_eq_true (only op.1)
    have listed := same i
    rw [all, all] at listed
    rw [← listed, done] at done'
    exact (Option.some.inj done').symm

end Boolean

/-- For every unsigned type, family of disjoint fields, word and run of assignments whose
assertions pass: the fields are independent unless the type is `bool` and a true word is cleared
by assignments to fields above bit 0 only. -/
theorem fields_independent_iff {F : ι → Bitfield T} {data data' : T.Word}
    {ops : List (ι × Assignment T)} (unsigned : T.signed = false)
    (apart : Pairwise fun i j => (F i).Disjoint (F j)) (held : T.Holds data)
    (done : execAll F data ops = some data') : Independent F data ops data' ↔
      T.boolean = false ∨ data = 0 ∨ ops = [] ∨ ∃ op ∈ ops, (F op.1).N = 0 := by
  cases boolean : T.boolean with
  | false =>
    have binary : T.Binary := ⟨boolean⟩
    exact iff_of_true (.of_binary unsigned apart done) (.inl rfl)
  | true =>
    obtain rfl := T.eq_cppBool boolean
    have word := held boolean
    rw [or_iff_right (by decide)]
    by_cases narrow : ∀ i, (F i).S ≠ 8
    · exact independent_narrow apart narrow word done
    · obtain ⟨i, whole⟩ := not_forall_not.mp narrow
      have bounds := (F i).bounds_bool
      have only (j : ι) : j = i := by
        by_contra ne
        have bounds' := (F j).bounds_bool
        obtain before | after := apart ne <;> omega
      refine iff_of_true (independent_whole only whole word done) (.inr ?_)
      cases ops with
      | nil => exact .inl rfl
      | cons op ops =>
        refine .inr ⟨op, List.mem_cons_self, ?_⟩
        rw [only op.1]
        omega

/-- The first word of `TDHeader_V5`: the fields `tid`, `nid`, `lnid` and `eon`. -/
def tdHeaderTask : Fin 4 → Bitfield U32
  | 0 => ⟨0, 16, Or.inl rfl, by decide, by decide, by decide⟩
  | 1 => ⟨16, 8, Or.inl rfl, by decide, by decide, by decide⟩
  | 2 => ⟨24, 1, Or.inl rfl, by decide, by decide, by decide⟩
  | 3 => ⟨25, 1, Or.inl rfl, by decide, by decide, by decide⟩

theorem tdHeaderTask_apart : Pairwise fun i j => (tdHeaderTask i).Disjoint (tdHeaderTask j) := by
  intro i j ne
  revert i j
  decide

/-- Two fields of a word of ones are changed, one of them twice. -/
theorem fields_independent_iff_tdHeaderTask : ∃ data',
    execAll tdHeaderTask 0xFFFFFFFF [(1, .assign 0x40), (0, .subAssign 1), (1, .addAssign 1)] =
      some data' ∧
    (tdHeaderTask 0).get data' = 0xFFFE ∧ (tdHeaderTask 1).get data' = 0x41 ∧
      data'.getLsbD 31 = true := by
  have done : execAll tdHeaderTask 0xFFFFFFFF
      [(1, .assign 0x40), (0, .subAssign 1), (1, .addAssign 1)] = some 0xFF41FFFE := by
    decide +kernel
  have independent := (fields_independent_iff rfl tdHeaderTask_apart (fun boolean => by cases boolean)
    done).mpr (.inl rfl)
  refine ⟨_, done, (independent.fields 0).trans ?_, (independent.fields 1).trans ?_,
    (independent.others 31 ?_).trans ?_⟩
  · decide +kernel
  · decide +kernel
  · decide +kernel
  · decide +kernel

/-- One bit of type `bool` above bit 0. -/
def secondBit : Unit → Bitfield CppBool :=
  fun _ => ⟨1, 1, Or.inl rfl, by decide, by decide, by decide⟩

/-- Clearing it clears the bit below. -/
theorem not_independent_secondBit : CppBool.signed = false ∧ CppBool.Holds 1 ∧
    (Pairwise fun i j => (secondBit i).Disjoint (secondBit j)) ∧
    execAll secondBit 1 [((), .assign 0)] = some 0 ∧
      ¬ Independent secondBit 1 [((), .assign 0)] 0 := by
  refine ⟨rfl, fun _ => .inr rfl, fun i j ne => absurd rfl ne, by decide +kernel, ?_⟩
  intro independent
  exact absurd (independent.others 0 (by decide)) (by decide)

end Families

end Ane.Libane
