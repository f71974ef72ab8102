import Ane.Bitfield

/-! Fields of signed types. The field is moved to the top of the word and back down, so that its
sign fills what is above it. The moves are made on the promoted word, though: for a type shorter
than `int` the top of the type is not the top of the word, and only a field that ends there has
its sign extended. -/
namespace Ane.Libane.Bitfield
open IntType

variable {T : IntType} {v data : T.Word} (f : Bitfield T)

section Reading

/-- Beyond the word a signed operand has its sign. -/
theorem getLsbD_promote_signed (signed : T.signed = true) (x : T.Word) {i : Nat}
    (high : T.bits ≤ i) (inside : i < T.promotedBits) : (promote x).getLsbD i = x.msb := by
  rw [promote, if_pos signed, BitVec.getLsbD_signExtend, if_neg (Nat.not_lt_of_le high),
    decide_eq_true inside, Bool.true_and]

theorem msb_mask [T.Binary] : f.mask.msb = decide (f.N + f.S = T.bits) := by
  have inside := f.inside
  have positive := f.positive
  rw [BitVec.msb_eq_getLsbD_last, f.getLsbD_mask (by omega)]
  simp only [Covers]
  grind

/-- A field that may be extended: the word is not promoted, or the field ends where it does. -/
def Extends : Prop := 32 ≤ T.bits ∨ f.N + f.S = T.bits

instance : Decidable f.Extends := inferInstanceAs (Decidable (_ ∨ _))

/-- The masked word holds the bits of the field, and above the word ones if the field ends with
the word and is negative. -/
theorem getLsbD_masked [T.Binary] (signed : T.signed = true) (data : T.Word) {i : Nat}
    (inside : i < T.promotedBits) : (promote data &&& promote f.mask).getLsbD i =
      if i < T.bits then data.getLsbD i && decide (f.Covers i)
      else data.msb && decide (f.N + f.S = T.bits) := by
  rw [BitVec.getLsbD_and]
  split
  · rename_i below
    rw [getLsbD_promote data below, getLsbD_promote f.mask below, f.getLsbD_mask below]
  · rename_i above
    rw [getLsbD_promote_signed signed data (Nat.le_of_not_lt above) inside,
      getLsbD_promote_signed signed f.mask (Nat.le_of_not_lt above) inside, f.msb_mask]

/-- The two shifts bring down the bits from the start of the field on, as far as the promoted
word goes, and repeat the last of them. -/
theorem getLsbD_get [T.Binary] (signed : T.signed = true) (data : T.Word) {i : Nat} (below : i < T.bits) :
    (f.get data).getLsbD i =
      if T.bits - f.S + i < T.promotedBits then (promote data &&& promote f.mask).getLsbD (f.N + i)
      else (promote data &&& promote f.mask).getLsbD
        (T.promotedBits - 1 - (T.bits - f.S - f.N)) := by
  have inside := f.inside
  have positive := f.positive
  have wide := T.bits_le_promoted
  have extended : T.promotedSigned = true := by rw [promotedSigned, signed, Bool.true_or]
  rw [get, if_pos signed, getLsbD_convert _ below, shiftRight, if_pos extended,
    BitVec.getLsbD_sshiftRight, decide_eq_false (by omega), Bool.not_false, Bool.true_and,
    bitsFree, bitsData, bitsUsed, shift_eq]
  split
  · rename_i low
    rw [BitVec.getLsbD_shiftLeft, decide_eq_true low, decide_eq_false (by omega), Bool.not_false,
      Bool.true_and, Bool.true_and]
    congr 1
    omega
  · rw [BitVec.msb_eq_getLsbD_last, BitVec.getLsbD_shiftLeft, decide_eq_true (by omega),
      decide_eq_false (by omega), Bool.not_false, Bool.true_and, Bool.true_and]

/-- Bit `i` of a field of a word. -/
theorem getLsbD_bits (data : T.Word) (i : Nat) :
    (f.bits data).getLsbD i = (decide (i < f.S) && data.getLsbD (f.N + i)) :=
  BitVec.getLsbD_extractLsb' f.N f.S data i

theorem msb_bits (data : T.Word) : (f.bits data).msb = data.getLsbD (f.N + f.S - 1) := by
  have positive := f.positive
  rw [BitVec.msb_eq_getLsbD_last, getLsbD_bits, decide_eq_true (by omega), Bool.true_and]
  congr 1
  omega

/-- A field is read with its sign if it may be extended, and as a number otherwise. -/
theorem get_signed [T.Binary] (signed : T.signed = true) (data : T.Word) : f.get data =
    if f.Extends then (f.bits data).signExtend T.bits else (f.bits data).setWidth T.bits := by
  have inside := f.inside
  have positive := f.positive
  have standard := T.standard
  apply BitVec.eq_of_getLsbD_eq
  intro i below
  rw [f.getLsbD_get signed data below]
  by_cases whole : 32 ≤ T.bits
  · have extended : f.Extends := Or.inl whole
    have width : T.promotedBits = T.bits := if_neg (Nat.not_lt_of_le whole)
    rw [if_pos extended, BitVec.getLsbD_signExtend, decide_eq_true below, Bool.true_and, msb_bits,
      getLsbD_bits]
    by_cases field : i < f.S
    · have covered : f.Covers (f.N + i) := ⟨Nat.le_add_right _ _, by omega⟩
      rw [if_pos (by omega), if_pos field, f.getLsbD_masked signed data (by omega),
        if_pos (by omega), decide_eq_true covered, decide_eq_true field, Bool.true_and,
        Bool.and_true]
    · have last : T.promotedBits - 1 - (T.bits - f.S - f.N) = f.N + f.S - 1 := by omega
      have covered : f.Covers (f.N + f.S - 1) := ⟨by omega, by omega⟩
      rw [if_neg (by omega), if_neg field, last, f.getLsbD_masked signed data (by omega),
        if_pos (by omega), decide_eq_true covered, Bool.and_true]
  · have width : T.promotedBits = 32 := if_pos (Nat.lt_of_not_le whole)
    rw [if_pos (by omega), f.getLsbD_masked signed data (by omega)]
    by_cases ends : f.N + f.S = T.bits
    · have extended : f.Extends := Or.inr ends
      rw [if_pos extended, BitVec.getLsbD_signExtend, decide_eq_true below, Bool.true_and,
        msb_bits, getLsbD_bits, ends, BitVec.msb_eq_getLsbD_last]
      by_cases field : i < f.S
      · have covered : f.Covers (f.N + i) := ⟨Nat.le_add_right _ _, by omega⟩
        rw [if_pos (by omega), if_pos field, decide_eq_true covered, decide_eq_true field,
          Bool.true_and, Bool.and_true]
      · rw [if_neg (by omega), if_neg field, decide_eq_true rfl, Bool.and_true]
    · have number : ¬ f.Extends := fun extended => extended.elim whole ends
      have covers : f.Covers (f.N + i) ↔ i < f.S := by
        simp only [Covers]
        omega
      rw [if_neg number, BitVec.getLsbD_setWidth, decide_eq_true below, Bool.true_and,
        getLsbD_bits]
      split
      · rw [decide_eq_decide.mpr covers, Bool.and_comm]
      · rename_i above
        rw [decide_eq_false ends, decide_eq_false (by omega), Bool.and_false, Bool.false_and]

end Reading

section Values

theorem S_le (f : Bitfield T) : f.S ≤ T.bits := by
  have := f.inside
  omega

/-- The bits of a value of the field are its value again. -/
theorem toInt_setWidth_of_range (low : -2 ^ (f.S - 1) ≤ v.toInt)
    (high : v.toInt ≤ 2 ^ (f.S - 1) - 1) : (v.setWidth f.S).toInt = v.toInt := by
  have half : (2 : Int) ^ f.S = 2 * 2 ^ (f.S - 1) := by
    rw [← pow_succ', Nat.sub_add_cancel f.positive]
  rw [← BitVec.signExtend_eq_setWidth_of_le v f.S_le, BitVec.toInt_signExtend,
    Nat.min_eq_left f.S_le]
  apply Int.bmod_eq_of_le_mul_two
  · push_cast
    omega
  · push_cast
    omega

/-- With its sign extended a field is read as what its bits say. -/
theorem toInt_get_of_extends [T.Binary] (signed : T.signed = true) (extended : f.Extends) (data : T.Word) :
    (f.get data).toInt = (f.bits data).toInt := by
  rw [f.get_signed signed, if_pos extended, BitVec.toInt_signExtend_of_le f.S_le]

/-- Else it is read as the number its bits make, which is another value for the negative ones. -/
theorem toInt_get_of_not_extends [T.Binary] (signed : T.signed = true) (number : ¬ f.Extends)
    (data : T.Word) : (f.get data).toInt = (f.bits data).toNat := by
  have inside := f.inside
  have short : f.S < T.bits := by
    have other : f.N + f.S ≠ T.bits := fun ends => number (Or.inr ends)
    omega
  have small : (f.bits data).toNat < 2 ^ f.S := (f.bits data).isLt
  have width : 2 ^ f.S * 2 ≤ 2 ^ T.bits := by
    rw [← pow_succ]
    exact Nat.pow_le_pow_right (by decide) short
  have same : ((f.bits data).setWidth T.bits).toNat = (f.bits data).toNat :=
    BitVec.toNat_setWidth_of_le f.S_le
  rw [f.get_signed signed, if_neg number, BitVec.toInt_eq_toNat_of_lt (by omega), same]

theorem toNat_eq_toInt_iff {w : Nat} (x : BitVec w) : (x.toNat : Int) = x.toInt ↔ 0 ≤ x.toInt := by
  have small := x.isLt
  rw [BitVec.toInt_eq_toNat_cond]
  split
  · simp
  · constructor <;> intro <;> omega

/-- What an assignment of `v` and a reading of a word are to do: the assertions pass, the bits
outside the field stay, the value is read back, and a word is read as the two's complement
value of the bits of the field. -/
structure Faithful (f : Bitfield T) (v data : T.Word) : Prop where
  assigned : ∃ data', f.assign v data = some data' ∧ f.get data' = v ∧
    ∀ i < T.bits, ¬ f.Covers i → data'.getLsbD i = data.getLsbD i
  read : (f.get data).toInt = (f.bits data).toInt

/-- Assertions and other bits are in order for every value that the field has bits for; what
is left are the two readings. -/
theorem faithful_iff_readings [T.Binary] (signed : T.signed = true) (low : -2 ^ (f.S - 1) ≤ v.toInt)
    (high : v.toInt ≤ 2 ^ (f.S - 1) - 1) (data : T.Word) : f.Faithful v data ↔
      f.get (f.put v data) = v ∧ (f.get data).toInt = (f.bits data).toInt := by
  have passes : f.InRange v := by
    rw [f.inRange_iff, value, if_pos signed, if_pos signed, if_pos signed]
    exact ⟨low, high⟩
  have stored : f.assign v data = some (f.put v data) := if_pos passes
  constructor
  · rintro ⟨⟨data', assigned, back, -⟩, read⟩
    obtain rfl : f.put v data = data' := Option.some.inj (stored.symm.trans assigned)
    exact ⟨back, read⟩
  · rintro ⟨back, read⟩
    refine ⟨⟨_, stored, back, fun i below other => ?_⟩, read⟩
    rw [f.getLsbD_put v data below, if_neg other]

/-- For every field of a signed type, every word and every value that the field has bits for. -/
theorem faithful_iff (signed : T.signed = true) (f : Bitfield T) (data : T.Word)
    (low : -2 ^ (f.S - 1) ≤ v.toInt) (high : v.toInt ≤ 2 ^ (f.S - 1) - 1) :
    f.Faithful v data ↔
      32 ≤ T.bits ∨ f.N + f.S = T.bits ∨ (0 ≤ v.toInt ∧ (f.bits data).msb = false) := by
  have binary := binary_of_signed signed
  have again : (f.bits (f.put v data)).toInt = v.toInt := by
    rw [f.bits_put, f.toInt_setWidth_of_range low high]
  rw [f.faithful_iff_readings signed low high, ← or_assoc]
  by_cases extended : f.Extends
  · refine ⟨fun _ => Or.inl extended, fun _ => ⟨?_, f.toInt_get_of_extends signed extended data⟩⟩
    apply BitVec.eq_of_toInt_eq
    rw [f.toInt_get_of_extends signed extended, again]
  · have back : f.get (f.put v data) = v ↔ 0 ≤ v.toInt := by
      rw [← BitVec.toInt_inj, f.toInt_get_of_not_extends signed extended, ← again]
      exact toNat_eq_toInt_iff _
    have read : (f.get data).toInt = (f.bits data).toInt ↔ (f.bits data).msb = false := by
      rw [f.toInt_get_of_not_extends signed extended, toNat_eq_toInt_iff, BitVec.msb_eq_toInt]
      simp
    rw [back, read]
    exact (or_iff_right extended).symm

def S08 : IntType := ⟨8, true, false, one_byte, by decide⟩

/-- The low four bits of an `int8_t`. -/
def lowNibble : Bitfield S08 := ⟨0, 4, Or.inr (by decide), by decide, by decide, by decide⟩

/-- The least value is read back as a positive one. -/
theorem not_faithful_lowNibble : (0xF8 : S08.Word).toInt = -2 ^ (lowNibble.S - 1) ∧
    lowNibble.assign 0xF8 0 = some 0x08 ∧ lowNibble.get 0x08 = 8 ∧
      ¬ lowNibble.Faithful 0xF8 0 := by
  have stored : lowNibble.assign 0xF8 0 = some 0x08 := by decide +kernel
  have read : lowNibble.get 0x08 = 8 := by decide +kernel
  refine ⟨by decide, stored, read, ?_⟩
  rintro ⟨⟨data', assigned, back, -⟩, -⟩
  obtain rfl : 0x08 = data' := Option.some.inj (stored.symm.trans assigned)
  rw [read] at back
  exact absurd back (by decide)

/-- The same value in the upper four bits, with ones below. -/
theorem faithful_highNibble :
    Faithful ⟨4, 4, Or.inr (by decide), by decide, by decide, by decide⟩ (0xF8 : S08.Word) 0x0F :=
  (faithful_iff rfl _ 0x0F (by decide) (by decide)).mpr (Or.inr (Or.inl rfl))

end Values

end Ane.Libane.Bitfield
