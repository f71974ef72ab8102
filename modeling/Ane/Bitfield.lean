import Ane.Cells
import Mathlib.Logic.Pairwise
import Mathlib.Tactic.Linarith
import Mathlib.Tactic.Positivity
import Mathlib.Tactic.Ring

/-! The bit fields of the task descriptors. A field of an integral type is read and written
with the usual promotions: an operand shorter than `int` is converted to `int` first, and the
result is cut back, to `bool` by comparing it with 0. Shifts of signed operands are those of
C++20. -/
namespace Ane.Libane
open Cells

/-- A standard integral type, `bits` being `sizeof(T) * CHAR_BIT`. The type `bool` is one. -/
structure IntType where
  bits : Nat
  signed : Bool
  boolean : Bool
  standard : bits = 8 ∨ bits = 16 ∨ bits = 32 ∨ bits = 64
  ofBoolean : boolean = true → bits = 8 ∧ signed = false
deriving DecidableEq

namespace IntType
variable (T : IntType)

abbrev Word : Type := BitVec T.bits

def promotedBits : Nat := if T.bits < 32 then 32 else T.bits

/-- Types shorter than `int` become `int`, also the unsigned ones. -/
def promotedSigned : Bool := T.signed || T.bits < 32

abbrev Promoted : Type := BitVec T.promotedBits

variable {T}

def promote (x : T.Word) : T.Promoted :=
  if T.signed then x.signExtend T.promotedBits else x.setWidth T.promotedBits

/-- Conversion to the type. -/
def convert {w : Nat} (x : BitVec w) : T.Word :=
  if T.boolean then if x = 0 then 0 else 1 else x.setWidth T.bits

def shiftRight (x : T.Promoted) (n : Nat) : T.Promoted :=
  if T.promotedSigned then x.sshiftRight n else x >>> n

/-- The value of a word. Promotion keeps it, so values are compared by it. -/
def value (x : T.Word) : Int := if T.signed then x.toInt else x.toNat

/-- `std::numeric_limits<T>::max()` and `min()`. -/
def numericMax : T.Word :=
  if T.signed then BitVec.intMax T.bits else if T.boolean then 1 else BitVec.allOnes T.bits
def numericMin : T.Word := if T.signed then BitVec.intMin T.bits else 0

/-- The words that an object of the type can be; only of a `bool` some cannot. -/
def Holds (data : T.Word) : Prop := T.boolean = true → data = 0 ∨ data = 1

end IntType

/-- `Bitfield<T, N, S>` with its static assertions; and `mask` is only a constant if
`UINT64_C(1)` may be shifted by `S`. -/
structure Bitfield (T : IntType) where
  N : Nat
  S : Nat
  signedLength : T.signed = false ∨ S > 1
  inside : N + S ≤ T.bits
  positive : S > 0
  short : S < 64

namespace Bitfield
open IntType
variable {T : IntType} (f : Bitfield T)

def bitsUsed : Nat := f.S
def bitsData (_ : Bitfield T) : Nat := T.bits
def bitsFree : Nat := f.bitsData - f.bitsUsed

def max : T.Word := convert (shiftRight (promote (numericMax : T.Word)) f.bitsFree)
def min : T.Word := convert (shiftRight (promote (numericMin : T.Word)) f.bitsFree)

def mask : T.Word := convert ((((1 : BitVec 64) <<< f.S) - 1) <<< f.N)
def shift : Nat := (convert (BitVec.ofNat 64 f.N) : T.Word).toNat

/-- `operator T`. -/
def get (data : T.Word) : T.Word :=
  if T.signed then
    convert (shiftRight ((promote data &&& promote f.mask) <<< (f.bitsFree - f.shift)) f.bitsFree)
  else convert (shiftRight (promote data &&& promote f.mask) f.shift)

/-- The word that `operator=` stores. -/
def put (value data : T.Word) : T.Word :=
  convert ((promote data &&& ~~~ promote f.mask) ||| ((promote value <<< f.shift) &&& promote f.mask))

/-- The two assertions of `operator=`. -/
def InRange (value : T.Word) : Prop :=
  IntType.value value ≥ IntType.value f.min ∧ IntType.value value ≤ IntType.value f.max

instance (value : T.Word) : Decidable (f.InRange value) := inferInstanceAs (Decidable (_ ∧ _))

/-- `operator=`, if its assertions pass. -/
def assign (value data : T.Word) : Option T.Word :=
  if f.InRange value then some (f.put value data) else none

/-- Sums and differences wrap, also the signed ones whose overflow C++ leaves undefined. -/
def addAssign (rhs data : T.Word) : Option T.Word :=
  f.assign (convert (promote (f.get data) + promote rhs)) data

def subAssign (rhs data : T.Word) : Option T.Word :=
  f.assign (convert (promote (f.get data) - promote rhs)) data

end Bitfield

/-- The types whose conversions cut off high bits, all but `bool`. -/
class IntType.Binary (T : IntType) : Prop where
  plain : T.boolean = false

theorem IntType.binary_of_signed {T : IntType} (signed : T.signed = true) : T.Binary := by
  refine ⟨Bool.eq_false_iff.mpr fun boolean => ?_⟩
  rw [(T.ofBoolean boolean).2] at signed
  cases signed

section Promotion
open IntType
variable {T : IntType}

theorem convert_eq [T.Binary] {w : Nat} (x : BitVec w) : (convert x : T.Word) = x.setWidth T.bits := by
  rw [convert, Binary.plain, if_neg Bool.false_ne_true]

theorem IntType.bits_le (T : IntType) : T.bits ≤ 64 := by
  have := T.standard
  omega

theorem IntType.bits_pos (T : IntType) : 0 < T.bits := by
  have := T.standard
  omega

theorem IntType.bits_le_promoted (T : IntType) : T.bits ≤ T.promotedBits := by
  rw [promotedBits]
  split <;> omega

theorem getLsbD_promote (x : T.Word) {i : Nat} (below : i < T.bits) :
    (promote x).getLsbD i = x.getLsbD i := by
  have wide := T.bits_le_promoted
  have inside : i < T.promotedBits := by omega
  rw [promote]
  split
  · rw [BitVec.getLsbD_signExtend, if_pos below, decide_eq_true inside, Bool.true_and]
  · rw [BitVec.getLsbD_setWidth, decide_eq_true inside, Bool.true_and]

/-- An unsigned operand is followed by zeros. -/
theorem getLsbD_promote_unsigned (unsigned : T.signed = false) (x : T.Word) (i : Nat) :
    (promote x).getLsbD i = x.getLsbD i := by
  by_cases below : i < T.bits
  · exact getLsbD_promote x below
  · rw [promote, unsigned, BitVec.getLsbD_of_ge x i (by omega)]
    simp [BitVec.getLsbD_of_ge x i (by omega)]

theorem getLsbD_convert [T.Binary] {w : Nat} (x : BitVec w) {i : Nat} (below : i < T.bits) :
    (convert x : T.Word).getLsbD i = x.getLsbD i := by
  rw [convert_eq, BitVec.getLsbD_setWidth, decide_eq_true below, Bool.true_and]

/-- What was an unsigned operand is shifted like a number, whatever it was promoted to. -/
theorem getLsbD_shiftRight_unsigned (unsigned : T.signed = false) (x : T.Promoted)
    (zeros : ∀ i, T.bits ≤ i → x.getLsbD i = false) (n i : Nat) :
    (shiftRight x n).getLsbD i = x.getLsbD (n + i) := by
  rw [shiftRight]
  split
  · rename_i extended
    have narrow : T.bits < 32 := by simpa [promotedSigned, unsigned] using extended
    have width : T.promotedBits = 32 := if_pos narrow
    have positive : x.msb = false := by
      rw [BitVec.msb_eq_getLsbD_last]
      exact zeros _ (by omega)
    rw [BitVec.sshiftRight_eq_of_msb_false positive, BitVec.getLsbD_ushiftRight]
  · exact BitVec.getLsbD_ushiftRight x n i

/-- The value of a promoted word. -/
def IntType.promotedValue (x : T.Promoted) : Int :=
  if T.promotedSigned then x.toInt else x.toNat

theorem promotedValue_promote (x : T.Word) : promotedValue (promote x) = value x := by
  have wide := T.bits_le_promoted
  cases signed : T.signed with
  | true => simp [promotedValue, promotedSigned, promote, value, signed,
      BitVec.toInt_signExtend_of_le wide]
  | false =>
    have number : (x.setWidth T.promotedBits).toNat = x.toNat := BitVec.toNat_setWidth_of_le wide
    by_cases narrow : T.bits < 32
    · have width : T.promotedBits = 32 := if_pos narrow
      have small : 2 ^ T.bits ≤ 2 ^ 31 := Nat.pow_le_pow_right (by decide) (by omega)
      have half : 2 * (x.setWidth T.promotedBits).toNat < 2 ^ T.promotedBits := by
        rw [number, width]
        have := x.isLt
        omega
      simp [promotedValue, promotedSigned, promote, value, signed, narrow,
        BitVec.toInt_eq_toNat_of_lt half, number]
    · simp [promotedValue, promotedSigned, promote, value, signed, narrow, number]

theorem promotedValue_shiftRight (x : T.Promoted) (n : Nat) :
    promotedValue (shiftRight x n) = promotedValue x / 2 ^ n := by
  rw [promotedValue, promotedValue, shiftRight]
  split
  · rw [BitVec.toInt_sshiftRight, Int.shiftRight_eq_div_pow]
    simp
  · rw [BitVec.toNat_ushiftRight, Nat.shiftRight_eq_div_pow]
    simp

theorem value_numericMax [T.Binary] : value (T := T) numericMax =
    if T.signed then 2 ^ (T.bits - 1) - 1 else 2 ^ T.bits - 1 := by
  have one : 1 ≤ 2 ^ T.bits := Nat.one_le_two_pow
  rw [value, numericMax, Binary.plain, if_neg Bool.false_ne_true]
  split
  · exact BitVec.toInt_intMax
  · rw [BitVec.toNat_allOnes, Int.natCast_sub one]
    simp

theorem value_numericMin : value (T := T) numericMin =
    if T.signed then -2 ^ (T.bits - 1) else 0 := by
  have less : 2 ^ (T.bits - 1) < 2 ^ T.bits :=
    Nat.pow_lt_pow_right (by decide) (Nat.sub_one_lt (Nat.ne_of_gt T.bits_pos))
  rw [value, numericMin]
  split
  · rw [BitVec.toInt_intMin, Nat.mod_eq_of_lt less]
    simp
  · simp

/-- A value that the type has is kept by the conversion to it. -/
theorem value_convert [T.Binary] (x : T.Promoted) (low : value (T := T) numericMin ≤ promotedValue x)
    (high : promotedValue x ≤ value (T := T) numericMax) :
    value (convert x : T.Word) = promotedValue x := by
  rw [value_numericMin] at low
  rw [value_numericMax] at high
  cases signed : T.signed with
  | true =>
    simp only [promotedValue, promotedSigned, signed, Bool.true_or, if_true] at low high ⊢
    have half : (2 : Int) ^ T.bits = 2 * 2 ^ (T.bits - 1) := by
      rw [← pow_succ', Nat.sub_add_cancel T.bits_pos]
    rw [value, if_pos signed, convert_eq, ← BitVec.signExtend_eq_setWidth_of_le x T.bits_le_promoted,
      BitVec.toInt_signExtend, Nat.min_eq_left T.bits_le_promoted]
    apply Int.bmod_eq_of_le_mul_two
    · push_cast
      omega
    · push_cast
      omega
  | false =>
    simp only [signed, Bool.false_eq_true, if_false] at low high
    have number : promotedValue x = x.toNat := by
      rw [promotedValue] at low ⊢
      split at low
      · rename_i extended
        rw [if_pos extended]
        have positive : x.msb = false := by
          rw [BitVec.msb_eq_toInt]
          exact decide_eq_false (Int.not_lt_of_ge low)
        exact BitVec.toInt_eq_toNat_of_msb positive
      · rename_i plain
        rw [if_neg plain]
    have small : x.toNat < 2 ^ T.bits := by
      rw [number] at high
      have := Int.lt_of_le_sub_one high
      exact_mod_cast this
    rw [number, value, signed, convert_eq, BitVec.toNat_setWidth, Nat.mod_eq_of_lt small]
    rfl

/-- Every word is between the limits, and so is 0. -/
theorem value_bounds [T.Binary] (x : T.Word) :
    value (T := T) numericMin ≤ value x ∧ value x ≤ value (T := T) numericMax := by
  rw [value_numericMin, value_numericMax, value]
  split
  · exact ⟨x.le_toInt, Int.le_sub_one_of_lt x.toInt_lt⟩
  · have small : (x.toNat : Int) < 2 ^ T.bits := by exact_mod_cast x.isLt
    exact ⟨Int.natCast_nonneg _, Int.le_sub_one_of_lt small⟩

/-- A word shifted right and converted back has its value divided. -/
theorem value_shiftRight [T.Binary] (x : T.Word) (n : Nat) :
    value (convert (shiftRight (promote x) n) : T.Word) = value x / 2 ^ n := by
  have quotient : promotedValue (shiftRight (promote x) n) = value x / 2 ^ n := by
    rw [promotedValue_shiftRight, promotedValue_promote]
  have positive : (0 : Int) < 2 ^ n := by positivity
  have zero : value (0 : T.Word) = 0 := by simp [value]
  obtain ⟨low, high⟩ := value_bounds x
  obtain ⟨low₀, high₀⟩ := value_bounds (0 : T.Word)
  rw [zero] at low₀ high₀
  rw [value_convert, quotient]
  · rw [quotient]
    apply Int.le_ediv_of_mul_le positive
    nlinarith
  · rw [quotient]
    apply Int.ediv_le_of_le_mul positive
    nlinarith

end Promotion

namespace Bitfield
open IntType
variable {T : IntType} (f : Bitfield T)

/-- The bits of the word that belong to the field. -/
def Covers (i : Nat) : Prop := f.N ≤ i ∧ i < f.N + f.S

instance (i : Nat) : Decidable (f.Covers i) := inferInstanceAs (Decidable (_ ∧ _))

theorem getLsbD_ones {S : Nat} (short : S < 64) (i : Nat) :
    (((1 : BitVec 64) <<< S) - 1).getLsbD i = decide (i < S) := by
  have pow : 2 ^ S < 2 ^ 64 := Nat.pow_lt_pow_right (by decide) short
  have one : 1 ≤ 2 ^ S := Nat.one_le_two_pow
  have ones : (((1 : BitVec 64) <<< S) - 1).toNat = 2 ^ S - 1 := by
    have unit : (1 : BitVec 64).toNat = 1 := rfl
    rw [BitVec.toNat_sub, BitVec.toNat_shiftLeft, unit, Nat.one_shiftLeft]
    omega
  rw [← BitVec.testBit_toNat, ones, Nat.testBit_two_pow_sub_one]

theorem getLsbD_mask [T.Binary] {i : Nat} (below : i < T.bits) : f.mask.getLsbD i = decide (f.Covers i) := by
  have small : i < 64 := Nat.lt_of_lt_of_le below T.bits_le
  rw [mask, getLsbD_convert _ below, BitVec.getLsbD_shiftLeft, getLsbD_ones f.short]
  simp only [Covers]
  grind

theorem shift_eq [T.Binary] : f.shift = f.N := by
  have inside := f.inside
  have positive := f.positive
  have wide := T.bits_le
  have standard := T.standard
  have bits : T.bits < 2 ^ T.bits := Nat.lt_two_pow_self
  rw [shift, convert_eq, BitVec.toNat_setWidth, BitVec.toNat_ofNat, Nat.mod_eq_of_lt (by omega),
    Nat.mod_eq_of_lt (by omega)]

/-- An assignment writes the bits of the field and no others. -/
theorem getLsbD_put [T.Binary] (value data : T.Word) {i : Nat} (below : i < T.bits) :
    (f.put value data).getLsbD i =
      if f.Covers i then value.getLsbD (i - f.N) else data.getLsbD i := by
  have inside : i < T.promotedBits := Nat.lt_of_lt_of_le below T.bits_le_promoted
  have bit : (promote value).getLsbD (i - f.N) = value.getLsbD (i - f.N) :=
    getLsbD_promote value (by omega)
  rw [put, getLsbD_convert _ below]
  simp only [BitVec.getLsbD_or, BitVec.getLsbD_and, BitVec.getLsbD_not, BitVec.getLsbD_shiftLeft,
    getLsbD_promote _ below, getLsbD_mask f below, bit, decide_eq_true inside, shift_eq]
  by_cases covered : f.Covers i
  · have from_ : ¬ i < f.N := Nat.not_lt_of_le covered.1
    simp [covered, from_]
  · simp [covered]

/-- The bits of a field of a word. -/
def bits (data : T.Word) : BitVec f.S := data.extractLsb' f.N f.S

theorem get_unsigned [T.Binary] (unsigned : T.signed = false) (data : T.Word) :
    f.get data = (f.bits data).setWidth T.bits := by
  apply BitVec.eq_of_getLsbD_eq
  intro i below
  have masked (j : Nat) : (promote data &&& promote f.mask).getLsbD j =
      (data.getLsbD j && decide (f.Covers j)) := by
    rw [BitVec.getLsbD_and, getLsbD_promote_unsigned unsigned, getLsbD_promote_unsigned unsigned]
    by_cases inside : j < T.bits
    · rw [getLsbD_mask f inside]
    · rw [BitVec.getLsbD_of_ge data j (by omega), Bool.false_and, Bool.false_and]
  have zeros (j : Nat) (high : T.bits ≤ j) :
      (promote data &&& promote f.mask).getLsbD j = false := by
    rw [masked, BitVec.getLsbD_of_ge data j high, Bool.false_and]
  simp only [get, unsigned, Bool.false_eq_true, if_false]
  rw [getLsbD_convert _ below, getLsbD_shiftRight_unsigned unsigned _ zeros, masked, bits,
    BitVec.getLsbD_setWidth, BitVec.getLsbD_extractLsb', shift_eq]
  simp only [Covers]
  grind

/-- A division by a power of two keeps the number of ones. -/
theorem ones_div {b k : Nat} (le : k ≤ b) : ((2 : Int) ^ b - 1) / 2 ^ (b - k) = 2 ^ k - 1 := by
  have split : (2 : Int) ^ b = 2 ^ (b - k) * 2 ^ k := by
    rw [← pow_add, Nat.sub_add_cancel le]
  have positive : (0 : Int) < 2 ^ (b - k) := by positivity
  have parts : (2 : Int) ^ b - 1 = 2 ^ (b - k) * (2 ^ k - 1) + (2 ^ (b - k) - 1) := by
    rw [split]
    ring
  rw [parts, Int.mul_add_ediv_left _ _ positive.ne']
  rw [Int.ediv_eq_zero_of_lt (by omega) (by omega), Int.add_zero]

/-- The largest value of the field, as its assertions have it. -/
theorem value_max [T.Binary] : value f.max = if T.signed then 2 ^ (f.S - 1) - 1 else 2 ^ f.S - 1 := by
  have inside := f.inside
  have positive := f.positive
  rw [max, value_shiftRight, value_numericMax, bitsFree, bitsData, bitsUsed]
  split
  · have width : T.bits - f.S = T.bits - 1 - (f.S - 1) := by omega
    rw [width]
    exact ones_div (by omega)
  · exact ones_div (by omega)

/-- The least value of the field. -/
theorem value_min [T.Binary] : value f.min = if T.signed then -2 ^ (f.S - 1) else 0 := by
  have inside := f.inside
  have positive := f.positive
  rw [min, value_shiftRight, value_numericMin, bitsFree, bitsData, bitsUsed]
  split
  · have width : T.bits - 1 = T.bits - f.S + (f.S - 1) := by omega
    rw [width, pow_add, ← Int.mul_neg]
    exact Int.mul_ediv_cancel_left _ (by positivity)
  · exact Int.zero_ediv _

theorem inRange_iff [T.Binary] (v : T.Word) : f.InRange v ↔
    (if T.signed then -2 ^ (f.S - 1) else 0) ≤ value v ∧
      value v ≤ if T.signed then 2 ^ (f.S - 1) - 1 else 2 ^ f.S - 1 := by
  rw [InRange, f.value_min, f.value_max]

/-- What an unsigned field may be assigned fits into its bits. -/
theorem lt_of_inRange [T.Binary] (unsigned : T.signed = false) {v : T.Word} (valid : f.InRange v) :
    v.toNat < 2 ^ f.S := by
  have high := ((f.inRange_iff v).mp valid).2
  simp only [unsigned, value, Bool.false_eq_true, if_false] at high
  have := Int.lt_of_le_sub_one high
  exact_mod_cast this

/-- The bits read back are those of the value assigned. -/
theorem bits_put [T.Binary] (v data : T.Word) : f.bits (f.put v data) = v.setWidth f.S := by
  have inside := f.inside
  apply BitVec.eq_of_getLsbD_eq
  intro i below
  have covered : f.Covers (f.N + i) := ⟨Nat.le_add_right _ _, by omega⟩
  rw [bits, BitVec.getLsbD_extractLsb', BitVec.getLsbD_setWidth, f.getLsbD_put v data (by omega),
    if_pos covered, Nat.add_sub_cancel_left]

theorem get_put [T.Binary] (unsigned : T.signed = false) {v : T.Word} (data : T.Word) (valid : f.InRange v) :
    f.get (f.put v data) = v := by
  have small := f.lt_of_inRange unsigned valid
  rw [f.get_unsigned unsigned, f.bits_put]
  apply BitVec.eq_of_toNat_eq
  rw [BitVec.toNat_setWidth, BitVec.toNat_setWidth, Nat.mod_eq_of_lt small, Nat.mod_eq_of_lt v.isLt]

/-- Two fields that share no bit. -/
def Disjoint (g : Bitfield T) : Prop := f.N + f.S ≤ g.N ∨ g.N + g.S ≤ f.N

instance (g : Bitfield T) : Decidable (f.Disjoint g) := inferInstanceAs (Decidable (_ ∨ _))

variable {f} in
theorem Disjoint.bits_put [T.Binary] {g : Bitfield T} (apart : f.Disjoint g) (v data : T.Word) :
    g.bits (f.put v data) = g.bits data := by
  have inside := g.inside
  apply BitVec.eq_of_getLsbD_eq
  intro i below
  have outside : ¬ f.Covers (g.N + i) := by
    rintro ⟨low, high⟩
    rcases apart with before | after <;> omega
  rw [bits, bits, BitVec.getLsbD_extractLsb', BitVec.getLsbD_extractLsb',
    f.getLsbD_put v data (by omega), if_neg outside]

end Bitfield

section Families
open IntType Bitfield

/-- The operators that assign to a field. -/
inductive Assignment (T : IntType)
  | assign (value : T.Word)
  | addAssign (rhs : T.Word)
  | subAssign (rhs : T.Word)

variable {T : IntType} {ι : Type*}

/-- The value with which `operator=` is called, from the value read. -/
def Assignment.value (old : T.Word) : Assignment T → T.Word
  | .assign value => value
  | .addAssign rhs => convert (promote old + promote rhs)
  | .subAssign rhs => convert (promote old - promote rhs)

def Bitfield.exec (f : Bitfield T) (data : T.Word) : Assignment T → Option T.Word
  | .assign value => f.assign value data
  | .addAssign rhs => f.addAssign rhs data
  | .subAssign rhs => f.subAssign rhs data

variable (F : ι → Bitfield T)

/-- Assignments to the fields of one word, one after another, unless an assertion fails. -/
def execAll : T.Word → List (ι × Assignment T) → Option T.Word
  | data, [] => some data
  | data, (i, op) :: ops =>
    match (F i).exec data op with
    | some data => execAll data ops
    | none => none

/-- The value last assigned to field `i`. -/
def lastAssigned [DecidableEq ι] (i : ι) : T.Word → List (ι × Assignment T) → Option T.Word
  | _, [] => none
  | data, (j, op) :: ops =>
    (lastAssigned i ((F j).put (op.value ((F j).get data)) data) ops).or
      (if j = i then some (op.value ((F j).get data)) else none)

variable {F}

theorem Bitfield.exec_eq (f : Bitfield T) (data : T.Word) (op : Assignment T) :
    f.exec data op = f.assign (op.value (f.get data)) data := by
  cases op <;> rfl

/-- Disjoint unsigned fields are independent cells of the word; the rest are the bits that
belong to none. -/
def fieldCells [T.Binary] (unsigned : T.signed = false) (apart : Pairwise fun i j => (F i).Disjoint (F j)) :
    Family T.Word ι T.Word ({b // ∀ i, ¬ (F i).Covers b} → Bool) where
  get i := (F i).get
  put i := (F i).put
  admits i v := decide ((F i).InRange v)
  rest data b := data.getLsbD b.1
  get_put data valid := (F _).get_put unsigned data (of_decide_eq_true valid)
  get_put_of_ne v data ne := by
    rw [(F _).get_unsigned unsigned, (F _).get_unsigned unsigned, (apart ne.symm).bits_put]
  rest_put i v data := by
    funext ⟨b, outside⟩
    by_cases below : b < T.bits
    · simp only [(F i).getLsbD_put v data below, if_neg (outside i)]
    · simp only [BitVec.getLsbD_of_ge _ b (Nat.le_of_not_lt below)]
  ext {data data'} fields rest := by
    apply BitVec.eq_of_getLsbD_eq
    intro b below
    by_cases covered : ∃ i, (F i).Covers b
    · obtain ⟨i, low, high⟩ := covered
      have bit := congrArg (·.getLsbD (b - (F i).N)) (fields i)
      have place : (F i).N + (b - (F i).N) = b := Nat.add_sub_cancel' low
      have inside : b - (F i).N < (F i).S := by omega
      have inside' : b - (F i).N < T.bits := by omega
      simpa [(F i).get_unsigned unsigned, Bitfield.bits, place, inside, inside'] using bit
    · exact congrFun rest ⟨b, fun i here => covered ⟨i, here⟩⟩

/-- An assignment as an update of its cell. -/
def update (op : ι × Assignment T) : Update ι T.Word := (op.1, fun old => op.2.value old)

theorem execAll_eq_run [T.Binary] (unsigned : T.signed = false)
    (apart : Pairwise fun i j => (F i).Disjoint (F j)) (data : T.Word) (ops : List (ι × Assignment T)) :
    execAll F data ops = (fieldCells unsigned apart).run data (ops.map update) := by
  induction ops generalizing data with
  | nil => rfl
  | cons op ops ih =>
    obtain ⟨i, op⟩ := op
    rw [execAll, exec_eq, Bitfield.assign, List.map_cons, Family.run]
    by_cases valid : (F i).InRange (op.value ((F i).get data))
    · rw [if_pos valid]
      exact (ih _).trans (if_pos (decide_eq_true valid)).symm
    · rw [if_neg valid]
      exact (if_neg fun admitted => valid (of_decide_eq_true admitted)).symm

theorem lastAssigned_eq_last [T.Binary] [DecidableEq ι] (unsigned : T.signed = false)
    (apart : Pairwise fun i j => (F i).Disjoint (F j)) (i : ι) (data : T.Word)
    (ops : List (ι × Assignment T)) :
    lastAssigned F i data ops = (fieldCells unsigned apart).last i data (ops.map update) := by
  induction ops generalizing data with
  | nil => rfl
  | cons op ops ih =>
    obtain ⟨j, op⟩ := op
    rw [lastAssigned, ih, List.map_cons, Family.last]
    rfl

/-- For every family of disjoint unsigned fields of a word: after any assignments whose
assertions pass, each field reads as the value last assigned to it, or as its bits if there was
none, and the bits outside the fields are as before; and only the order of the assignments to
each field matters for the word they end in. -/
theorem fields_independent [T.Binary] [DecidableEq ι] (unsigned : T.signed = false)
    (apart : Pairwise fun i j => (F i).Disjoint (F j)) (data : T.Word) :
    (∀ ops data', execAll F data ops = some data' →
      (∀ i, (F i).get data' =
        (lastAssigned F i data ops).getD (((F i).bits data).setWidth T.bits)) ∧
      (∀ b, (∀ i, ¬ (F i).Covers b) → data'.getLsbD b = data.getLsbD b)) ∧
    (∀ ops ops' : List (ι × Assignment T),
      (∀ i, ops.filter (·.1 = i) = ops'.filter (·.1 = i)) →
        execAll F data ops = execAll F data ops') := by
  constructor
  · intro ops data' done
    rw [execAll_eq_run unsigned apart] at done
    constructor
    · intro i
      rw [lastAssigned_eq_last unsigned apart,
        ← (F i).get_unsigned unsigned]
      exact Family.get_run done i
    · intro b outside
      exact congrFun (Family.run_rest done) ⟨b, outside⟩
  · intro ops ops' same
    rw [execAll_eq_run unsigned apart,
      execAll_eq_run unsigned apart]
    apply Family.run_congr
    intro i
    have mapped (ops : List (ι × Assignment T)) : (ops.map update).filter (·.1 = i) =
        (ops.filter (·.1 = i)).map update := List.filter_map
    rw [mapped, mapped, same]

def U32 : IntType := ⟨32, false, false, by decide, by decide⟩

instance : U32.Binary := ⟨rfl⟩

theorem one_byte : 8 = 8 ∨ 8 = 16 ∨ 8 = 32 ∨ 8 = 64 := .inl rfl

def CppBool : IntType := ⟨8, false, true, one_byte, by decide⟩

end Families

end Ane.Libane
