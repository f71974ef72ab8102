import Mathlib

/-! Binary floating point as Lean's core models it: words as three fields, rounding
to the nearest number with ties to even, and the operations on numbers that a format
holds exactly. -/
namespace Ane.BinaryFloat
open Float.Model (Format UnpackedFloat totalExponent)
open Float.Model.UnpackedFloat

/-- `m / 2 ^ k` rounded to the nearest integer, ties to even. -/
def nearestEven (m k : Nat) : Nat :=
  let q := m / 2 ^ k
  let r := m % 2 ^ k
  if 2 * r < 2 ^ k then q else if 2 * r = 2 ^ k then q + q % 2 else q + 1

@[simp] theorem nearestEven_zero (m : Nat) : nearestEven m 0 = m := by
  simp [nearestEven, Nat.mod_one]

theorem nearestEven_mul (m k : Nat) : nearestEven (m * 2 ^ k) k = m := by
  have := Nat.two_pow_pos k
  simp [nearestEven, Nat.mul_div_cancel _ this]

theorem nearestEven_add {a : Nat} (even : a % 2 = 0) (m k : Nat) :
    nearestEven (a * 2 ^ k + m) k = a + nearestEven m k := by
  have pos := Nat.two_pow_pos k
  have quotient : (a * 2 ^ k + m) / 2 ^ k = a + m / 2 ^ k := by
    rw [Nat.add_comm, Nat.add_mul_div_right _ _ pos, Nat.add_comm]
  have remainder : (a * 2 ^ k + m) % 2 ^ k = m % 2 ^ k := by
    rw [Nat.add_comm, Nat.add_mul_mod_self_right]
  simp only [nearestEven, quotient, remainder]
  grind

theorem nearestEven_mul_add (m k i : Nat) : nearestEven (m * 2 ^ i) (k + i) = nearestEven m k := by
  have pos := Nat.two_pow_pos i
  have quotient : m * 2 ^ i / 2 ^ (k + i) = m / 2 ^ k := by
    rw [Nat.pow_add, Nat.mul_div_mul_right _ _ pos]
  have remainder : m * 2 ^ i % 2 ^ (k + i) = m % 2 ^ k * 2 ^ i := by
    rw [Nat.pow_add, Nat.mul_mod_mul_right]
  have below : 2 * (m % 2 ^ k * 2 ^ i) < 2 ^ (k + i) ↔ 2 * (m % 2 ^ k) < 2 ^ k := by
    rw [Nat.pow_add, ← Nat.mul_assoc, Nat.mul_lt_mul_right pos]
  have tie : 2 * (m % 2 ^ k * 2 ^ i) = 2 ^ (k + i) ↔ 2 * (m % 2 ^ k) = 2 ^ k := by
    rw [Nat.pow_add, ← Nat.mul_assoc, Nat.mul_left_inj pos.ne']
  simp only [nearestEven, quotient, remainder, below, tie]

/-- The error is at most a half, and at a half the result is even. -/
theorem nearestEven_error (m k : Nat) :
    2 * |(m : Int) - nearestEven m k * 2 ^ k| ≤ 2 ^ k ∧
    (2 * |(m : Int) - nearestEven m k * 2 ^ k| = 2 ^ k → nearestEven m k % 2 = 0) := by
  have split : 2 ^ k * (m / 2 ^ k) + m % 2 ^ k = m := Nat.div_add_mod m (2 ^ k)
  have low : m % 2 ^ k < 2 ^ k := Nat.mod_lt m (Nat.two_pow_pos k)
  have cast : (2 : Int) ^ k = (2 ^ k : Nat) := by simp
  simp only [nearestEven, cast]
  generalize m / 2 ^ k = q at *
  generalize m % 2 ^ k = r at *
  generalize 2 ^ k = p at *
  have down : (m : Int) - q * p = r := by
    rw [← split]
    push_cast
    ring
  have up : (m : Int) - (q + 1 : Nat) * p = r - p := by
    rw [← split]
    push_cast
    ring
  obtain even | odd : q % 2 = 0 ∨ q % 2 = 1 := by omega
  · simp only [even, Nat.add_zero]
    split_ifs with below tie
    · rw [down]
      grind
    · rw [down]
      grind
    · rw [up]
      grind
  · simp only [odd]
    split_ifs with below tie
    · rw [down]
      grind
    · rw [up]
      grind
    · rw [up]
      grind

/-- No integer is closer to `m / 2 ^ k`, and of two equally close ones the even is taken. -/
theorem nearestEven_nearest (m k : Nat) {n : Int} (ne : n ≠ nearestEven m k) :
    |(m : Int) - nearestEven m k * 2 ^ k| < |m - n * 2 ^ k| ∨
    |(m : Int) - nearestEven m k * 2 ^ k| = |m - n * 2 ^ k| ∧ nearestEven m k % 2 = 0 := by
  obtain ⟨half, even⟩ := nearestEven_error m k
  generalize nearestEven m k = q at *
  have pos : (0 : Int) < 2 ^ k := by positivity
  have apart : (2 : Int) ^ k ≤ |m - n * 2 ^ k| + |(m : Int) - q * 2 ^ k| := by
    have step : 1 ≤ |(q : Int) - n| := Int.one_le_abs (by omega)
    calc (2 : Int) ^ k ≤ |(q : Int) - n| * 2 ^ k := le_mul_of_one_le_left pos.le step
      _ = |(m - n * 2 ^ k) - ((m : Int) - q * 2 ^ k)| := by
          rw [← abs_of_pos pos, ← abs_mul, abs_of_pos pos]
          congr 1
          ring
      _ ≤ |m - n * 2 ^ k| + |(m : Int) - q * 2 ^ k| := abs_sub _ _
  by_cases tie : 2 * |(m : Int) - q * 2 ^ k| = 2 ^ k
  · by_cases same : |(m : Int) - q * 2 ^ k| = |m - n * 2 ^ k|
    · exact .inr ⟨same, even tie⟩
    · left
      omega
  · left
    omega

theorem and_mask (x w k : Nat) : x &&& ((2 ^ w - 1) * 2 ^ k) = x / 2 ^ k % 2 ^ w * 2 ^ k := by
  apply Nat.eq_of_testBit_eq
  intro i
  simp only [Nat.testBit_and, Nat.testBit_mul_two_pow, Nat.testBit_two_pow_sub_one,
    Nat.testBit_mod_two_pow, Nat.testBit_div_two_pow]
  by_cases h : k ≤ i
  · simp [h, Bool.and_comm]
  · simp [h]

/-- What `k` shifts leave of a mantissa. -/
def shifted (m k : Nat) : ExtendedMantissa where
  mantissa := m / 2 ^ k
  roundBit := decide (2 ^ k ≤ 2 * (m % 2 ^ k))
  stickyBit := decide (m % 2 ^ k ≠ 0 ∧ 2 * (m % 2 ^ k) ≠ 2 ^ k)

theorem shiftRightOne_shifted (m k : Nat) :
    (shifted m k).shiftRightOne = shifted m (k + 1) := by
  have split : m % 2 ^ (k + 1) = m % 2 ^ k + 2 ^ k * (m / 2 ^ k % 2) := Nat.mod_pow_succ
  have half : m / 2 ^ (k + 1) = m / 2 ^ k / 2 := by rw [Nat.pow_succ, Nat.div_div_eq_div_mul]
  have low : m % 2 ^ k < 2 ^ k := Nat.mod_lt _ (Nat.two_pow_pos k)
  have pow : 2 ^ (k + 1) = 2 * 2 ^ k := by rw [Nat.pow_succ, Nat.mul_comm]
  simp only [shifted, ExtendedMantissa.shiftRightOne, pow]
  generalize m / 2 ^ k = q at *
  generalize m % 2 ^ k = r at *
  generalize 2 ^ k = p at *
  obtain even | odd : q % 2 = 0 ∨ q % 2 = 1 := by omega
  · simp [even]
    grind
  · simp [odd]
    grind

theorem shiftRight_eq (m k : Nat) :
    ExtendedMantissa.ofMantissaAndAccuracy m .exact >>> k = shifted m k := by
  induction k with
  | zero =>
    simp [shifted, HShiftRight.hShiftRight, Nat.repeat, ExtendedMantissa.ofMantissaAndAccuracy,
      Nat.mod_one]
  | succ k ih => rw [← shiftRightOne_shifted, ← ih]; rfl

theorem roundedMantissa_shifted (m k : Nat) : (shifted m k).roundedMantissa = nearestEven m k := by
  simp only [shifted, ExtendedMantissa.roundedMantissa, nearestEven]
  generalize m / 2 ^ k = q
  generalize m % 2 ^ k = r
  have := Nat.two_pow_pos k
  generalize 2 ^ k = p at *
  by_cases up : p ≤ 2 * r <;> by_cases tie : 2 * r = p <;> by_cases zero : r = 0 <;>
  simp [up, tie, zero,
    ExtendedMantissa.accuracy, Accuracy.roundToNearestEven] <;> grind

/-- Bits dropped when `m * 2 ^ e` is brought to the exponent of the format. -/
def shift (spec : Format) (m : Nat) (e : Int) : Nat :=
  (spec.targetExponent (totalExponent m e) - e).toNat

/-- The exponent is the one the format wants for this number. -/
def Canonical (spec : Format) (m : Nat) (e : Int) : Prop :=
  spec.targetExponent (totalExponent m e) = e

variable {spec : Format} {s : Sign} {m : Nat} {e : Int}

theorem Canonical.shift_eq (h : Canonical spec m e) : shift spec m e = 0 := by
  unfold Canonical at h
  simp [shift, h]

theorem shiftToTargetExponent_eq (spec : Format) (m : Nat) (e : Int) :
    shiftToTargetExponent spec m e .exact = (shifted m (shift spec m e), e + shift spec m e) := by
  simp only [shiftToTargetExponent, shiftToExponent, shiftRight_eq]
  rfl

theorem roundWithAccuracy_eq (pos : 0 < nearestEven m (shift spec m e))
    (settled : shift spec (nearestEven m (shift spec m e)) (e + shift spec m e) = 0) :
    roundWithAccuracy spec s m e .exact =
      .finite s (nearestEven m (shift spec m e)) (e + shift spec m e) pos := by
  simp only [roundWithAccuracy, shiftToTargetExponent_eq, roundedMantissa_shifted, settled]
  simp [shifted, Nat.ne_of_gt pos]

theorem log2_mul_two_pow (pos : 0 < m) (k : Nat) : (m * 2 ^ k).log2 = m.log2 + k := by
  have ne : m ≠ 0 := by omega
  have low := Nat.log2_self_le ne
  have high := Nat.lt_log2_self (n := m)
  rw [Nat.log2_eq_iff (Nat.mul_ne_zero ne (Nat.two_pow_pos k).ne')]
  constructor
  · rw [Nat.pow_add]
    exact Nat.mul_le_mul_right _ low
  · rw [show m.log2 + k + 1 = m.log2 + 1 + k by omega, Nat.pow_add]
    exact Nat.mul_lt_mul_of_pos_right high (Nat.two_pow_pos k)

theorem totalExponent_mul (pos : 0 < m) (k : Nat) :
    totalExponent (m * 2 ^ k) (e - k) = totalExponent m e := by
  simp only [totalExponent, log2_mul_two_pow pos]
  omega

/-- A number that the format holds is not changed by rounding. -/
theorem roundWithAccuracy_mul (pos : 0 < m) (canonical : Canonical spec m e) (k : Nat) :
    roundWithAccuracy spec s (m * 2 ^ k) (e - k) .exact = .finite s m e pos := by
  have amount : shift spec (m * 2 ^ k) (e - k) = k := by
    rw [shift, totalExponent_mul pos, canonical]
    omega
  have value : nearestEven (m * 2 ^ k) k = m := nearestEven_mul m k
  rw [roundWithAccuracy_eq]
  all_goals simp only [amount, value, Int.sub_add_cancel]
  · exact pos
  · exact canonical.shift_eq

theorem round_small (pos : 0 < m) (le : spec.targetExponent (totalExponent m e) ≤ e) :
    ∃ (j : Nat) (pos' : 0 < m * 2 ^ j), Canonical spec (m * 2 ^ j) (e - j) ∧
      UnpackedFloat.round spec s m e = .finite s (m * 2 ^ j) (e - j) pos' := by
  have pos' := Nat.mul_pos pos (Nat.two_pow_pos (e - spec.targetExponent (totalExponent m e)).toNat)
  refine ⟨(e - spec.targetExponent (totalExponent m e)).toNat, pos', ?_, ?_⟩
  · rw [Canonical, totalExponent_mul pos]
    omega
  · have canonical : Canonical spec (m * 2 ^ (e - spec.targetExponent (totalExponent m e)).toNat)
        (e - (e - spec.targetExponent (totalExponent m e)).toNat) := by
      rw [Canonical, totalExponent_mul pos]
      omega
    have exact := roundWithAccuracy_mul (s := s) pos' canonical 0
    simpa [UnpackedFloat.round, decreaseExponent, Nat.shiftLeft_eq] using exact

theorem round_large (le : e ≤ spec.targetExponent (totalExponent m e)) :
    UnpackedFloat.round spec s m e = roundWithAccuracy spec s m e .exact := by
  have none : (e - spec.targetExponent (totalExponent m e)).toNat = 0 := by omega
  simp [UnpackedFloat.round, decreaseExponent, none]

/-! Packed words as the sum of their three fields. -/

def signBit : Sign → Nat
  | .negative => 1
  | .positive => 0

def word (spec : Format) (s : Sign) (E M : Nat) : Nat :=
  (signBit s * 2 ^ spec.exponentBits + E) * 2 ^ spec.mantissaBitsWithoutImplicit + M

/-- The number with these fields. -/
def number (spec : Format) (s : Sign) (E M : Nat) : UnpackedFloat :=
  if E + 1 = 2 ^ spec.exponentBits then
    if M = 0 then .infinity s else .notANumber
  else if E = 0 then
    if h : M = 0 then .zero s
    else .finite s M (1 - (spec.exponentBias + spec.mantissaBitsWithoutImplicit : Int))
      (Nat.pos_of_ne_zero h)
  else .finite s (2 ^ spec.mantissaBitsWithoutImplicit + M)
    (E - (spec.exponentBias + spec.mantissaBitsWithoutImplicit : Int))
    (Nat.add_pos_left (Nat.two_pow_pos _) _)

theorem ofBitVec_signBit (b : BitVec 1) (s : Sign) (h : b.toNat = signBit s) :
    Sign.ofBitVec b = s := by
  cases s with
  | negative => 
    have : b = 1#1 := BitVec.eq_of_toNat_eq (by simpa [signBit] using h)
    simp [Sign.ofBitVec, this]
  | positive =>
    have : b = 0#1 := BitVec.eq_of_toNat_eq (by simpa [signBit] using h)
    simp [Sign.ofBitVec, this]

theorem toNat_unpackMantissa (b : BitVec spec.numBits) :
    (unpackMantissa b).toNat = b.toNat % 2 ^ spec.mantissaBitsWithoutImplicit := by
  have := spec.hm
  simp [unpackMantissa, BitVec.extractLsb]
  rw [Nat.sub_add_cancel this]

theorem toNat_unpackExponent (b : BitVec spec.numBits) :
    (unpackExponent b).toNat =
      b.toNat / 2 ^ spec.mantissaBitsWithoutImplicit % 2 ^ spec.exponentBits := by
  have := spec.he
  simp [unpackExponent, BitVec.extractLsb, Nat.shiftRight_eq_div_pow]
  congr 2
  omega

theorem toNat_unpackSign (b : BitVec spec.numBits) :
    (unpackSign b).toNat =
      b.toNat / 2 ^ (spec.mantissaBitsWithoutImplicit + spec.exponentBits) % 2 := by
  simp [unpackSign, BitVec.extractLsb, Nat.shiftRight_eq_div_pow]

theorem word_fields {E M : Nat} (s : Sign) (hE : E < 2 ^ spec.exponentBits)
    (hM : M < 2 ^ spec.mantissaBitsWithoutImplicit) :
    word spec s E M % 2 ^ spec.mantissaBitsWithoutImplicit = M ∧
    word spec s E M / 2 ^ spec.mantissaBitsWithoutImplicit % 2 ^ spec.exponentBits = E ∧
    word spec s E M / 2 ^ (spec.mantissaBitsWithoutImplicit + spec.exponentBits) % 2 =
      signBit s := by
  have quotient : word spec s E M / 2 ^ spec.mantissaBitsWithoutImplicit =
      signBit s * 2 ^ spec.exponentBits + E := by
    rw [word, Nat.add_comm, Nat.add_mul_div_right _ _ (Nat.two_pow_pos _), Nat.div_eq_of_lt hM,
      Nat.zero_add]
  refine ⟨?_, ?_, ?_⟩
  · rw [word, Nat.add_comm, Nat.add_mul_mod_self_right, Nat.mod_eq_of_lt hM]
  · rw [quotient, Nat.add_comm, Nat.add_mul_mod_self_right, Nat.mod_eq_of_lt hE]
  · rw [Nat.pow_add, ← Nat.div_div_eq_div_mul, quotient, Nat.add_comm,
      Nat.add_mul_div_right _ _ (Nat.two_pow_pos _), Nat.div_eq_of_lt hE, Nat.zero_add]
    cases s <;> rfl

theorem unpack_word {E M : Nat} {s : Sign} (hE : E < 2 ^ spec.exponentBits)
    (hM : M < 2 ^ spec.mantissaBitsWithoutImplicit) {b : BitVec spec.numBits}
    (h : b.toNat = word spec s E M) : unpack spec b = number spec s E M := by
  obtain ⟨mantissa, exponent, sign⟩ := word_fields s hE hM
  rw [← h, ← toNat_unpackMantissa] at mantissa
  rw [← h, ← toNat_unpackExponent] at exponent
  rw [← h, ← toNat_unpackSign] at sign
  have ones : unpackExponent b = -1#_ ↔ E + 1 = 2 ^ spec.exponentBits := by
    rw [← BitVec.toNat_inj, exponent, BitVec.neg_one_eq_allOnes, BitVec.toNat_allOnes]
    have := Nat.two_pow_pos spec.exponentBits
    omega
  have zeros : unpackExponent b = 0#_ ↔ E = 0 := by
    rw [← BitVec.toNat_inj, exponent]; simp
  have mantissa_zero : unpackMantissa b = 0#_ ↔ M = 0 := by
    rw [← BitVec.toNat_inj, mantissa]; simp
  have leading : (1#1 ++ unpackMantissa b).toNat = 2 ^ spec.mantissaBitsWithoutImplicit + M := by
    rw [BitVec.toNat_append, mantissa, Nat.shiftLeft_eq, Nat.mul_comm,
      ← Nat.two_pow_add_eq_or_of_lt hM]
    simp
  simp only [unpack, number, ones, zeros, mantissa_zero, ofBitVec_signBit _ s sign, mantissa,
    exponent, leading]
  split
  · rfl
  · split
    · split
      · rfl
      · congr 1
        omega
    · rfl

theorem toNat_packComponents (s : Sign) {E M : Nat} (hE : E < 2 ^ spec.exponentBits)
    (hM : M < 2 ^ spec.mantissaBitsWithoutImplicit) :
    (packComponents spec s (BitVec.ofNat _ E) (BitVec.ofNat _ M)).toNat = word spec s E M := by
  have sign : s.toBitVec.toNat = signBit s := by cases s <;> rfl
  rw [packComponents, BitVec.toNat_append, BitVec.toNat_append, BitVec.toNat_ofNat,
    BitVec.toNat_ofNat, Nat.mod_eq_of_lt hE, Nat.mod_eq_of_lt hM, sign, Nat.shiftLeft_eq,
    Nat.shiftLeft_eq, word, Nat.mul_comm (signBit s), ← Nat.two_pow_add_eq_or_of_lt hE,
    Nat.mul_comm (_ + E), ← Nat.two_pow_add_eq_or_of_lt hM]

/-- Every word is made of three fields. -/
theorem exists_fields (b : BitVec spec.numBits) : ∃ s E M, E < 2 ^ spec.exponentBits ∧
    M < 2 ^ spec.mantissaBitsWithoutImplicit ∧ b.toNat = word spec s E M := by
  have top : b.toNat / 2 ^ spec.mantissaBitsWithoutImplicit / 2 ^ spec.exponentBits < 2 := by
    rw [Nat.div_div_eq_div_mul, Nat.div_lt_iff_lt_mul (by positivity), ← Nat.pow_add,
      ← Nat.pow_succ']
    exact Nat.lt_of_lt_of_eq b.isLt (congrArg _ (by rw [Format.numBits]; omega))
  have value : (b.toNat / 2 ^ spec.mantissaBitsWithoutImplicit / 2 ^ spec.exponentBits *
      2 ^ spec.exponentBits + b.toNat / 2 ^ spec.mantissaBitsWithoutImplicit %
      2 ^ spec.exponentBits) * 2 ^ spec.mantissaBitsWithoutImplicit +
      b.toNat % 2 ^ spec.mantissaBitsWithoutImplicit = b.toNat := by
    rw [Nat.div_add_mod', Nat.div_add_mod']
  have bit : ∃ s, signBit s =
      b.toNat / 2 ^ spec.mantissaBitsWithoutImplicit / 2 ^ spec.exponentBits := by
    obtain zero | one := Nat.le_one_iff_eq_zero_or_eq_one.mp (Nat.le_of_lt_succ top)
    · exact ⟨.positive, zero.symm⟩
    · exact ⟨.negative, one.symm⟩
  obtain ⟨s, bit⟩ := bit
  exact ⟨s, b.toNat / 2 ^ spec.mantissaBitsWithoutImplicit % 2 ^ spec.exponentBits,
    b.toNat % 2 ^ spec.mantissaBitsWithoutImplicit, Nat.mod_lt _ (Nat.two_pow_pos _),
    Nat.mod_lt _ (Nat.two_pow_pos _), by rw [word, bit, value]⟩

theorem log2_leading {p M : Nat} (hM : M < 2 ^ p) : (2 ^ p + M).log2 = p := by
  have := Nat.two_pow_pos p
  rw [Nat.log2_eq_iff (by omega), Nat.pow_succ]
  omega

/-- Packing gives a number of the format back its own word. -/
theorem toNat_pack_number (wide : 1 < spec.exponentBits) {E M : Nat} (s : Sign)
    (hE : E + 1 < 2 ^ spec.exponentBits ∨ E + 1 = 2 ^ spec.exponentBits ∧ M = 0)
    (hM : M < 2 ^ spec.mantissaBitsWithoutImplicit) :
    (pack spec (number spec s E M)).toNat = word spec s E M := by
  let b := packComponents spec s (BitVec.ofNat _ E) (BitVec.ofNat _ M)
  have stored : b.toNat = word spec s E M := toNat_packComponents s (by omega) hM
  obtain ⟨mantissa, exponent, -⟩ := word_fields s (show E < 2 ^ spec.exponentBits by omega) hM
  rw [← stored, ← toNat_unpackMantissa] at mantissa
  rw [← stored, ← toNat_unpackExponent] at exponent
  have quiet : ¬ isNaNBits b := by
    simp only [isNaNBits, decide_eq_true_eq, not_and, not_not, ← BitVec.toNat_inj, mantissa,
      exponent, BitVec.neg_one_eq_allOnes, BitVec.toNat_allOnes, BitVec.toNat_ofNat,
      Nat.zero_mod]
    omega
  rw [← unpack_word (by omega) hM stored, pack_unpack b wide, if_neg quiet, stored]

theorem unpack_pack_number (wide : 1 < spec.exponentBits) {E M : Nat} (s : Sign)
    (hE : E + 1 < 2 ^ spec.exponentBits ∨ E + 1 = 2 ^ spec.exponentBits ∧ M = 0)
    (hM : M < 2 ^ spec.mantissaBitsWithoutImplicit) :
    unpack spec (pack spec (number spec s E M)) = number spec s E M :=
  unpack_word (by omega) hM (toNat_pack_number wide s hE hM)

@[simp] theorem pack_infinity (wide : 1 < spec.exponentBits) (s : Sign) :
    unpack spec (pack spec (.infinity s)) = .infinity s := by
  have four : 2 ^ 2 ≤ 2 ^ spec.exponentBits := Nat.pow_le_pow_right (by omega) wide
  have eq : number spec s (2 ^ spec.exponentBits - 1) 0 = .infinity s := by
    rw [number, if_pos (by omega), if_pos rfl]
  rw [← eq]
  exact unpack_pack_number wide s (.inr ⟨by omega, rfl⟩) (Nat.two_pow_pos _)

theorem minExponent_eq : spec.minExponent =
    1 - (spec.exponentBias + spec.mantissaBitsWithoutImplicit : Int) := by
  have pos := Nat.two_pow_pos (spec.exponentBits - 1)
  have bias : (spec.exponentBias : Int) = 2 ^ (spec.exponentBits - 1) - 1 := by
    rw [Format.exponentBias, Nat.cast_sub pos]
    simp
  rw [Format.minExponent, bias, Format.mantissaBits]
  omega

theorem canonical_iff : Canonical spec m e ↔
    (m.log2 = spec.mantissaBitsWithoutImplicit ∧
      1 ≤ e + spec.exponentBias + spec.mantissaBitsWithoutImplicit) ∨
    (m.log2 < spec.mantissaBitsWithoutImplicit ∧
      e + spec.exponentBias + spec.mantissaBitsWithoutImplicit = 1) := by
  simp only [Canonical, Format.targetExponent, totalExponent, minExponent_eq,
    Format.mantissaBits]
  omega

/-- A rounded number that is not too large is one of the numbers of the format. -/
theorem exists_number (wide : 1 < spec.exponentBits) (pos : 0 < m) (canonical : Canonical spec m e)
    (bound : (e + spec.exponentBias + spec.mantissaBitsWithoutImplicit).toNat + 1 <
      2 ^ spec.exponentBits) :
    ∃ E M, E + 1 < 2 ^ spec.exponentBits ∧ M < 2 ^ spec.mantissaBitsWithoutImplicit ∧
      ∀ s, UnpackedFloat.finite s m e pos = number spec s E M := by
  have high := Nat.lt_log2_self (n := m)
  have low := Nat.log2_self_le (Nat.ne_of_gt pos)
  have four : 2 ^ 2 ≤ 2 ^ spec.exponentBits := Nat.pow_le_pow_right (by omega) wide
  obtain ⟨log, positive⟩ | ⟨log, floor⟩ := canonical_iff.mp canonical
  · rw [log, Nat.pow_succ] at high
    rw [log] at low
    refine ⟨(e + spec.exponentBias + spec.mantissaBitsWithoutImplicit).toNat,
      m - 2 ^ spec.mantissaBitsWithoutImplicit, by omega, by omega, fun s => ?_⟩
    rw [number, if_neg (by omega), if_neg (by omega)]
    congr 1 <;> omega
  · refine ⟨0, m, by omega, ?_, fun s => ?_⟩
    · exact Nat.lt_of_lt_of_le high (Nat.pow_le_pow_right (by omega) log)
    · rw [number, if_neg (by omega), if_pos rfl, dif_neg (by omega)]
      congr 1
      omega

theorem unpack_pack_finite (wide : 1 < spec.exponentBits) (pos : 0 < m)
    (canonical : Canonical spec m e)
    (bound : (e + spec.exponentBias + spec.mantissaBitsWithoutImplicit).toNat + 1 <
      2 ^ spec.exponentBits) :
    unpack spec (pack spec (.finite s m e pos)) = .finite s m e pos := by
  obtain ⟨E, M, hE, hM, eq⟩ := exists_number wide pos canonical bound
  rw [eq]
  exact unpack_pack_number wide s (.inl hE) hM

/-- A rounded number beyond the largest one is stored as an infinity. -/
theorem unpack_pack_overflow (wide : 1 < spec.exponentBits) (pos : 0 < m)
    (bound : 2 ^ spec.exponentBits ≤
      (e + spec.exponentBias + spec.mantissaBitsWithoutImplicit).toNat + 1) :
    unpack spec (pack spec (.finite s m e pos)) = .infinity s := by
  have four : 2 ^ 2 ≤ 2 ^ spec.exponentBits := Nat.pow_le_pow_right (by omega) wide
  rw [← pack_infinity wide s]
  simp only [pack]
  rw [if_pos (by omega)]

theorem normalize_natCast (spec : Format) (m : Nat) (e : Int) (s : Sign) :
    UnpackedFloat.normalize spec m e s =
      if m = 0 then .zero s else UnpackedFloat.round spec .positive m e := by
  obtain rfl | pos := Nat.eq_zero_or_pos m
  · rfl
  · have order : compare (m : Int) 0 = .gt := Int.compare_eq_gt.mpr (by omega)
    simp [UnpackedFloat.normalize, order, Nat.ne_of_gt pos]

/-- The sum of two positive numbers, at the smaller exponent. -/
theorem add_positive {m₁ m₂ : Nat} {e₁ e₂ : Int} (pos₁ : 0 < m₁) (pos₂ : 0 < m₂)
    (le : e₂ ≤ e₁) :
    add spec (.finite .positive m₁ e₁ pos₁) (.finite .positive m₂ e₂ pos₂) =
      UnpackedFloat.round spec .positive (m₁ * 2 ^ (e₁ - e₂).toNat + m₂) e₂ := by
  have sum := normalize_natCast spec (m₁ * 2 ^ (e₁ - e₂).toNat + m₂) e₂ .positive
  rw [if_neg (by omega)] at sum
  rw [← sum]
  simp [add, Int.min_eq_right le, decreaseExponent, Sign.apply, Nat.shiftLeft_eq]

/-- The difference of two positive numbers with one exponent. -/
theorem sub_positive {m n : Nat} {e : Int} (pos : 0 < n + m) (pos' : 0 < n) :
    sub spec (.finite .positive (n + m) e pos) (.finite .positive n e pos') =
      if m = 0 then .zero .positive else UnpackedFloat.round spec .positive m e := by
  rw [← normalize_natCast]
  simp [sub, decreaseExponent, Sign.apply]

theorem mul_two_zpow (m k : Nat) (e : Int) :
    ((m * 2 ^ k : Nat) : ℚ) * 2 ^ (e - k) = m * 2 ^ e := by
  have pow : (2 : ℚ) ^ k * 2 ^ (e - k) = 2 ^ e := by
    rw [← zpow_natCast, ← zpow_add₀ two_ne_zero, add_sub_cancel]
  push_cast
  rw [mul_assoc, pow]

/-- The same number, whatever the mantissa and exponent it is written with. -/
def SameNumber : UnpackedFloat → UnpackedFloat → Prop
  | .notANumber, .notANumber => True
  | .infinity s, .infinity s' => s = s'
  | .zero s, .zero s' => s = s'
  | .finite s m e _, .finite s' m' e' _ => s = s' ∧ (m : ℚ) * 2 ^ e = m' * 2 ^ e'
  | _, _ => False

/-- The absolute value of a number that is finite. -/
def magnitude : UnpackedFloat → ℚ
  | .finite _ m e _ => m * 2 ^ e
  | _ => 0

/-- A number with this sign. -/
def Signed (s : Sign) : UnpackedFloat → Prop
  | .infinity s' | .zero s' | .finite s' _ _ _ => s' = s
  | .notANumber => False

/-- The word holds the number of the format closest to the one of sign `s` and absolute
value `x`; where two are equally close, the one with the even last place. -/
structure Nearest (spec : Format) (s : Sign) (x : ℚ) (b : BitVec spec.numBits) : Prop where
  finite : (unpack spec b).isFinite
  signed : Signed s (unpack spec b)
  closest : ∀ c, (unpack spec c).isFinite →
    |x - magnitude (unpack spec b)| ≤ |x - magnitude (unpack spec c)|
  even : ∀ c, (unpack spec c).isFinite →
    |x - magnitude (unpack spec b)| = |x - magnitude (unpack spec c)| →
    magnitude (unpack spec c) = magnitude (unpack spec b) ∨ b.toNat % 2 = 0

end Ane.BinaryFloat
