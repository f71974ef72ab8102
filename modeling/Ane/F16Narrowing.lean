import Ane.F16
import Mathlib.Tactic.NormNum

/-! Narrowing of a float to a half: the magnitude is scaled so that the hardware's own
rounding of one addition drops the right bits. The result is the closest half, and
halves that were widened come back. -/
namespace Ane.F16
open BinaryFloat
open Float.Model (Format UnpackedFloat totalExponent)
open Float.Model.UnpackedFloat

section FloatToHalf
variable {f : UInt32} {s : Sign} {E M : Nat}

/-- Mantissa and exponent of the finite float with these fields. -/
def mantissa (E M : Nat) : Nat := if E = 0 then M else 2 ^ 23 + M
def exponent (E : Nat) : Int := (max E 1 : Nat) - 150

theorem number_finite (s : Sign) (high : E < 255) : number binary32 s E M =
    if h : mantissa E M = 0 then .zero s
    else .finite s (mantissa E M) (exponent E) (Nat.pos_of_ne_zero h) := by
  obtain rfl | low := Nat.eq_zero_or_pos E
  · rw [number, if_neg (by decide), if_pos rfl]
    rfl
  · have some : mantissa E M = 2 ^ 23 + M := if_neg (by omega)
    have place : exponent E = E - 150 := by
      rw [exponent, Nat.max_eq_left low]
    simp only [number_normal s low high, some, place]
    rw [dif_neg (by omega)]

theorem mul_two_pow {m m' : Nat} {e e' x : Int} (pos : 0 < m) (pos' : 0 < m')
    (canonical : Canonical binary32 m' e') (k : Nat) (hm : m * 2 ^ 23 = m' * 2 ^ k)
    (he : e + x = e' - k) :
    mul binary32 (.finite .positive m e pos) (.finite .positive (2 ^ 23) x (by decide)) =
      .finite .positive m' e' pos' := by
  simp only [mul, hm, he]
  exact roundWithAccuracy_mul pos' canonical k

theorem unpack_scaleToInf : unpack binary32 scaleToInf.toBitVec =
    .finite .positive (2 ^ 23) 89 (by decide) :=
  have fields : Fields scaleToInf .positive 239 0 := by decide
  fields.unpack_eq (by omega) (by omega)

theorem unpack_scaleToZero : unpack binary32 scaleToZero.toBitVec =
    .finite .positive (2 ^ 23) (-133) (by decide) :=
  have fields : Fields scaleToZero .positive 17 0 := by decide
  fields.unpack_eq (by omega) (by omega)

theorem fabsf_fields (hE : E < 256) (hM : M < 2 ^ 23) (eq : Fields f s E M) :
    Fields (fabsf f) .positive E M := by
  have bit := signBit_lt s
  simp only [Fields, word, Nat.reducePow] at *
  have low := and_mask f.toNat 31 0
  simp only [fabsf, UInt32.toNat_and]
  simp [signBit] at *
  omega

/-- The mantissa has 24 bits, or the exponent is the lowest one. -/
theorem mantissa_log2 (hM : M < 2 ^ 23) (some : 0 < mantissa E M) :
    (mantissa E M).log2 = 23 ∨ ((mantissa E M).log2 < 23 ∧ E = 0) := by
  obtain rfl | low := Nat.eq_zero_or_pos E
  · have same : mantissa 0 M = M := if_pos rfl
    rw [same] at some ⊢
    exact .inr ⟨(Nat.log2_lt (by omega)).mpr hM, rfl⟩
  · have same : mantissa E M = 2 ^ 23 + M := if_neg (by omega)
    rw [same]
    exact .inl (log2_leading hM)

/-- A finite magnitude below the overflow is scaled by four without error. -/
theorem scaled_finite {x : UInt32} (hE : E ≤ 142) (hM : M < 2 ^ 23) (some : 0 < mantissa E M)
    (eq : Fields x .positive E M) : ∃ (i : Nat) (pos : 0 < mantissa E M * 2 ^ i),
      i ≤ 2 ∧ unpack binary32 (fmul (fmul x scaleToInf) scaleToZero).toBitVec =
        .finite .positive (mantissa E M * 2 ^ i) (exponent E + 2 - i) pos := by
  have log := mantissa_log2 hM some
  have range : -149 ≤ exponent E ∧ exponent E ≤ -8 ∧ (E = 0 → exponent E = -149) := by
    simp only [exponent]
    omega
  have first : unpack binary32 x.toBitVec =
      .finite .positive (mantissa E M) (exponent E) some := by
    rw [eq.unpack_eq (by omega) hM, number_finite _ (by omega), dif_neg (by omega)]
  generalize mantissa E M = m at *
  generalize exponent E = e at *
  obtain ⟨j, hj⟩ : ∃ j, j + m.log2 = 23 := ⟨23 - m.log2, by omega⟩
  have pos (k : Nat) : 0 < m * 2 ^ k := Nat.mul_pos some (Nat.two_pow_pos k)
  -- the overflow is 112 binary places up, so the first product has its 24 bits
  have large : Canonical binary32 (m * 2 ^ j) (e + 112 - j) := by
    rw [canonical_iff, log2_mul_two_pow some]
    simp [Format.exponentBias]
    omega
  have small : Canonical binary32 (m * 2 ^ min 2 j) (e + 2 - (min 2 j : Nat)) := by
    rw [canonical_iff, log2_mul_two_pow some]
    simp [Format.exponentBias]
    omega
  have up : unpack binary32 (fmul x scaleToInf).toBitVec =
      .finite .positive (m * 2 ^ j) (e + 112 - j) (pos j) := by
    rw [unpack_fmul, first, unpack_scaleToInf, mul_two_pow some (pos j) large (23 - j)
      (by rw [Nat.mul_assoc, ← Nat.pow_add]; congr 2; omega) (by omega)]
    exact unpack_pack_finite (by decide) (pos j) large (by simp [Format.exponentBias]; omega)
  refine ⟨min 2 j, pos _, by omega, ?_⟩
  rw [unpack_fmul, up, unpack_scaleToZero, mul_two_pow (pos j) (pos _) small (23 + j - min 2 j)
    (by rw [Nat.mul_assoc, Nat.mul_assoc, ← Nat.pow_add, ← Nat.pow_add]; congr 2; omega)
    (by omega)]
  exact unpack_pack_finite (by decide) (pos _) small (by simp [Format.exponentBias]; omega)

theorem infinite_stays {x : UInt32} (eq : unpack binary32 x.toBitVec = .infinity .positive) :
    unpack binary32 (fmul x scaleToZero).toBitVec = .infinity .positive := by
  rw [unpack_fmul, eq, unpack_scaleToZero]
  exact pack_infinity (by decide) .positive

/-- From 2 ^ 16 on the scaling overflows. -/
theorem scaled_infinite {x : UInt32} (low : 143 ≤ E) (hE : E < 255 ∨ E = 255 ∧ M = 0)
    (hM : M < 2 ^ 23) (eq : Fields x .positive E M) :
    unpack binary32 (fmul (fmul x scaleToInf) scaleToZero).toBitVec = .infinity .positive := by
  apply infinite_stays
  rw [unpack_fmul, eq.unpack_eq (by omega) hM, unpack_scaleToInf]
  obtain finite | ⟨rfl, rfl⟩ := hE
  · have canonical : Canonical binary32 (2 ^ 23 + M) (E - 38) :=
      canonical_iff.mpr (.inl ⟨log2_leading hM, by simp [Format.exponentBias]; omega⟩)
    rw [number_normal _ (by omega) finite, mul_two_pow (by omega) (by omega) canonical 23 rfl
      (by omega)]
    exact unpack_pack_overflow (by decide) (by omega) (by simp [Format.exponentBias]; omega)
  · exact pack_infinity (by decide) .positive

theorem scaled_zero {x : UInt32} (eq : Fields x .positive 0 0) :
    unpack binary32 (fmul (fmul x scaleToInf) scaleToZero).toBitVec = .zero .positive := by
  have zero : unpack binary32 x.toBitVec = .zero .positive := eq.unpack_eq (by omega) (by omega)
  rw [unpack_fmul, unpack_fmul, zero, unpack_scaleToInf, unpack_scaleToZero]
  rfl

/-- Binary places between the last place of the sum and that of the float. -/
def places (E : Nat) : Nat := max E 113 + 13 - max E 1

theorem nearestEven_le {m k b : Nat} (h : m < b * 2 ^ k) : nearestEven m k ≤ b := by
  have quotient : m / 2 ^ k < b := (Nat.div_lt_iff_lt_mul (Nat.two_pow_pos k)).mpr h
  simp only [nearestEven]
  grind

theorem rounded_le (hM : M < 2 ^ 23) : nearestEven (mantissa E M) (places E) ≤ 2 ^ 11 := by
  apply nearestEven_le
  have pow : 2 ^ 13 ≤ 2 ^ places E := Nat.pow_le_pow_right (by decide) (by rw [places]; omega)
  have size : mantissa E M < 2 ^ 24 := by
    rw [mantissa]
    split <;> omega
  omega

/-- A sum whose leading bit is known is rounded at the place that bit puts the last one. -/
theorem round_leading {m k : Nat} {e : Int} (short : m < 2 ^ 23 * 2 ^ k)
    (fits : nearestEven m k < 2 ^ 23) (floor : -149 ≤ e + k) :
    UnpackedFloat.round binary32 s (2 ^ 23 * 2 ^ k + m) e =
      .finite s (2 ^ 23 + nearestEven m k) (e + k) (by omega) := by
  have log : (2 ^ 23 * 2 ^ k + m).log2 = 23 + k := by
    rw [← Nat.pow_add]
    exact log2_leading (by rwa [Nat.pow_add])
  have target : binary32.targetExponent (totalExponent (2 ^ 23 * 2 ^ k + m) e) = e + k := by
    simp only [Format.targetExponent, totalExponent, log, Format.mantissaBits, Format.minExponent]
    omega
  have dropped : shift binary32 (2 ^ 23 * 2 ^ k + m) e = k := by
    rw [shift, target]
    omega
  have settled : Canonical binary32 (2 ^ 23 + nearestEven m k) (e + k) :=
    canonical_iff.mpr (.inl ⟨log2_leading fits, by simp [Format.exponentBias]; omega⟩)
  have rounded := nearestEven_add (a := 2 ^ 23) (by decide) m k
  rw [round_large (by omega), roundWithAccuracy_eq]
  all_goals simp only [dropped, rounded]
  · omega
  · exact settled.shift_eq

/-- Adding the bias rounds the magnitude at the last place of the half. -/
theorem sum_finite {x y : UInt32} {i : Nat} (hE : E ≤ 142) (hM : M < 2 ^ 23)
    (pos : 0 < mantissa E M * 2 ^ i) (le : i ≤ 2) (bias : Fields x .positive (max E 113 + 15) 0)
    (base : unpack binary32 y.toBitVec =
      .finite .positive (mantissa E M * 2 ^ i) (exponent E + 2 - i) pos) :
    Fields (fadd x y) .positive (max E 113 + 15) (nearestEven (mantissa E M) (places E)) := by
  have q := rounded_le (E := E) hM
  have size : mantissa E M < 2 ^ 24 := by
    rw [mantissa]
    split <;> omega
  have gap :
      ((max E 113 + 15 : Nat) : Int) - 150 - (exponent E + 2 - i) = (places E + i : Nat) := by
    simp only [exponent, places]
    omega
  have bits : 13 ≤ places E := by
    rw [places]
    omega
  have place : exponent E + 2 - i + (places E + i : Nat) = (max E 113 + 15 : Nat) - 150 := by
    omega
  have short : mantissa E M * 2 ^ i < 2 ^ 23 * 2 ^ (places E + i) := by
    have pow : 2 ^ 1 ≤ 2 ^ places E := Nat.pow_le_pow_right (by decide) (by omega)
    rw [Nat.pow_add, ← Nat.mul_assoc]
    exact Nat.mul_lt_mul_of_pos_right (by omega) (Nat.two_pow_pos i)
  have value := nearestEven_mul_add (mantissa E M) (places E) i
  have sum := round_leading (s := .positive) short (by omega)
    (show -149 ≤ exponent E + 2 - i + (places E + i : Nat) by omega)
  simp only [value, place] at sum
  apply fields_pack (by omega) (by omega)
  rw [bias.unpack_eq (by omega) (by omega), number_normal _ (by omega) (by omega), base,
    number_normal _ (by omega) (by omega), add_positive (by omega) pos (by omega), gap,
    Int.toNat_natCast, Nat.add_zero, sum]

theorem sum_zero {x y : UInt32} (bias : Fields x .positive 128 0)
    (base : unpack binary32 y.toBitVec = .zero .positive) :
    Fields (fadd x y) .positive 128 0 := by
  apply fields_pack (by omega) (by omega)
  rw [bias.unpack_eq (by omega) (by omega), base, number_normal _ (by omega) (by omega)]
  rfl

/-- No bias changes an infinity. -/
theorem sum_infinite {x y : UInt32} {s : Sign} {E : Nat}
    (hE : E < 255 ∨ E = 255 ∧ s = .positive) (bias : Fields x s E 0)
    (base : unpack binary32 y.toBitVec = .infinity .positive) :
    Fields (fadd x y) .positive 255 0 := by
  apply fields_pack (by omega) (by omega)
  rw [bias.unpack_eq (by omega) (by omega), base]
  obtain finite | ⟨rfl, rfl⟩ := hE
  · rw [number_finite s finite]
    split <;> rfl
  · rfl

/-- What narrowing makes of the float with the fields `s`, `E` and `M`. -/
inductive Narrowed (s : Sign) (E M : Nat) (r : UInt16) : Prop
  | notANumber (top : E = 255) (some : 0 < M) (eq : r.toNat = 2 ^ 15 * signBit s + 0x7E00)
  | infinity (large : 143 ≤ E) (number : E < 255 ∨ M = 0)
      (eq : r.toNat = 2 ^ 15 * signBit s + 0x7C00)
  | rounded (small : E ≤ 142) (eq : r.toNat = 2 ^ 15 * signBit s +
      (1024 * (max E 113 - 113) + nearestEven (mantissa E M) (places E)))

theorem nonsign_eq {bits : UInt32} {E q : Nat} (hq : q ≤ 2 ^ 11)
    (eq : Fields bits .positive E q) :
    (((bits >>> 13) &&& 0x00007C00) + (bits &&& 0x00000FFF)).toNat = 1024 * (E % 32) + q := by
  have exponent := and_mask (bits.toNat / 2 ^ 13) 5 10
  have mantissa := and_mask bits.toNat 12 0
  simp only [Fields, word, signBit, Nat.reducePow] at *
  simp only [UInt32.toNat_add, UInt32.toNat_and, UInt32.toNat_shiftRight]
  simp [Nat.shiftRight_eq_div_pow] at *
  omega

theorem shl1W_eq (hE : E < 256) (hM : M < 2 ^ 23) (eq : Fields f s E M) :
    (f + f).toNat = E * 2 ^ 24 + 2 * M := by
  have bit := signBit_lt s
  simp only [Fields, word, Nat.reducePow] at *
  simp [eq]
  omega

theorem signed_half {sign x : UInt32} (sign_eq : sign.toNat = signBit s * 2 ^ 31)
    (low : x.toNat < 2 ^ 15) :
    ((sign >>> 16) ||| x).toUInt16.toNat = 2 ^ 15 * signBit s + x.toNat := by
  have bit := signBit_lt s
  have high : (sign >>> 16).toNat = 2 ^ 15 * signBit s := by
    simp [sign_eq, Nat.shiftRight_eq_div_pow]
    omega
  rw [UInt32.toNat_toUInt16, UInt32.toNat_or, high, ← Nat.two_pow_add_eq_or_of_lt low]
  omega

/-- The exponent field, but at least that of the smallest normal half. -/
def biasField (f : UInt32) : UInt32 :=
  if (f + f) &&& 0xFF000000 < 0x71000000 then 0x71000000 else (f + f) &&& 0xFF000000

theorem biasField_eq (hE : E < 256) (hM : M < 2 ^ 23) (eq : Fields f s E M) :
    (biasField f).toNat = max E 113 * 2 ^ 24 := by
  have field : ((f + f) &&& 0xFF000000).toNat = E * 2 ^ 24 := by
    have masked := and_mask (f + f).toNat 8 24
    rw [UInt32.toNat_and]
    rw [shl1W_eq hE hM eq] at masked ⊢
    exact masked.trans (by omega)
  have below : (f + f) &&& 0xFF000000 < 0x71000000 ↔ E < 113 := by
    rw [UInt32.lt_iff_toNat_lt, field]
    change E * 2 ^ 24 < 113 * 2 ^ 24 ↔ E < 113
    omega
  simp only [biasField, below]
  split
  · rw [Nat.max_eq_right (by omega)]
    rfl
  · rw [field, Nat.max_eq_left (by omega)]

theorem biasWord_eq (hE : E < 256) (hM : M < 2 ^ 23) (eq : Fields f s E M) :
    ((biasField f >>> 1) + 0x07800000).toNat = (max E 113 + 15) * 2 ^ 23 % 2 ^ 32 := by
  rw [UInt32.toNat_add, UInt32.toNat_shiftRight, biasField_eq hE hM eq]
  simp [Nat.shiftRight_eq_div_pow]
  omega

theorem aneComputeF32ToF16_eq (f : UInt32) : aneComputeF32ToF16 f =
    let bits := fadd ((biasField f >>> 1) + 0x07800000)
      (fmul (fmul (fabsf f) scaleToInf) scaleToZero)
    (((f &&& 0x80000000) >>> 16) ||| (if f + f > 0xFF000000 then (0x7E00 : UInt32)
      else ((bits >>> 13) &&& 0x00007C00) + (bits &&& 0x00000FFF))).toUInt16 := rfl

theorem sign_eq (hE : E < 256) (hM : M < 2 ^ 23) (eq : Fields f s E M) :
    (f &&& 0x80000000).toNat = signBit s * 2 ^ 31 := by
  have bit := signBit_lt s
  rw [and_sign]
  simp only [Fields, word, Nat.reducePow] at eq
  omega

theorem narrowed (hE : E < 256) (hM : M < 2 ^ 23) (eq : Fields f s E M) :
    Narrowed s E M (aneComputeF32ToF16 f) := by
  have magnitude := fabsf_fields hE hM eq
  have bias := biasWord_eq hE hM eq
  have sign := sign_eq hE hM eq
  have nan : f + f > 0xFF000000 ↔ E = 255 ∧ 0 < M := by
    rw [gt_iff_lt, UInt32.lt_iff_toNat_lt, shl1W_eq hE hM eq]
    simp
    omega
  simp only [aneComputeF32ToF16_eq, nan]
  generalize (biasField f >>> 1) + 0x07800000 = b at *
  by_cases top : E = 255 ∧ 0 < M
  · refine .notANumber top.1 top.2 ?_
    rw [if_pos top, signed_half sign (by decide)]
    rfl
  · rw [if_neg top]
    by_cases large : 143 ≤ E
    · have base := scaled_infinite large (by omega) hM magnitude
      have sum :
          Fields (fadd b (fmul (fmul (fabsf f) scaleToInf) scaleToZero)) .positive 255 0 := by
        -- from 2 ^ 114 on the bias itself leaves the exponent field and turns the sign
        obtain positive | negative : E + 15 < 256 ∨ 256 ≤ E + 15 := by omega
        · have fields : Fields b .positive (E + 15) 0 := by
            simp only [Fields, word, signBit, Nat.reducePow]
            omega
          have order : E + 15 < 255 ∨ E + 15 = 255 := by omega
          exact sum_infinite (order.imp_right fun eq => ⟨eq, rfl⟩) fields base
        · have fields : Fields b .negative (E + 15 - 256) 0 := by
            simp only [Fields, word, signBit, Nat.reducePow]
            omega
          exact sum_infinite (.inl (by omega)) fields base
      have value := nonsign_eq (by omega) sum
      exact .infinity large (by omega) (by rw [signed_half sign (by omega), value])
    · have fields : Fields b .positive (max E 113 + 15) 0 := by
        simp only [Fields, word, signBit, Nat.reducePow]
        omega
      have q := rounded_le (E := E) hM
      have sum : Fields (fadd b (fmul (fmul (fabsf f) scaleToInf) scaleToZero)) .positive
          (max E 113 + 15) (nearestEven (mantissa E M) (places E)) := by
        obtain zero | some := Nat.eq_zero_or_pos (mantissa E M)
        · have none : E = 0 ∧ M = 0 := by
            simp only [mantissa] at zero
            split at zero <;> omega
          obtain ⟨rfl, rfl⟩ := none
          exact sum_zero fields (scaled_zero magnitude)
        · obtain ⟨i, pos, le, base⟩ := scaled_finite (by omega) hM some magnitude
          exact sum_finite (by omega) hM pos le fields base
      have value := nonsign_eq q sum
      refine .rounded (by omega) ?_
      rw [signed_half sign (by omega), value]
      omega
end FloatToHalf

section Nearest
variable {f : UInt32} {s : Sign} {E M : Nat}

/-- The magnitude of the half with this exponent and mantissa field, in units of 2 ^ -24. -/
def units (E M : Nat) : Nat := if E = 0 then M else (1024 + M) * 2 ^ (E - 1)

theorem half_number {b : BitVec binary16.numBits} (hE : E < 31) (hM : M < 1024)
    (stored : b.toNat = word binary16 s E M) : (unpack binary16 b).isFinite ∧
    Signed s (unpack binary16 b) ∧
    magnitude (unpack binary16 b) = units E M * 2 ^ (-24 : Int) := by
  have eq : unpack binary16 b = number binary16 s E M :=
    unpack_word (show E < 2 ^ 5 by omega) hM stored
  rw [eq]
  obtain rfl | low := Nat.eq_zero_or_pos E
  · obtain rfl | some := Nat.eq_zero_or_pos M
    · exact ⟨rfl, rfl, by simp [units, number, magnitude]⟩
    · rw [half_subnormal s some]
      exact ⟨rfl, rfl, by simp [units, magnitude]⟩
  · rw [half_normal s low hE]
    refine ⟨rfl, rfl, ?_⟩
    have value := mul_two_zpow (1024 + M) (E - 1) ((E : Int) - 25)
    have place : (E : Int) - 25 - (E - 1 : Nat) = -24 := by omega
    rw [place] at value
    rw [units, if_neg (by omega), value, magnitude]

theorem exists_units {b : BitVec binary16.numBits} (finite : (unpack binary16 b).isFinite) :
    ∃ E M, M < 1024 ∧ magnitude (unpack binary16 b) = units E M * 2 ^ (-24 : Int) := by
  obtain ⟨s, E, M, hE, hM, stored⟩ := exists_fields b
  change E < 32 at hE
  obtain below | rfl : E < 31 ∨ E = 31 := by omega
  · exact ⟨E, M, hM, (half_number below hM stored).2.2⟩
  · have top : unpack binary16 b = number binary16 s 31 M := unpack_word hE hM stored
    rw [top, number, if_pos (by decide)] at finite
    split at finite <;> cases finite

theorem units_rounded {g q : Nat} (le : q ≤ 2048) (full : g = 0 ∨ 1024 ≤ q) :
    units ((1024 * g + q) / 1024) ((1024 * g + q) % 1024) = q * 2 ^ g := by
  obtain short | exact_ | carry : q < 1024 ∨ (1024 ≤ q ∧ q < 2048) ∨ q = 2048 := by omega
  · have none : g = 0 := by omega
    subst none
    rw [units, if_pos (by omega), Nat.mul_zero, Nat.zero_add, Nat.mod_eq_of_lt short, pow_zero,
      Nat.mul_one]
  · have exponent : (1024 * g + q) / 1024 = g + 1 := by omega
    have mantissa : 1024 + (1024 * g + q) % 1024 = q := by omega
    rw [units, exponent, mantissa, if_neg (by omega), Nat.add_sub_cancel]
  · subst carry
    have exponent : (1024 * g + 2048) / 1024 = g + 2 := by omega
    have mantissa : (1024 * g + 2048) % 1024 = 0 := by omega
    rw [units, exponent, mantissa, if_neg (by omega), show g + 2 - 1 = g + 1 from rfl]
    ring

/-- The halves beyond the one where the spacing is `2 ^ g` are multiples of it. -/
theorem units_spacing {g : Nat} (hM : M < 1024) :
    2 ^ g ∣ units E M ∨ 0 < g ∧ units E M < 1024 * 2 ^ g := by
  obtain rfl | pos := Nat.eq_zero_or_pos g
  · left
    simp
  · rw [units]
    split
    · have := Nat.two_pow_pos g
      exact .inr ⟨pos, by omega⟩
    · obtain le | lt : g ≤ E - 1 ∨ E - 1 < g := by omega
      · exact .inl (Dvd.dvd.mul_left (Nat.pow_dvd_pow 2 le) _)
      · have pow : 2 * 2 ^ (E - 1) ≤ 2 ^ g := by
          rw [← Nat.pow_succ']
          exact Nat.pow_le_pow_right (by decide) (by omega)
        refine .inr ⟨pos, ?_⟩
        calc (1024 + M) * 2 ^ (E - 1) < 2048 * 2 ^ (E - 1) :=
              Nat.mul_lt_mul_of_pos_right (by omega) (Nat.two_pow_pos _)
          _ = 1024 * (2 * 2 ^ (E - 1)) := by ring
          _ ≤ 1024 * 2 ^ g := Nat.mul_le_mul_left _ pow

/-- The distance of a float from a multiple of the last place of its sum, in places of the
float. -/
theorem distance (m k : Nat) (j : Int) (e : Int) : |(m : ℚ) * 2 ^ e - j * 2 ^ k * 2 ^ e| =
    (|(m : Int) - j * 2 ^ k| : Int) * 2 ^ e := by
  have pos : (0 : ℚ) < 2 ^ e := zpow_pos two_pos e
  rw [← sub_mul, abs_mul, abs_of_pos pos]
  push_cast
  rfl

/-- The spacing of the halves around a float, seen from its own last place. -/
theorem spacing_eq (E : Nat) : (2 : ℚ) ^ (max E 113 - 113) * 2 ^ (-24 : Int) =
    2 ^ places E * 2 ^ exponent E := by
  rw [← zpow_natCast, ← zpow_natCast, ← zpow_add₀ two_ne_zero, ← zpow_add₀ two_ne_zero]
  congr 1
  simp only [places, exponent]
  omega

/-- No half is closer to a float than the multiple of the spacing that narrowing picks. -/
theorem closest_half (E' : Nat) {M' : Nat} (hM' : M' < 1024) :
    |(mantissa E M : ℚ) * 2 ^ exponent E -
        (nearestEven (mantissa E M) (places E) * 2 ^ (max E 113 - 113) : Nat) * 2 ^ (-24 : Int)| <
      |(mantissa E M : ℚ) * 2 ^ exponent E - units E' M' * 2 ^ (-24 : Int)| ∨
    |(mantissa E M : ℚ) * 2 ^ exponent E -
        (nearestEven (mantissa E M) (places E) * 2 ^ (max E 113 - 113) : Nat) * 2 ^ (-24 : Int)| =
      |(mantissa E M : ℚ) * 2 ^ exponent E - units E' M' * 2 ^ (-24 : Int)| ∧
    (units E' M' = nearestEven (mantissa E M) (places E) * 2 ^ (max E 113 - 113) ∨
      nearestEven (mantissa E M) (places E) % 2 = 0) := by
  have spacing := spacing_eq E
  have pos : (0 : ℚ) < 2 ^ exponent E := zpow_pos two_pos _
  have multiple (j : Nat) : ((j * 2 ^ (max E 113 - 113) : Nat) : ℚ) * 2 ^ (-24 : Int) =
      (j : Int) * 2 ^ places E * 2 ^ exponent E := by
    push_cast
    rw [mul_assoc, spacing, ← mul_assoc]
  rw [multiple, distance]
  obtain ⟨j, hj⟩ | ⟨wide, near⟩ := units_spacing (E := E') (g := max E 113 - 113) hM'
  · rw [hj, Nat.mul_comm, multiple, distance]
    by_cases same : j = nearestEven (mantissa E M) (places E)
    · right
      rw [same]
      exact ⟨rfl, .inl rfl⟩
    · obtain lt | ⟨eq, even⟩ := nearestEven_nearest (mantissa E M) (places E)
        (n := (j : Int)) (by exact_mod_cast same)
      · left
        have cast : ((|(mantissa E M : Int) - nearestEven (mantissa E M) (places E) *
          2 ^ places E| : Int) : ℚ) < (|(mantissa E M : Int) - j * 2 ^ places E| : Int) := by
          exact_mod_cast lt
        exact mul_lt_mul_of_pos_right cast pos
      · right
        rw [eq]
        exact ⟨rfl, .inr even⟩
  · -- such a half lies below the binade of the float, whose lower end is a half as well
    left
    have normal : mantissa E M = 2 ^ 23 + M := if_neg (by omega)
    have place : places E = 13 := by
      rw [places]
      omega
    have binade : (units E' M' : ℚ) * 2 ^ (-24 : Int) <
        ((1024 : Nat) : Int) * 2 ^ places E * 2 ^ exponent E := by
      rw [← multiple]
      exact mul_lt_mul_of_pos_right (by exact_mod_cast near) (zpow_pos two_pos _)
    have above : (((1024 : Nat) : Int) * 2 ^ places E * 2 ^ exponent E : ℚ) ≤
        mantissa E M * 2 ^ exponent E := by
      apply mul_le_mul_of_nonneg_right _ pos.le
      rw [normal, place]
      push_cast
      norm_num
    have best : |(mantissa E M : Int) - nearestEven (mantissa E M) (places E) * 2 ^ places E| ≤
        |(mantissa E M : Int) - (1024 : Nat) * 2 ^ places E| := by
      by_cases same : ((1024 : Nat) : Int) = nearestEven (mantissa E M) (places E)
      · rw [same]
      · obtain lt | ⟨eq, _⟩ := nearestEven_nearest (mantissa E M) (places E) same
        · exact lt.le
        · exact eq.le
    calc _ ≤ ((|(mantissa E M : Int) - (1024 : Nat) * 2 ^ places E| : Int) : ℚ) *
            2 ^ exponent E :=
          mul_le_mul_of_nonneg_right (by exact_mod_cast best) pos.le
      _ = mantissa E M * 2 ^ exponent E - ((1024 : Nat) : Int) * 2 ^ places E * 2 ^ exponent E := by
          rw [← distance, abs_of_nonneg (sub_nonneg.mpr above)]
      _ < mantissa E M * 2 ^ exponent E - units E' M' * 2 ^ (-24 : Int) := sub_lt_sub_left binade _
      _ ≤ _ := le_abs_self _

/-- Narrowing by the standard: the closest half, from halfway to 2 ^ 16 on infinity. A NaN
becomes the quiet one of its sign. -/
def Narrows (f : UInt32) (h : UInt16) : Prop :=
  match unpack binary32 f.toBitVec with
  | .notANumber =>
    unpack binary16 h.toBitVec = .notANumber ∧ h = (((f &&& 0x80000000) >>> 16) ||| 0x7E00).toUInt16
  | .infinity s => unpack binary16 h.toBitVec = .infinity s
  | .zero s => unpack binary16 h.toBitVec = .zero s
  | .finite s m e _ =>
    if (m : ℚ) * 2 ^ e < 65520 then Nearest binary16 s (m * 2 ^ e) h.toBitVec
    else unpack binary16 h.toBitVec = .infinity s

theorem mantissa_lt (hM : M < 2 ^ 23) : mantissa E M < 2 ^ 24 := by
  rw [mantissa]
  split <;> omega

theorem rounded_lt_iff (small : E ≤ 142) (hM : M < 2 ^ 23) :
    (mantissa E M : ℚ) * 2 ^ exponent E < 65520 ↔
      1024 * (max E 113 - 113) + nearestEven (mantissa E M) (places E) < 1024 * 31 := by
  have size := mantissa_lt (E := E) hM
  have rounded := rounded_le (E := E) hM
  obtain top | below : E = 142 ∨ E ≤ 141 := by omega
  · have place : places E = 13 := by
      rw [places]
      omega
    have value :
        (mantissa E M : ℚ) * 2 ^ exponent E < 65520 ↔ mantissa E M < 65520 * 2 ^ 8 := by
      have last : exponent E = -8 := by
        rw [exponent]
        omega
      rw [last, zpow_neg, ← div_eq_mul_inv, div_lt_iff₀ (by norm_num)]
      norm_cast
    rw [value, place, nearestEven]
    split_ifs <;> omega
  · have low : (mantissa E M : ℚ) * 2 ^ exponent E < 65520 := by
      have last : (2 : ℚ) ^ exponent E ≤ 2 ^ (-9 : Int) := by
        apply zpow_le_zpow_right₀ one_le_two
        rw [exponent]
        omega
      have bound : (mantissa E M : ℚ) ≤ 2 ^ 24 := by exact_mod_cast size.le
      calc (mantissa E M : ℚ) * 2 ^ exponent E ≤ 2 ^ 24 * 2 ^ (-9 : Int) :=
            mul_le_mul bound last (zpow_pos two_pos _).le (by norm_num)
        _ < 65520 := by norm_num
    exact ⟨fun _ => by omega, fun _ => low⟩

theorem large_magnitude (large : 143 ≤ E) :
    ¬ (mantissa E M : ℚ) * 2 ^ exponent E < 65520 := by
  have normal : mantissa E M = 2 ^ 23 + M := if_neg (by omega)
  have last : (2 : ℚ) ^ (-7 : Int) ≤ 2 ^ exponent E := by
    apply zpow_le_zpow_right₀ one_le_two
    rw [exponent]
    omega
  have bound : (2 ^ 23 : ℚ) ≤ mantissa E M := by
    rw [normal]
    push_cast
    exact le_add_of_nonneg_right (Nat.cast_nonneg M)
  have product : (2 ^ 23 : ℚ) * 2 ^ (-7 : Int) ≤ mantissa E M * 2 ^ exponent E :=
    mul_le_mul bound last (zpow_pos two_pos _).le (Nat.cast_nonneg _)
  have value : (65520 : ℚ) < 2 ^ 23 * 2 ^ (-7 : Int) := by norm_num
  exact not_lt.mpr (value.le.trans product)

/-- The half with these bits below the sign. -/
theorem stored_half {r : UInt16} {n : Nat} (eq : r.toNat = 2 ^ 15 * signBit s + n) :
    r.toBitVec.toNat = word binary16 s (n / 1024) (n % 1024) := by
  change r.toNat = _
  rw [eq]
  simp only [word, Nat.reducePow]
  omega

theorem unpack_stored {r : UInt16} {n : Nat} (eq : r.toNat = 2 ^ 15 * signBit s + n)
    (hn : n < 2 ^ 15) : unpack binary16 r.toBitVec = number binary16 s (n / 1024) (n % 1024) :=
  unpack_word (show n / 1024 < 2 ^ 5 by omega) (show n % 1024 < 2 ^ 10 by omega) (stored_half eq)

theorem nearest_half {r : UInt16} (hM : M < 2 ^ 23)
    (finite : 1024 * (max E 113 - 113) + nearestEven (mantissa E M) (places E) < 1024 * 31)
    (eq : r.toNat = 2 ^ 15 * signBit s +
      (1024 * (max E 113 - 113) + nearestEven (mantissa E M) (places E))) :
    Nearest binary16 s (mantissa E M * 2 ^ exponent E) r.toBitVec := by
  have full : max E 113 - 113 = 0 ∨ 1024 ≤ nearestEven (mantissa E M) (places E) := by
    obtain low | high : E ≤ 113 ∨ 113 < E := by omega
    · left
      omega
    · have normal : mantissa E M = 2 ^ 23 + M := if_neg (by omega)
      have place : places E = 13 := by
        rw [places]
        omega
      right
      rw [normal, place, nearestEven]
      split_ifs <;> omega
  have rounded := rounded_le (E := E) hM
  obtain ⟨number, signed, value⟩ := half_number (by omega) (Nat.mod_lt _ (by decide))
    (stored_half eq)
  rw [units_rounded rounded full] at value
  refine ⟨number, signed, fun c hc => ?_, fun c hc tie => ?_⟩
  · obtain ⟨E', M', hM', unit⟩ := exists_units hc
    rw [value, unit]
    obtain lt | ⟨eq, _⟩ := closest_half (E := E) (M := M) E' hM'
    · exact lt.le
    · exact eq.le
  · obtain ⟨E', M', hM', unit⟩ := exists_units hc
    rw [value, unit] at tie ⊢
    obtain lt | ⟨_, same | even⟩ := closest_half (E := E) (M := M) E' hM'
    · exact absurd tie lt.ne
    · left
      rw [same]
    · right
      change r.toNat % 2 = 0
      omega

/-- Narrowing rounds correctly. -/
theorem aneComputeF32ToF16_nearest (f : UInt32) :
    Narrows f (aneComputeF32ToF16 f) := by
  obtain ⟨s, E, M, hE, hM, fields⟩ := @exists_fields binary32 f.toBitVec
  change E < 256 at hE
  change M < 2 ^ 23 at hM
  have sign := sign_eq hE hM fields
  rw [Narrows, show unpack binary32 f.toBitVec = number binary32 s E M from unpack_word hE hM fields]
  have n := narrowed hE hM fields
  generalize aneComputeF32ToF16 f = r at n
  cases n with
  | notANumber top some eq =>
    subst top
    have nan : number binary32 s 255 M = .notANumber := by
      rw [number, if_pos (by decide), if_neg (by omega)]
    rw [nan]
    refine ⟨unpack_stored eq (by decide), ?_⟩
    rw [← UInt16.toNat_inj, signed_half sign (by decide)]
    exact eq
  | infinity large finite eq =>
    have infinite : unpack binary16 r.toBitVec = .infinity s := unpack_stored eq (by decide)
    obtain below | rfl : E < 255 ∨ E = 255 := by omega
    · rw [number_finite s below, dif_neg (by rw [mantissa]; split <;> omega)]
      simp only [if_neg (large_magnitude large), infinite]
    · have zero : M = 0 := by omega
      subst zero
      exact infinite
  | rounded small eq =>
    rw [number_finite s (by omega)]
    obtain zero | some := Nat.eq_zero_or_pos (mantissa E M)
    · rw [dif_pos zero]
      have none : E = 0 := by
        simp only [mantissa] at zero
        split at zero <;> omega
      subst none
      rw [zero] at eq
      exact unpack_stored eq (by decide)
    · rw [dif_neg (by omega)]
      dsimp only
      have finite := rounded_lt_iff small hM
      split
      next lt => exact nearest_half hM (finite.mp lt) eq
      next ge => 
        have rounded := rounded_le (E := E) hM
        have carry : 1024 * (max E 113 - 113) + nearestEven (mantissa E M) (places E) = 0x7C00 := by
          have := finite.not.mp ge
          omega
        rw [carry] at eq
        exact unpack_stored eq (by decide)
end Nearest

section RoundTrip
variable {h : UInt16} {s : Sign} {E M : Nat}

theorem number_injective {m : Nat} {e : Int} {E M : Nat} (high : E < 255) (pos : 0 < m)
    (eq : .finite s m e pos = number binary32 s E M) : mantissa E M = m ∧ exponent E = e := by
  rw [number_finite s high] at eq
  split at eq
  · cases eq
  · injection eq with _ hm he
    exact ⟨hm.symm, he.symm⟩

theorem half_eq {x : UInt16} (stored : h.toNat = word binary16 s E M)
    (eq : x.toNat = 2 ^ 15 * signBit s + (1024 * E + M)) : x = h := by
  apply UInt16.toNat_inj.mp
  simp only [word, Nat.reducePow] at stored
  omega

theorem quiet_half (hE : E < 32) (hM : M < 1024) (stored : h.toNat = word binary16 s E M) :
    ((h &&& 0x8000) ||| 0x7E00).toNat = 2 ^ 15 * signBit s + 0x7E00 := by
  have bit := signBit_lt s
  have masked := and_mask h.toNat 1 15
  have sign : (h &&& 0x8000).toNat = 2 ^ 15 * signBit s := by
    rw [UInt16.toNat_and]
    refine masked.trans ?_
    simp only [word, Nat.reducePow] at stored
    omega
  rw [UInt16.toNat_or, sign]
  exact (Nat.two_pow_add_eq_or_of_lt (by decide) _).symm

namespace Narrowed
variable {r : UInt16}

theorem of_infinity (n : Narrowed s 255 0 r) : r.toNat = 2 ^ 15 * signBit s + (1024 * 31 + 0) := by
  cases n with
  | notANumber top some eq => omega
  | infinity large number eq => exact eq
  | rounded small eq => omega

theorem of_notANumber (some : 0 < M) (n : Narrowed s 255 M r) :
    r.toNat = 2 ^ 15 * signBit s + 0x7E00 := by
  cases n with
  | notANumber top some eq => exact eq
  | infinity large number eq => omega
  | rounded small eq => omega

theorem of_small (small : E ≤ 142) (n : Narrowed s E M r) : r.toNat = 2 ^ 15 * signBit s +
    (1024 * (max E 113 - 113) + nearestEven (mantissa E M) (places E)) := by
  cases n with
  | notANumber top some eq => omega
  | infinity large number eq => omega
  | rounded small eq => exact eq

theorem of_normal (low : 0 < E) (high : E < 31) (n : Narrowed s (E + 112) (M * 8192) r) :
    r.toNat = 2 ^ 15 * signBit s + (1024 * E + M) := by
  have eq := n.of_small (by omega)
  have same : mantissa (E + 112) (M * 8192) = (1024 + M) * 2 ^ 13 := by
    rw [mantissa, if_neg (by omega)]
    ring
  have place : places (E + 112) = 13 := by
    rw [places]
    omega
  rw [same, place, nearestEven_mul] at eq
  omega

theorem of_subnormal {j E' M' : Nat} (hM : M < 1024) (same : mantissa E' M' = M * 2 ^ j)
    (place : exponent E' = -24 - j) (n : Narrowed s E' M' r) :
    r.toNat = 2 ^ 15 * signBit s + (1024 * 0 + M) := by
  simp only [exponent] at place
  -- the leading bit of a mantissa of ten bits lies below that of the smallest normal half
  have below : E' ≤ 113 := by
    obtain rfl | low := Nat.eq_zero_or_pos E'
    · omega
    · rw [mantissa, if_neg (by omega)] at same
      have large : 2 ^ 13 < 2 ^ j := by
        by_contra small
        have := Nat.mul_le_mul_left M (Nat.le_of_not_lt small)
        omega
      have := (Nat.pow_lt_pow_iff_right (by decide)).mp large
      omega
  have dropped : places E' = j := by
    rw [places]
    omega
  have eq := n.of_small (by omega)
  rw [same, dropped, nearestEven_mul] at eq
  omega

end Narrowed

/-- A half comes back from a float as it was, a NaN as the quiet one of its sign. -/
theorem aneComputeF32ToF16_widen (h : UInt16) : aneComputeF32ToF16 (aneComputeF16ToF32 h) =
    if (unpack binary16 h.toBitVec).isNaN then (h &&& 0x8000) ||| 0x7E00 else h := by
  obtain ⟨s, E, M, hE, hM, stored⟩ := @exists_fields binary16 h.toBitVec
  have half : unpack binary16 h.toBitVec = number binary16 s E M := unpack_word hE hM stored
  change E < 32 at hE
  change M < 1024 at hM
  rw [half]
  cases widened hE hM stored with
  | infinity top none fields =>
    subst top none
    exact half_eq stored (narrowed (by omega) (by omega) fields).of_infinity
  | notANumber top some fields =>
    subst top
    have nan : number binary16 s 31 M = .notANumber := by
      rw [number, if_pos (by decide), if_neg (by omega)]
    rw [nan]
    apply UInt16.toNat_inj.mp
    exact ((narrowed (by omega) (by omega) fields).of_notANumber (by omega)).trans
      (quiet_half hE hM stored).symm
  | normal low high fields =>
    rw [half_normal s low high]
    exact half_eq stored ((narrowed (by omega) (by omega) fields).of_normal low high)
  | zero bottom none fields =>
    subst bottom none
    exact half_eq stored ((narrowed (by omega) (by omega) fields).of_small (by omega))
  | subnormal bottom j E' M' pos hE' hM' fields eq =>
    subst bottom
    rw [half_subnormal s (Nat.pos_of_mul_pos_right pos)]
    obtain ⟨same, place⟩ := number_injective hE' pos eq
    exact half_eq stored ((narrowed (by omega) hM' fields).of_subnormal hM same place)
end RoundTrip

section Rows
variable {α β : Type} {convert : α → β} {x : List α} {y : List β}

theorem convertRow_front (k : Nat) (hx : k ≤ x.length) (hy : k ≤ y.length) :
    (List.range k).foldlM (fun y i => do
      let a ← x[i]?
      if i < y.length then some (y.set i (convert a)) else none) y =
        some ((x.take k).map convert ++ y.drop k) := by
  induction k with
  | zero => simp
  | succ k ih =>
    have here : x[k]? = some x[k] := List.getElem?_eq_getElem (by omega)
    have front : ((x.take k).map convert).length = k := by simp; omega
    rw [List.range_succ, List.foldlM_append, ih (by omega) (by omega)]
    simp only [Option.bind_eq_bind, Option.bind_some, List.foldlM_cons, List.foldlM_nil, here]
    rw [if_pos (by simp; omega), List.set_append_right _ _ (by omega), front, Nat.sub_self,
      List.drop_eq_getElem_cons (show k < y.length by omega), List.set_cons_zero,
      List.take_succ_eq_append_getElem (show k < x.length by omega), List.map_append,
      List.append_assoc]
    rfl

theorem range_split {k n : Nat} (lt : k < n) :
    ∃ rest, List.range n = List.range k ++ k :: rest := by
  obtain ⟨m, rfl⟩ := Nat.exists_eq_add_of_lt lt
  rw [Nat.add_right_comm, List.range_add, List.range_succ]
  exact ⟨_, List.append_assoc _ _ _⟩

/-- The row is converted in place and what lies behind it stays; past the end of either
array there is no result. -/
theorem convertRow_eq (convert : α → β) (x : List α) (y : List β) (n : UInt64) :
    convertRow convert x y n =
      if n.toNat ≤ x.length ∧ n.toNat ≤ y.length then
        some ((x.take n.toNat).map convert ++ y.drop n.toNat)
      else none := by
  split
  next inside => exact convertRow_front _ inside.1 inside.2
  next outside =>
    obtain ⟨rest, split⟩ := range_split (show min x.length y.length < n.toNat by omega)
    rw [convertRow, split, List.foldlM_append, convertRow_front _ (by omega) (by omega)]
    have length : ((x.take (min x.length y.length)).map convert ++
        y.drop (min x.length y.length)).length = y.length := by
      simp
    simp only [Option.bind_eq_bind, Option.bind_some, List.foldlM_cons, length]
    obtain short | long : x.length ≤ y.length ∨ y.length < x.length := by omega
    · rw [Nat.min_eq_left short, List.getElem?_eq_none (Nat.le_refl _)]
      rfl
    · simp [Nat.min_eq_right long.le]

/-- Halves sent through a row of floats come back, each NaN as the quiet one of its sign. -/
theorem aneF16ToF32Row_back (x : List UInt16) (y : List UInt32) (z : List UInt16) (n : UInt64) :
    ((aneF16ToF32Row x y n).bind fun y => aneF32ToF16Row y z n) =
      if n.toNat ≤ x.length ∧ n.toNat ≤ y.length ∧ n.toNat ≤ z.length then
        some ((x.take n.toNat).map (fun h =>
          if (unpack binary16 h.toBitVec).isNaN then (h &&& 0x8000) ||| 0x7E00 else h) ++
            z.drop n.toNat)
      else none := by
  rw [aneF16ToF32Row, convertRow_eq]
  by_cases first : n.toNat ≤ x.length ∧ n.toNat ≤ y.length
  · have long :
        n.toNat ≤ ((x.take n.toNat).map aneComputeF16ToF32 ++ y.drop n.toNat).length := by
      simp
      omega
    have front : ((x.take n.toNat).map aneComputeF16ToF32 ++ y.drop n.toNat).take n.toNat =
        (x.take n.toNat).map aneComputeF16ToF32 := by
      rw [List.take_left' (by simpa using first.1)]
    have same : aneComputeF32ToF16 ∘ aneComputeF16ToF32 = fun h =>
        if (unpack binary16 h.toBitVec).isNaN then (h &&& 0x8000) ||| 0x7E00 else h :=
      funext aneComputeF32ToF16_widen
    rw [if_pos first, Option.bind_some, aneF32ToF16Row, convertRow_eq, front, List.map_map, same]
    simp only [long, first, true_and]
  · rw [if_neg first, if_neg (by omega)]
    rfl
end Rows

end Ane.F16
