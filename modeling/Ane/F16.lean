import Ane.BinaryFloat

/-! Half precision, as `ane_f16.h` converts it. A C float is the word it is stored
in; its arithmetic is that of the standard, rounding to nearest. What a NaN result
carries besides being one is the hardware's choice and is not modelled. -/
namespace Ane.F16
open BinaryFloat
open Float.Model (Format UnpackedFloat totalExponent)
open Float.Model.UnpackedFloat

abbrev binary16 : Format where
  mantissaBitsWithoutImplicit := 10
  exponentBits := 5

abbrev binary32 : Format := Format.binary32

def fmul (x y : UInt32) : UInt32 :=
  .ofBitVec (pack binary32 (mul binary32 (unpack binary32 x.toBitVec) (unpack binary32 y.toBitVec)))

def fadd (x y : UInt32) : UInt32 :=
  .ofBitVec (pack binary32 (add binary32 (unpack binary32 x.toBitVec) (unpack binary32 y.toBitVec)))

def fsub (x y : UInt32) : UInt32 :=
  .ofBitVec (pack binary32 (sub binary32 (unpack binary32 x.toBitVec) (unpack binary32 y.toBitVec)))

def fabsf (x : UInt32) : UInt32 := x &&& 0x7FFFFFFF

/-- The constants 0x1.0p-112f, 0.5f, 0x1.0p+112f and 0x1.0p-110f. -/
def expScale : UInt32 := 0x07800000
def magicBias : UInt32 := 0x3F000000
def scaleToInf : UInt32 := 0x77800000
def scaleToZero : UInt32 := 0x08800000

def aneComputeF16ToF32 (h : UInt16) : UInt32 :=
  let w := h.toUInt32 <<< 16
  let sign := w &&& 0x80000000
  let twoW := w + w
  let expOffset := (0xE0 : UInt32) <<< 23
  let normalizedValue := fmul ((twoW >>> 4) + expOffset) expScale
  let magicMask := (126 : UInt32) <<< 23
  let denormalizedValue := fsub ((twoW >>> 17) ||| magicMask) magicBias
  let denormalizedCutoff := (1 : UInt32) <<< 27
  sign ||| (if twoW < denormalizedCutoff then denormalizedValue else normalizedValue)

def aneComputeF32ToF16 (f : UInt32) : UInt16 :=
  let base := fmul (fmul (fabsf f) scaleToInf) scaleToZero
  let w := f
  let shl1W := w + w
  let sign := w &&& 0x80000000
  let bias := shl1W &&& 0xFF000000
  let bias := if bias < 0x71000000 then 0x71000000 else bias
  let base := fadd ((bias >>> 1) + 0x07800000) base
  let bits := base
  let expBits := (bits >>> 13) &&& 0x00007C00
  let mantissaBits := bits &&& 0x00000FFF
  let nonsign := expBits + mantissaBits
  ((sign >>> 16) ||| (if shl1W > 0xFF000000 then 0x7E00 else nonsign)).toUInt16

/-- The loop of the two row functions. An access outside an array has no result. -/
def convertRow {α β : Type} (convert : α → β) (x : List α) (y : List β) (n : UInt64) :
    Option (List β) :=
  (List.range n.toNat).foldlM (fun y i => do
    let a ← x[i]?
    if i < y.length then some (y.set i (convert a)) else none) y

def aneF16ToF32Row (x : List UInt16) (y : List UInt32) (n : UInt64) : Option (List UInt32) :=
  convertRow aneComputeF16ToF32 x y n

def aneF32ToF16Row (x : List UInt32) (y : List UInt16) (n : UInt64) : Option (List UInt16) :=
  convertRow aneComputeF32ToF16 x y n

theorem signBit_lt (s : Sign) : signBit s < 2 := by cases s <;> decide

theorem and_sign (x : UInt32) : (x &&& 0x80000000).toNat = x.toNat / 2 ^ 31 % 2 * 2 ^ 31 := by
  rw [UInt32.toNat_and]
  exact and_mask x.toNat 1 31

theorem unpack_fmul (x y : UInt32) : unpack binary32 (fmul x y).toBitVec =
    unpack binary32 (pack binary32 (mul binary32 (unpack binary32 x.toBitVec)
      (unpack binary32 y.toBitVec))) := rfl

/-- The words of a C float: `x` has these fields. -/
def Fields (x : UInt32) (s : Sign) (E M : Nat) : Prop := x.toNat = word binary32 s E M

instance (x : UInt32) (s : Sign) (E M : Nat) : Decidable (Fields x s E M) :=
  inferInstanceAs (Decidable (_ = _))

theorem Fields.unpack_eq {x : UInt32} {s : Sign} {E M : Nat} (h : Fields x s E M) (hE : E < 256)
    (hM : M < 2 ^ 23) : unpack binary32 x.toBitVec = number binary32 s E M :=
  unpack_word hE hM h

theorem fields_pack {u : UnpackedFloat} {s : Sign} {E M : Nat}
    (hE : E < 255 ∨ E = 255 ∧ M = 0) (hM : M < 2 ^ 23) (h : u = number binary32 s E M) :
    Fields (.ofBitVec (pack binary32 u)) s E M := by
  subst h
  exact toNat_pack_number (by decide) s (by simpa using by omega) hM

theorem Fields.or_sign {x y : UInt32} {s : Sign} {E M : Nat} (h : Fields x .positive E M)
    (hE : E < 256) (hM : M < 2 ^ 23) (sign : y.toNat = signBit s * 2 ^ 31) :
    Fields (y ||| x) s E M := by
  rw [Fields, word] at *
  rw [UInt32.toNat_or, sign, h, Nat.mul_comm, ← Nat.two_pow_add_eq_or_of_lt]
  all_goals simp only [signBit, Nat.reducePow] at *
  all_goals omega

section HalfToFloat
variable {h : UInt16} {s : Sign} {E M : Nat}

theorem twoW_eq (hE : E < 32) (hM : M < 1024) (eq : h.toNat = word binary16 s E M) :
    (h.toUInt32 <<< 16 + h.toUInt32 <<< 16).toNat = (1024 * E + M) * 2 ^ 17 := by
  have bit := signBit_lt s
  simp only [word, Nat.reducePow] at eq
  simp [Nat.shiftLeft_eq, eq]
  omega

theorem signWord (hE : E < 32) (hM : M < 1024) (eq : h.toNat = word binary16 s E M) :
    (h.toUInt32 <<< 16 &&& 0x80000000).toNat = signBit s * 2 ^ 31 := by
  have bit := signBit_lt s
  simp only [word, Nat.reducePow] at eq
  rw [and_sign]
  simp [Nat.shiftLeft_eq, eq]
  omega

theorem number_normal {E M : Nat} (s : Sign) (low : 0 < E) (high : E < 255) :
    number binary32 s E M = .finite s (2 ^ 23 + M) (E - 150 : Int) (by omega) := by
  rw [number, if_neg (by simp; omega), if_neg (by omega)]
  rfl

theorem canonical_normal {E M : Nat} (low : 0 < E) (hM : M < 2 ^ 23) :
    Canonical binary32 (2 ^ 23 + M) (E - 150) :=
  canonical_iff.mpr (.inl ⟨log2_leading hM, by simp [Format.exponentBias]; omega⟩)

theorem unpack_expScale : unpack binary32 expScale.toBitVec =
    .finite .positive (2 ^ 23) (-135) (by decide) :=
  have fields : Fields expScale .positive 15 0 := by decide
  fields.unpack_eq (by omega) (by omega)

theorem unpack_magicBias : unpack binary32 magicBias.toBitVec =
    .finite .positive (2 ^ 23) (-24) (by decide) :=
  have fields : Fields magicBias .positive 126 0 := by decide
  fields.unpack_eq (by omega) (by omega)

/-- The exponent of a normal half, moved by 224 and back by 112, is that of the float. -/
theorem normalized_fields {x : UInt32} (low : 0 < E) (high : E < 31) (hM : M < 1024)
    (eq : Fields x .positive (E + 224) (M * 8192)) :
    Fields (fmul x expScale) .positive (E + 112) (M * 8192) := by
  apply fields_pack (by omega) (by omega)
  have product := roundWithAccuracy_mul (s := .positive) (by omega)
    (canonical_normal (E := E + 112) (M := M * 8192) (by omega) (by omega)) 23
  rw [eq.unpack_eq (by omega) (by omega), unpack_expScale, number_normal _ (by omega) (by omega),
    number_normal _ (by omega) (by omega), ← product]
  have exponent : ((E + 224 : Nat) : Int) - 150 + -135 = (E + 112 : Nat) - 150 - (23 : Nat) := by
    omega
  simp only [mul, exponent]
  rfl

/-- What the subtraction of the bias leaves: the mantissa as a float, brought to its form. -/
inductive Denormalized (M : Nat) (x : UInt32) : Prop
  | zero (none : M = 0) (fields : Fields x .positive 0 0)
  | number (j E' M' : Nat) (pos : 0 < M * 2 ^ j) (hE : E' < 255) (hM : M' < 2 ^ 23)
      (fields : Fields x .positive E' M')
      (eq : ∀ s, .finite s (M * 2 ^ j) (-24 - j) pos = BinaryFloat.number binary32 s E' M')

theorem denormalized_fields {x : UInt32} (hM : M < 1024) (eq : Fields x .positive 126 M) :
    Denormalized M (fsub x magicBias) := by
  have difference : sub binary32 (unpack binary32 x.toBitVec) (unpack binary32 magicBias.toBitVec) =
      if M = 0 then .zero .positive else UnpackedFloat.round binary32 .positive M (-24) := by
    rw [eq.unpack_eq (by omega) (by omega), unpack_magicBias,
      number_normal _ (by omega) (by omega)]
    exact sub_positive (by omega) (by omega)
  obtain zero | pos := Nat.eq_zero_or_pos M
  · refine .zero zero (fields_pack (by omega) (by omega) ?_)
    rw [difference, if_pos zero]
    rfl
  · have log : M.log2 < 10 := (Nat.log2_lt (by omega)).mpr hM
    obtain ⟨j, pos', canonical, eq'⟩ := round_small (s := .positive) pos
      (show binary32.targetExponent (Float.Model.totalExponent M (-24)) ≤ -24 by
        simp only [Format.targetExponent, Float.Model.totalExponent, Format.mantissaBits,
          Format.minExponent]
        omega)
    obtain ⟨E', M', hE', hM', number_eq⟩ := exists_number (by decide) pos' canonical
      (by simp [Format.exponentBias]; omega)
    change E' + 1 < 2 ^ 8 at hE'
    change M' < 2 ^ 23 at hM'
    refine .number j E' M' pos' (by omega) hM' ?_ number_eq
    apply fields_pack (by omega) hM'
    rw [difference, if_neg (by omega), eq', number_eq]

/-- What widening makes of the half with the fields `s`, `E` and `M`. -/
inductive Widened (s : Sign) (E M : Nat) (x : UInt32) : Prop
  | infinity (top : E = 31) (none : M = 0) (fields : Fields x s 255 0)
  | notANumber (top : E = 31) (some : 0 < M) (fields : Fields x s 255 (2 ^ 22))
  | normal (low : 0 < E) (high : E < 31) (fields : Fields x s (E + 112) (M * 8192))
  | zero (bottom : E = 0) (none : M = 0) (fields : Fields x s 0 0)
  | subnormal (bottom : E = 0) (j E' M' : Nat) (pos : 0 < M * 2 ^ j) (hE : E' < 255)
      (hM : M' < 2 ^ 23) (fields : Fields x s E' M')
      (eq : .finite s (M * 2 ^ j) (-24 - j) pos = number binary32 s E' M')

theorem normalized_top {x : UInt32} (hM : M < 1024) (eq : Fields x .positive 255 (M * 8192)) :
    Fields (fmul x expScale) .positive 255 (if M = 0 then 0 else 2 ^ 22) := by
  have product : fmul x expScale = .ofBitVec (pack binary32
      (mul binary32 (number binary32 .positive 255 (M * 8192))
        (.finite .positive (2 ^ 23) (-135) (by decide)))) := by
    rw [fmul, eq.unpack_eq (by omega) (by omega), unpack_expScale]
  rw [product]
  split
  · subst M
    exact fields_pack (by omega) (by omega) rfl
  · have nan : number binary32 .positive 255 (M * 8192) = .notANumber := by
      rw [number, if_pos (by decide), if_neg (by omega)]
    rw [nan]
    rfl

theorem widened (hE : E < 32) (hM : M < 1024) (eq : h.toNat = word binary16 s E M) :
    Widened s E M (aneComputeF16ToF32 h) := by
  have twice := twoW_eq hE hM eq
  have sign := signWord hE hM eq
  have below : h.toUInt32 <<< 16 + h.toUInt32 <<< 16 < (1 : UInt32) <<< 27 ↔ E = 0 := by
    rw [UInt32.lt_iff_toNat_lt, twice]
    simp
    omega
  have shifted : Fields (((h.toUInt32 <<< 16 + h.toUInt32 <<< 16) >>> 4) + (0xE0 : UInt32) <<< 23)
      .positive (E + 224) (M * 8192) := by
    simp only [Fields, word, signBit, Nat.reducePow]
    rw [UInt32.toNat_add, UInt32.toNat_shiftRight, twice]
    simp [Nat.shiftRight_eq_div_pow]
    omega
  have joined (bottom : E = 0) :
      Fields (((h.toUInt32 <<< 16 + h.toUInt32 <<< 16) >>> 17) ||| (126 : UInt32) <<< 23)
        .positive 126 M := by
    have low : ((h.toUInt32 <<< 16 + h.toUInt32 <<< 16) >>> 17).toNat = M := by
      rw [UInt32.toNat_shiftRight, twice]
      simp [Nat.shiftRight_eq_div_pow]
      omega
    simp only [Fields, word, signBit, Nat.reducePow]
    rw [UInt32.toNat_or, low, Nat.or_comm]
    exact (Nat.two_pow_add_eq_or_of_lt (i := 23) (by omega) 126).symm
  simp only [aneComputeF16ToF32, below]
  obtain bottom | middle | top : E = 0 ∨ 0 < E ∧ E < 31 ∨ E = 31 := by omega
  · rw [if_pos bottom]
    cases denormalized_fields hM (joined bottom) with
    | zero none fields => exact .zero bottom none (fields.or_sign (by omega) (by omega) sign)
    | number j E' M' pos hE hM fields eq =>
      exact .subnormal bottom j E' M' pos hE hM (fields.or_sign (by omega) hM sign) (eq s)
  · rw [if_neg (by omega)]
    exact .normal middle.1 middle.2 ((normalized_fields middle.1 middle.2 hM shifted).or_sign
      (by omega) (by omega) sign)
  · rw [if_neg (by omega)]
    subst top
    have fields := (normalized_top hM shifted).or_sign (by omega) (by split <;> omega) sign
    obtain rfl | some := Nat.eq_zero_or_pos M
    · exact .infinity rfl rfl fields
    · rw [if_neg (by omega)] at fields
      exact .notANumber rfl some fields

theorem half_normal (s : Sign) (low : 0 < E) (high : E < 31) :
    number binary16 s E M = .finite s (1024 + M) (E - 25 : Int) (by omega) := by
  rw [number, if_neg (by simp; omega), if_neg (by omega)]
  rfl

theorem half_subnormal (s : Sign) (pos : 0 < M) :
    number binary16 s 0 M = .finite s M (-24) pos := by
  rw [number, if_neg (by decide), if_pos rfl, dif_neg (by omega)]
  rfl

/-- Widening is exact: the float is the same number as the half. -/
theorem aneComputeF16ToF32_exact (h : UInt16) :
    SameNumber (unpack binary16 h.toBitVec) (unpack binary32 (aneComputeF16ToF32 h).toBitVec) := by
  obtain ⟨s, E, M, hE, hM, word⟩ := @exists_fields binary16 h.toBitVec
  have half : unpack binary16 h.toBitVec = number binary16 s E M := unpack_word hE hM word
  change E < 32 at hE
  change M < 1024 at hM
  rw [half]
  cases widened hE hM word with
  | infinity top none fields =>
    subst top none
    rw [fields.unpack_eq (by omega) (by omega)]
    exact rfl
  | notANumber top some fields =>
    rw [fields.unpack_eq (by omega) (by omega), number, if_pos (by rw [top]; rfl),
      if_neg (by omega)]
    trivial
  | normal low high fields =>
    rw [fields.unpack_eq (by omega) (by omega), number_normal s (by omega) (by omega),
      half_normal s low high]
    refine ⟨rfl, ?_⟩
    rw [← mul_two_zpow (1024 + M) 13, show (1024 + M) * 2 ^ 13 = 2 ^ 23 + M * 8192 by ring,
      show (E : Int) - 25 - (13 : Nat) = (E + 112 : Nat) - 150 by omega]
  | zero bottom none fields =>
    subst bottom none
    rw [fields.unpack_eq (by omega) (by omega)]
    exact rfl
  | subnormal bottom j E' M' pos hE' hM' fields eq =>
    subst bottom
    rw [fields.unpack_eq (by omega) hM', ← eq, half_subnormal s (Nat.pos_of_mul_pos_right pos)]
    exact ⟨rfl, (mul_two_zpow M j (-24)).symm⟩

end HalfToFloat

end Ane.F16
