import Mathlib.Data.List.Basic
import Mathlib.Tactic.Common

/-! Texts that tell facts. Two texts tell a fact if they are equal exactly when it holds, and
that whatever text follows each of them: then texts are put one behind the other and tell all
their facts. Numbers are written in digits up to F with leading blanks or zeros. -/
namespace Ane.Printing

section Texts
variable {α ι : Type*} {x y x' y' : List α} {same same' : Prop} {c d : α}

def Tells (x y : List α) (same : Prop) : Prop :=
  ∀ rest rest', x ++ rest = y ++ rest' ↔ same ∧ rest = rest'

theorem Tells.eq_iff (tells : Tells x y same) : x = y ↔ same := by
  have bare := tells [] []
  rwa [List.append_nil, List.append_nil, eq_self, and_true] at bare

theorem Tells.fixed (x : List α) : Tells x x True := by
  intro rest rest'
  rw [List.append_cancel_left_eq, true_and]

theorem Tells.congr (tells : Tells x y same) (iff : same ↔ same') : Tells x y same' := by
  intro rest rest'
  rw [tells, iff]

/-- What follows is compared only if the fact before it holds. -/
theorem Tells.append (first : Tells x y same) (second : same → Tells x' y' same') :
    Tells (x ++ x') (y ++ y') (same ∧ same') := by
  intro rest rest'
  rw [List.append_assoc, List.append_assoc, first, and_assoc]
  exact and_congr_right fun fact => second fact rest rest'

theorem Tells.differ (ne : c ≠ d) : Tells (c :: x) (d :: y) False := by
  intro rest rest'
  rw [List.cons_append, List.cons_append, List.cons.injEq, false_and, iff_false]
  exact fun equal => ne equal.1

/-- A text is told by a mark that ends it and does not occur in it. -/
theorem Tells.ended (inside : c ∉ x) (inside' : c ∉ y) : Tells (x ++ [c]) (y ++ [c]) (x = y) := by
  intro rest rest'
  induction x generalizing y with
  | nil =>
    cases y with
    | nil => simp
    | cons d y =>
      have ne : c ≠ d := List.ne_of_not_mem_cons inside'
      simp [ne]
  | cons e x ih =>
    have ne : c ≠ e := List.ne_of_not_mem_cons inside
    cases y with
    | nil => simp [ne.symm]
    | cons d y =>
      have others := ih (List.not_mem_of_not_mem_cons inside) (List.not_mem_of_not_mem_cons inside')
      rw [List.cons_append, List.cons_append, List.cons_append, List.cons_append,
        List.cons.injEq, List.cons.injEq, others, and_assoc]

/-- A choice between texts that start apart is told. -/
theorem Tells.ite {p q : Prop} [Decidable p] [Decidable q] (yes : p → q → Tells x y same)
    (no : ¬ p → ¬ q → Tells x' y' same') (apart : Tells x y' False) (apart' : Tells x' y False) :
    Tells (if p then x else x') (if q then y else y')
      ((p ↔ q) ∧ (p → same) ∧ (¬ p → same')) := by
  by_cases first : p
  · by_cases second : q
    · rw [if_pos first, if_pos second]
      exact (yes first second).congr (by simp [first, second])
    · rw [if_pos first, if_neg second]
      exact apart.congr (by simp [first, second])
  · by_cases second : q
    · rw [if_neg first, if_pos second]
      exact apart'.congr (by simp [first, second])
    · rw [if_neg first, if_neg second]
      exact (no first second).congr (by simp [first, second])

theorem Tells.flatMap {l : List ι} {f g : ι → List α} {p : ι → Prop}
    (each : ∀ i ∈ l, Tells (f i) (g i) (p i)) :
    Tells (l.flatMap f) (l.flatMap g) (∀ i ∈ l, p i) := by
  induction l with
  | nil => exact (Tells.fixed []).congr (by simp)
  | cons i l ih =>
    obtain ⟨first, others⟩ := List.forall_mem_cons.mp each
    rw [List.flatMap_cons, List.flatMap_cons]
    exact (first.append fun _ => ih others).congr List.forall_mem_cons.symm

end Texts

/-- The digits of a number, `A` to `F` for those above 9. -/
def digits (b n : Nat) : List Char := (Nat.toDigits b n).map Char.toUpper

def digitValue (c : Char) : Nat :=
  if '0' ≤ c ∧ c ≤ '9' then c.toNat - '0'.toNat
  else if 'A' ≤ c ∧ c ≤ 'F' then c.toNat - 'A'.toNat + 10
  else 0

def readNumber (b : Nat) (text : List Char) : Nat :=
  text.foldl (fun n c => b * n + digitValue c) 0

/-- A character that can end a number. -/
def Stop (pad c : Char) : Prop := c ≠ pad ∧ ∀ d < 16, c ≠ (Nat.digitChar d).toUpper

instance (pad c : Char) : Decidable (Stop pad c) := inferInstanceAs (Decidable (_ ∧ _))

section Numbers
variable {b m n width : Nat} {pad c : Char}

theorem digitValue_digitChar {d : Nat} (digit : d < 16) :
    digitValue (Nat.digitChar d).toUpper = d := by
  revert d
  decide

theorem digits_eq (base : 1 < b) : digits b n =
    if n < b then [(Nat.digitChar n).toUpper]
    else digits b (n / b) ++ [(Nat.digitChar (n % b)).toUpper] := by
  rw [digits, Nat.toDigits_eq_if base]
  split
  · rfl
  · rw [List.map_append, digits, List.map_singleton]

theorem readNumber_digits (base : 1 < b) (hex : b ≤ 16) : readNumber b (digits b n) = n := by
  induction n using Nat.strongRecOn with
  | ind n ih =>
    rw [digits_eq base]
    split
    next digit =>
      rw [readNumber, List.foldl_cons, List.foldl_nil, Nat.mul_zero, Nat.zero_add,
        digitValue_digitChar (by omega)]
    next more =>
      have less : n / b < n := Nat.div_lt_self (by omega) base
      have last : n % b < b := Nat.mod_lt n (by omega)
      have front := ih (n / b) less
      rw [readNumber] at front ⊢
      rw [List.foldl_append, front, List.foldl_cons, List.foldl_nil,
        digitValue_digitChar (by omega), Nat.div_add_mod]

theorem readNumber_leftpad (base : 1 < b) (hex : b ≤ 16) (blank : digitValue pad = 0) :
    readNumber b ((digits b n).leftpad width pad) = n := by
  have zeros (k : Nat) : readNumber b (List.replicate k pad) = 0 := by
    induction k with
    | zero => rfl
    | succ k ih =>
      rw [readNumber] at ih ⊢
      rw [List.replicate_succ', List.foldl_append, ih, List.foldl_cons, List.foldl_nil, blank,
        Nat.mul_zero]
  have padding := zeros (width - (digits b n).length)
  rw [readNumber] at padding
  rw [List.leftpad, readNumber, List.foldl_append, padding]
  exact readNumber_digits base hex

theorem digit_of_mem (base : 1 < b) (hex : b ≤ 16) (mem : c ∈ digits b n) :
    ∃ d < 16, c = (Nat.digitChar d).toUpper := by
  induction n using Nat.strongRecOn with
  | ind n ih =>
    rw [digits_eq base] at mem
    split at mem
    next digit => exact ⟨n, by omega, List.mem_singleton.mp mem⟩
    next more =>
      obtain front | last := List.mem_append.mp mem
      · exact ih (n / b) (Nat.div_lt_self (by omega) base) front
      · have below : n % b < b := Nat.mod_lt n (by omega)
        exact ⟨n % b, by omega, List.mem_singleton.mp last⟩

theorem Stop.notMem (stop : Stop pad c) (base : 1 < b) (hex : b ≤ 16) :
    c ∉ (digits b n).leftpad width pad := by
  intro mem
  obtain blank | digit := List.mem_append.mp mem
  · exact stop.1 (List.eq_of_mem_replicate blank)
  · obtain ⟨d, below, rfl⟩ := digit_of_mem base hex digit
    exact stop.2 d below rfl

/-- Numbers are told by what is written. -/
theorem Tells.number (base : 1 < b) (hex : b ≤ 16) (blank : digitValue pad = 0)
    (stop : Stop pad c) : Tells ((digits b m).leftpad width pad ++ [c])
      ((digits b n).leftpad width pad ++ [c]) (m = n) := by
  refine (Tells.ended (stop.notMem base hex) (stop.notMem base hex)).congr ⟨?_, ?_⟩
  · intro equal
    have numbers := congrArg (readNumber b) equal
    rwa [readNumber_leftpad base hex blank, readNumber_leftpad base hex blank] at numbers
  · intro equal
    rw [equal]

end Numbers

/-- Numbers as they are, decimal ones filled up with blanks, hexadecimal ones with zeros. -/
inductive Format
  | dec
  | hex
  | decIn (width : Nat)
  | hexIn (width : Nat)

namespace Format

def base : Format → Nat
  | .dec | .decIn _ => 10
  | .hex | .hexIn _ => 16

def pad : Format → Char
  | .decIn _ => ' '
  | _ => '0'

def width : Format → Nat
  | .dec | .hex => 0
  | .decIn width | .hexIn width => width

def text (format : Format) (n : Nat) : List Char :=
  (digits format.base n).leftpad format.width format.pad

theorem base_gt (format : Format) : 1 < format.base := by
  cases format with
  | dec | decIn => exact (by decide : 1 < 10)
  | hex | hexIn => exact (by decide : 1 < 16)

theorem base_le (format : Format) : format.base ≤ 16 := by
  cases format with
  | dec | decIn => exact (by decide : 10 ≤ 16)
  | hex | hexIn => exact Nat.le_refl 16

theorem pad_blank (format : Format) : digitValue format.pad = 0 := by
  cases format <;> rfl

theorem tells (format : Format) {c : Char} (stop : Stop format.pad c) (m n : Nat) :
    Tells (format.text m ++ [c]) (format.text n ++ [c]) (m = n) :=
  Tells.number format.base_gt format.base_le format.pad_blank stop

end Format

/-- A piece of a text about the numbers `ι`: a number comes with the character behind it. -/
inductive Piece (ι : Type)
  | text (s : String)
  | number (what : ι) (format : Format) (stop : { c : Char // Stop format.pad c })

namespace Piece
variable {ι : Type}

def print (value : ι → Nat) : Piece ι → List Char
  | .text s => s.toList
  | .number what format stop => format.text (value what) ++ [stop.val]

def shown : Piece ι → List ι
  | .text _ => []
  | .number what _ _ => [what]

theorem tells (piece : Piece ι) (value value' : ι → Nat) :
    Tells (piece.print value) (piece.print value') (∀ i ∈ piece.shown, value i = value' i) := by
  cases piece with
  | text s => exact (Tells.fixed s.toList).congr (by simp [shown])
  | number what format stop => exact (format.tells stop.property _ _).congr (by simp [shown])

theorem tells_all (pieces : List (Piece ι)) (value value' : ι → Nat) :
    Tells (pieces.flatMap (print value)) (pieces.flatMap (print value'))
      (∀ i ∈ pieces.flatMap shown, value i = value' i) := by
  refine (Tells.flatMap fun piece _ => piece.tells value value').congr ?_
  simp only [List.mem_flatMap]
  exact ⟨fun each i ⟨piece, mem, inside⟩ => each piece mem i inside,
    fun all piece mem i inside => all i ⟨piece, mem, inside⟩⟩

end Piece

end Ane.Printing
