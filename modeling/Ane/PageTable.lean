import Mathlib.Logic.Function.Basic
import Mathlib.Data.List.Basic
import Mathlib.Tactic.Common

/-! Translation tables filled one cell at a time. `mapCells` is the loop that maps
consecutive cells and stops at the first failure, `unmapBelow` the loop that takes
back what it mapped, `unmapFrom` the loop that clears a whole buffer. The address
of a cell is a parameter, so it may be computed with arithmetic that wraps. -/
namespace Ane.PageTable

variable {κ β : Type*} [DecidableEq κ]

abbrev Table (κ β : Type*) := κ → Option β

/-- Map one address. An address that is mapped already is refused, and the
attempt may fail for reasons of its own. -/
def map (t : Table κ β) (a : κ) (p : β) (ok : Bool) : Option (Table κ β) :=
  if ok = true ∧ t a = none then some (Function.update t a (some p)) else none

def unmap (t : Table κ β) (a : κ) : Table κ β := Function.update t a none

theorem map_eq_some {t t' : Table κ β} {a : κ} {p : β} {ok : Bool} :
    map t a p ok = some t' ↔
      (ok = true ∧ t a = none) ∧ Function.update t a (some p) = t' := by
  simp [map]

theorem unmap_update {t : Table κ β} {a : κ} (free : t a = none) (p : β) :
    unmap (Function.update t a (some p)) a = t := by
  rw [unmap, Function.update_idem, ← free, Function.update_eq_self]

variable (addr : Nat → κ) (cell : Nat → β) (ok : Nat → Bool)

/-- Map cells `i`, `i + 1`, ... for `left` steps. On a failure the cell that
failed is returned with the table as it stands. -/
def mapCells : (left i : Nat) → Table κ β → Except (Nat × Table κ β) (Table κ β)
  | 0, _, t => .ok t
  | left + 1, i, t =>
    match map t (addr i) (cell i) (ok i) with
    | some t' => mapCells left (i + 1) t'
    | none => .error (i, t)

/-- Unmap cells `i - 1` down to `0`. -/
def unmapBelow : Nat → Table κ β → Table κ β
  | 0, t => t
  | i + 1, t => unmapBelow i (unmap t (addr i))

/-- Unmap cells `i`, `i + 1`, ... for `left` steps. -/
def unmapFrom : (left i : Nat) → Table κ β → Table κ β
  | 0, _, t => t
  | left + 1, i, t => unmapFrom left (i + 1) (unmap t (addr i))

variable {addr cell ok}

/-- A failed mapping loop is undone exactly by unmapping below the cell that
failed: each step back meets the address its own step forward had found free. -/
theorem unmapBelow_mapCells {left i k : Nat} {t t' : Table κ β}
    (h : mapCells addr cell ok left i t = .error (k, t')) :
    unmapBelow addr k t' = unmapBelow addr i t := by
  induction left generalizing i t with
  | zero => cases h
  | succ left ih =>
    unfold mapCells at h
    split at h
    · next t₁ step =>
      obtain ⟨⟨-, free⟩, rfl⟩ := map_eq_some.mp step
      rw [ih h, unmapBelow, unmap_update free]
    · cases h
      rfl

/-- What a completed mapping loop has done, from cell `i` on. -/
structure Mapped (addr : Nat → κ) (cell : Nat → β) (left i : Nat) (t t' : Table κ β) : Prop where
  free : ∀ k, i ≤ k → k < i + left → t (addr k) = none
  cells : ∀ k, i ≤ k → k < i + left → t' (addr k) = some (cell k)
  others : ∀ a, (∀ k, i ≤ k → k < i + left → addr k ≠ a) → t' a = t a
  inj : ∀ j k, i ≤ j → j < k → k < i + left → addr j ≠ addr k

theorem mapCells_ok {left i : Nat} {t t' : Table κ β}
    (h : mapCells addr cell ok left i t = .ok t') : Mapped addr cell left i t t' := by
  induction left generalizing i t with
  | zero =>
    cases h
    exact ⟨fun k hi hk => by omega, fun k hi hk => by omega, fun a _ => rfl,
      fun j k hi hj hk => by omega⟩
  | succ left ih =>
    unfold mapCells at h
    split at h
    · next t₁ step =>
      obtain ⟨⟨-, free⟩, rfl⟩ := map_eq_some.mp step
      have rest := ih h
      -- the later cells find their addresses free after cell i was mapped
      have apart (k : Nat) (hi : i < k) (hk : k < i + (left + 1)) : addr i ≠ addr k := by
        intro same
        have blocked := rest.free k (by omega) (by omega)
        rw [← same, Function.update_self] at blocked
        cases blocked
      refine ⟨?_, ?_, ?_, ?_⟩
      · intro k hi hk
        obtain rfl | hlt := Nat.eq_or_lt_of_le hi
        · exact free
        · rw [← rest.free k (by omega) (by omega),
            Function.update_of_ne (apart k hlt hk).symm]
      · intro k hi hk
        obtain rfl | hlt := Nat.eq_or_lt_of_le hi
        · rw [rest.others _ fun j hj hjk same =>
            apart j (by omega) (by omega) same.symm, Function.update_self]
        · exact rest.cells k (by omega) (by omega)
      · intro a away
        rw [rest.others a fun k hk hk' => away k (by omega) (by omega),
          Function.update_of_ne (away i (Nat.le_refl i) (by omega)).symm]
      · intro j k hi hj hk
        obtain rfl | hlt := Nat.eq_or_lt_of_le hi
        · exact apart k hj hk
        · exact rest.inj j k (by omega) hj (by omega)
    · cases h

theorem unmapFrom_none {left i : Nat} {t : Table κ β} {a : κ} (h : t a = none) :
    unmapFrom addr left i t a = none := by
  induction left generalizing i t with
  | zero => exact h
  | succ left ih =>
    refine ih ?_
    rw [unmap]
    by_cases same : a = addr i
    · rw [same, Function.update_self]
    · rw [Function.update_of_ne same, h]

theorem unmapFrom_cell {left i k : Nat} (t : Table κ β) (hi : i ≤ k) (hk : k < i + left) :
    unmapFrom addr left i t (addr k) = none := by
  induction left generalizing i t with
  | zero => omega
  | succ left ih =>
    rw [unmapFrom]
    obtain rfl | hlt := Nat.eq_or_lt_of_le hi
    · exact unmapFrom_none (by rw [unmap, Function.update_self])
    · exact ih _ hlt (by omega)

theorem unmapFrom_other {left i : Nat} (t : Table κ β) {a : κ}
    (away : ∀ k, i ≤ k → k < i + left → addr k ≠ a) : unmapFrom addr left i t a = t a := by
  induction left generalizing i t with
  | zero => rfl
  | succ left ih =>
    rw [unmapFrom, ih _ fun k hi hk => away k (by omega) (by omega), unmap,
      Function.update_of_ne (away i (Nat.le_refl i) (by omega)).symm]

/-- Clearing a buffer right after mapping it restores the table. -/
theorem unmapFrom_mapped {left i : Nat} {t t' : Table κ β}
    (h : Mapped addr cell left i t t') : unmapFrom addr left i t' = t := by
  funext a
  by_cases carried : ∃ k, i ≤ k ∧ k < i + left ∧ addr k = a
  · obtain ⟨k, hi, hk, rfl⟩ := carried
    rw [unmapFrom_cell t' hi hk, h.free k hi hk]
  · have away : ∀ k, i ≤ k → k < i + left → addr k ≠ a := fun k hi hk same =>
      carried ⟨k, hi, hk, same⟩
    rw [unmapFrom_other t' away, h.others a away]

end Ane.PageTable
