import Mathlib.Data.List.Basic
import Mathlib.Tactic.Common

/-! Independent cells of one state. An update replaces the value of one cell by a value
computed from it, if that is admitted there, and leaves the other cells and the rest of the
state as they are. So the cells can be followed one by one, and only the order of the updates
of each cell matters. -/
namespace Ane.Cells

variable {σ ι α ρ : Type*}

/-- The cells `ι` of a state and the rest of it. -/
structure Family (σ ι α ρ : Type*) where
  get : ι → σ → α
  put : ι → α → σ → σ
  admits : ι → α → Bool
  rest : σ → ρ
  get_put : ∀ {i v} s, admits i v = true → get i (put i v s) = v
  get_put_of_ne : ∀ {i j} v s, j ≠ i → get j (put i v s) = get j s
  rest_put : ∀ i v s, rest (put i v s) = rest s
  ext : ∀ {s s'}, (∀ i, get i s = get i s') → rest s = rest s' → s = s'

abbrev Update (ι α : Type*) := ι × (α → α)

namespace Family

variable (c : Family σ ι α ρ)

/-- The value an update gives to its cell. -/
def value (s : σ) (u : Update ι α) : α := u.2 (c.get u.1 s)

def run : σ → List (Update ι α) → Option σ
  | s, [] => some s
  | s, u :: us => if c.admits u.1 (c.value s u) then run (c.put u.1 (c.value s u) s) us else none

variable {c} {s s' : σ} {u : Update ι α} {us us' : List (Update ι α)} {i : ι}

theorem run_cons_eq_some : c.run s (u :: us) = some s' ↔
    c.admits u.1 (c.value s u) = true ∧ c.run (c.put u.1 (c.value s u) s) us = some s' := by
  rw [run]
  split <;> simp_all

theorem run_rest (h : c.run s us = some s') : c.rest s' = c.rest s := by
  induction us generalizing s with
  | nil =>
    cases h
    rfl
  | cons u us ih =>
    rw [ih (run_cons_eq_some.mp h).2, c.rest_put]

variable [DecidableEq ι]

/-- The updates of a cell alone, from a value of it. -/
def runCell (c : Family σ ι α ρ) (i : ι) : α → List (Update ι α) → Option α
  | a, [] => some a
  | a, u :: us =>
    if u.1 = i then if c.admits i (u.2 a) then c.runCell i (u.2 a) us else none
    else c.runCell i a us

/-- The last value given to a cell. -/
def last (c : Family σ ι α ρ) (i : ι) : σ → List (Update ι α) → Option α
  | _, [] => none
  | s, u :: us =>
    (c.last i (c.put u.1 (c.value s u) s) us).or (if u.1 = i then some (c.value s u) else none)

/-- In a run every cell goes through its own updates. -/
theorem runCell_get (h : c.run s us = some s') (i : ι) :
    c.runCell i (c.get i s) us = some (c.get i s') := by
  induction us generalizing s with
  | nil =>
    cases h
    rfl
  | cons u us ih =>
    obtain ⟨admitted, rest⟩ := run_cons_eq_some.mp h
    have next := ih rest
    rw [runCell]
    by_cases here : u.1 = i
    · subst here
      rw [c.get_put s admitted] at next
      rw [if_pos rfl]
      exact (if_pos admitted).trans next
    · rw [c.get_put_of_ne _ s (Ne.symm here)] at next
      rw [if_neg here]
      exact next

/-- A run goes through if the updates of each cell do. -/
theorem run_isSome (all : ∀ i, (c.runCell i (c.get i s) us).isSome) : (c.run s us).isSome := by
  induction us generalizing s with
  | nil => rfl
  | cons u us ih =>
    have here : (if c.admits u.1 (c.value s u) then c.runCell u.1 (c.value s u) us
        else none).isSome := by
      have first := all u.1
      rwa [runCell, if_pos rfl] at first
    have admitted : c.admits u.1 (c.value s u) = true := by
      by_contra refused
      rw [if_neg refused] at here
      cases here
    rw [run, if_pos admitted]
    refine ih fun i => ?_
    by_cases same : u.1 = i
    · subst same
      rw [c.get_put s admitted]
      rwa [if_pos admitted] at here
    · have other := all i
      rw [runCell, if_neg same] at other
      rwa [c.get_put_of_ne _ s (Ne.symm same)]

theorem runCell_filter (i : ι) (a : α) (us : List (Update ι α)) :
    c.runCell i a (us.filter (·.1 = i)) = c.runCell i a us := by
  induction us generalizing a with
  | nil => rfl
  | cons u us ih =>
    by_cases here : u.1 = i
    · rw [List.filter_cons_of_pos (by simpa using here), runCell, runCell, if_pos here, if_pos here,
        ih]
    · rw [List.filter_cons_of_neg (by simpa using here), runCell, if_neg here, ih]

/-- Two runs with the same updates in the same order for each cell end alike. -/
theorem run_congr (same : ∀ i, us.filter (·.1 = i) = us'.filter (·.1 = i)) :
    c.run s us = c.run s us' := by
  have cell (i : ι) : c.runCell i (c.get i s) us = c.runCell i (c.get i s) us' := by
    rw [← runCell_filter, same, runCell_filter]
  have refused {us us' : List (Update ι α)}
      (cell : ∀ i, c.runCell i (c.get i s) us = c.runCell i (c.get i s) us')
      (none : c.run s us = none) : c.run s us' = .none := by
    by_contra some
    obtain ⟨s', done⟩ := Option.ne_none_iff_exists'.mp some
    have all : (c.run s us).isSome := run_isSome fun i => by
      rw [cell, runCell_get done i]
      rfl
    rw [none] at all
    cases all
  cases first : c.run s us with
  | none => exact (refused cell first).symm
  | some s₁ =>
    cases second : c.run s us' with
    | none =>
      rw [refused (fun i => (cell i).symm) second] at first
      cases first
    | some s₂ =>
      apply congrArg
      refine c.ext (fun i => ?_) ((run_rest first).trans (run_rest second).symm)
      have both := cell i
      rw [runCell_get first i, runCell_get second i] at both
      exact Option.some.inj both

/-- A cell holds the last value given to it. -/
theorem get_run (h : c.run s us = some s') (i : ι) :
    c.get i s' = (c.last i s us).getD (c.get i s) := by
  induction us generalizing s with
  | nil =>
    cases h
    rfl
  | cons u us ih =>
    obtain ⟨admitted, rest⟩ := run_cons_eq_some.mp h
    rw [ih rest, last]
    cases c.last i (c.put u.1 (c.value s u) s) us with
    | some v => rfl
    | none =>
      rw [Option.none_or, Option.getD_none]
      by_cases here : u.1 = i
      · subst here
        rw [if_pos rfl]
        exact c.get_put s admitted
      · rw [if_neg here]
        exact c.get_put_of_ne _ s (Ne.symm here)

end Family

end Ane.Cells
