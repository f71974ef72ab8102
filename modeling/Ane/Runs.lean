import Mathlib.Data.List.Basic
import Mathlib.Data.List.Induction
import Mathlib.Tactic.Common

/-! Runs of a machine given by a total step function. An operation that is not
enabled leaves the state as it is, so every list of operations is a run and every
interleaving of several parties is a list of their steps. -/
namespace Ane.Runs

variable {σ ω : Type*} (exec : σ → ω → σ)

def run (s : σ) (ops : List ω) : σ := ops.foldl exec s

@[simp] theorem run_nil (s : σ) : run exec s [] = s := rfl

@[simp] theorem run_cons (s : σ) (op : ω) (ops : List ω) :
    run exec s (op :: ops) = run exec (exec s op) ops := rfl

theorem run_append (s : σ) (ops more : List ω) :
    run exec s (ops ++ more) = run exec (run exec s ops) more := List.foldl_append

/-- Every state passed through satisfies `P`, the first and the last included. -/
def AllStates (P : σ → Prop) : σ → List ω → Prop
  | s, [] => P s
  | s, op :: ops => P s ∧ AllStates P (exec s op) ops

/-- Every operation is taken in a state in which `guard` admits it. -/
def AllSteps (guard : σ → ω → Prop) : σ → List ω → Prop
  | _, [] => True
  | s, op :: ops => guard s op ∧ AllSteps guard (exec s op) ops

/-- What each operation of a run is in the terms of another machine. -/
def labels {ω' : Type*} (label : σ → ω → ω') : σ → List ω → List ω'
  | _, [] => []
  | s, op :: ops => label s op :: labels label (exec s op) ops

/-- What another party sees of a run, operation by operation. -/
def observed {ω' : Type*} (seen : σ → ω → List ω') : σ → List ω → List ω'
  | _, [] => []
  | s, op :: ops => seen s op ++ observed seen (exec s op) ops

instance decidableAllSteps (guard : σ → ω → Prop) [∀ s op, Decidable (guard s op)] :
    (s : σ) → (ops : List ω) → Decidable (AllSteps exec guard s ops)
  | _, [] => inferInstanceAs (Decidable True)
  | s, op :: ops =>
    have := decidableAllSteps guard (exec s op) ops
    inferInstanceAs (Decidable (_ ∧ _))

variable {exec} {I P Q : σ → Prop} {guard : σ → ω → Prop} {s : σ} {ops : List ω}

theorem AllStates.first (h : AllStates exec P s ops) : P s := by
  cases ops with
  | nil => exact h
  | cons op ops => exact h.1

theorem AllStates.last (h : AllStates exec P s ops) : P (run exec s ops) := by
  induction ops generalizing s with
  | nil => exact h
  | cons op ops ih => exact ih h.2

theorem AllStates.mono (imp : ∀ s, P s → Q s) (h : AllStates exec P s ops) :
    AllStates exec Q s ops := by
  induction ops generalizing s with
  | nil => exact imp s h
  | cons op ops ih => exact ⟨imp s h.1, ih h.2⟩

theorem AllSteps.mono {weaker : σ → ω → Prop} (imp : ∀ s op, guard s op → weaker s op)
    (h : AllSteps exec guard s ops) : AllSteps exec weaker s ops := by
  induction ops generalizing s with
  | nil => trivial
  | cons op ops ih => exact ⟨imp s op h.1, ih h.2⟩

/-- What every step keeps holds after every run. -/
theorem run_invariant (step : ∀ s op, I s → I (exec s op)) (h : I s) (ops : List ω) :
    I (run exec s ops) := by
  induction ops generalizing s with
  | nil => exact h
  | cons op ops ih => exact ih (step s op h)

/-- Where a step adds one entry to a log at most, newest first, each entry of the log of a run is
that of one step of the run, which found the older entries and added this one. -/
theorem run_log {ε : Type*} (log : σ → List ε) {P : σ → ω → ε → Prop}
    (keep : ∀ s op, I s → I (exec s op))
    (step : ∀ s op, I s → log (exec s op) = log s ∨ ∃ e, log (exec s op) = e :: log s ∧ P s op e)
    (h : I s) (empty : log s = []) (ops : List ω) {newer older : List ε} {e : ε}
    (here : log (run exec s ops) = newer ++ e :: older) :
    ∃ before op after, ops = before ++ op :: after ∧ log (run exec s before) = older ∧
      log (exec (run exec s before) op) = e :: older ∧ P (run exec s before) op e := by
  induction ops using List.reverseRecOn generalizing newer with
  | nil =>
    rw [run_nil, empty] at here
    exact absurd here (by simp)
  | append_singleton ops op ih =>
    have earlier {newer : List ε} (old : log (run exec s ops) = newer ++ e :: older) :
        ∃ before op' after, ops ++ [op] = before ++ op' :: after ∧
          log (run exec s before) = older ∧ log (exec (run exec s before) op') = e :: older ∧
          P (run exec s before) op' e := by
      obtain ⟨before, op', after, rfl, rest⟩ := ih old
      exact ⟨before, op', after ++ [op], by simp, rest⟩
    rw [run_append, run_cons, run_nil] at here
    obtain same | ⟨last, added, holds⟩ := step (run exec s ops) op (run_invariant keep h ops)
    · rw [same] at here
      exact earlier here
    · rw [added] at here
      cases newer with
      | nil =>
        obtain ⟨rfl, old⟩ := List.cons.inj here
        exact ⟨ops, op, [], rfl, old, by rw [added, old], holds⟩
      | cons _ newer => exact earlier (List.cons.inj here).2

/-- A machine whose steps are steps of another runs like the other. -/
theorem run_labels {σ' ω' : Type*} {exec' : σ' → ω' → σ'} {abs : σ → σ'} {label : σ → ω → ω'}
    (keep : ∀ s op, I s → I (exec s op))
    (step : ∀ s op, I s → abs (exec s op) = exec' (abs s) (label s op)) (h : I s) (ops : List ω) :
    abs (run exec s ops) = run exec' (abs s) (labels exec label s ops) := by
  induction ops generalizing s with
  | nil => rfl
  | cons op ops ih =>
    rw [run_cons, ih (keep s op h), step s op h]
    rfl

theorem AllSteps.of_forall (h : ∀ s, ∀ op ∈ ops, guard s op) : AllSteps exec guard s ops := by
  induction ops generalizing s with
  | nil => trivial
  | cons op ops ih =>
    exact ⟨h s op List.mem_cons_self, ih fun s op mem => h s op (List.mem_cons_of_mem _ mem)⟩

theorem AllSteps.append_iff {more : List ω} : AllSteps exec guard s (ops ++ more) ↔
    AllSteps exec guard s ops ∧ AllSteps exec guard (run exec s ops) more := by
  induction ops generalizing s with
  | nil => simp [AllSteps]
  | cons op ops ih => rw [List.cons_append, AllSteps, AllSteps, ih, run_cons, and_assoc]

/-- Where what is seen of each admitted step is a run of another machine, so is what is seen of
a run of admitted steps. -/
theorem run_observed {σ' ω' : Type*} {exec' : σ' → ω' → σ'} {guard' : σ' → ω' → Prop}
    {abs : σ → σ'} {seen : σ → ω → List ω'} (keep : ∀ s op, I s → guard s op → I (exec s op))
    (step : ∀ s op, I s → guard s op → abs (exec s op) = run exec' (abs s) (seen s op) ∧
      AllSteps exec' guard' (abs s) (seen s op))
    (h : I s) (admitted : AllSteps exec guard s ops) :
    I (run exec s ops) ∧ abs (run exec s ops) = run exec' (abs s) (observed exec seen s ops) ∧
      AllSteps exec' guard' (abs s) (observed exec seen s ops) := by
  induction ops generalizing s with
  | nil => exact ⟨h, rfl, trivial⟩
  | cons op ops ih =>
    obtain ⟨here, granted⟩ := step s op h admitted.1
    obtain ⟨last, rest, later⟩ := ih (keep s op h admitted.1) admitted.2
    rw [here] at rest later
    exact ⟨last, by rw [run_cons, rest, observed, run_append],
      AllSteps.append_iff.mpr ⟨granted, later⟩⟩

/-- What every admitted step keeps holds throughout a run of admitted steps. -/
theorem allStates_of_allSteps (step : ∀ s op, I s → guard s op → I (exec s op)) (h : I s)
    (admitted : AllSteps exec guard s ops) : AllStates exec I s ops := by
  induction ops generalizing s with
  | nil => exact h
  | cons op ops ih => exact ⟨h, ih (step s op h admitted.1) admitted.2⟩

/-- What an admitted step does from a state with `I` is done by every step of a run
of admitted steps. -/
theorem allSteps_of_allSteps {effect : σ → ω → Prop}
    (step : ∀ s op, I s → guard s op → I (exec s op) ∧ effect s op) (h : I s)
    (admitted : AllSteps exec guard s ops) : AllSteps exec effect s ops := by
  induction ops generalizing s with
  | nil => trivial
  | cons op ops ih =>
    obtain ⟨keep, done⟩ := step s op h admitted.1
    exact ⟨done, ih keep admitted.2⟩

/-- Two descriptions of a step that agree wherever `I` holds agree along a run. -/
theorem allSteps_iff_allSteps {effect : σ → ω → Prop} (keep : ∀ s op, I s → I (exec s op))
    (agree : ∀ s op, I s → (effect s op ↔ guard s op)) (h : I s) (ops : List ω) :
    AllSteps exec effect s ops ↔ AllSteps exec guard s ops := by
  induction ops generalizing s with
  | nil => exact Iff.rfl
  | cons op ops ih => exact and_congr (agree s op h) (ih (keep s op h))

/-- Where one step keeps `P` exactly when it is admitted, a run keeps `P` exactly
when all of its steps are. `I` is what every step keeps regardless. -/
theorem allStates_iff_allSteps (keep : ∀ s op, I s → I (exec s op))
    (exact_step : ∀ s op, I s → P s → (P (exec s op) ↔ guard s op)) (hI : I s) (hP : P s)
    (ops : List ω) : AllStates exec P s ops ↔ AllSteps exec guard s ops := by
  induction ops generalizing s with
  | nil => exact ⟨fun _ => trivial, fun _ => hP⟩
  | cons op ops ih =>
    have here := exact_step s op hI hP
    constructor
    · rintro ⟨-, rest⟩
      have next := rest.first
      exact ⟨here.mp next, (ih (keep s op hI) next).mp rest⟩
    · rintro ⟨admitted, rest⟩
      have next := here.mpr admitted
      exact ⟨hP, (ih (keep s op hI) next).mpr rest⟩

end Ane.Runs
