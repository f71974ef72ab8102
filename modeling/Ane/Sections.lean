import Ane.Runs

/-! A value that parties change in sections, one party at a time. A section is the list of
actions of its job. However the parties take turns, the value is that of the sections run
one after another in the order in which they were entered, the last one perhaps in part. -/
namespace Ane.Sections
open Runs

variable {τ ε κ : Type*}

/-- The party inside, its job and the number of actions it has taken. -/
structure Inside (τ κ : Type*) where
  party : τ
  job : κ
  taken : Nat

structure State (τ ε κ : Type*) where
  value : ε
  inside : Option (Inside τ κ)

variable (actions : κ → List (ε → ε))

/-- The next action of the party inside; with the last one it leaves. -/
def act (s : State τ ε κ) (i : Inside τ κ) : State τ ε κ where
  value := (actions i.job)[i.taken]?.getD id s.value
  inside :=
    if i.taken + 1 < (actions i.job).length then some { i with taken := i.taken + 1 } else none

/-- The value after the first `n` actions of a job. -/
def part (n : Nat) (job : κ) (e : ε) : ε := ((actions job).take n).foldl (fun e f => f e) e

/-- The value after the jobs, one after another. -/
def serial (jobs : List κ) (e : ε) : ε :=
  jobs.foldl (fun e job => part actions (actions job).length job e) e

/-- The value when the jobs `done` are complete and the party inside is where it is. -/
def State.expected (s : State τ ε κ) (e : ε) (done : List κ) : ε :=
  match s.inside with
  | none => serial actions done e
  | some i => part actions i.taken i.job (serial actions done e)

/-- `s` is reached from the value `e` with the jobs `done` completed. -/
structure Serial (e : ε) (done : List κ) (s : State τ ε κ) : Prop where
  value : s.value = s.expected actions e done
  more : ∀ i ∈ s.inside, i.taken < (actions i.job).length

section Act
variable {actions} {e : ε} {done : List κ} {s : State τ ε κ} {i : Inside τ κ}

theorem part_succ {n : Nat} {job : κ} (more : n < (actions job).length) (e : ε) :
    part actions (n + 1) job e = (actions job)[n]?.getD id (part actions n job e) := by
  rw [part, part, List.take_add_one, List.foldl_append]
  simp [more]

@[simp] theorem serial_append (jobs more : List κ) (e : ε) :
    serial actions (jobs ++ more) e = serial actions more (serial actions jobs e) :=
  List.foldl_append

theorem Serial.act (h : Serial actions e done s) (inside : s.inside = some i) :
    Serial actions e
      (done ++ if i.taken + 1 < (actions i.job).length then [] else [i.job])
      (act actions s i) := by
  have more := h.more i inside
  have value : s.value = part actions i.taken i.job (serial actions done e) := by
    rw [h.value, State.expected, inside]
  have next : (Sections.act actions s i).value =
      part actions (i.taken + 1) i.job (serial actions done e) := by
    rw [part_succ more, ← value]
    rfl
  by_cases goesOn : i.taken + 1 < (actions i.job).length
  · refine ⟨?_, ?_⟩
    · rw [next]
      simp [State.expected, Sections.act, goesOn]
    · simp [Sections.act, goesOn]
  · have last : i.taken + 1 = (actions i.job).length := by omega
    refine ⟨?_, ?_⟩
    · rw [next, last]
      simp [State.expected, Sections.act, goesOn, serial]
    · simp [Sections.act, goesOn]

end Act

variable [DecidableEq τ]

inductive Op (τ κ : Type*)
  | enter (party : τ) (job : κ)
  | act (party : τ)
  | other

def exec (s : State τ ε κ) : Op τ κ → State τ ε κ
  | .enter party job => if s.inside.isNone then { s with inside := some ⟨party, job, 0⟩ } else s
  | .act party =>
    match s.inside with
    | none => s
    | some i => if i.party = party then act actions s i else s
  | .other => s

/-- The job completed by an operation. -/
def completes (s : State τ ε κ) : Op τ κ → List κ
  | .enter .. => []
  | .act party =>
    match s.inside with
    | none => []
    | some i => if i.party = party ∧ ¬ i.taken + 1 < (actions i.job).length then [i.job] else []
  | .other => []

/-- The jobs completed in a run, in the order of their sections. -/
def completed : State τ ε κ → List (Op τ κ) → List κ
  | _, [] => []
  | s, op :: ops => completes actions s op ++ completed (exec actions s op) ops

variable {actions} {e : ε} {done : List κ} {s : State τ ε κ}

theorem Serial.exec (h : Serial actions e done s) (some_action : ∀ job, actions job ≠ [])
    (op : Op τ κ) : Serial actions e (done ++ completes actions s op) (exec actions s op) := by
  cases op with
  | enter party job =>
    rw [completes, List.append_nil, Sections.exec]
    split
    · next free =>
      have value := h.value
      rw [State.expected, Option.isNone_iff_eq_none.mp free] at value
      refine ⟨value, ?_⟩
      rintro i ⟨⟩
      exact List.length_pos_of_ne_nil (some_action job)
    · exact h
  | act party =>
    rw [completes, Sections.exec]
    cases inside : s.inside with
    | none =>
      rw [List.append_nil]
      exact h
    | some i =>
      have acted := h.act inside
      by_cases mine : i.party = party
      · simp only [mine, if_true, true_and, ite_not]
        exact acted
      · simp only [mine, if_false, false_and, List.append_nil]
        exact h
  | other =>
    rw [completes, List.append_nil]
    exact h

/-- However the parties take turns, their sections are serial. -/
theorem run_serial (some_action : ∀ job, actions job ≠ []) (h : Serial actions e done s)
    (ops : List (Op τ κ)) :
    Serial actions e (done ++ completed actions s ops) (run (exec actions) s ops) := by
  induction ops generalizing s done with
  | nil => simpa [completed] using h
  | cons op ops ih =>
    rw [completed, ← List.append_assoc]
    exact ih (h.exec some_action op)

end Ane.Sections
