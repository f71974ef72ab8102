import Ane.Runs
import Mathlib.Data.List.Perm.Basic

/-! The handles that a server holds for one client, by the calls of the client and what they
were answered. A client that keeps account of the handles it was given knows the table up to
the handles it could not give back. -/
namespace Ane.HandleTable
open Runs

/-- A handle asked for, for some value, and a handle given back. -/
inductive Call (κ ν : Type*)
  | make (value : ν) (answer : Option κ)
  | free (handle : κ) (served : Bool)
deriving DecidableEq

variable {κ ν : Type*}

/-- Handles with their values, the latest first. -/
abbrev Table (κ ν : Type*) := List (κ × ν)

def keys (t : Table κ ν) : List κ := t.map Prod.fst

/-- The handles that could not be given back. -/
def unserved : List (Call κ ν) → List κ
  | [] => []
  | .free handle false :: cs => handle :: unserved cs
  | _ :: cs => unserved cs

/-- A handle given back was taken back. -/
def Call.Served : Call κ ν → Prop
  | .make _ _ => True
  | .free _ served => served = true

instance (c : Call κ ν) : Decidable c.Served :=
  match c with
  | .make _ _ => inferInstanceAs (Decidable True)
  | .free _ served => inferInstanceAs (Decidable (served = true))

/-- A handle that is made is not in use. -/
def Fresh (t : Table κ ν) : Call κ ν → Prop
  | .make _ (some handle) => handle ∉ keys t
  | _ => True

@[simp] theorem unserved_append (cs more : List (Call κ ν)) :
    unserved (cs ++ more) = unserved cs ++ unserved more := by
  induction cs with
  | nil => rfl
  | cons c cs ih =>
    cases c with
    | make => exact ih
    | free handle served =>
      cases served with
      | true => exact ih
      | false => exact congrArg (handle :: ·) ih

theorem length_unserved (cs : List (Call κ ν)) :
    (unserved cs).length = cs.countP (¬ ·.Served) := by
  induction cs with
  | nil => rfl
  | cons c cs ih =>
    cases c with
    | make => simpa [unserved, Call.Served] using ih
    | free handle served =>
      cases served with
      | true => simpa [unserved, Call.Served] using ih
      | false => simpa [unserved, Call.Served] using ih

variable [DecidableEq κ]

/-- What the server does in a call. -/
def replay (t : Table κ ν) : Call κ ν → Table κ ν
  | .make value (some handle) => (handle, value) :: t
  | .make _ none => t
  | .free handle true => t.eraseP (·.1 = handle)
  | .free _ false => t

theorem keys_eraseP (t : Table κ ν) (handle : κ) :
    keys (t.eraseP (·.1 = handle)) = (keys t).erase handle := by
  induction t with
  | nil => rfl
  | cons e t ih =>
    by_cases here : e.1 = handle
    · simp [keys, here]
    · simpa [keys, here] using ih

/-- Where no two entries have a key, the one with a key goes. -/
theorem eraseP_eq_filter {t : Table κ ν} (nodup : (keys t).Nodup) (handle : κ) :
    t.eraseP (·.1 = handle) = t.filter (·.1 ≠ handle) := by
  induction t with
  | nil => rfl
  | cons e t ih =>
    obtain ⟨absent, nodup⟩ := List.nodup_cons.mp nodup
    by_cases here : e.1 = handle
    · subst here
      have others : ∀ x ∈ t, decide (x.1 ≠ e.1) = true := by
        intro x mem
        have other : x.1 ≠ e.1 := fun same => absent (same ▸ List.mem_map_of_mem mem)
        simpa using other
      rw [List.eraseP_cons_of_pos (by simp), List.filter_cons_of_neg (by simp),
        List.filter_eq_self.mpr others]
    · rw [List.eraseP_cons_of_neg (by simpa using here), List.filter_cons_of_pos (by simpa using here),
        ih nodup]

/-- The calls of a client whose handles were `t` before, made by a server that gives no handle
twice. -/
structure Legal (t : Table κ ν) (cs : List (Call κ ν)) : Prop where
  nodup : (keys t).Nodup
  fresh : AllSteps replay Fresh t cs

section Calls
variable {t : Table κ ν} {cs more : List (Call κ ν)}

theorem Legal.before (legal : Legal t (cs ++ more)) : Legal t cs :=
  ⟨legal.nodup, (AllSteps.append_iff.mp legal.fresh).1⟩

theorem replay_nodup {c : Call κ ν} (nodup : (keys t).Nodup) (fresh : Fresh t c) :
    (keys (replay t c)).Nodup := by
  cases c with
  | make value answer =>
    cases answer with
    | none => exact nodup
    | some handle => exact List.nodup_cons.mpr ⟨fresh, nodup⟩
  | free handle served =>
    cases served with
    | false => exact nodup
    | true =>
      rw [replay, keys_eraseP]
      exact nodup.erase handle

theorem Legal.last (legal : Legal t cs) : (keys (run replay t cs)).Nodup := by
  obtain ⟨nodup, fresh⟩ := legal
  exact (allStates_of_allSteps (I := fun t => (keys t).Nodup) (fun _ _ => replay_nodup) nodup
    fresh).last

/-- After the calls `cs` the client has the handles `held`; with those it had before and those
it could not give back, they are all that the server holds. -/
def Accounts (t : Table κ ν) (cs : List (Call κ ν)) (held : Table κ ν) : Prop :=
  ∃ lost : Table κ ν, keys lost = unserved cs ∧ (run replay t cs).Perm (held ++ (lost ++ t))

namespace Accounts
variable {held held' : Table κ ν} {handle : κ} {value : ν}

theorem nil (t : Table κ ν) : Accounts t [] [] := ⟨[], rfl, .refl _⟩

theorem perm (h : Accounts t cs held) (same : held.Perm held') : Accounts t cs held' := by
  obtain ⟨lost, handles, table⟩ := h
  exact ⟨lost, handles, table.trans (same.append_right _)⟩

theorem make (h : Accounts t cs held) (value : ν) (answer : Option κ) :
    Accounts t (cs ++ [.make value answer]) (answer.toList.map (·, value) ++ held) := by
  obtain ⟨lost, handles, table⟩ := h
  refine ⟨lost, by simp [unserved, handles], ?_⟩
  rw [run_append]
  cases answer with
  | none => exact table
  | some handle => exact table.cons (handle, value)

theorem free (h : Accounts t cs ((handle, value) :: held)) (nodup : (keys (run replay t cs)).Nodup)
    (served : Bool) : Accounts t (cs ++ [.free handle served]) held := by
  obtain ⟨lost, handles, table⟩ := h
  rw [Accounts, run_append]
  cases served with
  | false =>
    refine ⟨lost ++ [(handle, value)], by simp [unserved, keys, ← handles], table.trans ?_⟩
    rw [List.append_assoc, List.cons_append]
    refine List.perm_middle.symm.trans (List.Perm.append_left held ?_)
    exact List.perm_middle.symm
  | true =>
    refine ⟨lost, by simp [unserved, handles], ?_⟩
    -- no two entries have the key, so the one taken away is that of the client
    have one : (run replay t cs).Pairwise fun a b => decide (a.1 = handle) = true →
        decide (b.1 = handle) = true → False := by
      refine (List.pairwise_map.mp nodup).imp ?_
      intro a b other first second
      exact other ((of_decide_eq_true first).trans (of_decide_eq_true second).symm)
    have erased := table.eraseP (fun e => decide (e.1 = handle)) one
    rwa [List.cons_append, List.eraseP_cons_of_pos (by simp)] at erased

/-- For a client that had no handles and keeps none, the server holds those that it did not
take back. -/
theorem length_eq (h : Accounts [] cs []) :
    (run replay ([] : Table κ ν) cs).length = cs.countP (¬ ·.Served) := by
  obtain ⟨lost, handles, table⟩ := h
  rw [← length_unserved, ← handles, keys, List.length_map]
  simpa using table.length_eq

end Accounts

end Calls

end Ane.HandleTable
