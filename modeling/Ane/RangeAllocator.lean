import Mathlib.Algebra.Group.Nat.Defs
import Mathlib.Data.List.Nodup
import Mathlib.Tactic.Common

/-! A range allocator in the manner of `drm_mm`: a managed 64-bit range and the
nodes handed out from it. An insertion answers with some free aligned range or
with an error; which one is an input, and an answer the allocator could not give
counts as an error. -/
namespace Ane.RangeAllocator

structure Node where
  start : UInt64
  size : UInt64
deriving DecidableEq, Repr

namespace Node

/-- One past the last address, over the naturals. -/
def stop (n : Node) : Nat := n.start.toNat + n.size.toNat

def Disjoint (n m : Node) : Prop := n.stop ≤ m.start.toNat ∨ m.stop ≤ n.start.toNat

instance (n m : Node) : Decidable (n.Disjoint m) := inferInstanceAs (Decidable (_ ∨ _))

theorem Disjoint.symm {n m : Node} (h : n.Disjoint m) : m.Disjoint n := Or.symm h

theorem Disjoint.ne {n m : Node} (h : n.Disjoint m) (used : n.size ≠ 0) : n ≠ m := by
  rintro rfl
  have pos : 0 < n.size.toNat := Nat.pos_of_ne_zero fun zero => used (UInt64.toNat_inj.mp zero)
  rcases h with h | h <;> unfold stop at h <;> omega

/-- Address `a` lies in the range. -/
def Contains (n : Node) (a : Nat) : Prop := n.start.toNat ≤ a ∧ a < n.stop

theorem Disjoint.not_contains {n m : Node} (h : n.Disjoint m) {a : Nat} (hn : n.Contains a) :
    ¬ m.Contains a := by
  rintro ⟨hl, hr⟩
  obtain ⟨hl', hr'⟩ := hn
  rcases h with h | h <;> omega

end Node

/-- The managed range and its nodes. The range does not wrap. -/
structure Allocator where
  start : UInt64
  size : UInt64
  nodes : List Node
  window : start.toNat + size.toNat < 2 ^ 64

namespace Allocator

def stop (mm : Allocator) : Nat := mm.start.toNat + mm.size.toNat

/-- A range the allocator may answer with. -/
def Free (mm : Allocator) (align : UInt64) (n : Node) : Prop :=
  n.size ≠ 0 ∧ n.start.toNat % align.toNat = 0 ∧ mm.start.toNat ≤ n.start.toNat ∧
    n.stop ≤ mm.stop ∧ ∀ m ∈ mm.nodes, n.Disjoint m

instance (mm : Allocator) (align : UInt64) (n : Node) : Decidable (mm.Free align n) :=
  inferInstanceAs (Decidable (_ ∧ _))

/-- Reserve `size` at the start proposed, if that is free. -/
def insertNode (mm : Allocator) (size align : UInt64) (pick : Option UInt64) :
    Option (Node × Allocator) :=
  match pick with
  | none => none
  | some start =>
    let node : Node := ⟨start, size⟩
    if mm.Free align node then some (node, { mm with nodes := node :: mm.nodes }) else none

def removeNode (mm : Allocator) (n : Node) : Allocator := { mm with nodes := mm.nodes.erase n }

theorem insertNode_eq_some {mm mm' : Allocator} {size align : UInt64} {pick : Option UInt64}
    {n : Node} (h : mm.insertNode size align pick = some (n, mm')) :
    pick = some n.start ∧ n.size = size ∧ mm.Free align n ∧
      mm' = { mm with nodes := n :: mm.nodes } := by
  cases pick with
  | none => cases h
  | some start =>
    simp only [insertNode] at h
    split at h
    · next free =>
      cases h
      exact ⟨rfl, rfl, free, rfl⟩
    · cases h

theorem removeNode_insertNode (mm : Allocator) (n : Node) :
    ({ mm with nodes := n :: mm.nodes } : Allocator).removeNode n = mm := by
  simp [removeNode]

end Allocator

/-- An allocator as it is set up. -/
def init (start size : UInt64) (window : start.toNat + size.toNat < 2 ^ 64) : Allocator :=
  ⟨start, size, [], window⟩

end Ane.RangeAllocator
