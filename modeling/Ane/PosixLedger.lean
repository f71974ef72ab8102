import Ane.Posix
import Mathlib.Data.List.Perm.Basic

/-! What a process holds, relative to an earlier one. A block or a descriptor is in the
ledger from the call that gives it out to the call that gives it back, and giving back what
is not held is counted; the order in which things were taken does not matter. -/
namespace Ane.Posix

/-- Since `base` the process has taken `blocks` and `fds` and not given them back, has given
back everything else it took, and nothing it did not hold. -/
structure Process.Holds (base p : Process) (blocks : List BlockId) (fds : List Fd) : Prop where
  live : p.live.Perm (blocks ++ base.live)
  fds : p.fds.Perm (fds ++ base.fds)
  badFrees : p.badFrees = base.badFrees
  badCloses : p.badCloses = base.badCloses

namespace Process.Holds

variable {env : Env} {base p p' : Process} {blocks blocks' : List BlockId} {fds : List Fd}

theorem refl (p : Process) : p.Holds p [] [] := ⟨.refl _, .refl _, rfl, rfl⟩

variable (holds : base.Holds p blocks fds)
include holds

theorem perm (same : blocks.Perm blocks') : base.Holds p blocks' fds where
  live := holds.live.trans (same.append_right _)
  fds := holds.fds
  badFrees := holds.badFrees
  badCloses := holds.badCloses

/-- Only what is in the ledger matters. -/
theorem congr (live : p'.live = p.live) (same : p'.fds = p.fds)
    (badFrees : p'.badFrees = p.badFrees) (badCloses : p'.badCloses = p.badCloses) :
    base.Holds p' blocks fds where
  live := live ▸ holds.live
  fds := same ▸ holds.fds
  badFrees := badFrees.trans holds.badFrees
  badCloses := badCloses.trans holds.badCloses

theorem setErrno {e : Errno} : base.Holds (p.setErrno e) blocks fds := holds.congr rfl rfl rfl rfl

theorem note {size off : Nat} {fields : List (Nat × Nat)} :
    base.Holds (p.note size off fields) blocks fds := holds.congr rfl rfl rfl rfl

theorem pread {count : Nat} {off : UInt64} :
    base.Holds (Posix.pread env count off p).2 blocks fds := by
  obtain ⟨e, after⟩ := pread_proc env count off p
  rw [after]
  exact holds.congr rfl rfl rfl rfl

/-- An allocation takes a block exactly when it succeeds. -/
theorem malloc {b : Option BlockId} (h : Posix.malloc env p = (b, p')) :
    base.Holds p' (b.toList ++ blocks) fds := by
  simp only [Posix.malloc] at h
  split at h
  · cases h
    exact ⟨holds.live.cons _, holds.fds, holds.badFrees, holds.badCloses⟩
  · cases h
    exact holds.congr rfl rfl rfl rfl

theorem openFile {fd : Option Fd} (h : Posix.openFile env p = (fd, p')) :
    base.Holds p' blocks (fd.toList ++ fds) := by
  simp only [Posix.openFile] at h
  split at h
  · cases h
    exact holds.setErrno
  · cases h
    exact ⟨holds.live, holds.fds.cons _, holds.badFrees, holds.badCloses⟩

omit holds

theorem free {b : BlockId} (holds : base.Holds p (b :: blocks) fds) :
    base.Holds (p.free (some b)) blocks fds := by
  have held : b ∈ p.live := holds.live.symm.subset List.mem_cons_self
  simp only [Process.free, if_pos held]
  refine ⟨?_, holds.fds, holds.badFrees, holds.badCloses⟩
  simpa using holds.live.erase b

theorem freeOption {b : Option BlockId} (holds : base.Holds p (b.toList ++ blocks) fds) :
    base.Holds (p.free b) blocks fds := by
  cases b with
  | none => exact holds
  | some b => exact holds.free

theorem close {fd : Fd} (holds : base.Holds p blocks (fd :: fds)) :
    base.Holds (p.close fd) blocks fds := by
  have held : fd ∈ p.fds := holds.fds.symm.subset List.mem_cons_self
  simp only [Process.close, if_pos held]
  refine ⟨holds.live, ?_, holds.badFrees, holds.badCloses⟩
  simpa using holds.fds.erase fd

/-- A `realloc` takes the place of the old block, or leaves everything as it was. -/
theorem realloc {old b : Option BlockId} (holds : base.Holds p (old.toList ++ blocks) fds)
    (h : Posix.realloc env old p = (b, p')) :
    base.Holds p' ((b.or old).toList ++ blocks) fds := by
  simp only [Posix.realloc] at h
  split at h
  · rename_i refused
    cases h
    exact holds.malloc refused
  · rename_i b p₁ granted
    cases h
    have swapped : (old.toList ++ b :: blocks).Perm (b :: (old.toList ++ blocks)) :=
      List.perm_middle
    apply freeOption
    exact (holds.malloc granted).perm swapped.symm

/-- Blocks given back one after the other. -/
theorem freeAll {α : Type} (block : α → Option BlockId) {elems : List α}
    (holds : base.Holds p (elems.flatMap (fun a => (block a).toList) ++ blocks) fds) :
    base.Holds (elems.foldl (fun p a => p.free (block a)) p) blocks fds := by
  induction elems generalizing p with
  | nil => exact holds
  | cons a rest ih =>
    rw [List.flatMap_cons, List.append_assoc] at holds
    exact ih holds.freeOption

/-- A run within a run. -/
theorem trans {q : Process} {blocks₂ : List BlockId} {fds₂ : List Fd}
    (holds : base.Holds p blocks fds) (later : p.Holds q blocks₂ fds₂) :
    base.Holds q (blocks₂ ++ blocks) (fds₂ ++ fds) where
  live := by
    rw [List.append_assoc]
    exact later.live.trans (holds.live.append_left _)
  fds := by
    rw [List.append_assoc]
    exact later.fds.trans (holds.fds.append_left _)
  badFrees := later.badFrees.trans holds.badFrees
  badCloses := later.badCloses.trans holds.badCloses

end Process.Holds

end Ane.Posix
