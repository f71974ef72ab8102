import Ane.Mapping

/-! The usage counter of runtime PM. Each entry point takes a count, works and puts a
count. A wake-up that fails takes none, and every path puts one all the same. -/
namespace Ane.Driver
open Runs TaskManager

/-- The values the counter takes in the course of one operation. -/
def usages (dev : Device) : Op → List Int
  | .openFile wake =>
    [(pmRuntimeResumeAndGet dev wake).1.pmUsage, (aneDrmOpen dev wake).1.pmUsage]
  | .ioctl file wake call =>
    if file ∈ dev.files then
      [(pmRuntimeResumeAndGet dev wake).1.pmUsage, (aneDrmUnlockedIoctl dev file wake call).1.pmUsage]
    else []
  | .close file wake =>
    if file ∈ dev.files then
      [(pmRuntimeResumeAndGet dev wake).1.pmUsage, (aneDrmPostclose dev wake).pmUsage]
    else []
  | .runtimeResume => []

/-- The operation leaves the counter as it was, and never lets it fall below that. -/
def KeepsUsage (dev : Device) (op : Op) : Prop :=
  (exec dev op).pmUsage = dev.pmUsage ∧ ∀ n ∈ usages dev op, dev.pmUsage ≤ n

/-- Waking the device up succeeds. -/
def Wakes (dev : Device) : Op → Prop
  | .openFile wake => wake = .ok ()
  | .ioctl file wake _ => file ∈ dev.files → wake = .ok ()
  | .close file wake => file ∈ dev.files → wake = .ok ()
  | .runtimeResume => True

/-- What a wake-up does not count and the entry point puts nevertheless. -/
def uncounted : Wake → Int
  | .ok _ => 0
  | .error _ => 1

theorem uncounted_eq_zero {wake : Wake} : uncounted wake = 0 ↔ wake = .ok () := by
  cases wake with
  | ok _ => simp [uncounted]
  | error err => simp [uncounted]

section Calls
variable {dev : Device}

theorem pmRuntimeResumeAndGet_pmUsage (dev : Device) (wake : Wake) :
    (pmRuntimeResumeAndGet dev wake).1.pmUsage = dev.pmUsage + 1 - uncounted wake := by
  cases wake with
  | ok _ => simp [pmRuntimeResumeAndGet, uncounted]
  | error err => simp [pmRuntimeResumeAndGet, uncounted]

theorem aneDrmOpen_pmUsage (dev : Device) (wake : Wake) :
    (aneDrmOpen dev wake).1.pmUsage = dev.pmUsage - uncounted wake := by
  have counted := pmRuntimeResumeAndGet_pmUsage dev wake
  simp only [aneDrmOpen, ite_self, pmRuntimePutAutosuspend, counted]
  omega

theorem aneDrmPostclose_pmUsage (dev : Device) (wake : Wake) :
    (aneDrmPostclose dev wake).pmUsage = dev.pmUsage - uncounted wake := by
  simp only [aneDrmPostclose, pmRuntimePutAutosuspend, pmRuntimeResumeAndGet_pmUsage]
  omega

/-- No ioctl touches the counter itself. -/
theorem drmIoctl_pmUsage (dev : Device) (nodes : ∀ e ∈ dev.handles, e.bo.mm = some e.bo.node)
    (file : FileId) (call : Ioctl) : (drmIoctl dev file call).1.pmUsage = dev.pmUsage := by
  have change := drmIoctl_cases dev nodes file call
  generalize (drmIoctl dev file call).1 = dev₁ at change ⊢
  cases change <;> rfl

theorem aneDrmUnlockedIoctl_pmUsage (nodes : ∀ e ∈ dev.handles, e.bo.mm = some e.bo.node)
    (file : FileId) (wake : Wake) (call : Ioctl) :
    (aneDrmUnlockedIoctl dev file wake call).1.pmUsage = dev.pmUsage - uncounted wake := by
  have counted := pmRuntimeResumeAndGet_pmUsage dev wake
  have same : (pmRuntimeResumeAndGet dev wake).1.handles = dev.handles := by cases wake <;> rfl
  have kept := drmIoctl_pmUsage (pmRuntimeResumeAndGet dev wake).1 (same ▸ nodes) file call
  simp only [aneDrmUnlockedIoctl, pmRuntimePutAutosuspend]
  split
  · simp only [counted]
    omega
  · simp only [kept, counted]
    omega

theorem drmRelease_pmUsage (dev : Device) (file : FileId) (wake : Wake) :
    (drmRelease dev file wake).pmUsage = dev.pmUsage - uncounted wake := by
  have deleted (left : List HandleEntry) (dev : Device) :
      (left.foldl (fun dev e => drmGemHandleDelete dev file e.handle) dev).pmUsage =
        dev.pmUsage := by
    induction left generalizing dev with
    | nil => rfl
    | cons e left ih =>
      obtain ⟨rc, first⟩ := drmGemHandleDelete_frame dev file e.handle
      rw [List.foldl_cons, ih, first]
  simp only [drmRelease, aneDrmPostclose_pmUsage, deleted]

theorem drmOpen_pmUsage (dev : Device) (wake : Wake) :
    (drmOpen dev wake).pmUsage = dev.pmUsage - uncounted wake := by
  rw [← aneDrmOpen_pmUsage, drmOpen]
  generalize aneDrmOpen dev wake = r
  obtain ⟨dev₁, err | _⟩ := r <;> rfl

/-- One operation keeps the counter exactly when its wake-up succeeds. -/
theorem keepsUsage_iff (inv : Inv dev) (op : Op) : KeepsUsage dev op ↔ Wakes dev op := by
  have balance {wake : Wake} {after : Int} (h : after = dev.pmUsage - uncounted wake) :
      (after = dev.pmUsage ∧ ∀ n ∈ [dev.pmUsage + 1 - uncounted wake, after], dev.pmUsage ≤ n) ↔
        wake = .ok () := by
    rw [← uncounted_eq_zero, h]
    simp only [List.mem_cons, List.not_mem_nil, or_false, forall_eq_or_imp, forall_eq]
    omega
  cases op with
  | openFile wake =>
    simp only [KeepsUsage, Wakes, usages, exec, pmRuntimeResumeAndGet_pmUsage, drmOpen_pmUsage,
      aneDrmOpen_pmUsage]
    exact balance rfl
  | ioctl file wake call =>
    simp only [KeepsUsage, Wakes, usages, exec]
    split
    · next client =>
      simp only [client, true_imp_iff, pmRuntimeResumeAndGet_pmUsage]
      exact balance (aneDrmUnlockedIoctl_pmUsage inv.nodes file wake call)
    · next closed => simp [closed]
  | close file wake =>
    simp only [KeepsUsage, Wakes, usages, exec]
    split
    · next client =>
      simp only [client, true_imp_iff, pmRuntimeResumeAndGet_pmUsage, drmRelease_pmUsage,
        aneDrmPostclose_pmUsage]
      exact balance rfl
    · next closed => simp [closed]
  | runtimeResume => exact iff_of_true ⟨rfl, by simp [usages]⟩ trivial

end Calls

/-- In a run every call leaves the counter as it found it exactly when every wake-up
succeeds. -/
theorem usage_kept_iff (hw : AneHw) (regs : RegFile) (ops : List Op) :
    AllSteps exec KeepsUsage (probed hw regs) ops ↔ AllSteps exec Wakes (probed hw regs) ops :=
  allSteps_iff_allSteps (I := Inv) (fun _ op inv => inv.exec op)
    (fun _ op inv => keepsUsage_iff inv op) (inv_probed hw regs) ops

/-- An open whose wake-up fails takes one count off. -/
theorem not_keepsUsage_failedOpen :
    ¬ ∀ ops, AllSteps exec KeepsUsage (probed aneHwH13 fun _ => 0) ops := by
  intro kept
  have after : (exec (probed aneHwH13 fun _ => 0) (.openFile (.error .ENOMEM))).pmUsage = -1 := by
    decide
  have same := (kept [.openFile (.error .ENOMEM)]).1.1
  rw [after] at same
  exact absurd same (by decide)

end Ane.Driver
