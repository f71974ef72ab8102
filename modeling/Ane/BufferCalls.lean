import Ane.ClientIsolation
import Ane.HandleTable

/-! The buffer ioctls of one open file as the driver serves them. Whatever the other clients
do in between, the handles that the file has and the sizes asked for are the table that
replays its calls, and no handle is given out while it is in use. -/
namespace Ane.Driver
open HandleTable Runs TaskManager

/-- The handles of a file with the sizes asked for. -/
def bufferTable (file : FileId) (dev : Device) : Table UInt32 UInt64 :=
  (dev.handles.filter (·.file = file)).map fun e => (e.handle, e.bo.requested)

/-- What an ioctl and its reply are to the client, as far as its buffers go. -/
def Ioctl.calls (reply : Except Errno Reply) : Ioctl → List (Call UInt32 UInt64)
  | .boInit args _ =>
    [.make args.size (match reply with | .ok (.buffer handle _) => some handle | _ => none)]
  | .boFree args => [.free args.handle reply.isOk]
  | _ => []

/-- The buffer ioctls that an open file makes in a step of the device. -/
def bufferCalls (file : FileId) (dev : Device) : Op → List (Call UInt32 UInt64)
  | .ioctl client wake call =>
    if client = file ∧ file ∈ dev.files then
      call.calls (aneDrmUnlockedIoctl dev file wake call).2
    else []
  | _ => []

section Table
variable {dev dev' : Device} {file client : FileId} {handle : UInt32} {bo : AneBo}

theorem keys_bufferTable (file : FileId) (dev : Device) :
    keys (bufferTable file dev) = (dev.handles.filter (·.file = file)).map HandleEntry.handle := by
  rw [keys, bufferTable, List.map_map]
  rfl

theorem HandlesOk.bufferTable (h : HandlesOk dev) (file : FileId) :
    (HandleTable.keys (bufferTable file dev)).Nodup := by
  rw [keys_bufferTable]
  have mine : (dev.handles.filter (·.file = file)).map HandleEntry.key =
      ((dev.handles.filter (·.file = file)).map HandleEntry.handle).map (file, ·) := by
    rw [List.map_map]
    apply List.map_congr_left
    intro e mem
    have same := (List.mem_filter.mp mem).2
    exact Prod.ext (of_decide_eq_true same) rfl
  have keys : ((dev.handles.filter (·.file = file)).map HandleEntry.key).Nodup :=
    h.keys.sublist (List.filter_sublist.map HandleEntry.key)
  rw [mine] at keys
  exact keys.of_map

/-- The handles of one file are not those of another. -/
theorem bufferTable_other (other : client ≠ file) {p : HandleEntry → Bool}
    (kept : ∀ e ∈ dev.handles, e.file ≠ client → p e = true)
    (same : dev'.handles = dev.handles.filter p) :
    bufferTable file dev' = bufferTable file dev := by
  rw [bufferTable, bufferTable, same, List.filter_filter]
  congr 1
  apply List.filter_congr
  intro e mem
  by_cases mine : e.file = file
  · have away : e.file ≠ client := fun eq => other (eq.symm.trans mine)
    simp [mine, kept e mem away]
  · simp [mine]

theorem bufferTable_withoutBo (h : HandlesOk dev) (rc : Nat → Nat) :
    bufferTable file (dev.withoutBo file handle bo rc) =
      (bufferTable file dev).eraseP (·.1 = handle) := by
  rw [eraseP_eq_filter (h.bufferTable file), bufferTable, bufferTable, List.filter_map,
    Device.withoutBo, List.filter_filter, List.filter_filter]
  congr 1
  apply List.filter_congr
  intro e _
  by_cases mine : e.file = file
  · simp [mine]
  · simp [mine]

end Table

section Calls
variable {dev : Device} {file : FileId}

/-- What a step of the device is to a client: its table replays the calls, none of which gives
it a handle that is in use. -/
structure Replays (file : FileId) (dev dev' : Device) (cs : List (Call UInt32 UInt64)) : Prop where
  table : bufferTable file dev' = run replay (bufferTable file dev) cs
  fresh : AllSteps replay Fresh (bufferTable file dev) cs

theorem Replays.silent {dev' : Device} (same : bufferTable file dev' = bufferTable file dev) :
    Replays file dev dev' [] := ⟨same, trivial⟩

theorem Created.replays {args : DrmAneBoInit} {handle : UInt32} {bo : AneBo}
    {iommu : PageTable.Table Nat Page} (made : Created dev file args.size handle bo iommu) :
    Replays file dev (dev.withBo file handle bo iommu) [.make args.size (some handle)] := by
  constructor
  · simp [bufferTable, Device.withBo, replay, made.requested]
  · refine ⟨?_, trivial⟩
    intro mem
    rw [keys_bufferTable] at mem
    obtain ⟨e, mine, same⟩ := List.mem_map.mp mem
    obtain ⟨mem, client⟩ := List.mem_filter.mp mine
    exact named_eq_none made.fresh e mem ⟨of_decide_eq_true client, same⟩

theorem drmIoctl_replays (handlesOk : HandlesOk dev)
    (nodes : ∀ e ∈ dev.handles, e.bo.mm = some e.bo.node) (file : FileId) (call : Ioctl) :
    Replays file dev (drmIoctl dev file call).1 (call.calls (drmIoctl dev file call).2) := by
  cases call with
  | info => exact .silent rfl
  | boInit args env =>
    simp only [drmIoctl, Ioctl.calls]
    generalize result : aneBoInit dev file args env = r
    obtain ⟨dev₁, err | ⟨handle, offset⟩⟩ := r
    · obtain ⟨rc, -, rfl⟩ := aneBoInit_error result
      exact ⟨rfl, trivial, trivial⟩
    · obtain ⟨bo, iommu, made, rfl⟩ := aneBoInit_ok result
      exact made.replays
  | boFree args =>
    simp only [drmIoctl, Ioctl.calls]
    obtain ⟨rc, failed⟩ | ⟨bo, named, done⟩ := aneBoFree_cases dev nodes file args
    · rw [failed]
      exact ⟨rfl, trivial, trivial⟩
    · rw [done]
      exact ⟨bufferTable_withoutBo handlesOk dev.refcount, trivial, trivial⟩
  | submit args status =>
    obtain ⟨rc, engine, done⟩ := aneSubmit_frame dev file args status
    simp only [drmIoctl, Ioctl.calls, done]
    exact .silent rfl

theorem aneDrmUnlockedIoctl_replays (inv : Inv dev) (file : FileId) (wake : Wake) (call : Ioctl) :
    Replays file dev (aneDrmUnlockedIoctl dev file wake call).1
      (call.calls (aneDrmUnlockedIoctl dev file wake call).2) := by
  have awake (pm : Int) : Replays file dev (pmRuntimePutAutosuspend
      (drmIoctl { dev with pmUsage := pm } file call).1)
      (call.calls (drmIoctl { dev with pmUsage := pm } file call).2) := by
    have handlesOk : HandlesOk { dev with pmUsage := pm } := { inv.handlesOk with }
    have served := drmIoctl_replays handlesOk inv.nodes file call
    exact ⟨served.table, served.fresh⟩
  cases wake with
  | ok _ => exact awake _
  | error err =>
    by_cases off : err = .EACCES
    · subst off
      exact awake _
    · have failed : aneDrmUnlockedIoctl dev file (.error err) call =
          ({ dev with pmUsage := dev.pmUsage - 1 }, .error err) := by
        simp [aneDrmUnlockedIoctl, pmRuntimeResumeAndGet, wakeFailed, off, pmRuntimePutAutosuspend,
          Except.map]
      rw [failed]
      cases call with
      | info => exact .silent rfl
      | boInit args env => exact ⟨rfl, trivial, trivial⟩
      | boFree args => exact ⟨rfl, trivial, trivial⟩
      | submit args status => exact .silent rfl

/-- The file is not closed by the operation. -/
def KeepsOpen (file : FileId) (op : Op) : Prop := ∀ wake, op ≠ .close file wake

theorem exec_keepsOpen (inv : Inv dev) {op : Op} (stays : KeepsOpen file op)
    (client : file ∈ dev.files) : file ∈ (exec dev op).files := by
  have step := exec_change inv.nodes op
  generalize exec dev op = dev' at step ⊢
  cases step with
  | quiet => exact client
  | opened wake pm => exact List.mem_cons_of_mem _ client
  | created wake pm _ made => exact client
  | freed wake rc pm named => exact client
  | closed other wake rc pm _ =>
    refine List.mem_filter.mpr ⟨client, decide_eq_true ?_⟩
    rintro rfl
    exact stays wake rfl

/-- What the other clients do is nothing to the file. -/
theorem exec_foreign (inv : Inv dev) {op : Op} (foreign : ∀ wake call, op ≠ .ioctl file wake call)
    (stays : KeepsOpen file op) : bufferTable file (exec dev op) = bufferTable file dev := by
  have step := exec_change inv.nodes op
  generalize exec dev op = dev' at step ⊢
  cases step with
  | quiet => rfl
  | opened wake pm => rfl
  | @created wake pm client args env handle bo iommu _ made =>
    have other : client ≠ file := by
      rintro rfl
      exact foreign _ _ rfl
    simp [bufferTable, Device.withBo, other]
  | @freed wake rc pm client args bo named =>
    have other : client ≠ file := by
      rintro rfl
      exact foreign _ _ rfl
    refine bufferTable_other other ?_ rfl
    intro e _ away
    simp [away]
  | closed client wake rc pm _ =>
    have other : client ≠ file := by
      rintro rfl
      exact stays wake rfl
    refine bufferTable_other other ?_ rfl
    intro e _ away
    simp [away]

theorem exec_replays (inv : Inv dev) {op : Op} (client : file ∈ dev.files)
    (stays : KeepsOpen file op) : Replays file dev (exec dev op) (bufferCalls file dev op) := by
  by_cases mine : ∃ wake call, op = .ioctl file wake call
  · obtain ⟨wake, call, rfl⟩ := mine
    simp only [exec, bufferCalls, client, and_self, if_true]
    exact aneDrmUnlockedIoctl_replays inv file wake call
  · have foreign : ∀ wake call, op ≠ .ioctl file wake call :=
      fun wake call same => mine ⟨wake, call, same⟩
    have silent : bufferCalls file dev op = [] := by
      cases op with
      | ioctl other wake call =>
        have away : other ≠ file := by
          rintro rfl
          exact foreign wake call rfl
        simp only [bufferCalls, away, false_and, if_false]
      | openFile wake => rfl
      | close other wake => rfl
      | runtimeResume => rfl
    rw [silent]
    exact .silent (exec_foreign inv foreign stays)

/-- Through every history in which it stays open. -/
theorem run_replays (inv : Inv dev) (client : file ∈ dev.files) {ops : List Op}
    (stays : ∀ op ∈ ops, KeepsOpen file op) :
    (Inv (run exec dev ops) ∧ file ∈ (run exec dev ops).files) ∧
      Replays file dev (run exec dev ops) (observed exec (bufferCalls file) dev ops) := by
  have keep : ∀ dev op, (Inv dev ∧ file ∈ dev.files) → KeepsOpen file op →
      Inv (exec dev op) ∧ file ∈ (exec dev op).files :=
    fun dev op here stays => ⟨here.1.exec op, exec_keepsOpen here.1 stays here.2⟩
  have step : ∀ dev op, (Inv dev ∧ file ∈ dev.files) → KeepsOpen file op →
      bufferTable file (exec dev op) = run replay (bufferTable file dev) (bufferCalls file dev op) ∧
        AllSteps replay Fresh (bufferTable file dev) (bufferCalls file dev op) := by
    intro dev op here stays
    have replays := exec_replays here.1 here.2 stays
    exact ⟨replays.table, replays.fresh⟩
  obtain ⟨last, table, fresh⟩ := run_observed keep step ⟨inv, client⟩ (.of_forall fun _ => stays)
  exact ⟨last, table, fresh⟩

end Calls

end Ane.Driver
