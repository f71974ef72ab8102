import Ane.Mapping

/-! What a client leaves on the device when its file is closed. Deleting the last
handle of a buffer drops its last reference, but the objects have no release
callback, so a buffer goes only through `aneBoFree`. -/
namespace Ane.Driver
open PageTable RangeAllocator Runs TaskManager

/-- Every page mapped and every range reserved is that of a buffer whose client is
still there. -/
structure NoLeftovers (dev : Device) : Prop where
  pages : ∀ a p, dev.iommu a = some p → ∃ bo ∈ dev.bos, bo.Maps a p ∧ bo.creator ∈ dev.files
  ranges : ∀ n ∈ dev.mm.nodes, ∃ bo ∈ dev.bos, bo.node = n ∧ bo.creator ∈ dev.files

/-- No open client closes its file while it has a handle. -/
def ClosesClean (dev : Device) : Op → Prop
  | .close file _ => file ∈ dev.files → ∀ e ∈ dev.handles, e.file ≠ file
  | _ => True

section Leftovers
variable {dev dev' : Device}

/-- Every buffer alive has its client. -/
def Attended (dev : Device) : Prop := ∀ bo ∈ dev.bos, bo.creator ∈ dev.files

theorem noLeftovers_iff (inv : Inv dev) : NoLeftovers dev ↔ Attended dev := by
  constructor
  · intro h bo hb
    have reserved : bo.node ∈ dev.mm.nodes := by
      rw [inv.bosOk.nodes]
      exact List.mem_map_of_mem hb
    obtain ⟨other, ho, same, attended⟩ := h.ranges bo.node reserved
    by_cases ids : bo.id = other.id
    · rwa [inv.bosOk.eq_of_id hb ho ids]
    · have apart := inv.bosOk.disjoint hb ho ids
      exact absurd same.symm (apart.ne (inv.bosOk.ok bo hb).node_used)
  · intro h
    refine ⟨?_, ?_⟩
    · intro a p mapped
      obtain ⟨bo, hb, maps⟩ := (inv.bosOk.table a p).mp mapped
      exact ⟨bo, hb, maps, h bo hb⟩
    · intro n reserved
      rw [inv.bosOk.nodes] at reserved
      obtain ⟨bo, hb, rfl⟩ := List.mem_map.mp reserved
      exact ⟨bo, hb, rfl, h bo hb⟩

theorem Attended.change {op : Op} (h : Attended dev) (step : Change dev op dev')
    (stays : ∀ file wake, op ≠ .close file wake) : Attended dev' := by
  cases step with
  | quiet => exact h
  | opened wake pm => exact fun bo hb => List.mem_cons_of_mem _ (h bo hb)
  | created wake pm client made =>
    intro bo hb
    obtain rfl | old := List.mem_cons.mp hb
    · rw [made.creator]
      exact client
    · exact h bo old
  | freed wake rc pm named => exact fun bo hb => h bo (List.mem_of_mem_filter hb)
  | closed file wake rc pm client => exact absurd rfl (stays file wake)

/-- Closing a file leaves nothing exactly when no handle of the file is left. -/
theorem attended_drmRelease (inv : Inv dev) (h : Attended dev) (file : FileId) (wake : Wake) :
    Attended (drmRelease dev file wake) ↔ ∀ e ∈ dev.handles, e.file ≠ file := by
  obtain ⟨rc, pm, frame⟩ := drmRelease_frame dev file wake
  rw [frame]
  simp only [Attended, List.mem_filter, decide_eq_true_eq]
  constructor
  · intro after e he same
    have kept := (after e.bo (inv.handlesOk.alive e he)).2
    exact kept ((inv.handlesOk.creator e he).trans same)
  · intro none bo hb
    obtain ⟨e, he, rfl⟩ := inv.handlesOk.owned bo hb (h bo hb)
    refine ⟨h e.bo hb, ?_⟩
    rw [inv.handlesOk.creator e he]
    exact none e he

/-- One operation keeps every buffer attended unless a client leaves with a handle. -/
theorem attended_exec (inv : Inv dev) (h : Attended dev) (op : Op) :
    Attended (exec dev op) ↔ ClosesClean dev op := by
  have step := exec_change inv.nodes op
  cases op with
  | openFile wake => simp [ClosesClean, h.change step (by simp)]
  | ioctl file wake call => simp [ClosesClean, h.change step (by simp)]
  | runtimeResume => simp [ClosesClean, h.change step (by simp)]
  | close file wake =>
    simp only [exec, ClosesClean]
    split
    · next client => simp only [client, true_imp_iff, attended_drmRelease inv h]
    · next closed => simp [closed, h]

end Leftovers

/-- Nothing outlives its client in a history exactly when every client that closes
its file has freed all of its buffers before. -/
theorem no_leftovers_iff (hw : AneHw) (regs : RegFile) (ops : List Op) :
    AllStates exec NoLeftovers (probed hw regs) ops ↔
      AllSteps exec ClosesClean (probed hw regs) ops := by
  apply allStates_iff_allSteps (I := Inv) (fun dev op inv => inv.exec op)
  · intro dev op inv h
    rw [noLeftovers_iff (inv.exec op)]
    exact attended_exec inv ((noLeftovers_iff inv).mp h) op
  · exact inv_probed hw regs
  · rw [noLeftovers_iff (inv_probed hw regs)]
    intro bo hb
    cases hb

/-- A client that creates a buffer and closes its file. -/
def openInitClose : List Op :=
  oneBuffer 0x4000 ++ [.close 0 (.ok ())]

/-- The page and the range stay although no file is open. -/
theorem not_noLeftovers_openInitClose :
    ¬ ∀ ops, AllStates exec NoLeftovers (probed aneHwH13 fun _ => 0) ops := by
  intro states
  have last := (states openInitClose).last
  have none : (run exec (probed aneHwH13 fun _ => 0) openInitClose).files = [] := by decide
  have mapped : (run exec (probed aneHwH13 fun _ => 0) openInitClose).iommu 0x4000 = some 7 := by
    decide
  obtain ⟨bo, -, -, attended⟩ := last.pages _ _ mapped
  rw [none] at attended
  cases attended

end Ane.Driver
