import Ane.DriverSteps

/-! Ioctls of several threads, interleaved. A step is one lookup, one handle-table
operation, one mapping or unmapping under the IOMMU lock, one action under the
engine lock or one release; what a thread does between two such steps is its own.
In two places a step is coarser than the source: a creation makes the handle and drops
its own reference at once, and a lookup is one with the reads of what it finds. A free
of that very buffer in between is not modelled. The engine is an H13. Arguments and the
answers of the services called are inputs of the steps; a step that is not enabled
changes nothing. -/
namespace Ane.Concurrent
open PageTable RangeAllocator Runs TaskManager Driver

abbrev ThreadId := Nat

/-- A submission on its way. `found` notes the buffer each handle named when it was
looked up; the driver keeps only its address, in `bar`. -/
structure Job where
  file : FileId
  args : DrmAneSubmit
  bar : Nat → UInt64
  found : Nat → Option AneBo

/-- Where a thread stands in its ioctl. A failed `aneBoInit` and a `aneBoFree` end
with the same steps. -/
inductive Thread
  | idle
  | freeing (file : FileId) (handle : UInt32) (bo : AneBo)
  | unmapping (bo : AneBo)
  | releasing (bo : AneBo)
  | kfreeing (bo : AneBo)
  | publishing (file : FileId) (bo : AneBo) (pick : Option UInt32)
  | looking (job : Job) (bdx : Nat)
  | locking (job : Job) (btsp : AneBo)
  | enqueuing (job : Job) (btsp : AneBo)
  | pushing (job : Job) (btsp : AneBo)
  | polling (job : Job) (btsp : AneBo)

inductive Action
  | lookup
  | publish
  | delete
  | unmap
  | release
  | kfree
deriving DecidableEq

/-- An access to an object. -/
structure Event where
  action : Action
  id : Nat
deriving DecidableEq

/-- The device, the threads and what has happened. `abandoned` are the jobs whose
completion was waited for in vain, `trace` the accesses to objects, newest first. -/
structure Machine where
  dev : Device
  threads : ThreadId → Thread
  engineLock : Option ThreadId
  abandoned : List (Job × AneBo)
  trace : List Event

namespace Machine

def become (m : Machine) (t : ThreadId) (th : Thread) : Machine :=
  { m with threads := Function.update m.threads t th }

def log (m : Machine) (action : Action) (bo : AneBo) : Machine :=
  { m with trace := ⟨action, bo.id⟩ :: m.trace }

/-- Deleting a handle accesses the object it names at that moment, if any. -/
def logDelete (m : Machine) : Option AneBo → Machine
  | none => m
  | some bo => m.log .delete bo

end Machine

def Job.request (job : Job) (btsp : AneBo) : AneRequest := submitRequest job.args job.bar btsp

/-- The buffer address `b` of the request points into: the weights lie in the
microcode buffer. -/
def Job.source (job : Job) (b : Nat) : Option AneBo :=
  if b = krnBufBdx then job.found cmdBufBdx else job.found b

/-- `aneBoInit` up to the mapping. -/
def boInitMap (dev : Device) (file : FileId) (args : DrmAneBoInit) (env : BoInitEnv) :
    Device × Option AneBo :=
  if args.pad ≠ 0 ∨ ¬ env.boAlloc ∨ ¬ env.gemInit then (dev, none)
  else
    let size := roundUp args.size pageSize
    match drmGemCreateMmapOffset size env.mmapOffset, drmGemGetPages size env.pages with
    | some _, some pages =>
      let bo := newBo dev file args size pages
      match aneIommuMapPages (dev.setRefcount bo 1) bo env with
      | (dev, .ok bo) => ({ dev with nextBo := dev.nextBo + 1 }, some bo)
      | (dev, .error _) => (dev, none)
    | _, _ => (dev, none)

/-- The lookup of one handle of a submission, or of the bootstrap handle after the
last. -/
def lookOne (m : Machine) (t : ThreadId) (job : Job) (bdx : Nat) : Machine :=
  if bdx < m.dev.hw.barCount then
    if job.args.handles bdx ≠ 0 then
      match boLookup m.dev job.file (job.args.handles bdx) with
      | (none, dev) => { m with dev := dev }.become t .idle
      | (some bo, dev) =>
        let m := { m with dev := dev }.log .lookup bo
        if barRejected dev.hw job.args bdx bo then m.become t .idle
        else
          let job := { job with
            bar := Function.update job.bar bdx bo.iova
            found := Function.update job.found bdx (some bo) }
          m.become t (.looking job (bdx + 1))
    else m.become t (.looking job (bdx + 1))
  else
    match boLookup m.dev job.file job.args.btspHandle with
    | (none, dev) => { m with dev := dev }.become t .idle
    | (some btsp, dev) =>
      let m := { m with dev := dev }.log .lookup btsp
      if iovaRejected dev.hw btsp then m.become t .idle else m.become t (.locking job btsp)

/-- The end of the poll. After a time-out the driver carries on as after a
completion, but the engine may still be at work. -/
def observe (m : Machine) (t : ThreadId) (job : Job) (btsp : AneBo) (status : Status) : Machine :=
  let engine := H13.aneTmHandleIrq m.dev.engine
  let engine := H13.tqWrite32 engine (H13.tqStatus (job.request btsp).qid) 0x0
  let abandoned := match status with
    | .ok () => m.abandoned
    | .error _ => (job, btsp) :: m.abandoned
  { m with
    dev := { m.dev with engine := engine }, engineLock := none, abandoned := abandoned }.become t .idle

/-- The next step of a thread. -/
def stepThread (m : Machine) (t : ThreadId) (status : Status) : Machine :=
  match m.threads t with
  | .idle => m
  | .freeing file handle bo =>
    let m := m.logDelete (m.dev.named file handle)
    { m with dev := drmGemHandleDelete m.dev file handle }.become t (.unmapping bo)
  | .unmapping bo =>
    ({ m with dev := aneIommuUnmapPages m.dev bo }.log .unmap bo).become t (.releasing bo)
  | .releasing bo => (m.log .release bo).become t (.kfreeing bo)
  | .kfreeing bo => ({ m with dev := kfree m.dev bo }.log .kfree bo).become t .idle
  | .publishing file bo pick =>
    match drmGemHandleCreate m.dev file bo pick with
    | none => ({ m with dev := drmGemObjectPut m.dev bo }.log .publish bo).become t (.unmapping bo)
    | some (_, dev) =>
      let dev := drmGemObjectPut dev bo
      ({ m with dev := { dev with bos := bo :: dev.bos } }.log .publish bo).become t .idle
  | .looking job bdx => lookOne m t job bdx
  | .locking job btsp =>
    if m.engineLock = none then { m with engineLock := some t }.become t (.enqueuing job btsp) else m
  | .enqueuing job btsp =>
    let engine := (H13.aneH13TmEnqueue m.dev.engine (job.request btsp)).1
    { m with dev := { m.dev with engine := engine } }.become t (.pushing job btsp)
  | .pushing job btsp =>
    let engine := H13.aneTmPushTq m.dev.engine (job.request btsp)
    { m with dev := { m.dev with engine := engine } }.become t (.polling job btsp)
  | .polling job btsp => observe m t job btsp status

inductive ThreadOp
  | boFree (t : ThreadId) (file : FileId) (args : DrmAneBoFree)
  | boInit (t : ThreadId) (file : FileId) (args : DrmAneBoInit) (env : BoInitEnv)
  | submit (t : ThreadId) (file : FileId) (args : DrmAneSubmit)
  | step (t : ThreadId) (status : Status)

/-- An ioctl begins on an idle thread, with its first step. -/
def exec (m : Machine) : ThreadOp → Machine
  | .boFree t file args =>
    match m.threads t with
    | .idle =>
      match boLookup m.dev file args.handle with
      | (none, dev) => { m with dev := dev }
      | (some bo, dev) =>
        let m := { m with dev := dev }.log .lookup bo
        if args.pad ≠ 0 then m else m.become t (.freeing file args.handle bo)
    | _ => m
  | .boInit t file args env =>
    match m.threads t with
    | .idle =>
      match boInitMap m.dev file args env with
      | (dev, none) => { m with dev := dev }
      | (dev, some bo) => { m with dev := dev }.become t (.publishing file bo env.handle)
    | _ => m
  | .submit t file args =>
    match m.threads t with
    | .idle =>
      if submitArgsRejected args then m
      else m.become t (.looking ⟨file, args, fun _ => 0, fun _ => none⟩ 0)
    | _ => m
  | .step t status => stepThread m t status

section Map
variable {dev dev' : Device} {file : FileId} {args : DrmAneBoInit} {env : BoInitEnv} {bo : AneBo}

theorem boInitMap_none (h : boInitMap dev file args env = (dev', none)) :
    ∃ rc, dev' = { dev with refcount := rc } := by
  unfold boInitMap at h
  split at h
  · cases h
    exact ⟨dev.refcount, rfl⟩
  dsimp only at h
  split at h
  · next pages _ _ =>
    generalize result : aneIommuMapPages
      (dev.setRefcount (newBo dev file args (roundUp args.size pageSize) pages) 1)
      (newBo dev file args (roundUp args.size pageSize) pages) env = r at h
    obtain ⟨dev₁, err | bo₁⟩ := r
    · cases h
      obtain rfl := aneIommuMapPages_error result
      exact ⟨_, rfl⟩
    · cases h
  · cases h
    exact ⟨dev.refcount, rfl⟩

/-- What a completed mapping has made of the device. -/
theorem boInitMap_some (h : boInitMap dev file args env = (dev', some bo)) :
    ∃ rc iommu, (env.node = some bo.iova ∧
        bo.npages = (roundUp args.size pageSize >>> 14).toUInt32) ∧
      bo.id = dev.nextBo ∧ BoOk dev.mm bo ∧
      Mapped (pageIova bo.iova) (fun i => bo.pages.getD i 0) bo.npages.toNat 0 dev.iommu iommu ∧
      dev' = { dev with
        mm := { dev.mm with nodes := bo.node :: dev.mm.nodes }
        iommu := iommu, refcount := rc, nextBo := dev.nextBo + 1 } := by
  unfold boInitMap at h
  split at h
  · cases h
  dsimp only at h
  split at h
  · next offset pages inRange paged =>
    have sizes := newBo_sizes dev file inRange paged
    have id : (newBo dev file args (roundUp args.size pageSize) pages).id = dev.nextBo := rfl
    have npages : (newBo dev file args (roundUp args.size pageSize) pages).npages =
        (roundUp args.size pageSize >>> 14).toUInt32 := rfl
    dsimp only at sizes
    generalize newBo dev file args (roundUp args.size pageSize) pages = bo₀ at h sizes id npages
    generalize result : aneIommuMapPages (dev.setRefcount bo₀ 1) bo₀ env = r at h
    obtain ⟨dev₁, err | bo₁⟩ := r
    · cases h
    · cases h
      obtain ⟨node, iommu, pick, size, free, done, rfl, rfl⟩ := aneIommuMapPages_ok result
      have range : node = ⟨node.start, shiftPages bo₀.npages⟩ := by rw [← size]
      refine ⟨(dev.setRefcount bo₀ 1).refcount, iommu, ⟨pick, npages⟩, id,
        boOk_of_mapped size free done sizes, done, ?_⟩
      simp [Device.setRefcount, AneBo.node, ← range]
  · cases h

end Map

/-- A device no thread is working on. -/
def quiet (dev : Device) : Machine := ⟨dev, fun _ => .idle, none, [], []⟩

def clientWithBuffer : Machine :=
  quiet (run Driver.exec (probed aneHwH13 fun _ => 0) (oneBuffer 0x4000))

section Alone
variable {dev : Device} {t : ThreadId} {file : FileId} {status : Status}

@[simp] theorem become_dev (m : Machine) (t : ThreadId) (th : Thread) : (m.become t th).dev = m.dev :=
  rfl

@[simp] theorem become_self (m : Machine) (t : ThreadId) (th : Thread) :
    (m.become t th).threads t = th := Function.update_self ..

theorem become_other (m : Machine) {t u : ThreadId} (ne : u ≠ t) (th : Thread) :
    (m.become t th).threads u = m.threads u := Function.update_of_ne ne ..

@[simp] theorem log_dev (m : Machine) (action : Action) (bo : AneBo) : (m.log action bo).dev = m.dev :=
  rfl

@[simp] theorem log_threads (m : Machine) (action : Action) (bo : AneBo) :
    (m.log action bo).threads = m.threads := rfl

@[simp] theorem logDelete_dev (m : Machine) (named : Option AneBo) : (m.logDelete named).dev = m.dev := by
  cases named <;> rfl

/-- Run without interruption, the steps of a free are `aneBoFree`. -/
theorem alone_boFree (args : DrmAneBoFree) :
    (run exec (quiet dev) (.boFree t file args :: List.replicate 4 (.step t status))).dev =
      (aneBoFree dev file args).1 := by
  cases named : dev.named file args.handle with
  | none =>
    have first : exec (quiet dev) (.boFree t file args) = quiet dev := by
      simp only [exec, quiet, boLookup_none named]
    rw [run_cons, first, aneBoFree_unnamed named]
    rfl
  | some bo =>
    by_cases pad : args.pad = 0
    · simp only [aneBoFree, boLookup_some named, pad]
      simp [List.replicate, exec, quiet, boLookup_some named, pad, stepThread]
    · simp only [aneBoFree, boLookup_some named]
      simp [List.replicate, exec, quiet, boLookup_some named, pad, stepThread]

theorem drmGemHandleCreate_nextBo (dev : Device) (n : Nat) (file : FileId) (bo : AneBo)
    (pick : Option UInt32) :
    drmGemHandleCreate { dev with nextBo := n } file bo pick =
      (drmGemHandleCreate dev file bo pick).map fun r => (r.1, { r.2 with nextBo := n }) := by
  cases pick with
  | none => rfl
  | some handle =>
    simp only [drmGemHandleCreate, apply_ite (Option.map _)]
    rfl

/-- Run without interruption, the steps of a completed `aneBoInit` are those. -/
theorem alone_boInit {dev' : Device} {args : DrmAneBoInit} {env : BoInitEnv} {r : UInt32 × UInt64}
    (h : aneBoInit dev file args env = (dev', .ok r)) :
    (run exec (quiet dev) [.boInit t file args env, .step t status]).dev = dev' := by
  unfold aneBoInit at h
  split at h
  · cases h
  next pad =>
  split at h
  · cases h
  next boAlloc =>
  split at h
  · cases h
  next gemInit =>
  dsimp only at h
  split at h
  · cases h
  next offset inRange =>
  split at h
  · cases h
  next pages paged =>
  have passed : ¬ (args.pad ≠ 0 ∨ ¬ env.boAlloc ∨ ¬ env.gemInit) := by tauto
  have mapped : boInitMap dev file args env = match aneIommuMapPages
      (dev.setRefcount (newBo dev file args (roundUp args.size pageSize) pages) 1)
      (newBo dev file args (roundUp args.size pageSize) pages) env with
    | (dev, .ok bo) => ({ dev with nextBo := dev.nextBo + 1 }, some bo)
    | (dev, .error _) => (dev, none) := by
    simp only [boInitMap, if_neg passed, inRange, paged]
  unfold aneBoInitMapped at h
  generalize aneIommuMapPages _ _ env = result at h mapped
  obtain ⟨dev₁, err | bo⟩ := result
  · cases h
  · dsimp only at h mapped
    have taken := drmGemHandleCreate_nextBo dev₁ (dev₁.nextBo + 1) file bo env.handle
    cases made : drmGemHandleCreate dev₁ file bo env.handle with
    | none => simp [made, Except.map] at h
    | some r₁ =>
      obtain ⟨handle, dev₂⟩ := r₁
      obtain ⟨-, -, rfl⟩ := drmGemHandleCreate_eq_some made
      simp only [made, Except.map, Prod.mk.injEq] at h
      rw [made] at taken
      rw [← h.1]
      simp [exec, quiet, mapped, stepThread, taken, drmGemObjectPut_eq, Device.get,
        Device.setRefcount]

/-- `n` steps of one thread. -/
def steps (m : Machine) (t : ThreadId) (status : Status) (n : Nat) : Machine :=
  run exec m (List.replicate n (.step t status))

@[simp] theorem steps_zero (m : Machine) (t : ThreadId) (status : Status) : steps m t status 0 = m :=
  rfl

theorem steps_succ (m : Machine) (t : ThreadId) (status : Status) (n : Nat) :
    steps m t status (n + 1) = steps (stepThread m t status) t status n := rfl

theorem steps_add (m : Machine) (t : ThreadId) (status : Status) (n k : Nat) :
    steps m t status (n + k) = steps (steps m t status n) t status k := by
  rw [steps, List.replicate_add, run_append]
  rfl

theorem steps_idle {m : Machine} (idle : m.threads t = .idle) (n : Nat) :
    steps m t status n = m := by
  have stay : stepThread m t status = m := by simp only [stepThread, idle]
  induction n with
  | zero => rfl
  | succ n ih => rw [steps_succ, stay, ih]

/-- The lookups of a thread are the handle loop of `aneSubmit`. -/
theorem steps_looking (status : Status) {m : Machine} {left : Nat} {job : Job} {bdx : Nat}
    (at_ : m.threads t = .looking job bdx) (count : bdx + left = m.dev.hw.barCount) :
    let bars := submitBars job.file job.args left bdx job.bar m.dev
    let after := steps m t status left
    after.dev = bars.1 ∧ after.engineLock = m.engineLock ∧
      match bars.2 with
      | .error _ => after.threads t = .idle
      | .ok bar => ∃ found,
          after.threads t = .looking ⟨job.file, job.args, bar, found⟩ m.dev.hw.barCount := by
  induction left generalizing m job bdx with
  | zero =>
    have here : bdx = m.dev.hw.barCount := count
    exact ⟨rfl, rfl, job.found, by rw [steps_zero, at_, here]⟩
  | succ left ih =>
    have more : bdx < m.dev.hw.barCount := by omega
    have next : bdx + 1 + left = m.dev.hw.barCount := by omega
    have step : stepThread m t status = lookOne m t job bdx := by simp only [stepThread, at_]
    dsimp only
    rw [steps_succ, step, lookOne, if_pos more, submitBars]
    split
    · cases named : m.dev.named job.file (job.args.handles bdx) with
      | none =>
        simp only [boLookup_none named]
        rw [steps_idle (become_self _ _ _)]
        exact ⟨rfl, rfl, become_self _ _ _⟩
      | some bo =>
        simp only [boLookup_some named]
        split
        · rw [steps_idle (become_self _ _ _)]
          exact ⟨rfl, rfl, become_self _ _ _⟩
        · exact ih (become_self _ _ _) next
    · exact ih (become_self _ _ _) next

/-- From the lock on, the steps are those of `submitExecute`. -/
theorem steps_locking {m : Machine} {job : Job} {btsp : AneBo} (at_ : m.threads t = .locking job btsp)
    (lock : m.engineLock = none) (hw : m.dev.hw = aneHwH13) :
    (steps m t status 4).dev = (submitExecute m.dev (job.request btsp) status).1 := by
  have locked : stepThread m t status =
      { m with engineLock := some t }.become t (.enqueuing job btsp) := by
    simp only [stepThread, at_, lock, if_true]
  rw [submitExecute_h13 hw, steps_succ, locked]
  simp only [steps_succ, steps_zero, stepThread, become_self]
  rfl

/-- Run without interruption on an H13, the steps of a submission are `aneSubmit`. -/
theorem alone_submit (hw : dev.hw = aneHwH13) (args : DrmAneSubmit) :
    (run exec (quiet dev) (.submit t file args ::
      List.replicate (dev.hw.barCount + 5) (.step t status))).dev =
      (aneSubmit dev file args status).1 := by
  rw [run_cons]
  by_cases rejected : submitArgsRejected args
  · have first : exec (quiet dev) (.submit t file args) = quiet dev := if_pos rejected
    have rest : steps (quiet dev) t status (dev.hw.barCount + 5) = quiet dev := steps_idle rfl _
    rw [first, aneSubmit, submitValidate, if_pos rejected]
    exact congrArg Machine.dev rest
  · let m := (quiet dev).become t (.looking ⟨file, args, fun _ => 0, fun _ => none⟩ 0)
    have first : exec (quiet dev) (.submit t file args) = m := if_neg rejected
    have looked := steps_looking (m := m) (t := t) status (become_self _ _ _)
      (Nat.zero_add m.dev.hw.barCount)
    rw [first]
    show (steps m t status (m.dev.hw.barCount + 5)).dev = _
    rw [steps_add, aneSubmit, submitValidate, if_neg rejected]
    generalize steps m t status m.dev.hw.barCount = after at looked ⊢
    have frame := submitBars_frame file args dev.hw.barCount 0 (fun _ => 0) dev
    have same : submitBars file args m.dev.hw.barCount 0 (fun _ => 0) m.dev =
      submitBars file args dev.hw.barCount 0 (fun _ => 0) dev := rfl
    simp only [same] at looked
    generalize submitBars file args dev.hw.barCount 0 (fun _ => 0) dev = bars at looked frame ⊢
    obtain ⟨rc, frame⟩ := frame
    obtain ⟨dev₁, err | bar⟩ := bars
    · obtain ⟨devs, -, idle⟩ := looked
      rw [steps_idle idle, devs]
    · obtain ⟨devs, lock, found, at_⟩ := looked
      dsimp only at devs frame at_ lock ⊢
      have last : ¬ dev.hw.barCount < dev₁.hw.barCount := by rw [frame]; exact lt_irrefl _
      have step : stepThread after t status = lookOne after t ⟨file, args, bar, found⟩ dev.hw.barCount := by
        simp only [stepThread, at_]
        rfl
      rw [steps_succ, step, lookOne, devs, if_neg last]
      cases named : dev₁.named file args.btspHandle with
      | none =>
        simp only [boLookup_none named]
        rw [steps_idle (become_self _ _ _), become_dev]
      | some btsp =>
        simp only [boLookup_some named]
        split
        · rw [steps_idle (become_self _ _ _), become_dev]
          rfl
        · have hw₁ : (dev₁.get btsp).hw = aneHwH13 := by rw [frame]; exact hw
          exact steps_locking (become_self _ _ _) lock hw₁

end Alone

end Ane.Concurrent
