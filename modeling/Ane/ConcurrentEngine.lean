import Ane.ConcurrentSubmit
import Ane.EngineRuns
import Ane.Sections

/-! The engine lock. Whatever the threads do in between, the engine goes through the
submissions one by one in the order in which they took the lock, each as `submitExecute`
alone would drive it, and no push mixes two requests. -/
namespace Ane.Concurrent
open PageTable RangeAllocator Runs TaskManager TaskManager.H13 Driver

/-- The accesses of a submission to the engine, in order. -/
def engineActions (req : AneRequest) : List (Engine → Engine) :=
  [fun e => (aneH13TmEnqueue e req).1, fun e => aneTmPushTq e req,
    fun e => tqWrite32 (aneTmHandleIrq e) (tqStatus req.qid) 0x0]

/-- The request of a thread that has the lock, and its accesses so far. -/
def Thread.locked : Thread → Option (AneRequest × Nat)
  | .enqueuing job btsp => some (job.request btsp, 0)
  | .pushing job btsp => some (job.request btsp, 1)
  | .polling job btsp => some (job.request btsp, 2)
  | _ => none

/-- The machine as an engine used in sections. -/
def sections (m : Machine) : Sections.State ThreadId Engine AneRequest where
  value := m.dev.engine
  inside := m.engineLock.bind fun t => (m.threads t).locked.map fun at_ => ⟨t, at_.1, at_.2⟩

def sectionOp (m : Machine) : ThreadOp → Sections.Op ThreadId AneRequest
  | .step t _ =>
    match m.threads t with
    | .locking job btsp => .enter t (job.request btsp)
    | .enqueuing .. => .act t
    | .pushing .. => .act t
    | .polling .. => .act t
    | _ => .other
  | _ => .other

/-- The lock is held by the thread that is at the engine, if any is. -/
structure LockOk (m : Machine) : Prop where
  owner : ∀ t, (m.threads t).locked ≠ none → m.engineLock = some t
  held : ∀ t, m.engineLock = some t → (m.threads t).locked ≠ none

/-- Nothing of the lock or the engine is touched. -/
structure Away (m m' : Machine) : Prop where
  engine : m'.dev.engine = m.dev.engine
  hw : m'.dev.hw = m.dev.hw
  lock : m'.engineLock = m.engineLock
  locked : ∀ t, (m'.threads t).locked = (m.threads t).locked

section Away
variable {m m' : Machine} {t : ThreadId}

theorem Away.refl (m : Machine) : Away m m := ⟨rfl, rfl, rfl, fun _ => rfl⟩

theorem Away.of_dev {dev : Device} (same : dev.engine = m.dev.engine ∧ dev.hw = m.dev.hw) :
    Away m { m with dev := dev } := ⟨same.1, same.2, rfl, fun _ => rfl⟩

theorem Away.become (h : Away m m') {th : Thread} (before : (m.threads t).locked = none)
    (after : th.locked = none) : Away m (m'.become t th) where
  engine := h.engine
  hw := h.hw
  lock := h.lock
  locked := by
    intro u
    by_cases same : u = t
    · subst same
      rw [become_self, after, before]
    · rw [become_other _ same]
      exact h.locked u

theorem Away.log (h : Away m m') (action : Action) (bo : AneBo) : Away m (m'.log action bo) :=
  ⟨h.engine, h.hw, h.lock, h.locked⟩

theorem Away.sections (h : Away m m') : sections m' = sections m := by
  simp only [Concurrent.sections, h.engine, h.lock, h.locked]

theorem Away.lockOk (h : Away m m') (ok : LockOk m) : LockOk m' where
  owner := by
    intro t
    rw [h.locked, h.lock]
    exact ok.owner t
  held := by
    intro t
    rw [h.locked, h.lock]
    exact ok.held t

theorem away_lookOne {job : Job} {bdx : Nat} (at_ : m.threads t = .looking job bdx) :
    Away m (lookOne m t job bdx) := by
  have outside : (m.threads t).locked = none := by rw [at_]; rfl
  have looked (handle : UInt32) : (boLookup m.dev job.file handle).2.engine = m.dev.engine ∧
      (boLookup m.dev job.file handle).2.hw = m.dev.hw := by
    unfold boLookup
    split <;> exact ⟨rfl, rfl⟩
  unfold lookOne
  split
  · split
    · have same := looked (job.args.handles bdx)
      split
      · next found =>
        rw [found] at same
        exact (Away.of_dev same).become outside rfl
      · next found =>
        rw [found] at same
        dsimp only
        split
        · exact ((Away.of_dev same).log .lookup _).become outside rfl
        · exact ((Away.of_dev same).log .lookup _).become outside rfl
    · exact (Away.refl m).become outside rfl
  · have same := looked job.args.btspHandle
    split
    · next found =>
      rw [found] at same
      exact (Away.of_dev same).become outside rfl
    · next found =>
      rw [found] at same
      dsimp only
      split
      · exact ((Away.of_dev same).log .lookup _).become outside rfl
      · exact ((Away.of_dev same).log .lookup _).become outside rfl

theorem outside_of_other {status : Status} (other : sectionOp m (.step t status) = .other) :
    (m.threads t).locked = none := by
  cases at_ : m.threads t <;> simp_all [sectionOp, Thread.locked]

theorem away_stepThread {status : Status} (other : sectionOp m (.step t status) = .other) :
    Away m (stepThread m t status) := by
  have outside := outside_of_other other
  have start := Away.refl m
  unfold stepThread
  cases at_ : m.threads t with
  | idle => exact start
  | freeing file handle bo =>
    obtain ⟨rc, deleted⟩ := drmGemHandleDelete_frame m.dev file handle
    have same : (drmGemHandleDelete m.dev file handle).engine = m.dev.engine ∧
        (drmGemHandleDelete m.dev file handle).hw = m.dev.hw := by
      rw [deleted]
      exact ⟨rfl, rfl⟩
    dsimp only
    cases m.dev.named file handle with
    | none => exact (Away.of_dev same).become outside rfl
    | some old => exact ((Away.of_dev same).log .delete old).become outside rfl
  | unmapping bo =>
    obtain ⟨iommu, nodes, unmapped⟩ := aneIommuUnmapPages_frame m.dev bo
    have same : (aneIommuUnmapPages m.dev bo).engine = m.dev.engine ∧
        (aneIommuUnmapPages m.dev bo).hw = m.dev.hw := by
      rw [unmapped]
      exact ⟨rfl, rfl⟩
    exact ((Away.of_dev same).log .unmap bo).become outside rfl
  | releasing bo => exact (start.log .release bo).become outside rfl
  | kfreeing bo =>
    have gone : Away m { m with dev := kfree m.dev bo } := .of_dev ⟨rfl, rfl⟩
    exact (gone.log .kfree bo).become outside rfl
  | publishing file bo pick =>
    dsimp only
    cases made : drmGemHandleCreate m.dev file bo pick with
    | none =>
      have same : (drmGemObjectPut m.dev bo).engine = m.dev.engine ∧
          (drmGemObjectPut m.dev bo).hw = m.dev.hw := by
        rw [drmGemObjectPut_eq]
        exact ⟨rfl, rfl⟩
      exact ((Away.of_dev same).log .publish bo).become outside rfl
    | some r =>
      obtain ⟨handle, dev⟩ := r
      obtain ⟨-, -, rfl⟩ := drmGemHandleCreate_eq_some made
      have put {dev : Device} (same : dev.engine = m.dev.engine ∧ dev.hw = m.dev.hw) :
          Away m (({ m with dev := dev }.log .publish bo).become t .idle) :=
        ((Away.of_dev same).log .publish bo).become outside rfl
      simp only [drmGemObjectPut_eq]
      exact put ⟨rfl, rfl⟩
  | looking job bdx => exact away_lookOne at_
  | _ => simp [sectionOp, at_] at other

theorem away_boFree (t : ThreadId) (file : FileId) (args : DrmAneBoFree) :
    Away m (exec m (.boFree t file args)) := by
  unfold exec
  dsimp only
  split
  · next at_ =>
    have outside : (m.threads t).locked = none := by rw [at_]; rfl
    cases named : m.dev.named file args.handle with
    | none =>
      simp only [boLookup_none named]
      exact .refl m
    | some bo =>
      have same : (m.dev.get bo).engine = m.dev.engine ∧ (m.dev.get bo).hw = m.dev.hw := ⟨rfl, rfl⟩
      have looked := (Away.of_dev same).log .lookup bo
      simp only [boLookup_some named]
      split
      · exact looked
      · exact looked.become outside rfl
  · exact .refl m

theorem away_boInit (t : ThreadId) (file : FileId) (args : DrmAneBoInit) (env : BoInitEnv) :
    Away m (exec m (.boInit t file args env)) := by
  unfold exec
  dsimp only
  split
  · next at_ =>
    have outside : (m.threads t).locked = none := by rw [at_]; rfl
    generalize made : boInitMap m.dev file args env = r
    obtain ⟨dev, none | bo⟩ := r
    · obtain ⟨rc, rfl⟩ := boInitMap_none made
      exact .of_dev ⟨rfl, rfl⟩
    · obtain ⟨rc, iommu, -, -, -, -, rfl⟩ := boInitMap_some made
      have mapped {dev : Device} (same : dev.engine = m.dev.engine ∧ dev.hw = m.dev.hw) :
          Away m ({ m with dev := dev }.become t (.publishing file bo env.handle)) :=
        (Away.of_dev same).become outside rfl
      exact mapped ⟨rfl, rfl⟩
  · exact .refl m

theorem away_submit (t : ThreadId) (file : FileId) (args : DrmAneSubmit) :
    Away m (exec m (.submit t file args)) := by
  unfold exec
  dsimp only
  split
  · next at_ =>
    have outside : (m.threads t).locked = none := by rw [at_]; rfl
    split
    · exact .refl m
    · exact (Away.refl m).become outside rfl
  · exact .refl m

end Away

section Locked
variable {m : Machine} {t : ThreadId}

theorem LockOk.threads_free (ok : LockOk m) (free : m.engineLock = none) (u : ThreadId) :
    (m.threads u).locked = none := by
  by_contra inside
  rw [ok.owner u inside] at free
  cases free

theorem LockOk.sections_inside (ok : LockOk m) {at_ : AneRequest × Nat}
    (inside : (m.threads t).locked = some at_) :
    (sections m).inside = some ⟨t, at_.1, at_.2⟩ := by
  have lock := ok.owner t (by simp [inside])
  simp [sections, lock, inside]

theorem LockOk.other_free (ok : LockOk m) {u : ThreadId} (inside : (m.threads t).locked ≠ none)
    (ne : u ≠ t) : (m.threads u).locked = none := by
  by_contra other
  have both := (ok.owner u other).symm.trans (ok.owner t inside)
  exact ne (Option.some.inj both)

/-- A thread inside goes on, or leaves and unlocks. -/
theorem LockOk.moved (ok : LockOk m) (inside : (m.threads t).locked ≠ none) {m' : Machine}
    {th : Thread} (threads : m'.threads = Function.update m.threads t th)
    (lock : m'.engineLock = if th.locked = none then none else some t) : LockOk m' where
  owner := by
    intro u
    rw [threads, lock]
    by_cases same : u = t
    · subst same
      rw [Function.update_self]
      intro still
      rw [if_neg still]
    · rw [Function.update_of_ne same, ok.other_free inside same]
      exact fun absurd_ => absurd rfl absurd_
  held := by
    intro u
    rw [threads, lock]
    split
    · intro taken
      cases taken
    · next still =>
      rintro ⟨⟩
      rwa [Function.update_self]

theorem LockOk.exec (ok : LockOk m) (op : ThreadOp) : LockOk (exec m op) := by
  cases op with
  | boFree t file args => exact (away_boFree t file args).lockOk ok
  | boInit t file args env => exact (away_boInit t file args env).lockOk ok
  | submit t file args => exact (away_submit t file args).lockOk ok
  | step t status =>
    cases at_ : m.threads t with
    | locking job btsp =>
      simp only [Concurrent.exec, stepThread, at_]
      split
      · next free =>
        have none_inside := ok.threads_free free
        refine ⟨fun u => ?_, fun u => ?_⟩
        · by_cases same : u = t
          · subst same
            exact fun _ => rfl
          · rw [become_other _ same]
            exact fun inside => absurd (none_inside u) inside
        · rintro ⟨⟩
          rw [become_self]
          exact Option.some_ne_none _
      · exact ok
    | enqueuing job btsp =>
      have inside : (m.threads t).locked ≠ none := by rw [at_]; exact Option.some_ne_none _
      have lock := ok.owner t inside
      simp only [Concurrent.exec, stepThread, at_]
      exact ok.moved inside rfl lock
    | pushing job btsp =>
      have inside : (m.threads t).locked ≠ none := by rw [at_]; exact Option.some_ne_none _
      have lock := ok.owner t inside
      simp only [Concurrent.exec, stepThread, at_]
      exact ok.moved inside rfl lock
    | polling job btsp =>
      have inside : (m.threads t).locked ≠ none := by rw [at_]; exact Option.some_ne_none _
      simp only [Concurrent.exec, stepThread, at_]
      exact ok.moved inside rfl rfl
    | _ =>
      have other : sectionOp m (.step t status) = .other := by simp only [sectionOp, at_]
      exact (away_stepThread other).lockOk ok

theorem sections_become {th : Thread} {at_ : AneRequest × Nat} (lock : m.engineLock = some t)
    (inside : th.locked = some at_) :
    sections (m.become t th) = ⟨m.dev.engine, some ⟨t, at_.1, at_.2⟩⟩ := by
  have same : (m.become t th).engineLock = some t := lock
  simp [sections, same, inside]

/-- A step of the machine is a step of the engine used in sections. -/
theorem exec_sections (ok : LockOk m) (op : ThreadOp) :
    sections (exec m op) = Sections.exec engineActions (sections m) (sectionOp m op) := by
  cases op with
  | boFree t file args => exact (away_boFree t file args).sections
  | boInit t file args env => exact (away_boInit t file args env).sections
  | submit t file args => exact (away_submit t file args).sections
  | step t status =>
    cases at_ : m.threads t with
    | locking job btsp =>
      simp only [sectionOp, at_, Sections.exec, Concurrent.exec, stepThread]
      by_cases free : m.engineLock = none
      · have inside : (sections m).inside = none := by simp [sections, free]
        rw [if_pos free, inside, sections_become rfl rfl]
        rfl
      · obtain ⟨u, lock⟩ := Option.ne_none_iff_exists'.mp free
        obtain ⟨progress, held⟩ := Option.ne_none_iff_exists'.mp (ok.held u lock)
        rw [if_neg free, ok.sections_inside held]
        rfl
    | enqueuing job btsp =>
      have held : (m.threads t).locked = some (job.request btsp, 0) := by rw [at_]; rfl
      have lock := ok.owner t (by simp [held])
      simp only [sectionOp, at_, Sections.exec, ok.sections_inside held, Concurrent.exec, stepThread]
      have next : (Thread.pushing job btsp).locked = some (job.request btsp, 1) := rfl
      rw [if_pos trivial]
      refine (sections_become ?_ next).trans rfl
      exact lock
    | pushing job btsp =>
      have held : (m.threads t).locked = some (job.request btsp, 1) := by rw [at_]; rfl
      have lock := ok.owner t (by simp [held])
      simp only [sectionOp, at_, Sections.exec, ok.sections_inside held, Concurrent.exec, stepThread]
      have next : (Thread.polling job btsp).locked = some (job.request btsp, 2) := rfl
      rw [if_pos trivial]
      refine (sections_become ?_ next).trans rfl
      exact lock
    | polling job btsp =>
      have held : (m.threads t).locked = some (job.request btsp, 2) := by rw [at_]; rfl
      simp only [sectionOp, at_, Sections.exec, ok.sections_inside held, Concurrent.exec, stepThread]
      rw [if_pos trivial]
      rfl
    | _ =>
      have other : sectionOp m (.step t status) = .other := by simp only [sectionOp, at_]
      rw [other]
      exact (away_stepThread other).sections

end Locked

/-- The request whose last access to the engine this is. -/
def completion (m : Machine) : ThreadOp → List AneRequest
  | .step t _ =>
    match m.threads t with
    | .polling job btsp => [job.request btsp]
    | _ => []
  | _ => []

/-- The requests seen to their end in a run, in order. -/
def completions : Machine → List ThreadOp → List AneRequest
  | _, [] => []
  | m, op :: ops => completion m op ++ completions (exec m op) ops

/-- The engine after requests executed one by one. -/
def executedInTurn (dev : Device) (reqs : List AneRequest) : Engine :=
  (reqs.foldl (fun dev req => (submitExecute dev req (.ok ())).1) dev).engine

section Serial
variable {m : Machine} {t : ThreadId} {dev : Device}

theorem completes_sections (ok : LockOk m) (op : ThreadOp) :
    Sections.completes engineActions (sections m) (sectionOp m op) = completion m op := by
  cases op with
  | step t status =>
    cases at_ : m.threads t with
    | enqueuing job btsp =>
      have held : (m.threads t).locked = some (job.request btsp, 0) := by rw [at_]; rfl
      simp [sectionOp, completion, at_, Sections.completes, ok.sections_inside held, engineActions]
    | pushing job btsp =>
      have held : (m.threads t).locked = some (job.request btsp, 1) := by rw [at_]; rfl
      simp [sectionOp, completion, at_, Sections.completes, ok.sections_inside held, engineActions]
    | polling job btsp =>
      have held : (m.threads t).locked = some (job.request btsp, 2) := by rw [at_]; rfl
      simp [sectionOp, completion, at_, Sections.completes, ok.sections_inside held, engineActions]
    | _ => simp only [sectionOp, completion, at_, Sections.completes]
  | _ => rfl

theorem completed_sections (ok : LockOk m) (ops : List ThreadOp) :
    Sections.completed engineActions (sections m) (labels exec sectionOp m ops) =
      completions m ops := by
  induction ops generalizing m with
  | nil => rfl
  | cons op ops ih =>
    rw [labels, Sections.completed, completes_sections ok, ← exec_sections ok, ih (ok.exec op)]
    rfl

theorem executedInTurn_eq (hw : dev.hw = aneHwH13) (reqs : List AneRequest) :
    executedInTurn dev reqs = Sections.serial engineActions reqs dev.engine := by
  induction reqs generalizing dev with
  | nil => rfl
  | cons req reqs ih =>
    have next := submitExecute_h13 hw req (.ok ())
    rw [executedInTurn, List.foldl_cons, next]
    exact ih hw

theorem lockOk_quiet (dev : Device) : LockOk (quiet dev) where
  owner := fun _ inside => absurd rfl inside
  held := by
    intro t lock
    cases lock

theorem LockOk.run (ok : LockOk m) (ops : List ThreadOp) : LockOk (Runs.run Concurrent.exec m ops) :=
  run_invariant (fun _ op ok => ok.exec op) ok ops

theorem engineActions_ne_nil (req : AneRequest) : engineActions req ≠ [] := List.cons_ne_nil _ _

/-- The run as sections, one after another. -/
theorem run_sections (dev : Device) (ops : List ThreadOp) :
    Sections.Serial engineActions dev.engine (completions (quiet dev) ops)
      (sections (run exec (quiet dev) ops)) := by
  have ok := lockOk_quiet dev
  have same : sections (run exec (quiet dev) ops) = run (Sections.exec engineActions)
      (sections (quiet dev)) (labels exec sectionOp (quiet dev) ops) :=
    run_labels (fun _ op ok => ok.exec op) (fun _ op ok => exec_sections ok op) ok ops
  have begin_ : Sections.Serial engineActions dev.engine [] (sections (quiet dev)) :=
    ⟨rfl, fun i inside => by cases inside⟩
  rw [same, ← completed_sections ok]
  exact Sections.run_serial engineActions_ne_nil begin_ _

/-- Whatever the interleaving, at most one thread is at the engine, and the engine is as if
the requests completed so far had been executed one by one and the one of that thread as far
as it has come. -/
theorem engine_serialized (regs : RegFile) (history : List Op) (ops : List ThreadOp) :
    let start := quiet (run Driver.exec (probed aneHwH13 regs) history)
    let m := run exec start ops
    let done := executedInTurn start.dev (completions start ops)
    (∀ t u, (m.threads t).locked ≠ none → (m.threads u).locked ≠ none → t = u) ∧
      (m.engineLock = none → m.dev.engine = done) ∧
      ∀ t job btsp,
        (m.threads t = .enqueuing job btsp → m.dev.engine = done) ∧
        (m.threads t = .pushing job btsp →
          m.dev.engine = (aneH13TmEnqueue done (job.request btsp)).1) ∧
        (m.threads t = .polling job btsp →
          m.dev.engine =
            aneTmPushTq (aneH13TmEnqueue done (job.request btsp)).1 (job.request btsp)) := by
  intro start m done
  have ok : LockOk m := (lockOk_quiet _).run ops
  have value := (run_sections (run Driver.exec (probed aneHwH13 regs) history) ops).value
  rw [Sections.State.expected, ← executedInTurn_eq (run_hw aneHwH13 regs history)] at value
  refine ⟨?_, ?_, fun t job btsp => ⟨?_, ?_, ?_⟩⟩
  · intro t u first second
    exact Option.some.inj ((ok.owner t first).symm.trans (ok.owner u second))
  · intro free
    have outside : (sections m).inside = none := by simp [sections, free]
    rw [outside] at value
    exact value
  · intro at_
    have held : (m.threads t).locked = some (job.request btsp, 0) := by rw [at_]; rfl
    rw [ok.sections_inside held] at value
    exact value
  · intro at_
    have held : (m.threads t).locked = some (job.request btsp, 1) := by rw [at_]; rfl
    rw [ok.sections_inside held] at value
    exact value
  · intro at_
    have held : (m.threads t).locked = some (job.request btsp, 2) := by rw [at_]; rfl
    rw [ok.sections_inside held] at value
    exact value

end Serial

/-- The request pushed and not yet seen to its end. -/
def atWork (m : Machine) : List AneRequest :=
  match m.engineLock with
  | none => []
  | some t =>
    match m.threads t with
    | .polling job btsp => [job.request btsp]
    | _ => []

section Given
variable {reqs : List AneRequest}

theorem given_executedInTurn {dev : Device} (hw : dev.hw = aneHwH13)
    (qids : ∀ req ∈ reqs, req.qid = 4) :
    Given dev.engine reqs (executedInTurn dev reqs) := by
  have serial (reqs : List AneRequest) := executedInTurn_eq hw reqs
  induction reqs using List.reverseRecOn with
  | nil => exact .refl _
  | append_singleton reqs req ih =>
    have before := ih fun req mem => qids req (List.mem_append_left _ mem)
    rw [serial, Sections.serial_append, ← serial]
    exact before.submitted (qids req (by simp)) (.ok ())

end Given

theorem completions_qid (m : Machine) (ops : List ThreadOp) :
    ∀ req ∈ completions m ops, req.qid = 4 := by
  induction ops generalizing m with
  | nil => simp [completions]
  | cons op ops ih =>
    intro req mem
    obtain here | later := List.mem_append.mp mem
    · cases op with
      | step t status =>
        simp only [completion] at here
        split at here
        · obtain rfl := List.mem_singleton.mp here
          rfl
        · cases here
      | _ => cases here
    · exact ih _ req later

/-- In every interleaving the pushes are those of the requests that took the lock, one each and
in that order, and every push shows the engine one request alone. -/
theorem pushes_shown (regs : RegFile) (history : List Op) (ops : List ThreadOp) :
    let start := quiet (run Driver.exec (probed aneHwH13 regs) history)
    let m := run exec start ops
    ∃ snaps, m.dev.engine.pushes = snaps ++ start.dev.engine.pushes ∧
      List.Forall₂ (Shown start.dev.engine) (completions start ops ++ atWork m).reverse snaps := by
  intro start m
  have ok : LockOk m := (lockOk_quiet _).run ops
  have value := (run_sections (run Driver.exec (probed aneHwH13 regs) history) ops).value
  have hw := run_hw aneHwH13 regs history
  rw [Sections.State.expected, ← executedInTurn_eq hw] at value
  have given := given_executedInTurn hw (completions_qid start ops)
  cases lock : m.engineLock with
  | none =>
    have outside : (sections m).inside = none := by simp [sections, lock]
    rw [outside] at value
    rw [atWork, lock, List.append_nil, show m.dev.engine = _ from value]
    exact given.pushes
  | some t =>
    cases at_ : m.threads t with
    | enqueuing job btsp =>
      have held : (m.threads t).locked = some (job.request btsp, 0) := by rw [at_]; rfl
      rw [ok.sections_inside held] at value
      simp only [atWork, lock, at_, List.append_nil]
      rw [show m.dev.engine = _ from value]
      exact given.pushes
    | pushing job btsp =>
      have held : (m.threads t).locked = some (job.request btsp, 1) := by rw [at_]; rfl
      rw [ok.sections_inside held] at value
      simp only [atWork, lock, at_, List.append_nil]
      rw [show m.dev.engine = _ from value]
      exact (given.enqueued rfl).pushes
    | polling job btsp =>
      have held : (m.threads t).locked = some (job.request btsp, 2) := by rw [at_]; rfl
      rw [ok.sections_inside held] at value
      simp only [atWork, lock, at_]
      rw [show m.dev.engine = _ from value]
      exact (given.pushed rfl).pushes
    | _ =>
      have inside := ok.held t lock
      rw [at_] at inside
      exact absurd rfl inside

end Ane.Concurrent
