import Ane.Launch

/-! What an engine has been given in a history: one push for each submission accepted, in
order, that shows its request and nothing else. On an H14 the buffers of a request never
reach the engine. -/
namespace Ane.Driver
open PageTable RangeAllocator Runs TaskManager

/-- The request of a submission that passes every check. -/
def accepted (dev : Device) : Op → List AneRequest
  | .ioctl file wake (.submit args _) =>
    let (woken, err) := pmRuntimeResumeAndGet dev wake
    if file ∈ dev.files ∧ wakeFailed err = false then
      match (submitValidate woken file args).2 with
      | .ok req => [req]
      | .error _ => []
    else []
  | _ => []

/-- The requests accepted in a history, in order. -/
def requests : Device → List Op → List AneRequest
  | _, [] => []
  | dev, op :: ops => accepted dev op ++ requests (exec dev op) ops

/-- What an operation does to the engine, by the requests it gets accepted. -/
inductive Executed (dev : Device) (e : Engine) : List AneRequest → Prop
  | same (eq : e = dev.engine) : Executed dev e []
  | enabled (eq : e = dev.hw.tmEnable dev.engine) : Executed dev e []
  | submitted {req : AneRequest} (status : Status) (qid : req.qid = 4)
      (eq : e = (submitExecute dev req status).1.engine) : Executed dev e [req]

theorem aneSubmit_executed (dev : Device) (pm : Int) (file : FileId) (args : DrmAneSubmit)
    (status : Status) :
    Executed dev (aneSubmit { dev with pmUsage := pm } file args status).1.engine
      (match (submitValidate { dev with pmUsage := pm } file args).2 with
        | .ok req => [req]
        | .error _ => []) := by
  unfold aneSubmit
  obtain ⟨rc, err, failed⟩ | ⟨rc, bar, btsp, -, passed⟩ :=
    submitValidate_cases { dev with pmUsage := pm } file args
  · rw [failed]
    exact .same rfl
  · rw [passed]
    have engine := submitExecute_engine dev { dev with pmUsage := pm, refcount := rc } rfl rfl
      (submitRequest args bar btsp) status
    exact .submitted status rfl engine

theorem exec_executed {dev : Device} (inv : Inv dev) (op : Op) :
    Executed dev (exec dev op).engine (accepted dev op) := by
  have step := exec_engine inv op
  cases op with
  | ioctl file wake call =>
    cases call with
    | submit args status =>
      simp only [exec, accepted]
      by_cases client : file ∈ dev.files
      · simp only [client, if_true, true_and]
        cases wake with
        | ok _ => exact aneSubmit_executed dev _ file args status
        | error err =>
          by_cases failed : wakeFailed (.error err) = true
          · simp only [aneDrmUnlockedIoctl, pmRuntimeResumeAndGet, failed, if_true,
              Bool.true_eq_false, if_false]
            exact .same rfl
          · simp only [aneDrmUnlockedIoctl, pmRuntimeResumeAndGet, failed, if_true]
            exact aneSubmit_executed dev dev.pmUsage file args status
      · simp only [client, if_false, false_and]
        exact .same rfl
    | _ =>
      generalize (exec dev _).engine = e at step ⊢
      cases step with
      | same => exact .same rfl
  | runtimeResume => exact .enabled rfl
  | _ =>
    generalize (exec dev _).engine = e at step ⊢
    cases step with
    | same => exact .same rfl

section H13
open H13

/-- What the engine sees at the push of a request: its queue and its launch registers hold
this request and nothing of another, the other queues are as they were at the start. -/
structure Shown (e : Engine) (req : AneRequest) (snap : RegFile) : Prop where
  queue : ∀ off < 0x148,
    snap (queueReg 4 off) = queueImage (fun off => e.regs (queueReg 4 off)) req off
  others : ∀ q < aneTqCount, q ≠ 4 → ∀ off < 0x148,
    snap (queueReg q off) = e.regs (queueReg q off)
  tmAddr : snap (aneTmBase + tmAddr) = lower32Bits req.btspIova
  tmInfo : snap (aneTmBase + tmInfo) = launchWord req.tdSize req.tdCount

/-- An engine that has been given the requests `reqs` in turn. -/
structure Given (e : Engine) (reqs : List AneRequest) (e' : Engine) : Prop where
  pushes : ∃ snaps, e'.pushes = snaps ++ e.pushes ∧ List.Forall₂ (Shown e) reqs.reverse snaps
  unowned : ∀ off < 0x148, ¬ Owned off → e'.regs (queueReg 4 off) = e.regs (queueReg 4 off)
  others : ∀ q < aneTqCount, q ≠ 4 → ∀ off < 0x148,
    e'.regs (queueReg q off) = e.regs (queueReg q off)

section Given
variable {e e' : Engine} {reqs : List AneRequest} {req : AneRequest}

theorem Given.refl (e : Engine) : Given e [] e :=
  ⟨⟨[], rfl, .nil⟩, fun _ _ _ => rfl, fun _ _ _ _ _ => rfl⟩

theorem Given.enqueued (h : Given e reqs e') (qid : req.qid = 4) :
    Given e reqs (aneH13TmEnqueue e' req).1 where
  pushes := by
    rw [aneH13TmEnqueue_pushes]
    exact h.pushes
  unowned := by
    intro off block other
    have image := aneH13TmEnqueue_queue e' req block
    rw [qid, queueImage_other _ req other] at image
    rw [image]
    exact h.unowned off block other
  others := by
    intro q count other off block
    have away := not_inQueue other block
    rw [← qid] at away
    rw [aneH13TmEnqueue_other e' req away]
    exact h.others q count other off block

theorem aneTmPushTq_pushes (e : Engine) (req : AneRequest) :
    (aneTmPushTq e req).pushes = (aneTmPushTq e req).regs :: e.pushes := by
  simp only [aneTmPushTq, Engine.pushed, tmWrite32, Engine.writel_pushes]

theorem Given.pushed (h : Given e reqs e') (qid : req.qid = 4) :
    Given e (reqs ++ [req]) (aneTmPushTq (aneH13TmEnqueue e' req).1 req) where
  pushes := by
    obtain ⟨snaps, eq, shown⟩ := h.pushes
    refine ⟨pushImage e' req :: snaps, ?_, ?_⟩
    · rw [aneTmPushTq_pushes, aneH13TmEnqueue_pushes, eq, pushImage, List.cons_append]
    · rw [List.reverse_append]
      refine .cons ⟨?_, ?_, ?_, aneTmPushTq_tmInfo e' req⟩ shown
      · intro off block
        rw [pushImage_queue e' qid block]
        by_cases owned : Owned off
        · exact queueImage_owned _ _ req owned
        · rw [queueImage_other _ req owned, queueImage_other _ req owned]
          exact h.unowned off block owned
      · intro q count other off block
        rw [pushImage_other e' qid other block]
        exact h.others q count other off block
      · rw [pushImage, aneTmPushTq_tmAddr, aneH13TmEnqueue_queue e' req (by decide)]
        rfl
  unowned := by
    intro off block other
    rw [aneTmPushTq_queue]
    exact (h.enqueued qid).unowned off block other
  others := by
    intro q count other off block
    rw [aneTmPushTq_queue]
    exact (h.enqueued qid).others q count other off block

theorem Given.submitted (h : Given e reqs e') (qid : req.qid = 4) (status : Status) :
    Given e (reqs ++ [req]) (h13Submitted e' req status) where
  pushes := by
    rw [h13Submitted_pushes]
    have pushed := (h.pushed qid).pushes
    rwa [aneTmPushTq_pushes, aneH13TmEnqueue_pushes] at pushed
  unowned := by
    intro off block other
    have nonzero : off ≠ 0x000 := fun zero => other (.inl zero)
    rw [h13Submitted, aneH13TmExecute_queue _ req status block, if_neg (fun here => nonzero here.2)]
    exact (h.enqueued qid).unowned off block other
  others := by
    intro q count other off block
    rw [h13Submitted_other e' status qid other block]
    exact h.others q count other off block

theorem Given.enabled (h : Given e reqs e')
    (prty : ∀ q < aneTqCount, e.regs (queueReg q 0x010) = tqPrtyTable.getD q 0) :
    Given e reqs (aneH13TmEnable e') where
  pushes := by
    rw [aneH13TmEnable_pushes]
    exact h.pushes
  unowned := by
    intro off block other
    rw [aneH13TmEnable_queue e' (by decide) block]
    split
    · next here =>
      rw [here]
      exact (prty 4 (by decide)).symm
    · exact h.unowned off block other
  others := by
    intro q count other off block
    rw [aneH13TmEnable_queue e' count block]
    split
    · next here =>
      rw [here]
      exact (prty q count).symm
    · exact h.others q count other off block

theorem Given.run {dev : Device} (inv : Inv dev) (hw : dev.hw = aneHwH13)
    (prty : ∀ q < aneTqCount, e.regs (queueReg q 0x010) = tqPrtyTable.getD q 0)
    (h : Given e reqs dev.engine) (ops : List Op) :
    Given e (reqs ++ requests dev ops) (Runs.run exec dev ops).engine := by
  induction ops generalizing dev reqs with
  | nil => rwa [requests, List.append_nil]
  | cons op ops ih =>
    rw [requests, ← List.append_assoc]
    refine ih (inv.exec op) ((exec_hw inv op).trans hw) ?_
    have executed := exec_executed inv op
    generalize accepted dev op = new at executed ⊢
    cases executed with
    | same eq => rwa [eq, List.append_nil]
    | enabled eq =>
      rw [eq, hw, List.append_nil]
      exact h.enabled prty
    | submitted status qid eq =>
      rw [eq, submitExecute_h13 hw]
      exact h.submitted qid status

end Given

/-- On an H13 every accepted submission is pushed once, in the order of the history, and the
engine sees its request alone. -/
theorem h13_pushes_requests (regs : RegFile) (ops : List Op) :
    let start := probed aneHwH13 regs
    List.Forall₂ (Shown start.engine) (requests start ops).reverse
      (run exec start ops).engine.pushes := by
  intro start
  have prty (q : Nat) (count : q < aneTqCount) :
      start.engine.regs (queueReg q 0x010) = tqPrtyTable.getD q 0 :=
    aneH13TmEnable_queue ⟨regs, []⟩ count (by decide : 0x010 < 0x148)
  obtain ⟨snaps, eq, shown⟩ :=
    ((Given.refl start.engine).run (inv_probed aneHwH13 regs) rfl prty ops).pushes
  have none_before : start.engine.pushes = [] := aneH13TmEnable_pushes ⟨regs, []⟩
  rwa [eq, none_before, List.append_nil]

end H13

end Ane.Driver
