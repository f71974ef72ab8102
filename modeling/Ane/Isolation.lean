import Ane.Mapping
import Ane.QueueRegisters
import Mathlib.Data.List.Induction

/-! What an H13 engine has been given at each push: the registers of queue 4 are a
function of the request that is pushed, no address of it is cut, and the registers
of the other queues are left alone. -/
namespace Ane.Driver
open PageTable RangeAllocator Runs TaskManager TaskManager.H13

/-- The offsets of a queue that a request writes. -/
def Owned (off : Nat) : Prop :=
  off = 0x000 ∨ (0x020 ≤ off ∧ off < 0x0a0 ∧ off % 4 = 0) ∨ off = 0x0a0 ∨ off = 0x130 ∨ off = 0x134

theorem queueImage_owned (old old' : Nat → UInt32) (req : AneRequest) {off : Nat} (h : Owned off) :
    queueImage old req off = queueImage old' req off := by
  rcases h with rfl | bar | rfl | rfl | rfl
  · rfl
  · have apart : off ≠ 0x000 := by omega
    simp only [queueImage, apart, bar, and_self, if_true, if_false]
  · rfl
  · rfl
  · rfl

theorem queueImage_other (old : Nat → UInt32) (req : AneRequest) {off : Nat} (h : ¬ Owned off) :
    queueImage old req off = old off := by
  simp only [Owned, not_or] at h
  obtain ⟨status, bar, nid, size, addr⟩ := h
  simp only [queueImage, status, bar, nid, size, addr, if_false]

theorem queueImage_bar (old : Nat → UInt32) (req : AneRequest) {b : Nat} (hb : b < 0x20) :
    queueImage old req (0x020 + b * 4) = lower32Bits (req.bar b) := by
  have here : (0x020 + b * 4 - 0x020) / 4 = b := by omega
  rw [queueImage, if_neg (by omega), if_pos (by omega), here]

/-- The request a submission stands for, its addresses over the naturals. -/
structure Requested (dev : Device) (file : FileId) (args : DrmAneSubmit) (req : AneRequest) :
    Prop where
  qid : req.qid = 4
  nid : req.nid = 0x40
  td : req.tdSize = args.tdSize ∧ req.tdCount = args.tdCount
  unused : ∀ b < 0x20, b ≠ 1 → args.handles b = 0 → (req.bar b).toNat = 0
  used : ∀ b < 0x20, b ≠ 1 → args.handles b ≠ 0 →
    ∃ bo, dev.named file (args.handles b) = some bo ∧ (req.bar b).toNat = bo.iova.toNat
  krn : ∃ cmd, dev.named file (args.handles 0) = some cmd ∧
    (req.bar 1).toNat = cmd.iova.toNat + (args.tskSize.toNat + 15) / 16 * 16
  btsp : ∃ bo, dev.named file args.btspHandle = some bo ∧ req.btspIova.toNat = bo.iova.toNat
  bars_low : ∀ b < 0x20, (req.bar b).toNat < 2 ^ 32
  btsp_low : req.btspIova.toNat < 2 ^ 32

theorem lower32Bits_toNat {x : UInt64} (h : x.toNat < 2 ^ 32) : (lower32Bits x).toNat = x.toNat := by
  rw [lower32Bits, UInt64.toNat_toUInt32, Nat.mod_eq_of_lt h]

theorem low_of_iovaRejected {hw : AneHw} {bo : AneBo} (old : hw.id.num ≤ DrmAneId.H13.num)
    (h : ¬ iovaRejected hw bo) : bo.iova.toNat < 2 ^ 32 := by
  have zero : upper32Bits bo.iova = 0 := by
    by_contra high
    exact h ⟨old, high⟩
  have high : (bo.iova >>> 32).toNat = bo.iova.toNat / 2 ^ 32 := by
    rw [UInt64.toNat_shiftRight, Nat.shiftRight_eq_div_pow]
    rfl
  have value := congrArg UInt32.toNat zero
  rw [upper32Bits, UInt64.toNat_toUInt32, high, UInt32.toNat_zero] at value
  have bound := bo.iova.toNat_lt
  omega

section Validation
variable {dev : Device} {file : FileId} {args : DrmAneSubmit} {bar : Nat → UInt64} {btsp : AneBo}

/-- The weights lie behind the microcode and no later than the end of its buffer, so
that neither the rounding nor the sum wraps. -/
theorem krnBar_toNat (inv : Inv dev) {cmd : AneBo} (alive : cmd ∈ dev.bos)
    (accepted : ¬ barRejected dev.hw args 0 cmd) :
    (roundUp args.tskSize aneCmdGran).toNat = (args.tskSize.toNat + 15) / 16 * 16 ∧
      (cmd.iova + roundUp args.tskSize aneCmdGran).toNat =
        cmd.iova.toNat + (args.tskSize.toNat + 15) / 16 * 16 ∧
      cmd.iova.toNat + (args.tskSize.toNat + 15) / 16 * 16 ≤
        cmd.iova.toNat + cmd.npages.toNat * 2 ^ 14 := by
  have ok := inv.bosOk.ok cmd alive
  have fits : args.tskSize.toNat < cmd.npages.toNat * 2 ^ 14 := by
    rw [← ok.node_size]
    by_contra large
    exact accepted (.inl (.inr ⟨rfl, UInt64.le_iff_toNat_le.mpr (Nat.le_of_not_lt large)⟩))
  have last := ok.last
  have pages := ok.npages_lt
  have window := dev.mm.window
  unfold Allocator.stop at last
  have rounded : (roundUp args.tskSize aneCmdGran).toNat = (args.tskSize.toNat + 15) / 16 * 16 := by
    rw [roundUp_toNat (k := 4) (by decide) rfl]
    exact Nat.mod_eq_of_lt (by omega)
  refine ⟨rounded, ?_, by omega⟩
  rw [UInt64.toNat_add, rounded]
  exact Nat.mod_eq_of_lt (by omega)

theorem Validated.requested (h : Validated dev file args bar btsp) (inv : Inv dev)
    (hw : dev.hw = aneHwH13) : Requested dev file args (submitRequest args bar btsp) := by
  have count : dev.hw.barCount = 0x20 := by rw [hw]; rfl
  have old : dev.hw.id.num ≤ DrmAneId.H13.num := by rw [hw]; decide
  have cmd_used : args.handles 0 ≠ 0 := fun zero =>
    h.accepted (.inr (.inr (.inr (.inr (.inl zero)))))
  have at_ (b : Nat) (hb : b < 0x20) := h.bars b (by omega)
  have other (b : Nat) (hb : b ≠ 1) : withKrnBar args bar b = bar b := Function.update_of_ne hb _ _
  obtain ⟨cmd, named, accepted, iova⟩ := by
    have := at_ 0 (by decide)
    rwa [BarOf, if_neg cmd_used] at this
  have weights : withKrnBar args bar 1 = cmd.iova + roundUp args.tskSize aneCmdGran := by
    rw [withKrnBar, krnBufBdx, Function.update_self, cmdBufBdx, iova]
  have alive := inv.handlesOk.named_mem named
  obtain ⟨-, krn, below⟩ := krnBar_toNat inv alive accepted
  have low : cmd.iova.toNat + (args.tskSize.toNat + 15) / 16 * 16 < 2 ^ 32 := by
    have last := (inv.bosOk.ok cmd alive).last
    rw [inv.bosOk.stop_h13 hw] at last
    omega
  refine ⟨rfl, rfl, ⟨rfl, rfl⟩, ?_, ?_, ?_, ⟨btsp, h.named, rfl⟩, ?_, ?_⟩
  · intro b hb ne zero
    have := at_ b hb
    rw [BarOf, if_pos zero] at this
    simp only [submitRequest, other b ne, this, UInt64.toNat_zero]
  · intro b hb ne used
    have := at_ b hb
    rw [BarOf, if_neg used] at this
    obtain ⟨bo, named, -, iova⟩ := this
    exact ⟨bo, named, by simp only [submitRequest, other b ne, iova]⟩
  · exact ⟨cmd, named, by simp only [submitRequest, weights, krn]⟩
  · intro b hb
    by_cases one : b = 1
    · subst one
      simp only [submitRequest, weights, krn]
      exact low
    · simp only [submitRequest, other b one]
      have := at_ b hb
      unfold BarOf at this
      split at this
      · simp [this]
      · obtain ⟨bo, -, accepted, iova⟩ := this
        rw [iova]
        exact low_of_iovaRejected old fun high => accepted (.inr high)
  · exact low_of_iovaRejected old h.low

end Validation

/-- How one operation reaches the engine. -/
inductive EngineStep (dev : Device) : Op → Engine → Prop
  | same (op : Op) : EngineStep dev op dev.engine
  | enabled : EngineStep dev .runtimeResume (dev.hw.tmEnable dev.engine)
  | submitted {file : FileId} {wake : Wake} {args : DrmAneSubmit} {status : Status}
      {bar : Nat → UInt64} {btsp : AneBo} (valid : Validated dev file args bar btsp) :
      EngineStep dev (.ioctl file wake (.submit args status))
        (submitExecute dev (submitRequest args bar btsp) status).1.engine

theorem submitExecute_engine (dev dev' : Device) (hw : dev'.hw = dev.hw)
    (engine : dev'.engine = dev.engine) (req : AneRequest) (status : Status) :
    (submitExecute dev' req status).1.engine = (submitExecute dev req status).1.engine := by
  unfold submitExecute
  rw [hw, engine]
  split <;> rfl

theorem drmIoctl_engine {dev : Device} (inv : Inv dev) (pm : Int) (file : FileId) (wake : Wake)
    (call : Ioctl) :
    EngineStep dev (.ioctl file wake call) (drmIoctl { dev with pmUsage := pm } file call).1.engine := by
  have change := drmIoctl_cases { dev with pmUsage := pm } inv.nodes file call
  cases call with
  | submit args status =>
    simp only [drmIoctl]
    obtain ⟨rc, err, rejected⟩ | ⟨rc, bar, btsp, valid, executed⟩ :=
      aneSubmit_cases { dev with pmUsage := pm } file args status
    · rw [rejected]
      exact .same _
    · have engine := submitExecute_engine dev { dev with pmUsage := pm, refcount := rc } rfl rfl
        (submitRequest args bar btsp) status
      rw [executed, engine]
      exact .submitted ⟨valid.accepted, valid.bars, valid.named, valid.low⟩
  | _ =>
    -- only a submission reaches the engine
    generalize (drmIoctl { dev with pmUsage := pm } file _).1 = dev₁ at change ⊢
    cases change <;> exact .same _

theorem exec_engine {dev : Device} (inv : Inv dev) (op : Op) :
    EngineStep dev op (exec dev op).engine := by
  cases op with
  | openFile wake =>
    have kept : (exec dev (.openFile wake)).engine = dev.engine := by
      cases wake with
      | ok _ => rfl
      | error err =>
        simp only [exec, drmOpen_error]
        rfl
    rw [kept]
    exact .same _
  | ioctl file wake call =>
    simp only [exec]
    split
    · cases wake with
      | ok _ => exact drmIoctl_engine inv _ file _ call
      | error err =>
        by_cases failed : wakeFailed (.error err) = true
        · simp only [aneDrmUnlockedIoctl, pmRuntimeResumeAndGet, failed, if_true]
          exact .same _
        · simp only [aneDrmUnlockedIoctl, pmRuntimeResumeAndGet, failed]
          exact drmIoctl_engine inv dev.pmUsage file _ call
    · exact .same _
  | close file wake =>
    simp only [exec]
    split
    · obtain ⟨rc, pm, done⟩ := drmRelease_frame dev file wake
      rw [done]
      exact .same _
    · exact .same _
  | runtimeResume => exact .enabled

/-- What the engine sees of a request at its push. -/
structure Programmed (rest : Nat → UInt32) (req : AneRequest) (snap : RegFile) : Prop where
  owned : ∀ off < 0x148, Owned off → snap (queueReg 4 off) = queueImage (fun _ => 0) req off
  unowned : ∀ off < 0x148, ¬ Owned off → snap (queueReg 4 off) = rest off
  bars : ∀ b < 0x20, (snap (aneTqBase + tqBar1 4 b)).toNat = (req.bar b).toNat
  addr : (snap (aneTqBase + tqAddr1 4)).toNat = req.btspIova.toNat
  tmAddr : (snap (aneTmBase + tmAddr)).toNat = req.btspIova.toNat
  nid : snap (aneTqBase + tqNid1 4) = ((0x40 : UInt32) <<< 8) ||| 1

/-- The registers of queue 4 that no request writes hold `rest`. -/
def Rest (rest : Nat → UInt32) (dev : Device) : Prop :=
  ∀ off < 0x148, ¬ Owned off → dev.engine.regs (queueReg 4 off) = rest off

section Push
variable {dev : Device} {rest : Nat → UInt32} {req : AneRequest}

/-- The register file at the push of a request. -/
def pushImage (e : Engine) (req : AneRequest) : RegFile :=
  (aneTmPushTq (aneH13TmEnqueue e req).1 req).regs

theorem h13Submitted_pushes (e : Engine) (req : AneRequest) (status : Status) :
    (h13Submitted e req status).pushes = pushImage e req :: e.pushes := by
  rw [h13Submitted, aneH13TmExecute_pushes, aneH13TmEnqueue_pushes]
  rfl

theorem pushImage_queue (e : Engine) {req : AneRequest} (qid : req.qid = 4) {off : Nat}
    (block : off < 0x148) :
    pushImage e req (queueReg 4 off) = queueImage (fun off => e.regs (queueReg 4 off)) req off := by
  rw [pushImage, aneTmPushTq_queue, ← qid, aneH13TmEnqueue_queue e req block]

theorem not_inQueue {qid off : Nat} (other : qid ≠ 4) (block : off < 0x148) :
    ¬ InQueue 4 (queueReg qid off) := by
  rintro ⟨off', block', same⟩
  exact other ((queueReg_inj_of_lt block block').mp same).1

theorem pushImage_other (e : Engine) {req : AneRequest} (qid : req.qid = 4) {q off : Nat}
    (other : q ≠ 4) (block : off < 0x148) :
    pushImage e req (queueReg q off) = e.regs (queueReg q off) := by
  rw [pushImage, aneTmPushTq_queue]
  apply aneH13TmEnqueue_other
  rw [qid]
  exact not_inQueue other block

theorem h13Submitted_other (e : Engine) {req : AneRequest} (status : Status) (qid : req.qid = 4)
    {q off : Nat} (other : q ≠ 4) (block : off < 0x148) :
    (h13Submitted e req status).regs (queueReg q off) = e.regs (queueReg q off) := by
  rw [h13Submitted, aneH13TmExecute_queue _ req status block,
    if_neg (fun here => other (here.1.trans qid))]
  apply aneH13TmEnqueue_other
  rw [qid]
  exact not_inQueue other block

theorem Rest.submitted (h : Rest rest dev) (status : Status) (qid : req.qid = 4) {off : Nat}
    (block : off < 0x148) (unowned : ¬ Owned off) :
    (h13Submitted dev.engine req status).regs (queueReg 4 off) = rest off := by
  have apart : ¬ (4 = req.qid ∧ off = 0x000) := fun here => unowned (.inl here.2)
  rw [h13Submitted, aneH13TmExecute_queue _ req status block, if_neg apart, ← qid,
    aneH13TmEnqueue_queue dev.engine req block, queueImage_other _ req unowned, qid]
  exact h off block unowned

theorem Rest.programmed (h : Rest rest dev) {file : FileId} {args : DrmAneSubmit}
    (asked : Requested dev file args req) : Programmed rest req (pushImage dev.engine req) := by
  have image {off : Nat} (block : off < 0x148) := pushImage_queue dev.engine asked.qid block
  have addr : pushImage dev.engine req (queueReg 4 0x134) = lower32Bits req.btspIova :=
    image (by decide)
  refine ⟨?_, ?_, ?_, ?_, ?_, ?_⟩
  · intro off block owned
    rw [image block]
    exact queueImage_owned _ _ req owned
  · intro off block unowned
    rw [image block, queueImage_other _ req unowned]
    exact h off block unowned
  · intro b hb
    have here : aneTqBase + tqBar1 4 b = queueReg 4 (0x020 + b * 4) := by
      unfold tqBar1 queueReg
      omega
    rw [here, image (by omega), queueImage_bar _ req hb, lower32Bits_toNat (asked.bars_low b hb)]
  · show (pushImage dev.engine req (queueReg 4 0x134)).toNat = _
    rw [addr, lower32Bits_toNat asked.btsp_low]
  · rw [pushImage, aneTmPushTq_tmAddr, asked.qid, ← aneTmPushTq_queue _ req]
    show (pushImage dev.engine req (queueReg 4 0x134)).toNat = _
    rw [addr, lower32Bits_toNat asked.btsp_low]
  · show pushImage dev.engine req (queueReg 4 0x0a0) = _
    have nid : pushImage dev.engine req (queueReg 4 0x0a0) = ((req.nid &&& 0xff) <<< 8) ||| 1 :=
      image (by decide)
    rw [nid, asked.nid]
    rfl

end Push

theorem Rest.exec {dev : Device} {rest : Nat → UInt32} (h : Rest rest dev)
    (prty : rest 0x010 = tqPrtyTable.getD 4 0) (inv : Inv dev) (hw : dev.hw = aneHwH13) (op : Op) :
    Rest rest (exec dev op) := by
  intro off block unowned
  have step := exec_engine inv op
  generalize (Driver.exec dev op).engine = engine at step
  cases step with
  | same => exact h off block unowned
  | enabled =>
    rw [hw]
    show (aneH13TmEnable dev.engine).regs (queueReg 4 off) = rest off
    rw [aneH13TmEnable_queue dev.engine (by decide) block]
    split
    · next here => rw [here, prty]
    · exact h off block unowned
  | @submitted file wake args status bar btsp valid =>
    rw [submitExecute_h13 hw]
    exact h.submitted status rfl block unowned

/-- What unwritten registers of queue 4 hold from the probe on. -/
def probedRest (regs : RegFile) (off : Nat) : UInt32 :=
  (probed aneHwH13 regs).engine.regs (queueReg 4 off)

theorem probedRest_prty (regs : RegFile) : probedRest regs 0x010 = tqPrtyTable.getD 4 0 :=
  aneH13TmEnable_queue ⟨regs, []⟩ (by decide : 4 < aneTqCount) (by decide : 0x010 < 0x148)

/-- A reachable H13 device. -/
structure H13Inv (regs : RegFile) (dev : Device) : Prop where
  inv : Inv dev
  hw : dev.hw = aneHwH13
  rest : Rest (probedRest regs) dev

theorem h13Inv_probed (regs : RegFile) : H13Inv regs (probed aneHwH13 regs) :=
  ⟨inv_probed _ _, rfl, fun _ _ _ => rfl⟩

theorem H13Inv.exec {regs : RegFile} {dev : Device} (h : H13Inv regs dev) (op : Op) :
    H13Inv regs (exec dev op) :=
  ⟨h.inv.exec op, (exec_hw h.inv op).trans h.hw,
    h.rest.exec (probedRest_prty regs) h.inv h.hw op⟩

theorem h13Inv_run (regs : RegFile) (ops : List Op) :
    H13Inv regs (run exec (probed aneHwH13 regs) ops) :=
  run_invariant (fun _ op h => h.exec op) (h13Inv_probed regs) ops

/-- In the history `ops` it is a submission that pushes `snap` after `older`, and `P` holds of the
device that it finds, its client and its arguments. -/
def PushedBy (start : Device) (ops : List Op) (older : List RegFile) (snap : RegFile)
    (P : Device → FileId → DrmAneSubmit → Prop) : Prop :=
  ∃ before file wake args status after,
    let found := run exec start before
    let op := .ioctl file wake (.submit args status)
    ops = before ++ op :: after ∧ found.engine.pushes = older ∧
      (exec found op).engine.pushes = snap :: older ∧ P found file args

theorem pushedBy_of_exec {I : Device → Prop} {P : RegFile → Device → FileId → DrmAneSubmit → Prop}
    {start : Device} (keep : ∀ dev op, I dev → I (exec dev op))
    (step : ∀ dev op, I dev → (exec dev op).engine.pushes = dev.engine.pushes ∨
      ∃ snap, (exec dev op).engine.pushes = snap :: dev.engine.pushes ∧
        ∃ file wake args status, op = .ioctl file wake (.submit args status) ∧ P snap dev file args)
    (h : I start) (none : start.engine.pushes = []) {ops : List Op} {newer older : List RegFile}
    {snap : RegFile} (here : (run exec start ops).engine.pushes = newer ++ snap :: older) :
    PushedBy start ops older snap (P snap) := by
  obtain ⟨before, op, after, split, found, pushed, file, wake, args, status, rfl, own⟩ :=
    run_log (fun dev => dev.engine.pushes) keep step h none ops here
  exact ⟨before, file, wake, args, status, after, split, found, pushed, own⟩

theorem PushedBy.mono {start : Device} {ops : List Op} {older : List RegFile} {snap : RegFile}
    {P Q : Device → FileId → DrmAneSubmit → Prop} (h : PushedBy start ops older snap P)
    (imp : ∀ before file args, P (run exec start before) file args →
      Q (run exec start before) file args) : PushedBy start ops older snap Q := by
  obtain ⟨before, file, wake, args, status, after, split, found, pushed, own⟩ := h
  exact ⟨before, file, wake, args, status, after, split, found, pushed, imp before file args own⟩

/-- `snap` shows the request of a submission in queue 4, and leaves the other queues as the
submission found them. -/
structure Pushes (rest : Nat → UInt32) (dev : Device) (file : FileId) (args : DrmAneSubmit)
    (snap : RegFile) : Prop where
  shown : ∃ req, Requested dev file args req ∧ Programmed rest req snap
  others : ∀ q ≠ 4, ∀ off < 0x148, snap (queueReg q off) = dev.engine.regs (queueReg q off)

/-- One operation pushes nothing, or it is a submission and pushes its own request. -/
theorem exec_pushes {regs : RegFile} {dev : Device} (h : H13Inv regs dev) (op : Op) :
    (exec dev op).engine.pushes = dev.engine.pushes ∨
      ∃ snap, (exec dev op).engine.pushes = snap :: dev.engine.pushes ∧
        ∃ file wake args status, op = .ioctl file wake (.submit args status) ∧
          Pushes (probedRest regs) dev file args snap := by
  have step := exec_engine h.inv op
  generalize (exec dev op).engine = engine at step
  cases step with
  | same => exact .inl rfl
  | enabled =>
    rw [h.hw]
    exact .inl (aneH13TmEnable_pushes dev.engine)
  | @submitted file wake args status bar btsp valid =>
    have asked := valid.requested h.inv h.hw
    refine .inr ⟨pushImage dev.engine (submitRequest args bar btsp), ?_, file, wake, args, status,
      rfl, ⟨_, asked, h.rest.programmed asked⟩, ?_⟩
    · rw [submitExecute_h13 h.hw, h13Submitted_pushes]
    · intro q other off block
      exact pushImage_other _ rfl other block

/-- A submission leaves the engine alone or writes queue 4 only. -/
theorem aneSubmit_isolated {dev : Device} (hw : dev.hw = aneHwH13) (file : FileId)
    (args : DrmAneSubmit) (status : Status) :
    (aneSubmit dev file args status).1.engine = dev.engine ∨
      ∃ snap, (aneSubmit dev file args status).1.engine.pushes = snap :: dev.engine.pushes ∧
        ∀ q ≠ 4, ∀ off < 0x148, snap (queueReg q off) = dev.engine.regs (queueReg q off) ∧
          (aneSubmit dev file args status).1.engine.regs (queueReg q off) =
            dev.engine.regs (queueReg q off) := by
  obtain ⟨rc, err, rejected⟩ | ⟨rc, bar, btsp, -, executed⟩ := aneSubmit_cases dev file args status
  · exact .inl (congrArg (fun r => r.1.engine) rejected)
  · right
    have engine : (aneSubmit dev file args status).1.engine =
        h13Submitted dev.engine (submitRequest args bar btsp) status := by
      have same : Device.hw { dev with refcount := rc } = aneHwH13 := hw
      rw [executed, submitExecute_h13 same]
    refine ⟨_, (congrArg Engine.pushes engine).trans (h13Submitted_pushes _ _ _), ?_⟩
    intro q other off block
    refine ⟨pushImage_other _ rfl other block, ?_⟩
    exact (congrArg (fun e => e.regs (queueReg q off)) engine).trans
      (h13Submitted_other _ status rfl other block)

/-- Every push of every history is made by one of its submissions, and shows the engine a
function of that submission's request; no submission writes another queue. -/
theorem queue_isolated (regs : RegFile) (ops : List Op) :
    let start := probed aneHwH13 regs
    let dev := run exec start ops
    (∀ newer snap older, dev.engine.pushes = newer ++ snap :: older →
      PushedBy start ops older snap fun found file args =>
        Pushes (probedRest regs) found file args snap) ∧
      ∀ file args status, let after := (aneSubmit dev file args status).1
        after.engine = dev.engine ∨
          ∃ snap, after.engine.pushes = snap :: dev.engine.pushes ∧
            ∀ q ≠ 4, ∀ off < 0x148, snap (queueReg q off) = dev.engine.regs (queueReg q off) ∧
              after.engine.regs (queueReg q off) = dev.engine.regs (queueReg q off) := by
  refine ⟨?_, aneSubmit_isolated (h13Inv_run regs ops).hw⟩
  intro newer snap older here
  exact pushedBy_of_exec (I := H13Inv regs) (fun _ op h => h.exec op)
    (fun _ op h => exec_pushes h op) (h13Inv_probed regs) (aneH13TmEnable_pushes ⟨regs, []⟩) here

/-- Two clients with a buffer for microcode and bootstrap; the first has an output as well. Its
job is given up waiting for, then comes the job of the second. -/
def twoJobs : List Op :=
  let job (output : UInt32) : DrmAneSubmit :=
    ⟨0x274, 1, 0x274, fun b => if b = 0 then 1 else if b = 4 then output else 0, 1, 0⟩
  oneBuffer 0x4000 ++ [.ioctl 0 (.ok ()) (.boInit ⟨0, 1⟩ (.served 0x8000 [8] 2)),
    .openFile (.ok ()), .ioctl 1 (.ok ()) (.boInit ⟨0, 1⟩ (.served 0xC000 [9] 1)),
    .ioctl 0 (.ok ()) (.submit (job 2) (.error (.other 110))),
    .ioctl 1 (.ok ()) (.submit (job 0) (.ok ()))]

theorem queue_isolated_twoJobs :
    let start := probed aneHwH13 fun _ => 0
    let shown (snap : RegFile) := (snap (aneTqBase + tqBar1 4 0), snap (aneTqBase + tqBar1 4 1),
      snap (aneTqBase + tqBar1 4 4), snap (aneTmBase + tmAddr))
    ∃ first second, (run exec start twoJobs).engine.pushes = [second, first] ∧
      shown first = (0x4000, 0x4280, 0x8000, 0x4000) ∧ shown second = (0xC000, 0xC280, 0, 0xC000) ∧
      (PushedBy start twoJobs [] first fun found file args =>
        Pushes (probedRest fun _ => 0) found file args first) ∧
      PushedBy start twoJobs [first] second fun found file args =>
        Pushes (probedRest fun _ => 0) found file args second := by
  intro start shown
  have two : (run exec start twoJobs).engine.pushes.length = 2 := by decide +kernel
  have seen : (run exec start twoJobs).engine.pushes.map shown =
      [(0xC000, 0xC280, 0, 0xC000), (0x4000, 0x4280, 0x8000, 0x4000)] := by
    decide +kernel
  obtain ⟨second, first, pushes⟩ := List.length_eq_two.mp two
  rw [pushes, List.map_cons, List.map_cons, List.map_nil] at seen
  obtain ⟨bars₁, rest⟩ := List.cons.inj seen
  obtain ⟨bars₀, -⟩ := List.cons.inj rest
  have isolated := (queue_isolated (fun _ => 0) twoJobs).1
  generalize twoJobs = jobs at pushes isolated ⊢
  exact ⟨first, second, pushes, bars₀, bars₁, isolated [second] first [] pushes,
    isolated [] second [first] pushes⟩

end Ane.Driver
