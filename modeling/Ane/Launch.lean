import Ane.Isolation

/-! What an accepted submission hands to the engine: the bootstrap range, the start
of the weights and the launch word. Validation bounds the microcode by its buffer;
the bootstrap size, the task count and the rounding of the microcode size are not
bounded, and the conditions under which they come out right are stated exactly. -/
namespace Ane.TaskManager

/-- The word that launches a job on an H13 engine. -/
def launchWord (tdSize tdCount : UInt32) : UInt32 := (((tdSize >>> 2) - 1) <<< 0x10) ||| tdCount

theorem launchWord_toNat (tdSize tdCount : UInt32) :
    (launchWord tdSize tdCount).toNat =
      ((tdSize.toNat / 4 + (2 ^ 32 - 1)) % 2 ^ 16 * 2 ^ 16) ||| tdCount.toNat := by
  have words : (tdSize >>> 2).toNat = tdSize.toNat / 4 := by
    rw [UInt32.toNat_shiftRight, Nat.shiftRight_eq_div_pow]
    rfl
  have field : (((tdSize >>> 2) - 1) <<< 0x10).toNat =
      (tdSize.toNat / 4 + (2 ^ 32 - 1)) % 2 ^ 16 * 2 ^ 16 := by
    rw [UInt32.toNat_shiftLeft, UInt32.toNat_sub, words, Nat.shiftLeft_eq]
    simp only [UInt32.reduceToNat, Nat.reduceMod]
    omega
  rw [launchWord, UInt32.toNat_or, field]

/-- The upper half of the word, where the task count spills over. -/
theorem launchWord_upper (tdSize tdCount : UInt32) :
    (launchWord tdSize tdCount).toNat / 2 ^ 16 =
      ((tdSize.toNat / 4 + (2 ^ 32 - 1)) % 2 ^ 16) ||| (tdCount.toNat / 2 ^ 16) := by
  rw [launchWord_toNat, Nat.or_div_two_pow, Nat.mul_div_cancel _ (Nat.two_pow_pos 16)]

theorem launchWord_lower (tdSize tdCount : UInt32) :
    (launchWord tdSize tdCount).toNat % 2 ^ 16 = tdCount.toNat % 2 ^ 16 := by
  rw [launchWord_toNat, Nat.or_mod_two_pow, Nat.mul_mod_left, Nat.zero_or]

/-- The word holds the task size in words, less one, above the task count. -/
def Encodes (word tdSize tdCount : UInt32) : Prop :=
  word.toNat / 2 ^ 16 + 1 = tdSize.toNat / 4 ∧ word.toNat % 2 ^ 16 = tdCount.toNat

/-- Both quantities fit their half of the word. -/
def HalvesFit (tdSize tdCount : UInt32) : Prop :=
  tdCount.toNat < 2 ^ 16 ∧ 4 ≤ tdSize.toNat ∧ tdSize.toNat / 4 ≤ 2 ^ 16

theorem launchWord_encodes_iff (tdSize tdCount : UInt32) :
    Encodes (launchWord tdSize tdCount) tdSize tdCount ↔ HalvesFit tdSize tdCount := by
  rw [Encodes, HalvesFit, launchWord_upper, launchWord_lower]
  constructor
  · rintro ⟨upper, lower⟩
    have few : tdCount.toNat < 2 ^ 16 := by
      rw [← lower]
      exact Nat.mod_lt _ (Nat.two_pow_pos 16)
    rw [Nat.div_eq_of_lt few, Nat.or_zero] at upper
    omega
  · rintro ⟨few, word, size⟩
    rw [Nat.div_eq_of_lt few, Nat.or_zero]
    omega

/-- Words that encode their quantities determine them. -/
theorem Encodes.unique {word tdSize tdCount tdSize' tdCount' : UInt32}
    (h : Encodes word tdSize tdCount) (h' : Encodes word tdSize' tdCount') :
    tdSize.toNat / 4 = tdSize'.toNat / 4 ∧ tdCount = tdCount' :=
  ⟨h.1.symm.trans h'.1, UInt32.toNat_inj.mp (h.2.symm.trans h'.2)⟩

namespace H13

theorem aneTmPushTq_tmInfo (e : Engine) (req : AneRequest) :
    (aneTmPushTq (aneH13TmEnqueue e req).1 req).regs (aneTmBase + tmInfo) =
      launchWord req.tdSize req.tdCount := by
  rw [aneTmPushTq_regs, if_neg (by decide), if_pos rfl, aneH13TmEnqueue_queue e req (by decide)]
  rfl

end H13

namespace H14

theorem aneH14TmExecute_tmAddr (e : Engine) (req : AneRequest) (status : Status) :
    (aneH14TmExecute e req status).1.regs tmAddr = lower32Bits req.btspIova ∧
      (aneH14TmExecute e req status).1.regs (tmAddr + 0x4) = upper32Bits req.btspIova := by
  simp only [aneH14TmExecute, tmWrite32, tmWrite64, Engine.pushed_regs, Engine.writel_regs]
  exact ⟨rfl, rfl⟩

end H14

end Ane.TaskManager

namespace Ane.Driver
open RangeAllocator Runs TaskManager

theorem lower32Bits_upper32Bits (x : UInt64) :
    (lower32Bits x).toNat + (upper32Bits x).toNat * 2 ^ 32 = x.toNat := by
  have high : (x >>> 32).toNat = x.toNat / 2 ^ 32 := by
    rw [UInt64.toNat_shiftRight, Nat.shiftRight_eq_div_pow]
    rfl
  have bound := x.toNat_lt
  rw [lower32Bits, upper32Bits, UInt64.toNat_toUInt32, UInt64.toNat_toUInt32, high]
  omega

/-- The address at which the engine fetches the first task. -/
def launchAddress (hw : AneHw) (snap : RegFile) : Nat :=
  if hw.id = .H13 then (snap (H13.aneTmBase + H13.tmAddr)).toNat
  else (snap H14.tmAddr).toNat + (snap (H14.tmAddr + 0x4)).toNat * 2 ^ 32

section Accepted
variable {dev dev' : Device} {file : FileId} {args : DrmAneSubmit} {req : AneRequest}

/-- An accepted submission pushes once, and the engine starts at its bootstrap
address. -/
theorem submitExecute_launch (installed : dev.hw = aneHwH13 ∨ dev.hw = aneHwH14)
    (h : submitValidate dev file args = (dev', .ok req)) (status : Status) :
    ∃ snap, (submitExecute dev' req status).1.engine.pushes = snap :: dev.engine.pushes ∧
      launchAddress dev.hw snap = req.btspIova.toNat ∧
      (dev.hw = aneHwH13 →
        snap (H13.aneTmBase + H13.tmInfo) = launchWord req.tdSize req.tdCount) := by
  obtain ⟨rc, bar, btsp, valid, rfl, rfl⟩ := submitValidate_ok h
  rcases installed with hw | hw
  · refine ⟨pushImage dev.engine (submitRequest args bar btsp), ?_, ?_, ?_⟩
    · have same : Device.hw { dev with refcount := rc } = aneHwH13 := hw
      rw [submitExecute_h13 same]
      exact h13Submitted_pushes _ _ status
    · have low := low_of_iovaRejected (by rw [hw]; decide) valid.low
      rw [launchAddress, if_pos (by rw [hw]; rfl), pushImage, H13.aneTmPushTq_tmAddr,
        H13.aneH13TmEnqueue_queue _ _ (by decide)]
      exact lower32Bits_toNat low
    · intro _
      exact H13.aneTmPushTq_tmInfo dev.engine _
  · have executed : (submitExecute { dev with refcount := rc } (submitRequest args bar btsp)
        status).1.engine =
        (H14.aneH14TmExecute dev.engine (submitRequest args bar btsp) status).1 := by
      unfold submitExecute
      dsimp only
      rw [hw]
      rfl
    refine ⟨(H14.aneH14TmExecute dev.engine (submitRequest args bar btsp) status).1.regs,
      congrArg Engine.pushes executed, ?_, ?_⟩
    · obtain ⟨low, high⟩ :=
        H14.aneH14TmExecute_tmAddr dev.engine (submitRequest args bar btsp) status
      rw [launchAddress, if_neg (by rw [hw]; decide), low, high, lower32Bits_upper32Bits]
    · intro other
      rw [other] at hw
      exact absurd (congrArg AneHw.barCount hw) (by decide)

/-- The bootstrap range of a request lies in the range of a buffer. -/
def BtspInside (bo : AneBo) (req : AneRequest) : Prop :=
  bo.range.1 ≤ req.btspIova.toNat ∧ req.btspIova.toNat + req.tdSize.toNat ≤ bo.range.2

theorem submitValidate_btsp (h : submitValidate dev file args = (dev', .ok req)) :
    ∃ bo, dev.named file args.btspHandle = some bo ∧
      (BtspInside bo req ↔ args.tdSize.toNat ≤ bo.npages.toNat * 2 ^ 14) := by
  obtain ⟨rc, bar, btsp, valid, rfl, rfl⟩ := submitValidate_ok h
  refine ⟨btsp, valid.named, ?_⟩
  simp only [BtspInside, AneBo.range, submitRequest]
  omega

/-- Where the weights start, as far as the checks make sure of it. -/
structure KrnPlaced (hw : AneHw) (cmd : AneBo) (tskSize krn : UInt64) : Prop where
  rounded : (roundUp tskSize aneCmdGran).toNat = (tskSize.toNat + 15) / 16 * 16
  sum : krn.toNat = cmd.iova.toNat + (roundUp tskSize aneCmdGran).toNat
  aligned : (krn.toNat - cmd.iova.toNat) % 16 = 0
  behind : cmd.iova.toNat + tskSize.toNat ≤ krn.toNat
  low : hw = aneHwH13 → krn.toNat < 2 ^ 32

theorem submitValidate_krn (inv : Inv dev) (bars : 1 < dev.hw.barCount)
    (h : submitValidate dev file args = (dev', .ok req)) :
    ∃ cmd, dev.named file (args.handles cmdBufBdx) = some cmd ∧
      KrnPlaced dev.hw cmd args.tskSize (req.bar krnBufBdx) ∧
      ((req.bar krnBufBdx).toNat < cmd.range.2 ↔
        args.tskSize.toNat + 16 ≤ cmd.npages.toNat * 2 ^ 14) := by
  obtain ⟨rc, bar, btsp, valid, rfl, rfl⟩ := submitValidate_ok h
  have used : args.handles cmdBufBdx ≠ 0 := fun zero =>
    valid.accepted (.inr (.inr (.inr (.inr (.inl zero)))))
  have looked := valid.bars cmdBufBdx (Nat.zero_lt_of_lt bars)
  rw [BarOf, if_neg used] at looked
  obtain ⟨cmd, named, accepted, iova⟩ := looked
  have alive := inv.handlesOk.named_mem named
  obtain ⟨rounded, sum, below⟩ := krnBar_toNat inv alive accepted
  have krn : (submitRequest args bar btsp).bar krnBufBdx =
      cmd.iova + roundUp args.tskSize aneCmdGran := by
    simp only [submitRequest, withKrnBar, Function.update_self, iova]
  rw [krn]
  refine ⟨cmd, named, ⟨rounded, by rw [sum, rounded], ?_, ?_, ?_⟩, ?_⟩
  · rw [sum, Nat.add_sub_cancel_left]
    exact Nat.mul_mod_left _ _
  · omega
  · intro hw
    have last := (inv.bosOk.ok cmd alive).last
    rw [inv.bosOk.stop_h13 hw] at last
    omega
  · -- whole pages are whole grains
    rw [sum, AneBo.range]
    omega

end Accepted

/-- A job with microcode and bootstrap in that page. -/
def onePageJob (tskSize : UInt64) (tdCount tdSize : UInt32) : DrmAneSubmit :=
  ⟨tskSize, tdCount, tdSize, fun b => if b = 0 then 1 else 0, 1, 0⟩

def onePage : AneBo := ⟨0, 0x4000, some ⟨0x4000, 0x4000⟩, 1, [7], 0x4000, 0x4000, 0⟩

/-- The device with that buffer. -/
def onePageDevice : Device := run exec (probed aneHwH13 fun _ => 0) (oneBuffer 0x4000)

theorem onePageDevice_named : onePageDevice.named 0 1 = some onePage := by decide

theorem accepted_of_decoded {α : Type} {dev : Device} {file : FileId} {args : DrmAneSubmit}
    {f : AneRequest → α} {a : α}
    (h : (submitValidate dev file args).2.toOption.map f = some a) :
    ∃ dev' req, submitValidate dev file args = (dev', .ok req) ∧ f req = a := by
  generalize submitValidate dev file args = r at h
  obtain ⟨dev', err | req⟩ := r
  · cases h
  · exact ⟨dev', req, rfl, Option.some.inj h⟩

section Runs
variable {entry : String × AneHw}

/-- An accepted submission starts the engine at the buffer its bootstrap handle
names, and the bootstrap range lies in that buffer exactly when the task size is no
larger than the buffer. -/
theorem btsp_inside_iff (bound : entry ∈ aneOfMatch) (regs : RegFile) (ops : List Op) :
    let dev := run exec (probed entry.2 regs) ops
    ∀ file args dev' req, submitValidate dev file args = (dev', .ok req) →
      (∀ status, ∃ snap,
        (submitExecute dev' req status).1.engine.pushes = snap :: dev.engine.pushes ∧
          launchAddress dev.hw snap = req.btspIova.toNat) ∧
      ∃ bo, dev.named file args.btspHandle = some bo ∧
        (BtspInside bo req ↔ args.tdSize.toNat ≤ bo.npages.toNat * 2 ^ 14) := by
  intro dev file args dev' req passed
  have installed : dev.hw = aneHwH13 ∨ dev.hw = aneHwH14 := by
    rw [show dev.hw = entry.2 from run_hw entry.2 regs ops]
    exact aneOfMatch_cases bound
  refine ⟨?_, submitValidate_btsp passed⟩
  intro status
  obtain ⟨snap, pushed, address, -⟩ := submitExecute_launch installed passed status
  exact ⟨snap, pushed, address⟩

theorem btsp_inside_iff_onePage :
    ∃ dev' req, submitValidate onePageDevice 0 (onePageJob 0x274 1 0x4000) = (dev', .ok req) ∧
      BtspInside onePage req := by
  obtain ⟨dev', req, passed, -⟩ := accepted_of_decoded
    (by decide : (submitValidate onePageDevice 0 (onePageJob 0x274 1 0x4000)).2.toOption.map
      AneRequest.tdSize = some 0x4000)
  obtain ⟨-, bo, named, inside⟩ := btsp_inside_iff
    (show ("apple,t8103-ane", aneHwH13) ∈ aneOfMatch by simp [aneOfMatch]) (fun _ => 0) (oneBuffer 0x4000)
    0 _ dev' req passed
  obtain rfl : onePage = bo := Option.some.inj (onePageDevice_named.symm.trans named)
  exact ⟨dev', req, passed, inside.mpr (by decide)⟩

/-- Two pages of bootstrap are taken from a buffer of one. -/
theorem not_btspInside_oversized :
    ¬ ∀ ops file args dev' req bo,
      submitValidate (run exec (probed aneHwH13 fun _ => 0) ops) file args = (dev', .ok req) →
      (run exec (probed aneHwH13 fun _ => 0) ops).named file args.btspHandle = some bo →
      BtspInside bo req := by
  intro inside
  obtain ⟨dev', req, passed, decoded⟩ := accepted_of_decoded
    (by decide : (submitValidate onePageDevice 0 (onePageJob 0x274 1 0x8000)).2.toOption.map
      (fun req => (req.btspIova, req.tdSize)) = some (0x4000, 0x8000))
  have last := (inside (oneBuffer 0x4000) 0 _ dev' req onePage passed onePageDevice_named).2
  obtain ⟨iova, size⟩ := Prod.mk.inj decoded
  rw [iova, size] at last
  exact absurd last (by decide)

/-- The weights of an accepted submission start at the next multiple of 16 behind
the microcode, without wrapping, and within its buffer exactly when the buffer has
16 bytes left behind the microcode. -/
theorem krn_inside_iff (bound : entry ∈ aneOfMatch) (regs : RegFile) (ops : List Op) :
    let dev := run exec (probed entry.2 regs) ops
    ∀ file args dev' req, submitValidate dev file args = (dev', .ok req) →
      ∃ cmd, dev.named file (args.handles cmdBufBdx) = some cmd ∧
        KrnPlaced entry.2 cmd args.tskSize (req.bar krnBufBdx) ∧
        ((req.bar krnBufBdx).toNat < cmd.range.2 ↔
          args.tskSize.toNat + 16 ≤ cmd.npages.toNat * 2 ^ 14) := by
  intro dev file args dev' req passed
  have hw : dev.hw = entry.2 := run_hw entry.2 regs ops
  have bars : 1 < dev.hw.barCount := by
    rw [hw]
    obtain same | same := aneOfMatch_cases bound <;> rw [same] <;> decide
  rw [← hw]
  exact submitValidate_krn (inv_run entry.2 regs ops) bars passed

theorem krn_inside_iff_onePage :
    ∃ dev' req, submitValidate onePageDevice 0 (onePageJob 0x274 1 0x274) = (dev', .ok req) ∧
      (req.bar krnBufBdx).toNat < onePage.range.2 := by
  obtain ⟨dev', req, passed, -⟩ := accepted_of_decoded
    (by decide : (submitValidate onePageDevice 0 (onePageJob 0x274 1 0x274)).2.toOption.map
      AneRequest.tdSize = some 0x274)
  obtain ⟨cmd, named, -, inside⟩ := krn_inside_iff
    (show ("apple,t8103-ane", aneHwH13) ∈ aneOfMatch by simp [aneOfMatch]) (fun _ => 0) (oneBuffer 0x4000)
    0 _ dev' req passed
  obtain rfl : onePage = cmd := Option.some.inj (onePageDevice_named.symm.trans named)
  exact ⟨dev', req, passed, inside.mpr (by decide)⟩

/-- With one byte left behind the microcode the weights start at the end of the
buffer. -/
theorem not_krnInside_lastByte :
    ¬ ∀ ops file args dev' req cmd,
      submitValidate (run exec (probed aneHwH13 fun _ => 0) ops) file args = (dev', .ok req) →
      (run exec (probed aneHwH13 fun _ => 0) ops).named file (args.handles cmdBufBdx) = some cmd →
      (req.bar krnBufBdx).toNat < cmd.range.2 := by
  intro inside
  obtain ⟨dev', req, passed, krn⟩ := accepted_of_decoded
    (by decide : (submitValidate onePageDevice 0 (onePageJob 0x3fff 1 0x274)).2.toOption.map
      (fun req => req.bar krnBufBdx) = some 0x8000)
  have last := inside (oneBuffer 0x4000) 0 _ dev' req onePage passed onePageDevice_named
  rw [krn] at last
  exact absurd last (by decide)

/-- The launch word of an accepted H13 submission encodes the task size in words and
the task count exactly when both fit, and words that encode theirs are different for
different tasks. -/
theorem launch_word_iff (regs : RegFile) (ops : List Op) :
    let dev := run exec (probed aneHwH13 regs) ops
    (∀ file args dev' req status, submitValidate dev file args = (dev', .ok req) →
      ∃ snap, (submitExecute dev' req status).1.engine.pushes = snap :: dev.engine.pushes ∧
        snap (H13.aneTmBase + H13.tmInfo) = launchWord args.tdSize args.tdCount ∧
        (Encodes (snap (H13.aneTmBase + H13.tmInfo)) args.tdSize args.tdCount ↔
          HalvesFit args.tdSize args.tdCount)) ∧
      ∀ args args' : DrmAneSubmit, HalvesFit args.tdSize args.tdCount →
        HalvesFit args'.tdSize args'.tdCount →
        launchWord args.tdSize args.tdCount = launchWord args'.tdSize args'.tdCount →
        args.tdSize.toNat / 4 = args'.tdSize.toNat / 4 ∧ args.tdCount = args'.tdCount := by
  intro dev
  have hw : dev.hw = aneHwH13 := run_hw aneHwH13 regs ops
  refine ⟨?_, ?_⟩
  · intro file args dev' req status passed
    obtain ⟨snap, pushed, -, word⟩ := submitExecute_launch (.inl hw) passed status
    obtain ⟨rc, bar, btsp, -, -, rfl⟩ := submitValidate_ok passed
    refine ⟨snap, pushed, word hw, ?_⟩
    rw [word hw]
    exact launchWord_encodes_iff args.tdSize args.tdCount
  · intro args args' fits fits' same
    have here := (launchWord_encodes_iff args.tdSize args.tdCount).mpr fits
    have there := (launchWord_encodes_iff args'.tdSize args'.tdCount).mpr fits'
    rw [← same] at there
    exact here.unique there

theorem launch_word_iff_onePage :
    ∃ dev' req snap,
      submitValidate onePageDevice 0 (onePageJob 0x274 1 0x274) = (dev', .ok req) ∧
        (submitExecute dev' req (.ok ())).1.engine.pushes = [snap] ∧
        Encodes (snap (H13.aneTmBase + H13.tmInfo)) 0x274 1 := by
  obtain ⟨dev', req, passed, -⟩ := accepted_of_decoded
    (by decide : (submitValidate onePageDevice 0 (onePageJob 0x274 1 0x274)).2.toOption.map
      AneRequest.tdSize = some 0x274)
  obtain ⟨snap, pushed, -, encodes⟩ :=
    (launch_word_iff (fun _ => 0) (oneBuffer 0x4000)).1 0 _ dev' req (.ok ()) passed
  have none : onePageDevice.engine.pushes = [] := by decide
  refine ⟨dev', req, snap, passed, ?_, encodes.mpr (by unfold HalvesFit; decide)⟩
  rw [← none]
  exact pushed

/-- A task count of 2^16 + 1 is launched as a longer task and a count of 1. -/
theorem not_encodes_largeCount :
    ¬ ∀ ops file args dev' req,
      submitValidate (run exec (probed aneHwH13 fun _ => 0) ops) file args = (dev', .ok req) →
      ∀ snap ∈ (submitExecute dev' req (.ok ())).1.engine.pushes.head?,
        Encodes (snap (H13.aneTmBase + H13.tmInfo)) args.tdSize args.tdCount := by
  intro encodes
  obtain ⟨dev', req, passed, count⟩ := accepted_of_decoded
    (by decide : (submitValidate onePageDevice 0 (onePageJob 0x274 0x10001 0x274)).2.toOption.map
      AneRequest.tdCount = some 0x10001)
  obtain ⟨snap, pushed, -, word⟩ :=
    submitExecute_launch (.inl (run_hw aneHwH13 _ (oneBuffer 0x4000))) passed (.ok ())
  have lower := (encodes (oneBuffer 0x4000) 0 _ dev' req passed snap (by rw [pushed]; rfl)).2
  rw [word (run_hw aneHwH13 _ (oneBuffer 0x4000)), launchWord_lower, count] at lower
  exact absurd lower (by decide)

end Runs

end Ane.Driver
