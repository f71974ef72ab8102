import Ane.TaskManager
import Mathlib.Tactic.SplitIfs

/-! The registers of one H13 queue. A queue owns 0x148 bytes above the base, and the
loops and macros of the driver address them without aliasing: what a request writes
is a function of the request at the offsets it owns, and nothing anywhere else. -/
namespace Ane.TaskManager.H13

/-- Register `off` of a queue. -/
def queueReg (qid off : Nat) : Nat := aneTqBase + (off + qid * 0x148)

theorem queueReg_inj {qid off off' : Nat} : queueReg qid off = queueReg qid off' ↔ off = off' := by
  unfold queueReg
  omega

/-- Registers of different queues do not alias. -/
theorem queueReg_inj_of_lt {qid qid' off off' : Nat} (h : off < 0x148) (h' : off' < 0x148) :
    queueReg qid off = queueReg qid' off' ↔ qid = qid' ∧ off = off' := by
  unfold queueReg
  omega

/-- Some register of the queue. -/
def InQueue (qid a : Nat) : Prop := ∃ off, off < 0x148 ∧ a = queueReg qid off

/-- The queue after a request was enqueued, where it held `old` before. -/
def queueImage (old : Nat → UInt32) (req : AneRequest) (off : Nat) : UInt32 :=
  if off = 0x000 then 0x1
  else if 0x020 ≤ off ∧ off < 0x0a0 ∧ off % 4 = 0 then lower32Bits (req.bar ((off - 0x020) / 4))
  else if off = 0x0a0 then ((req.nid &&& 0xff) <<< 8) ||| 1
  else if off = 0x130 then ((req.tdSize >>> 2) - 1) <<< 0x10
  else if off = 0x134 then lower32Bits req.btspIova
  else old off

section Fold
variable (addr : Nat → Nat) (val : Nat → UInt32)

theorem foldl_writel_pushes (n : Nat) (e : Engine) :
    ((List.range n).foldl (fun e i => e.writel (val i) (addr i)) e).pushes = e.pushes := by
  induction n with
  | zero => rfl
  | succ n ih => simp [List.range_succ, List.foldl_append, ih]

theorem foldl_writel_miss (n : Nat) (e : Engine) (a : Nat) (away : ∀ i < n, a ≠ addr i) :
    ((List.range n).foldl (fun e i => e.writel (val i) (addr i)) e).regs a = e.regs a := by
  induction n with
  | zero => rfl
  | succ n ih =>
    have last : a ≠ addr n := away n (Nat.lt_succ_self n)
    have before := ih fun i hi => away i (Nat.lt_succ_of_lt hi)
    simp [List.range_succ, List.foldl_append, Engine.writel_regs, last, before]

theorem foldl_writel_hit (inj : ∀ i j, addr i = addr j → i = j) (n : Nat) (e : Engine) (i : Nat)
    (hi : i < n) :
    ((List.range n).foldl (fun e i => e.writel (val i) (addr i)) e).regs (addr i) = val i := by
  induction n with
  | zero => omega
  | succ n ih =>
    simp only [List.range_succ, List.foldl_append, List.foldl_cons, List.foldl_nil,
      Engine.writel_regs]
    split
    · next same => rw [inj i n same]
    · next other =>
      apply ih
      have : i ≠ n := fun same => other (congrArg addr same)
      omega

end Fold

variable (e : Engine) (req : AneRequest)

/-- The part of `aneH13TmEnqueue` up to and including its loop. -/
def barsWritten : Engine :=
  (List.range aneH13TileCount).foldl
    (fun e bdx => tqWrite32 e (tqBar1 req.qid bdx) (lower32Bits (req.bar bdx)))
    (tqWrite32 e (tqStatus req.qid) 0x1)

theorem barsWritten_bar {b : Nat} (hb : b < aneH13TileCount) :
    (barsWritten e req).regs (queueReg req.qid (0x020 + b * 4)) = lower32Bits (req.bar b) := by
  have here : queueReg req.qid (0x020 + b * 4) = aneTqBase + tqBar1 req.qid b := by
    unfold queueReg tqBar1
    omega
  rw [here]
  apply foldl_writel_hit (fun b => aneTqBase + tqBar1 req.qid b) (fun b => lower32Bits (req.bar b))
  · unfold tqBar1
    omega
  · exact hb

theorem barsWritten_other {a : Nat} (away : ∀ b < aneH13TileCount, a ≠ aneTqBase + tqBar1 req.qid b) :
    (barsWritten e req).regs a = if a = queueReg req.qid 0x000 then 0x1 else e.regs a := by
  rw [← Engine.writel_regs]
  exact foldl_writel_miss (fun b => aneTqBase + tqBar1 req.qid b) (fun b => lower32Bits (req.bar b))
    aneH13TileCount (tqWrite32 e (tqStatus req.qid) 0x1) a away

theorem barsWritten_pushes : (barsWritten e req).pushes = e.pushes :=
  foldl_writel_pushes (fun b => aneTqBase + tqBar1 req.qid b) (fun b => lower32Bits (req.bar b))
    aneH13TileCount (tqWrite32 e (tqStatus req.qid) 0x1)

theorem aneH13TmEnqueue_eq :
    (aneH13TmEnqueue e req).1 =
      tqWrite32 (tqWrite32 (tqWrite32 (barsWritten e req)
        (tqSize1 req.qid) (((req.tdSize >>> 2) - 1) <<< 0x10))
        (tqAddr1 req.qid) (lower32Bits req.btspIova))
        (tqNid1 req.qid) (((req.nid &&& 0xff) <<< 8) ||| 1) := rfl

theorem aneH13TmEnqueue_regs (a : Nat) :
    (aneH13TmEnqueue e req).1.regs a =
      if a = queueReg req.qid 0x0a0 then ((req.nid &&& 0xff) <<< 8) ||| 1
      else if a = queueReg req.qid 0x134 then lower32Bits req.btspIova
      else if a = queueReg req.qid 0x130 then ((req.tdSize >>> 2) - 1) <<< 0x10
      else (barsWritten e req).regs a := by
  rw [aneH13TmEnqueue_eq]
  simp only [tqWrite32, Engine.writel_regs]
  rfl

@[simp] theorem aneH13TmEnqueue_pushes : (aneH13TmEnqueue e req).1.pushes = e.pushes := by
  simp only [aneH13TmEnqueue_eq, tqWrite32, Engine.writel_pushes, barsWritten_pushes]

theorem aneH13TmEnqueue_queue {off : Nat} (block : off < 0x148) :
    (aneH13TmEnqueue e req).1.regs (queueReg req.qid off) =
      queueImage (fun off => e.regs (queueReg req.qid off)) req off := by
  simp only [aneH13TmEnqueue_regs, queueReg_inj, queueImage]
  by_cases bar : 0x020 ≤ off ∧ off < 0x0a0 ∧ off % 4 = 0
  · have apart : off ≠ 0x0a0 ∧ off ≠ 0x134 ∧ off ≠ 0x130 ∧ off ≠ 0x000 := by omega
    have hit := barsWritten_bar e req (b := (off - 0x020) / 4) (by unfold aneH13TileCount; omega)
    have here : 0x020 + (off - 0x020) / 4 * 4 = off := by omega
    rw [here] at hit
    simp only [apart, bar, and_self, if_true, if_false, hit]
  · have away : ∀ b < aneH13TileCount, queueReg req.qid off ≠ aneTqBase + tqBar1 req.qid b := by
      unfold queueReg tqBar1 aneH13TileCount
      omega
    simp only [barsWritten_other e req away, queueReg_inj, bar, if_false]
    split_ifs
    all_goals first | omega | rfl

theorem aneH13TmEnqueue_other {a : Nat} (other : ¬ InQueue req.qid a) :
    (aneH13TmEnqueue e req).1.regs a = e.regs a := by
  have away (off : Nat) (block : off < 0x148) : a ≠ queueReg req.qid off :=
    fun same => other ⟨off, block, same⟩
  have bars : ∀ b < aneH13TileCount, a ≠ aneTqBase + tqBar1 req.qid b := by
    intro b hb
    have := away (0x020 + b * 4) (by unfold aneH13TileCount at hb; omega)
    unfold queueReg at this
    unfold tqBar1
    omega
  simp [aneH13TmEnqueue_regs, barsWritten_other e req bars, away]

/-- Pushing reads the queue back and writes registers of the task manager only. -/
theorem aneTmPushTq_regs (a : Nat) :
    (aneTmPushTq e req).regs a =
      if a = aneTmBase + tmPush then
        tqPrtyTable.getD req.qid 0 ||| ((UInt32.ofNat req.qid &&& 7) <<< 8)
      else if a = aneTmBase + tmInfo then e.regs (queueReg req.qid 0x130) ||| req.tdCount
      else if a = aneTmBase + tmAddr then e.regs (queueReg req.qid 0x134)
      else e.regs a := by
  have apart : aneTqBase + tqSize1 req.qid ≠ aneTmBase + tmAddr := by
    unfold aneTqBase tqSize1 aneTmBase tmAddr
    omega
  have size : (e.writel (e.regs (aneTqBase + tqAddr1 req.qid)) (aneTmBase + tmAddr)).regs
      (aneTqBase + tqSize1 req.qid) = e.regs (aneTqBase + tqSize1 req.qid) := by
    rw [Engine.writel_regs, if_neg apart]
  simp only [aneTmPushTq, tmWrite32, tqRead32, Engine.readl, Engine.pushed_regs, size]
  simp only [Engine.writel_regs]
  rfl

theorem aneTmPushTq_queue (qid off : Nat) :
    (aneTmPushTq e req).regs (queueReg qid off) = e.regs (queueReg qid off) := by
  have apart (tm : Nat) (h : tm < 0x1000) : queueReg qid off ≠ aneTmBase + tm := by
    unfold queueReg aneTqBase aneTmBase
    omega
  simp only [aneTmPushTq_regs, apart tmPush (by decide), apart tmInfo (by decide),
    apart tmAddr (by decide), if_false]

theorem aneTmPushTq_tmAddr :
    (aneTmPushTq e req).regs (aneTmBase + tmAddr) = e.regs (queueReg req.qid 0x134) := by
  rw [aneTmPushTq_regs, if_neg (by decide), if_neg (by decide), if_pos rfl]

theorem aneH13TmExecute_pushes (status : Status) :
    (aneH13TmExecute e req status).1.pushes = (aneTmPushTq e req).regs :: e.pushes := by
  simp only [aneH13TmExecute, aneTmHandleIrq, tmWrite32, tqWrite32, Engine.writel_pushes]
  rfl

/-- Executing clears the status of the queue and no other register of any queue. -/
theorem aneH13TmExecute_queue (status : Status) {qid off : Nat} (block : off < 0x148) :
    (aneH13TmExecute e req status).1.regs (queueReg qid off) =
      if qid = req.qid ∧ off = 0x000 then 0x0 else e.regs (queueReg qid off) := by
  have ack : queueReg qid off ≠ aneTmBase + tmIrqAck := by
    unfold queueReg aneTqBase aneTmBase tmIrqAck
    omega
  simp only [aneH13TmExecute, aneTmHandleIrq, tmWrite32, tqWrite32, Engine.writel_regs, ack,
    if_false, aneTmPushTq_queue]
  have status : aneTqBase + tqStatus req.qid = queueReg req.qid 0x000 := rfl
  simp only [status, queueReg_inj_of_lt block (by decide : 0x000 < 0x148)]

@[simp] theorem aneH13TmEnable_pushes : (aneH13TmEnable e).pushes = e.pushes := by
  have prty := foldl_writel_pushes (fun qid => aneTqBase + tqPrty qid)
    (fun qid => tqPrtyTable.getD qid 0) aneTqCount
    (tmWrite32 e tmTqEn (tmRead32 e tmTqEn ||| 0x1000))
  simp only [aneH13TmEnable, tmWrite32, tqWrite32, Engine.writel_pushes] at prty ⊢
  exact prty

/-- Enabling sets the priorities of the queues and no other register of theirs. -/
theorem aneH13TmEnable_queue {qid off : Nat} (count : qid < aneTqCount) (block : off < 0x148) :
    (aneH13TmEnable e).regs (queueReg qid off) =
      if off = 0x010 then tqPrtyTable.getD qid 0 else e.regs (queueReg qid off) := by
  have apart (tm : Nat) (h : tm < 0x1000) : queueReg qid off ≠ aneTmBase + tm := by
    unfold queueReg aneTqBase aneTmBase
    omega
  simp only [aneH13TmEnable, tmWrite32, tqWrite32, Engine.writel_regs, apart tmIrqEn1 (by decide),
    apart tmIrqEn2 (by decide), if_false]
  split
  · next here =>
    have reg : queueReg qid off = aneTqBase + tqPrty qid := by
      unfold queueReg tqPrty
      omega
    rw [reg]
    exact foldl_writel_hit (fun qid => aneTqBase + tqPrty qid) (fun qid => tqPrtyTable.getD qid 0)
      (by unfold tqPrty; omega) aneTqCount _ qid count
  · next other =>
    have away : ∀ i < aneTqCount, queueReg qid off ≠ aneTqBase + tqPrty i := by
      unfold queueReg tqPrty aneTqCount
      omega
    refine (foldl_writel_miss (fun qid => aneTqBase + tqPrty qid)
      (fun qid => tqPrtyTable.getD qid 0) aneTqCount _ _ away).trans ?_
    rw [Engine.writel_regs, if_neg (apart tmTqEn (by decide))]

end Ane.TaskManager.H13
