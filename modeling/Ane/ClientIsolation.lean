import Ane.Configuration

/-! The clients and the engine. Whatever the clients do, an address that a push shows to the
engine belongs to a buffer of the client that pushed: it was made through the same open file,
it is mapped from its first page to its last, and no buffer of another client shares any of
its range. -/
namespace Ane.Driver
open PageTable RangeAllocator Runs TaskManager

/-- A buffer that the client behind `file` may have the engine use. -/
structure Backed (dev : Device) (file : FileId) (bo : AneBo) : Prop where
  alive : bo ∈ dev.bos
  creator : bo.creator = file
  mapped : ∀ i < bo.npages.toNat,
    dev.iommu (bo.iova.toNat + i * 2 ^ 14) = some (bo.pages.getD i 0)
  apart : ∀ other ∈ dev.bos, other.creator ≠ file →
    other.range.2 ≤ bo.range.1 ∨ bo.range.2 ≤ other.range.1

section Validated
variable {dev : Device} {file : FileId} {args : DrmAneSubmit} {bar : Nat → UInt64}
  {bo btsp : AneBo}

theorem Inv.backed (inv : Inv dev) {handle : UInt32} (named : dev.named file handle = some bo) :
    Backed dev file bo := by
  obtain ⟨e, mem, rfl, -, rfl⟩ := named_eq_some named
  have alive := inv.handlesOk.alive e mem
  have creator := inv.handlesOk.creator e mem
  refine ⟨alive, creator, ?_, ?_⟩
  · intro i hi
    exact (inv.bosOk.table _ _).mpr ⟨e.bo, alive, i, hi, rfl, rfl⟩
  · intro other mem' foreign
    have ne : other.id ≠ e.bo.id := by
      intro same
      obtain rfl := inv.bosOk.eq_of_id mem' alive same
      exact foreign creator
    have disjoint := inv.bosOk.disjoint mem' alive ne
    rwa [Node.Disjoint, (inv.bosOk.ok other mem').node_stop, (inv.bosOk.ok e.bo alive).node_stop]
      at disjoint

/-- The address `a` is the start of a buffer of the client. -/
def StartsOwn (dev : Device) (file : FileId) (a : Nat) : Prop :=
  ∃ bo, Backed dev file bo ∧ a = bo.iova.toNat

theorem Validated.startsOwn (h : Validated dev file args bar btsp) (inv : Inv dev) :
    StartsOwn dev file (submitRequest args bar btsp).btspIova.toNat :=
  ⟨btsp, inv.backed h.named, rfl⟩

theorem Validated.ownBar (h : Validated dev file args bar btsp) (inv : Inv dev) {b : Nat}
    (below : b < dev.hw.barCount) (other : b ≠ krnBufBdx) :
    ((submitRequest args bar btsp).bar b).toNat = 0 ∨
      StartsOwn dev file ((submitRequest args bar btsp).bar b).toNat := by
  have looked := h.bars b below
  have same : (submitRequest args bar btsp).bar b = bar b := Function.update_of_ne other _ _
  rw [same]
  unfold BarOf at looked
  split at looked
  · rw [looked]
    exact .inl rfl
  · obtain ⟨bo, named, -, iova⟩ := looked
    rw [iova]
    exact .inr ⟨bo, inv.backed named, rfl⟩

/-- The weights lie in the buffer of the microcode or right behind it. -/
theorem Validated.krn (h : Validated dev file args bar btsp) (inv : Inv dev)
    (below : cmdBufBdx < dev.hw.barCount) :
    ∃ cmd, Backed dev file cmd ∧
      cmd.range.1 < ((submitRequest args bar btsp).bar krnBufBdx).toNat ∧
      ((submitRequest args bar btsp).bar krnBufBdx).toNat ≤ cmd.range.2 := by
  have used : args.handles cmdBufBdx ≠ 0 := fun zero =>
    h.accepted (.inr (.inr (.inr (.inr (.inl zero)))))
  have some_ : args.tskSize.toNat ≠ 0 := fun zero =>
    h.accepted (.inr (.inl (UInt64.toNat_inj.mp zero)))
  have looked := h.bars cmdBufBdx below
  rw [BarOf, if_neg used] at looked
  obtain ⟨cmd, named, accepted, iova⟩ := looked
  have backed := inv.backed named
  obtain ⟨rounded, sum, inside⟩ := krnBar_toNat inv backed.alive accepted
  have krn : (submitRequest args bar btsp).bar krnBufBdx =
      cmd.iova + roundUp args.tskSize aneCmdGran := by
    simp only [submitRequest, withKrnBar, Function.update_self, iova]
  rw [krn, sum]
  refine ⟨cmd, backed, ?_, inside⟩
  unfold AneBo.range
  dsimp only
  omega

end Validated

/-- `snap` is what the engine is shown when it is given a request that passed every check. -/
def Admitted (snap : RegFile) (dev : Device) (file : FileId) (args : DrmAneSubmit) : Prop :=
  ∃ status bar btsp, Validated dev file args bar btsp ∧
    (submitExecute dev (submitRequest args bar btsp) status).1.engine.pushes =
      snap :: dev.engine.pushes

/-- Each push of a history is that of a submission that passed every check when it came. -/
theorem pushes_validated (hw : AneHw) (regs : RegFile)
    (enables : ∀ e, (hw.tmEnable e).pushes = e.pushes)
    (submits : ∀ (dev : Device) (req : AneRequest) status, dev.hw = hw →
      ∃ snap, (submitExecute dev req status).1.engine.pushes = snap :: dev.engine.pushes)
    {ops : List Op} {newer older : List RegFile} {snap : RegFile}
    (here : (run exec (probed hw regs) ops).engine.pushes = newer ++ snap :: older) :
    PushedBy (probed hw regs) ops older snap (Admitted snap) := by
  refine pushedBy_of_exec (I := fun dev => Inv dev ∧ dev.hw = hw) ?_ ?_ ⟨inv_probed hw regs, rfl⟩
    (enables _) here
  · intro dev op h
    exact ⟨h.1.exec op, (exec_hw h.1 op).trans h.2⟩
  · intro dev op ⟨inv, installed⟩
    have step := exec_engine inv op
    generalize (exec dev op).engine = engine at step ⊢
    cases step with
    | same => exact .inl rfl
    | enabled =>
      rw [installed]
      exact .inl (enables _)
    | @submitted file wake args status bar btsp valid =>
      obtain ⟨snap, pushed⟩ := submits dev (submitRequest args bar btsp) status installed
      exact .inr ⟨snap, pushed, file, wake, args, status, rfl, status, bar, btsp, valid, pushed⟩

/-- The addresses that an H13 engine sees at a push are the client's own. -/
structure OwnAddresses (dev : Device) (file : FileId) (snap : RegFile) : Prop where
  bars : ∀ b < 0x20, b ≠ krnBufBdx → snap (H13.aneTqBase + H13.tqBar1 4 b) = 0 ∨
    StartsOwn dev file (snap (H13.aneTqBase + H13.tqBar1 4 b)).toNat
  krn : ∃ cmd, Backed dev file cmd ∧
    cmd.range.1 < (snap (H13.aneTqBase + H13.tqBar1 4 krnBufBdx)).toNat ∧
    (snap (H13.aneTqBase + H13.tqBar1 4 krnBufBdx)).toNat ≤ cmd.range.2
  boot : StartsOwn dev file (snap (H13.aneTqBase + H13.tqAddr1 4)).toNat ∧
    StartsOwn dev file (snap (H13.aneTmBase + H13.tmAddr)).toNat

theorem h13_ownAddresses {regs : RegFile} {dev : Device} (h : H13Inv regs dev) {file : FileId}
    {args : DrmAneSubmit} {bar : Nat → UInt64} {btsp : AneBo}
    (valid : Validated dev file args bar btsp) :
    OwnAddresses dev file (pushImage dev.engine (submitRequest args bar btsp)) := by
  have shown := h.rest.programmed (valid.requested h.inv h.hw)
  have count : dev.hw.barCount = 0x20 := by
    rw [h.hw]
    rfl
  have boot := valid.startsOwn h.inv
  refine ⟨?_, ?_, ?_, ?_⟩
  · intro b below other
    rw [← UInt32.toNat_inj, shown.bars b below]
    exact valid.ownBar h.inv (count ▸ below) other
  · rw [shown.bars krnBufBdx (by decide)]
    exact valid.krn h.inv (by rw [count]; decide)
  · rw [shown.addr]
    exact boot
  · rw [shown.tmAddr]
    exact boot

/-- Through every history, what a push shows to the engine are addresses of the client that
pushed: on an H13 in all the registers of the queue, on an H14 the boot address, which is all
it is given. -/
theorem client_isolated (regs : RegFile) (ops : List Op) :
    let h13 := probed aneHwH13 regs
    let h14 := probed aneHwH14 regs
    (∀ newer snap older, (run exec h13 ops).engine.pushes = newer ++ snap :: older →
      PushedBy h13 ops older snap fun found file _ => OwnAddresses found file snap) ∧
    ∀ newer snap older, (run exec h14 ops).engine.pushes = newer ++ snap :: older →
      PushedBy h14 ops older snap fun found file _ =>
        StartsOwn found file (launchAddress aneHwH14 snap) := by
  intro h13 h14
  constructor
  · intro newer snap older here
    have pushed := pushes_validated aneHwH13 regs H13.aneH13TmEnable_pushes
      (fun dev req status hw => ⟨pushImage dev.engine req, by
        rw [submitExecute_h13 hw]
        exact h13Submitted_pushes dev.engine req status⟩) here
    refine pushed.mono ?_
    rintro before file args ⟨status, bar, btsp, valid, pushed⟩
    have reached := h13Inv_run regs before
    rw [submitExecute_h13 reached.hw, h13Submitted_pushes] at pushed
    rw [← (List.cons.inj pushed).1]
    exact h13_ownAddresses reached valid
  · intro newer snap older here
    have pushed := pushes_validated aneHwH14 regs (fun e => writeAll_pushes _ H14.configuration)
      (fun dev req status hw => ⟨_, by
        rw [submitExecute_h14 hw, ← writeAll_pushes dev.engine (H14.launchWords req)]
        rfl⟩) here
    refine pushed.mono ?_
    rintro before file args ⟨status, bar, btsp, valid, pushed⟩
    have installed := run_hw aneHwH14 regs before
    rw [submitExecute_h14 installed] at pushed
    obtain ⟨low, high⟩ := H14.aneH14TmExecute_tmAddr (run exec h14 before).engine
      (submitRequest args bar btsp) status
    have shown : snap = (H14.aneH14TmExecute (run exec h14 before).engine
        (submitRequest args bar btsp) status).1.regs := (List.cons.inj pushed).1.symm
    rw [launchAddress, if_neg (by decide), shown, low, high, lower32Bits_upper32Bits]
    exact valid.startsOwn (inv_run aneHwH14 regs before)

end Ane.Driver
