import Ane.Concurrent
import Ane.Mapping

/-! Submissions against frees and creations on other threads. The addresses of a
request are read before the engine lock is taken and nothing holds the buffers
until the engine is done, so a free in between leaves the engine with addresses of
nobody's or somebody else's pages. -/
namespace Ane.Concurrent
open PageTable RangeAllocator Runs TaskManager Driver

/-- The buffer is mapped, every page of it. -/
def Resident (dev : Device) (bo : AneBo) : Prop :=
  ∀ i < bo.npages.toNat, ∃ p, bo.pages[i]? = some p ∧
    dev.iommu (bo.iova.toNat + i * 2 ^ 14) = some p

/-- Address `a` lies in the range of the buffer, and the range is mapped to its pages. -/
def Reaches (dev : Device) (bo : AneBo) (a : Nat) : Prop :=
  bo.iova.toNat ≤ a ∧ a < bo.iova.toNat + bo.npages.toNat * 2 ^ 14 ∧ Resident dev bo

/-- Every address in the request reaches the buffer its handle named. -/
structure JobMapped (dev : Device) (job : Job) (btsp : AneBo) : Prop where
  bars : ∀ b, (job.request btsp).bar b ≠ 0 →
    ∃ bo, job.source b = some bo ∧ Reaches dev bo ((job.request btsp).bar b).toNat
  btsp : Reaches dev btsp (job.request btsp).btspIova.toNat

/-- Pushed, and not seen to complete. -/
def InFlight (m : Machine) (job : Job) (btsp : AneBo) : Prop :=
  (∃ t, m.threads t = .polling job btsp) ∨ (job, btsp) ∈ m.abandoned

def InFlightMapped (m : Machine) : Prop := ∀ job btsp, InFlight m job btsp → JobMapped m.dev job btsp

def Job.Names (job : Job) (btsp bo : AneBo) : Prop := (∃ b, job.found b = some bo) ∨ btsp = bo

/-- The thread is creating the buffer, or submits a job that names it. -/
def Thread.Uses : Thread → AneBo → Prop
  | .publishing _ bo _, other => bo = other
  | .looking job _, other => ∃ b, job.found b = some other
  | .locking job btsp, other => job.Names btsp other
  | .enqueuing job btsp, other => job.Names btsp other
  | .pushing job btsp, other => job.Names btsp other
  | .polling job btsp, other => job.Names btsp other
  | _, _ => False

/-- A buffer in use: it has a handle, it is being created, or a job not seen to
complete names it. -/
def InUse (m : Machine) (bo : AneBo) : Prop :=
  (∃ e ∈ m.dev.handles, e.bo = bo) ∨ (∃ t, (m.threads t).Uses bo) ∨
    ∃ j ∈ m.abandoned, j.1.Names j.2 bo

/-- No range is unmapped that a buffer in use overlaps, and microcode that is
accepted ends, rounded up, before its buffer does. -/
def Orderly (m : Machine) : ThreadOp → Prop
  | .step t _ =>
    match m.threads t with
    | .unmapping bo => ∀ other, InUse m other → bo.node.Disjoint other.node
    | .looking job bdx => bdx = cmdBufBdx →
      ∀ cmd, m.dev.named job.file (job.args.handles cmdBufBdx) = some cmd →
        ¬ barRejected m.dev.hw job.args cmdBufBdx cmd →
        roundUp job.args.tskSize aneCmdGran < shiftPages cmd.npages
    | _ => True
  | _ => True

/-- What the lookups up to `bdx` have left in a job. -/
structure Job.Ok (job : Job) (bdx : Nat) : Prop where
  accepted : ¬ submitArgsRejected job.args
  bar : ∀ b, job.bar b = (job.found b).elim 0 AneBo.iova
  cmd : 0 < bdx → ∃ bo, job.found cmdBufBdx = some bo ∧
    roundUp job.args.tskSize aneCmdGran < shiftPages bo.npages

/-- The range the allocator manages on an H13 does not change. -/
abbrev BufferOk (bo : AneBo) : Prop := BoOk (aneIommuDomainInit aneHwH13) bo

def Thread.Ok : Thread → Prop
  | .freeing _ _ bo => BufferOk bo
  | .unmapping bo => BufferOk bo
  | .looking job bdx => job.Ok bdx
  | .locking job _ => job.Ok 1
  | .enqueuing job _ => job.Ok 1
  | .pushing job _ => job.Ok 1
  | .polling job _ => job.Ok 1
  | _ => True

/-- Buffers in use are mapped, and jobs hold what their lookups found. -/
structure Sound (m : Machine) : Prop where
  hw : m.dev.hw = aneHwH13
  window : m.dev.mm.start = (aneIommuDomainInit aneHwH13).start ∧
    m.dev.mm.size = (aneIommuDomainInit aneHwH13).size
  ok : ∀ bo, InUse m bo → BufferOk bo
  resident : ∀ bo, InUse m bo → Resident m.dev bo
  threads : ∀ t, (m.threads t).Ok
  abandoned : ∀ j ∈ m.abandoned, j.1.Ok 1

section Sound
variable {m : Machine} {t : ThreadId}

theorem Job.Ok.mapped {dev : Device} {job : Job} {btsp : AneBo} (h : job.Ok 1)
    (ok : ∀ bo, job.Names btsp bo → BufferOk bo)
    (resident : ∀ bo, job.Names btsp bo → Resident dev bo) : JobMapped dev job btsp where
  bars := by
    intro b used
    have request : (job.request btsp).bar = withKrnBar job.args job.bar := rfl
    rw [request] at used ⊢
    obtain ⟨cmd, found, fits⟩ := h.cmd (by decide)
    by_cases krn : b = krnBufBdx
    · have here : withKrnBar job.args job.bar b = cmd.iova + roundUp job.args.tskSize aneCmdGran := by
        rw [withKrnBar, krn, Function.update_self, h.bar, found]
        rfl
      have cmdOk := ok cmd (.inl ⟨_, found⟩)
      have inside : (roundUp job.args.tskSize aneCmdGran).toNat < cmd.npages.toNat * 2 ^ 14 := by
        rw [← cmdOk.node_size]
        exact UInt64.lt_iff_toNat_lt.mp fits
      have last := cmdOk.last
      have window := (aneIommuDomainInit aneHwH13).window
      unfold Allocator.stop at last
      refine ⟨cmd, by rw [Job.source, if_pos krn, found], ?_, ?_, resident cmd (.inl ⟨_, found⟩)⟩
      · rw [here, UInt64.toNat_add, Nat.mod_eq_of_lt (by omega)]
        omega
      · rw [here, UInt64.toNat_add, Nat.mod_eq_of_lt (by omega)]
        omega
    · have here : withKrnBar job.args job.bar b = job.bar b := Function.update_of_ne krn _ _
      rw [here, h.bar] at used ⊢
      cases found : job.found b with
      | none =>
        rw [found] at used
        exact absurd rfl used
      | some bo =>
        have boOk := ok bo (.inl ⟨b, found⟩)
        have pos := boOk.npages_pos
        refine ⟨bo, by rw [Job.source, if_neg krn, found], le_refl _, ?_, resident bo (.inl ⟨b, found⟩)⟩
        show bo.iova.toNat < _
        omega
  btsp := by
    have boOk := ok btsp (.inr rfl)
    have pos := boOk.npages_pos
    refine ⟨le_refl _, ?_, resident btsp (.inr rfl)⟩
    show btsp.iova.toNat < _
    omega

theorem Sound.inFlightMapped (S : Sound m) : InFlightMapped m := by
  rintro job btsp (⟨t, at_⟩ | abandoned)
  · have uses (bo : AneBo) (names : job.Names btsp bo) : InUse m bo :=
      .inr (.inl ⟨t, by rw [at_]; exact names⟩)
    have jobOk : job.Ok 1 := by
      have := S.threads t
      rwa [at_] at this
    exact jobOk.mapped (fun bo names => S.ok bo (uses bo names))
      (fun bo names => S.resident bo (uses bo names))
  · have uses (bo : AneBo) (names : job.Names btsp bo) : InUse m bo :=
      .inr (.inr ⟨_, abandoned, names⟩)
    exact (S.abandoned _ abandoned).mapped (fun bo names => S.ok bo (uses bo names))
      (fun bo names => S.resident bo (uses bo names))

/-- A thread moves on to buffers that are mapped. -/
theorem Sound.become_mapped (S : Sound m) (th : Thread) (ok : th.Ok)
    (mapped : ∀ bo, th.Uses bo → BufferOk bo ∧ Resident m.dev bo) : Sound (m.become t th) := by
  have before : ∀ bo, InUse (m.become t th) bo → InUse m bo ∨ th.Uses bo := by
    rintro bo (named | ⟨u, used⟩ | abandoned)
    · exact .inl (.inl named)
    · by_cases here : u = t
      · rw [here, become_self] at used
        exact .inr used
      · rw [become_other m here] at used
        exact .inl (.inr (.inl ⟨u, used⟩))
    · exact .inl (.inr (.inr abandoned))
  refine { S with ok := ?_, resident := ?_, threads := ?_ }
  · intro bo used
    obtain old | new := before bo used
    · exact S.ok bo old
    · exact (mapped bo new).1
  · intro bo used
    obtain old | new := before bo used
    · exact S.resident bo old
    · exact (mapped bo new).2
  · intro u
    by_cases here : u = t
    · rw [here, become_self]
      exact ok
    · rw [become_other m here]
      exact S.threads u

/-- A thread moves on to buffers that are in use. -/
theorem Sound.become (S : Sound m) (th : Thread) (ok : th.Ok) (uses : ∀ bo, th.Uses bo → InUse m bo) :
    Sound (m.become t th) :=
  S.become_mapped th ok fun bo used => ⟨S.ok bo (uses bo used), S.resident bo (uses bo used)⟩

/-- The device changes, to the good of the buffers still in use. -/
theorem Sound.of_dev (S : Sound m) (dev : Device) (hw : dev.hw = m.dev.hw)
    (window : dev.mm.start = m.dev.mm.start ∧ dev.mm.size = m.dev.mm.size)
    (handles : ∀ e ∈ dev.handles, InUse m e.bo)
    (resident : ∀ bo, InUse m bo → Resident dev bo) : Sound { m with dev := dev } := by
  have before : ∀ bo, InUse { m with dev := dev } bo → InUse m bo := by
    rintro bo (⟨e, he, rfl⟩ | used | abandoned)
    · exact handles e he
    · exact .inr (.inl used)
    · exact .inr (.inr abandoned)
  exact {
    hw := hw.trans S.hw
    window := ⟨window.1.trans S.window.1, window.2.trans S.window.2⟩
    ok := fun bo used => S.ok bo (before bo used)
    resident := fun bo used => resident bo (before bo used)
    threads := S.threads
    abandoned := S.abandoned }

/-- References and registers do not matter. -/
theorem Sound.of_quiet (S : Sound m) (rc : Nat → Nat) (engine : Engine) :
    Sound { m with dev := { m.dev with refcount := rc, engine := engine } } :=
  S.of_dev _ rfl ⟨rfl, rfl⟩ (fun e he => .inl ⟨e, he, rfl⟩) S.resident

theorem Sound.log (S : Sound m) (action : Action) (bo : AneBo) : Sound (m.log action bo) :=
  { S with }

/-- Unmapping takes no page of a buffer that does not overlap. -/
theorem Resident.unmap {dev : Device} {bo other : AneBo} (h : Resident dev other)
    (ok : BufferOk bo) (otherOk : BufferOk other) (apart : bo.node.Disjoint other.node) :
    Resident (aneIommuUnmapPages dev bo) other := by
  intro i hi
  obtain ⟨p, page, mapped⟩ := h i hi
  refine ⟨p, page, ?_⟩
  simp only [aneIommuUnmapPages, ok.mm_node]
  rw [unmapFrom_other, mapped]
  intro k _ hk same
  rw [ok.pageIova (by omega)] at same
  have here := ok.contains_page (i := k) (by omega)
  rw [same] at here
  exact apart.not_contains here (otherOk.contains_page hi)

/-- Mapping a new buffer takes no page of another, and maps its own. -/
theorem Resident.map {dev : Device} {bo other : AneBo} {iommu : Table Nat Page}
    (h : Resident dev other)
    (done : Mapped (pageIova bo.iova) (fun i => bo.pages.getD i 0) bo.npages.toNat 0 dev.iommu iommu) :
    Resident { dev with iommu := iommu } other := by
  intro i hi
  obtain ⟨p, page, mapped⟩ := h i hi
  refine ⟨p, page, ?_⟩
  dsimp only
  rw [done.others, mapped]
  intro k _ hk same
  have free := done.free k (Nat.zero_le k) hk
  rw [same, mapped] at free
  cases free

theorem resident_mapped {dev : Device} {bo : AneBo} {iommu : Table Nat Page} (ok : BufferOk bo)
    (done : Mapped (pageIova bo.iova) (fun i => bo.pages.getD i 0) bo.npages.toNat 0 dev.iommu iommu) :
    Resident { dev with iommu := iommu } bo := by
  intro i hi
  have here : i < bo.pages.length := by rw [ok.pages]; exact hi
  refine ⟨bo.pages.getD i 0, by simp [here], ?_⟩
  dsimp only
  rw [← ok.pageIova hi]
  exact done.cells i (Nat.zero_le i) (by omega)

end Sound

section Steps
variable {m : Machine} {t : ThreadId}

theorem Sound.touch (S : Sound m) (bo : AneBo) :
    Sound ({ m with dev := m.dev.get bo }.log .lookup bo) :=
  (S.of_quiet (m.dev.get bo).refcount m.dev.engine).log .lookup bo

theorem inUse_named {file : FileId} {handle : UInt32} {bo : AneBo}
    (named : m.dev.named file handle = some bo) : InUse m bo := by
  obtain ⟨e, he, -, -, same⟩ := named_eq_some named
  exact .inl ⟨e, he, same⟩

/-- One more handle looked up. -/
theorem Job.Ok.looked {job : Job} {bdx : Nat} (h : job.Ok bdx) {bo : AneBo}
    (fits : bdx = cmdBufBdx → roundUp job.args.tskSize aneCmdGran < shiftPages bo.npages) :
    Job.Ok { job with
      bar := Function.update job.bar bdx bo.iova
      found := Function.update job.found bdx (some bo) } (bdx + 1) where
  accepted := h.accepted
  bar := by
    intro b
    dsimp only
    by_cases here : b = bdx
    · rw [here, Function.update_self, Function.update_self]
      rfl
    · rw [Function.update_of_ne here, Function.update_of_ne here, h.bar]
  cmd := by
    intro _
    by_cases first : bdx = cmdBufBdx
    · exact ⟨bo, by simp [first], fits first⟩
    · have ne : cmdBufBdx ≠ bdx := fun same => first same.symm
      obtain ⟨cmd, found, inside⟩ := h.cmd (Nat.pos_of_ne_zero first)
      exact ⟨cmd, by simp [Function.update_of_ne ne, found], inside⟩

/-- An unused entry is passed over; the first is never unused. -/
theorem Job.Ok.passed {job : Job} {bdx : Nat} (h : job.Ok bdx) (unused : job.args.handles bdx = 0) :
    job.Ok (bdx + 1) := by
  have later : 0 < bdx := by
    apply Nat.pos_of_ne_zero
    rintro rfl
    exact h.accepted (.inr (.inr (.inr (.inr (.inl unused)))))
  exact { h with cmd := fun _ => h.cmd later }

theorem Sound.lookOne (S : Sound m) {job : Job} {bdx : Nat} (at_ : m.threads t = .looking job bdx)
    (orderly : Orderly m (.step t (.ok ()))) : Sound (lookOne m t job bdx) := by
  have jobOk : job.Ok bdx := by
    have := S.threads t
    rwa [at_] at this
  have mine (bo : AneBo) (h : ∃ b, job.found b = some bo) : InUse m bo :=
    .inr (.inl ⟨t, by rw [at_]; exact h⟩)
  simp only [Orderly, at_] at orderly
  unfold Concurrent.lookOne
  split
  · split
    · cases named : m.dev.named job.file (job.args.handles bdx) with
      | none =>
        simp only [boLookup_none named]
        exact S.become .idle trivial (fun _ => False.elim)
      | some bo =>
        simp only [boLookup_some named]
        split
        · exact (S.touch bo).become .idle trivial (fun _ => False.elim)
        · next accepted =>
          apply (S.touch bo).become
          · refine jobOk.looked ?_
            rintro rfl
            exact orderly rfl bo named accepted
          · rintro other ⟨b, found⟩
            dsimp only at found
            by_cases here : b = bdx
            · rw [here, Function.update_self] at found
              cases found
              exact inUse_named named
            · rw [Function.update_of_ne here] at found
              exact mine other ⟨b, found⟩
    · next unused =>
      refine S.become (.looking job (bdx + 1)) (jobOk.passed (by simpa using unused)) ?_
      exact mine
  · next last =>
    have all : 0 < bdx := by
      rw [S.hw] at last
      exact Nat.lt_of_lt_of_le (by decide) (Nat.le_of_not_lt last)
    cases named : m.dev.named job.file job.args.btspHandle with
    | none =>
      simp only [boLookup_none named]
      exact S.become .idle trivial (fun _ => False.elim)
    | some btsp =>
      simp only [boLookup_some named]
      split
      · exact (S.touch btsp).become .idle trivial (fun _ => False.elim)
      · refine (S.touch btsp).become (.locking job btsp) { jobOk with cmd := fun _ => jobOk.cmd all } ?_
        rintro other (found | rfl)
        · exact mine other found
        · exact inUse_named named

theorem aneIommuUnmapPages_frame (dev : Device) (bo : AneBo) :
    ∃ iommu nodes, aneIommuUnmapPages dev bo =
      { dev with iommu := iommu, mm := { dev.mm with nodes := nodes } } := by
  unfold aneIommuUnmapPages
  split <;> exact ⟨_, _, rfl⟩

theorem Sound.observe (S : Sound m) {job : Job} {btsp : AneBo} (at_ : m.threads t = .polling job btsp)
    (status : Status) : Sound (observe m t job btsp status) := by
  have jobOk : job.Ok 1 := by
    have := S.threads t
    rwa [at_] at this
  have mine (bo : AneBo) (h : job.Names btsp bo) : InUse m bo :=
    .inr (.inl ⟨t, by rw [at_]; exact h⟩)
  have quiet := S.of_quiet m.dev.refcount (Concurrent.observe m t job btsp status).dev.engine
  have unlocked : Sound { Concurrent.observe m t job btsp status with threads := m.threads } := by
    cases status with
    | ok _ => exact { quiet with }
    | error err =>
      have before : ∀ bo, InUse { m with abandoned := (job, btsp) :: m.abandoned } bo →
          InUse m bo := by
        rintro bo (named | used | ⟨j, mem, names⟩)
        · exact .inl named
        · exact .inr (.inl used)
        · obtain rfl | old := List.mem_cons.mp mem
          · exact mine bo names
          · exact .inr (.inr ⟨j, old, names⟩)
      exact { quiet with
        ok := fun bo used => S.ok bo (before bo used)
        resident := fun bo used => S.resident bo (before bo used)
        abandoned := List.forall_mem_cons.mpr ⟨jobOk, S.abandoned⟩ }
  exact unlocked.become .idle trivial (fun _ => False.elim)

/-- A handle less, and with it a reference. -/
theorem Sound.deleteHandle (S : Sound m) (file : FileId) (handle : UInt32) :
    Sound { m with dev := drmGemHandleDelete m.dev file handle } := by
  obtain ⟨rc, frame⟩ := drmGemHandleDelete_frame m.dev file handle
  apply S.of_dev
  · rw [frame]
  · rw [frame]
    exact ⟨rfl, rfl⟩
  · rw [frame]
    intro e he
    exact .inl ⟨e, List.mem_of_mem_filter he, rfl⟩
  · rw [frame]
    exact S.resident

/-- The pages of a buffer go, none of them one of a buffer in use. -/
theorem Sound.unmapPages (S : Sound m) {bo : AneBo} (ok : BufferOk bo)
    (apart : ∀ other, InUse m other → bo.node.Disjoint other.node) :
    Sound { m with dev := aneIommuUnmapPages m.dev bo } := by
  obtain ⟨iommu, nodes, frame⟩ := aneIommuUnmapPages_frame m.dev bo
  apply S.of_dev
  · rw [frame]
  · rw [frame]
    exact ⟨rfl, rfl⟩
  · rw [frame]
    exact fun e he => .inl ⟨e, he, rfl⟩
  · intro other used
    exact (S.resident other used).unmap ok (S.ok other used) (apart other used)

/-- A buffer in use gets its handle, or fails to. -/
theorem Sound.publish (S : Sound m) {file : FileId} {bo : AneBo} {pick : Option UInt32}
    (at_ : m.threads t = .publishing file bo pick) (status : Status) :
    Sound (Concurrent.stepThread m t status) := by
  have made : InUse m bo := .inr (.inl ⟨t, by rw [at_]; rfl⟩)
  simp only [Concurrent.stepThread, at_]
  cases created : drmGemHandleCreate m.dev file bo pick with
  | none =>
    simp only [drmGemObjectPut_eq]
    exact ((S.of_quiet _ m.dev.engine).log .publish bo).become (.unmapping bo) (S.ok bo made)
      (fun _ => False.elim)
  | some r =>
    obtain ⟨handle, dev⟩ := r
    obtain ⟨-, -, rfl⟩ := drmGemHandleCreate_eq_some created
    simp only [drmGemObjectPut_eq]
    refine Sound.become (Sound.log (S.of_dev _ ?_ ?_ ?_ ?_) .publish bo) .idle trivial
      (fun _ => False.elim)
    · rfl
    · exact ⟨rfl, rfl⟩
    · intro e he
      obtain rfl | old := List.mem_cons.mp he
      · exact made
      · exact .inl ⟨e, old, rfl⟩
    · exact S.resident

theorem Sound.stepThread (S : Sound m) (status : Status) (orderly : Orderly m (.step t status)) :
    Sound (stepThread m t status) := by
  have ok := S.threads t
  have mine (bo : AneBo) (used : (m.threads t).Uses bo) : InUse m bo := .inr (.inl ⟨t, used⟩)
  unfold Concurrent.stepThread
  cases at_ : m.threads t with
  | idle => exact S
  | freeing file handle bo =>
    rw [at_] at ok
    have logged : Sound (m.logDelete (m.dev.named file handle)) := by
      cases m.dev.named file handle with
      | none => exact S
      | some named => exact S.log .delete named
    exact (logged.deleteHandle file handle).become (.unmapping bo) ok (fun _ => False.elim)
  | unmapping bo =>
    rw [at_] at ok
    simp only [Orderly, at_] at orderly
    exact ((S.unmapPages ok orderly).log .unmap bo).become (.releasing bo) trivial
      (fun _ => False.elim)
  | releasing bo => exact (S.log .release bo).become (.kfreeing bo) trivial (fun _ => False.elim)
  | kfreeing bo =>
    have freed := S.of_dev (kfree m.dev bo) rfl ⟨rfl, rfl⟩ (fun e he => .inl ⟨e, he, rfl⟩) S.resident
    exact (freed.log .kfree bo).become .idle trivial (fun _ => False.elim)
  | publishing file bo pick =>
    have published := S.publish at_ status
    simpa only [Concurrent.stepThread, at_] using published
  | looking job bdx => exact S.lookOne at_ orderly
  | locking job btsp =>
    rw [at_] at ok mine
    dsimp only
    split
    · have locked : Sound { m with engineLock := some t } := { S with }
      exact locked.become (.enqueuing job btsp) ok mine
    · exact S
  | enqueuing job btsp =>
    rw [at_] at ok mine
    exact (S.of_quiet m.dev.refcount _).become (.pushing job btsp) ok mine
  | pushing job btsp =>
    rw [at_] at ok mine
    exact (S.of_quiet m.dev.refcount _).become (.polling job btsp) ok mine
  | polling job btsp => exact S.observe at_ status

theorem Sound.exec (S : Sound m) (op : ThreadOp) (orderly : Orderly m op) : Sound (exec m op) := by
  cases op with
  | boFree t file args =>
    unfold Concurrent.exec
    dsimp only
    split
    · cases named : m.dev.named file args.handle with
      | none =>
        simp only [boLookup_none named]
        exact S
      | some bo =>
        simp only [boLookup_some named]
        split
        · exact S.touch bo
        · exact (S.touch bo).become (.freeing file args.handle bo) (S.ok bo (inUse_named named))
            (fun _ => False.elim)
    · exact S
  | boInit t file args env =>
    unfold Concurrent.exec
    dsimp only
    split
    · generalize made : boInitMap m.dev file args env = r
      obtain ⟨dev, none | bo⟩ := r
      · obtain ⟨rc, rfl⟩ := boInitMap_none made
        exact S.of_quiet rc m.dev.engine
      · obtain ⟨rc, iommu, -, -, ok, done, rfl⟩ := boInitMap_some made
        have ok : BufferOk bo := ok.of_range S.window.1.symm S.window.2.symm
        refine Sound.become_mapped (S.of_dev _ ?_ ?_ ?_ ?_) (.publishing file bo env.handle) trivial ?_
        · rfl
        · exact ⟨rfl, rfl⟩
        · exact fun e he => .inl ⟨e, he, rfl⟩
        · exact fun other used => (S.resident other used).map done
        · rintro other rfl
          exact ⟨ok, resident_mapped ok done⟩
    · exact S
  | submit t file args =>
    unfold Concurrent.exec
    dsimp only
    split
    · split
      · exact S
      · next accepted =>
        refine S.become _ ⟨accepted, fun _ => rfl, fun impossible => ?_⟩ ?_
        · exact absurd impossible (lt_irrefl 0)
        · rintro bo ⟨b, found⟩
          cases found
    · exact S
  | step t status => exact S.stepThread status orderly

end Steps

theorem sound_quiet {dev : Device} (inv : Inv dev) (hw : dev.hw = aneHwH13) : Sound (quiet dev) := by
  have window : (quiet dev).dev.mm.start = (aneIommuDomainInit aneHwH13).start ∧
      (quiet dev).dev.mm.size = (aneIommuDomainInit aneHwH13).size := by
    have := inv.bosOk.window
    rw [hw] at this
    exact this
  have alive : ∀ bo, InUse (quiet dev) bo → bo ∈ dev.bos := by
    rintro bo (⟨e, he, rfl⟩ | ⟨t, used⟩ | ⟨j, mem, _⟩)
    · exact inv.handlesOk.alive e he
    · exact used.elim
    · cases mem
  refine ⟨hw, window, ?_, ?_, fun _ => trivial, fun j mem => by cases mem⟩
  · intro bo used
    exact (inv.bosOk.ok bo (alive bo used)).of_range window.1.symm window.2.symm
  · intro bo used i hi
    have here : i < bo.pages.length := by
      rw [(inv.bosOk.ok bo (alive bo used)).pages]
      exact hi
    exact ⟨bo.pages.getD i 0, by simp [here],
      (inv.bosOk.table _ _).mpr ⟨bo, alive bo used, i, hi, rfl, rfl⟩⟩

/-- From the push of a job until it is seen to complete, the engine reaches the
buffers its handles named and nothing else, in every run of orderly steps. -/
theorem in_flight_mapped (regs : RegFile) (history : List Op) (ops : List ThreadOp)
    (orderly : AllSteps exec Orderly (quiet (run Driver.exec (probed aneHwH13 regs) history)) ops) :
    AllStates exec InFlightMapped (quiet (run Driver.exec (probed aneHwH13 regs) history)) ops := by
  have sound : AllStates exec Sound (quiet (run Driver.exec (probed aneHwH13 regs) history)) ops :=
    allStates_of_allSteps (fun m op S admitted => S.exec op admitted)
      (sound_quiet (inv_run aneHwH13 regs history) (run_hw aneHwH13 regs history)) orderly
  exact sound.mono fun m S => S.inFlightMapped

/-- Thread 0 submits a job, microcode and bootstrap in that buffer, up to the lock. -/
def validate : List ThreadOp :=
  let handles : Nat → UInt32 := fun b => if b = 0 then 1 else 0
  .submit 0 0 ⟨0x274, 1, 0x274, handles, 1, 0⟩ :: List.replicate 0x21 (.step 0 (.ok ()))

def lockAndPush : List ThreadOp := List.replicate 3 (.step 0 (.ok ()))

/-- Thread 1 creates a second buffer and begins to free it. -/
def createAndDelete : List ThreadOp :=
  [.boInit 1 0 ⟨0, 0x4000⟩ (.served 0x8000 [8] 2), .step 1 (.ok ()), .boFree 1 0 ⟨2, 0⟩,
    .step 1 (.ok ())]

/-- Thread 1 frees the buffer. -/
def freeBuffer : List ThreadOp := .boFree 1 0 ⟨1, 0⟩ :: List.replicate 2 (.step 1 (.ok ()))

/-- `Orderly` for runs in which no thread unmaps, to be evaluated. -/
def orderlyWithoutUnmap (m : Machine) : ThreadOp → Bool
  | .step t _ =>
    match m.threads t with
    | .unmapping _ => false
    | .looking job bdx => bdx ≠ cmdBufBdx ||
      (m.dev.named job.file (job.args.handles cmdBufBdx)).all fun cmd =>
        decide (roundUp job.args.tskSize aneCmdGran < shiftPages cmd.npages)
    | _ => true
  | _ => true

theorem orderly_of_withoutUnmap (m : Machine) (op : ThreadOp) (h : orderlyWithoutUnmap m op = true) :
    Orderly m op := by
  cases op with
  | step t status =>
    simp only [orderlyWithoutUnmap, Orderly] at h ⊢
    cases at_ : m.threads t with
    | unmapping bo => simp [at_] at h
    | looking job bdx =>
      simp only [at_] at h ⊢
      intro first cmd named _
      simpa [first, named] using h
    | _ => trivial
  | _ => trivial

/-- The engine is at work for thread 0, and the first page of the bootstrap buffer is
mapped if it should be. -/
def pollingWithBoot (m : Machine) (mapped : Bool) : Bool :=
  match m.threads 0 with
  | .polling _ btsp =>
    decide (0 < btsp.npages.toNat) && (m.dev.iommu btsp.iova.toNat).isSome == mapped
  | _ => false

theorem inFlight_of_polling {m : Machine} {mapped : Bool} (h : pollingWithBoot m mapped = true) :
    ∃ job btsp, InFlight m job btsp ∧ 0 < btsp.npages.toNat ∧
      (m.dev.iommu btsp.iova.toNat).isSome = mapped := by
  unfold pollingWithBoot at h
  split at h
  · next job btsp at_ =>
    simp only [Bool.and_eq_true, decide_eq_true_eq, beq_iff_eq] at h
    exact ⟨job, btsp, .inl ⟨0, at_⟩, h⟩
  · cases h

/-- The other thread creates a buffer between the lookups and the push, and deletes its handle. -/
theorem in_flight_mapped_created :
    let m := run exec clientWithBuffer (validate ++ createAndDelete ++ lockAndPush)
    m.dev.bos.length = 2 ∧ m.dev.handles.length = 1 ∧
      ∃ job btsp, InFlight m job btsp ∧ JobMapped m.dev job btsp := by
  intro m
  have checked : AllSteps exec (fun m op => orderlyWithoutUnmap m op = true) clientWithBuffer
      (validate ++ createAndDelete ++ lockAndPush) := by
    decide +kernel
  have polling : pollingWithBoot m true = true := by decide +kernel
  obtain ⟨job, btsp, flying, -⟩ := inFlight_of_polling polling
  have mapped := in_flight_mapped (fun _ => 0) (oneBuffer 0x4000)
    (validate ++ createAndDelete ++ lockAndPush) (checked.mono orderly_of_withoutUnmap)
  exact ⟨by decide +kernel, by decide +kernel, job, btsp, flying, mapped.last job btsp flying⟩

/-- The buffer is freed between the lookups and the push. -/
theorem not_inFlightMapped_freeBuffer :
    ¬ ∀ ops, AllStates exec InFlightMapped clientWithBuffer ops := by
  intro mapped
  have polling : pollingWithBoot
      (run exec clientWithBuffer (validate ++ freeBuffer ++ lockAndPush)) false = true := by
    decide +kernel
  obtain ⟨job, btsp, flying, pages, unmapped⟩ := inFlight_of_polling polling
  have last := (mapped (validate ++ freeBuffer ++ lockAndPush)).last job btsp flying
  obtain ⟨p, -, page⟩ := last.btsp.2.2 0 pages
  rw [Nat.zero_mul, Nat.add_zero] at page
  rw [page] at unmapped
  cases unmapped

end Ane.Concurrent
