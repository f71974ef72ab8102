import Ane.Concurrent
import Ane.Mapping

/-! The window of device addresses. The driver means to stay one page below the
limit of the descriptor, but hands the allocator the end of the window where it
expects a size, so the managed range has one page more than that. Only a buffer that
gets this last page leaves the window. -/
namespace Ane.Driver
open PageTable RangeAllocator Runs TaskManager
open Concurrent (boInitMap boInitMap_some)

/-- The end of the window: one page short of the limit. -/
def windowTop (hw : AneHw) : Nat := hw.vmBase.toNat + hw.vmSize.toNat - 2 ^ 14

structure InWindow (hw : AneHw) (bo : AneBo) : Prop where
  first : hw.vmBase.toNat ≤ bo.range.1
  last : bo.range.2 ≤ windowTop hw

/-- Every buffer that this operation maps, whether or not it then gets a handle, is
in the window. -/
def MapsInWindow (dev : Device) (op : Op) : Prop :=
  ∀ file wake args env dev' bo, op = .ioctl file wake (.boInit args env) →
    boInitMap (pmRuntimeResumeAndGet dev wake).1 file args env = (dev', some bo) →
    InWindow dev.hw bo

/-- The range that the allocator proposes to `aneBoInit` is not the very end of what
it manages. -/
def SparesLastPage (dev : Device) : Op → Prop
  | .ioctl _ _ (.boInit args env) => ∀ start, env.node = some start →
      start.toNat + (shiftPages (roundUp args.size pageSize >>> 14).toUInt32).toNat ≠ dev.mm.stop
  | _ => True

section Window
variable {dev dev' : Device} {file : FileId} {args : DrmAneBoInit} {env : BoInitEnv} {bo : AneBo}

/-- The managed range ends one page above the window. -/
theorem windowTop_stop (bos : BosOk dev) (installed : dev.hw = aneHwH13 ∨ dev.hw = aneHwH14) :
    dev.mm.stop = windowTop dev.hw + 2 ^ 14 := by
  rw [bos.stop]
  obtain hw | hw := installed <;> rw [hw] <;> rfl

/-- A buffer is in the window unless it has the last page of the managed range. -/
theorem BoOk.inWindow_iff (ok : BoOk dev.mm bo) (bos : BosOk dev)
    (installed : dev.hw = aneHwH13 ∨ dev.hw = aneHwH14) :
    InWindow dev.hw bo ↔ bo.node.stop ≠ dev.mm.stop := by
  have stop := windowTop_stop bos installed
  have page : windowTop dev.hw % 2 ^ 14 = 0 := by
    obtain hw | hw := installed <;> rw [hw] <;> rfl
  have first := ok.first
  have last := ok.last
  have aligned := ok.aligned
  rw [ok.node_stop]
  constructor
  · rintro ⟨-, below⟩
    simp only [AneBo.range] at below
    omega
  · intro spared
    refine ⟨?_, ?_⟩
    · rwa [← bos.window.1]
    · simp only [AneBo.range]
      omega

theorem boInitMap_inWindow (bos : BosOk dev) (installed : dev.hw = aneHwH13 ∨ dev.hw = aneHwH14)
    (spared : ∀ start, env.node = some start →
      start.toNat + (shiftPages (roundUp args.size pageSize >>> 14).toUInt32).toNat ≠ dev.mm.stop)
    (mapped : boInitMap dev file args env = (dev', some bo)) : InWindow dev.hw bo := by
  obtain ⟨rc, iommu, ⟨pick, npages⟩, -, ok, -⟩ := boInitMap_some mapped
  refine (ok.inWindow_iff bos installed).mpr ?_
  rw [Node.stop, AneBo.node, npages]
  exact spared bo.iova pick

/-- A completed `aneBoInit` publishes the buffer it mapped. -/
theorem aneBoInit_boInitMap {handle : UInt32} {offset : UInt64}
    (h : aneBoInit dev file args env = (dev', .ok (handle, offset))) :
    ∃ dev₁ bo, boInitMap dev file args env = (dev₁, some bo) ∧ dev'.bos = bo :: dev.bos := by
  obtain ⟨⟨pad, alloc, gem⟩, pages, inRange, paged, result⟩ := aneBoInit_reached h
  unfold aneBoInitMapped at result
  split at result
  · cases result
  next dev₁ bo mapped =>
  refine ⟨{ dev₁ with nextBo := dev₁.nextBo + 1 }, bo, ?_, ?_⟩
  · simp [boInitMap, pad, alloc, gem, inRange, paged, mapped]
  · obtain ⟨node, iommu, -, -, -, -, -, rfl⟩ := aneIommuMapPages_ok mapped
    split at result
    · cases result
    next handle₁ dev₂ made =>
    obtain ⟨-, -, rfl⟩ := drmGemHandleCreate_eq_some made
    cases result
    rw [drmGemObjectPut_eq]
    rfl

theorem Change.bos_subset {op : Op} (step : Change dev op dev')
    (other : ∀ file wake args env, op ≠ .ioctl file wake (.boInit args env)) :
    ∀ bo ∈ dev'.bos, bo ∈ dev.bos := by
  intro bo hb
  cases step with
  | quiet => exact hb
  | opened => exact hb
  | created => exact absurd rfl (other _ _ _ _)
  | freed => exact List.mem_of_mem_filter hb
  | closed => exact hb

/-- What one operation adds to the buffers alive is what it mapped. -/
theorem exec_bos (inv : Inv dev) (op : Op) (mapped : MapsInWindow dev op)
    (window : ∀ bo ∈ dev.bos, InWindow dev.hw bo) :
    ∀ bo ∈ (exec dev op).bos, InWindow dev.hw bo := by
  intro bo hb
  by_cases init : ∃ file wake args env, op = .ioctl file wake (.boInit args env)
  · obtain ⟨file, wake, args, env, rfl⟩ := init
    generalize awake : (pmRuntimeResumeAndGet dev wake).1 = dev₀
    have same : dev₀.bos = dev.bos := by
      rw [← awake]
      cases wake <;> rfl
    have grown : bo ∈ dev.bos ∨ bo ∈ (aneBoInit dev₀ file args env).1.bos := by
      simp only [exec] at hb
      split at hb
      · simp only [aneDrmUnlockedIoctl, awake] at hb
        split at hb
        · exact .inl (same ▸ hb)
        · exact .inr hb
      · exact .inl hb
    obtain old | new := grown
    · exact window bo old
    · generalize result : aneBoInit dev₀ file args env = r at new
      obtain ⟨dev₁, err | ⟨handle, offset⟩⟩ := r
      · obtain ⟨rc, -, rfl⟩ := aneBoInit_error result
        exact window bo (same ▸ new)
      · obtain ⟨dev₂, made, done, bos⟩ := aneBoInit_boInitMap result
        simp only [bos] at new
        obtain rfl | old := List.mem_cons.mp new
        · exact mapped file wake args env dev₂ bo rfl (awake.symm ▸ done)
        · exact window bo (same ▸ old)
  · have other : ∀ file wake args env, op ≠ .ioctl file wake (.boInit args env) := by
      rintro file wake args env rfl
      exact init ⟨file, wake, args, env, rfl⟩
    exact window bo ((exec_change inv.nodes op).bos_subset other bo hb)

/-- An operation whose range spares the last page maps inside the window. -/
theorem mapsInWindow (inv : Inv dev) (installed : dev.hw = aneHwH13 ∨ dev.hw = aneHwH14) {op : Op}
    (spared : SparesLastPage dev op) : MapsInWindow dev op := by
  rintro file wake args env dev' bo rfl mapped
  generalize awake : (pmRuntimeResumeAndGet dev wake).1 = dev₀ at mapped
  have same : BosOk dev₀ ∧ dev₀.hw = dev.hw ∧ dev₀.mm = dev.mm := by
    rw [← awake]
    cases wake <;> exact ⟨{ inv.bosOk with }, rfl, rfl⟩
  obtain ⟨bos, hw, mm⟩ := same
  rw [← hw] at installed ⊢
  refine boInitMap_inWindow bos installed ?_ mapped
  rw [mm]
  exact spared

end Window

/-- In every run whose allocations spare the last page of the managed range, every
buffer that is ever mapped lies in the window. -/
theorem bos_in_window {entry : String × AneHw} (bound : entry ∈ aneOfMatch) (regs : RegFile)
    (ops : List Op) (spared : AllSteps exec SparesLastPage (probed entry.2 regs) ops) :
    AllSteps exec MapsInWindow (probed entry.2 regs) ops ∧
      AllStates exec (fun dev => ∀ bo ∈ dev.bos, InWindow entry.2 bo) (probed entry.2 regs) ops := by
  let I (dev : Device) : Prop :=
    (Inv dev ∧ dev.hw = entry.2) ∧ ∀ bo ∈ dev.bos, InWindow entry.2 bo
  have start : I (probed entry.2 regs) := ⟨⟨inv_probed _ _, rfl⟩, by simp [probed]⟩
  have step : ∀ dev op, I dev → SparesLastPage dev op → I (exec dev op) ∧ MapsInWindow dev op := by
    rintro dev op ⟨⟨inv, hw⟩, window⟩ spares
    have installed : dev.hw = aneHwH13 ∨ dev.hw = aneHwH14 := hw ▸ aneOfMatch_cases bound
    have mapped := mapsInWindow inv installed spares
    have kept := exec_bos inv op mapped (hw.symm ▸ window)
    exact ⟨⟨⟨inv.exec op, (exec_hw inv op).trans hw⟩, hw ▸ kept⟩, mapped⟩
  refine ⟨allSteps_of_allSteps step start spared, ?_⟩
  have states := allStates_of_allSteps (fun dev op h spares => (step dev op h spares).1) start spared
  exact states.mono fun dev h => h.2

instance (dev : Device) (op : Op) : Decidable (SparesLastPage dev op) :=
  match op with
  | .ioctl _ _ (.boInit args ⟨_, _, _, _, _, some start, _, _, _⟩) =>
    decidable_of_iff
      (start.toNat + (shiftPages (roundUp args.size pageSize >>> 14).toUInt32).toNat ≠ dev.mm.stop)
      (by simp [SparesLastPage])
  | .ioctl _ _ (.boInit args ⟨_, _, _, _, _, none, _, _, _⟩) => .isTrue (by simp [SparesLastPage])
  | .openFile _ | .close _ _ | .runtimeResume | .ioctl _ _ .info | .ioctl _ _ (.boFree _)
  | .ioctl _ _ (.submit _ _) => .isTrue trivial

theorem bos_in_window_placed :
    ((run exec (probed aneHwH13 fun _ => 0) (oneBuffer 0xdfffc000)).bos.map AneBo.range =
        [(0xdfffc000, 0xe0000000)]) ∧
      AllStates exec (fun dev => ∀ bo ∈ dev.bos, InWindow aneHwH13 bo)
        (probed aneHwH13 fun _ => 0) (oneBuffer 0xdfffc000) :=
  ⟨by decide, (bos_in_window (show ("apple,t8103-ane", aneHwH13) ∈ aneOfMatch by simp [aneOfMatch])
    (fun _ => 0) (oneBuffer 0xdfffc000) (by decide)).2⟩

/-- The allocator may give out the page between the window and the limit. -/
theorem not_inWindow_lastPage :
    ¬ ∀ ops, AllStates exec (fun dev => ∀ bo ∈ dev.bos, InWindow aneHwH13 bo)
      (probed aneHwH13 fun _ => 0) ops := by
  intro states
  have last := (states (oneBuffer 0xe0000000)).last
  have ranges : (run exec (probed aneHwH13 fun _ => 0) (oneBuffer 0xe0000000)).bos.map AneBo.range =
      [(0xe0000000, 0xe0004000)] := by decide
  obtain ⟨bo, hb, range⟩ := List.mem_map.mp (ranges ▸ List.mem_singleton_self _)
  have top := (last bo hb).last
  rw [range] at top
  exact absurd top (by decide)

end Ane.Driver
