import Ane.Driver
import Mathlib.Data.Nat.Bitwise

/-! What one call of the driver can do to the device. Each function has one
description here, failures included, and `exec_change` collects them: whatever an
operation is, it changes the device in one of five ways. -/
namespace Ane.Driver
open PageTable RangeAllocator TaskManager

theorem or_pow_sub_one (a k : Nat) : a ||| (2 ^ k - 1) = a / 2 ^ k * 2 ^ k + (2 ^ k - 1) := by
  have pos : 0 < 2 ^ k := Nat.two_pow_pos k
  rw [Nat.mul_comm, Nat.two_pow_add_eq_or_of_lt (by omega : 2 ^ k - 1 < 2 ^ k)]
  apply Nat.eq_of_testBit_eq
  intro i
  simp only [Nat.testBit_or, Nat.testBit_two_pow_sub_one, Nat.testBit_two_pow_mul]
  by_cases low : i < k
  · simp [low]
  · have high : k ≤ i := by omega
    simp [low, high, Nat.testBit_div_two_pow]

/-- The rounding is exact except that it wraps past the last multiple. -/
theorem roundUp_toNat {x y : UInt64} {k : Nat} (hk : k < 64) (hy : y.toNat = 2 ^ k) :
    (roundUp x y).toNat = (x.toNat + (2 ^ k - 1)) / 2 ^ k * 2 ^ k % 2 ^ 64 := by
  have pos : 0 < 2 ^ k := Nat.two_pow_pos k
  have whole : 2 ^ (64 - k) * 2 ^ k = 2 ^ 64 := by rw [← Nat.pow_add]; congr 1; omega
  have size : 2 ^ k < 2 ^ 64 := Nat.pow_lt_pow_right (by decide) hk
  have bound := x.toNat_lt
  have mask : (y - 1).toNat = 2 ^ k - 1 := by
    rw [UInt64.toNat_sub, hy]
    simp only [UInt64.reduceToNat]
    omega
  rw [roundUp, UInt64.toNat_add, UInt64.toNat_or, mask, or_pow_sub_one, Nat.add_assoc,
    UInt64.toNat_sub]
  simp only [UInt64.reduceToNat]
  rw [Nat.sub_add_cancel pos]
  by_cases zero : x.toNat = 0
  · have last : (2 ^ (64 - k) * 2 ^ k - 1) / 2 ^ k = 2 ^ (64 - k) - 1 := by
      rw [Nat.mul_comm, Nat.mul_sub_div _ _ _ (Nat.mul_pos pos (Nat.two_pow_pos _)),
        Nat.zero_div]
    have many : 0 < 2 ^ (64 - k) := Nat.two_pow_pos _
    have wrapped : (2 ^ 64 - 1 + x.toNat) % 2 ^ 64 = 2 ^ (64 - k) * 2 ^ k - 1 := by omega
    have none : (x.toNat + (2 ^ k - 1)) / 2 ^ k = 0 := Nat.div_eq_of_lt (by omega)
    rw [wrapped, last, none, ← Nat.add_one_mul, Nat.sub_add_cancel many, whole, Nat.zero_mul,
      Nat.mod_self, Nat.zero_mod]
  · have back : (2 ^ 64 - 1 + x.toNat) % 2 ^ 64 = x.toNat - 1 := by omega
    have next : x.toNat + (2 ^ k - 1) = x.toNat - 1 + 2 ^ k := by omega
    rw [back, next, Nat.add_div_right _ pos, Nat.succ_mul]

theorem shiftPages_toNat (x : UInt32) : (shiftPages x).toNat = x.toNat * 2 ^ 14 % 2 ^ 32 := by
  simp [shiftPages, pageShift, Nat.shiftLeft_eq]

theorem pageIova_toNat (iova : UInt64) (i : Nat) :
    pageIova iova i = (iova.toNat + i * 2 ^ 14 % 2 ^ 32) % 2 ^ 64 := by
  rw [pageIova, UInt64.toNat_add, shiftPages_toNat, UInt32.toNat_ofNat']
  omega

/-- The address of page 2^18 is that of page 0. -/
theorem pageIova_wraps (iova : UInt64) : pageIova iova (2 ^ 18) = pageIova iova 0 := by
  simp [pageIova_toNat]

section Map
variable {dev dev' : Device} {bo bo' : AneBo} {env : BoInitEnv} {err : Errno}

/-- A failed mapping leaves nothing behind. -/
theorem aneIommuMapPages_error (h : aneIommuMapPages dev bo env = (dev', .error err)) :
    dev' = dev := by
  unfold aneIommuMapPages at h
  split at h
  · cases h
    rfl
  · split at h
    · cases h
      rfl
    · split at h
      · cases h
        rfl
      · next node mm reserved =>
        obtain ⟨-, -, -, rfl⟩ := Allocator.insertNode_eq_some reserved
        dsimp only at h
        split at h
        · cases h
        · next i iommu failed =>
          cases h
          rw [Allocator.removeNode_insertNode, unmapBelow_mapCells failed]
          rfl

theorem aneIommuMapPages_ok (h : aneIommuMapPages dev bo env = (dev', .ok bo')) :
    ∃ node iommu, env.node = some node.start ∧ node.size = shiftPages bo.npages ∧
      dev.mm.Free pageSize node ∧
      Mapped (pageIova node.start) (fun i => bo.pages.getD i 0) bo.npages.toNat 0
        dev.iommu iommu ∧
      bo' = { bo with mm := some node, iova := node.start } ∧
      dev' = { dev with mm := { dev.mm with nodes := node :: dev.mm.nodes }, iommu := iommu } := by
  unfold aneIommuMapPages at h
  split at h
  · cases h
  · split at h
    · cases h
    · split at h
      · cases h
      · next node mm reserved =>
        obtain ⟨pick, size, free, rfl⟩ := Allocator.insertNode_eq_some reserved
        dsimp only at h
        split at h
        · next iommu done =>
          cases h
          exact ⟨node, iommu, pick, size, free, mapCells_ok done, rfl, rfl⟩
        · cases h

end Map

/-- The range reserved for a buffer. -/
def AneBo.node (bo : AneBo) : Node := ⟨bo.iova, shiftPages bo.npages⟩

/-- A buffer that some `aneBoInit` completed within the managed range `mm`. -/
structure BoOk (mm : Allocator) (bo : AneBo) : Prop where
  mm_node : bo.mm = some bo.node
  npages_pos : 0 < bo.npages.toNat
  npages_lt : bo.npages.toNat < 2 ^ 18
  pages : bo.pages.length = bo.npages.toNat
  gemSize : bo.gemSize.toNat = bo.npages.toNat * 2 ^ 14
  covers : bo.requested.toNat ≤ bo.npages.toNat * 2 ^ 14
  aligned : bo.iova.toNat % 2 ^ 14 = 0
  first : mm.start.toNat ≤ bo.iova.toNat
  last : bo.iova.toNat + bo.npages.toNat * 2 ^ 14 ≤ mm.stop

section Sizes
variable {mm : Allocator} {bo : AneBo}

theorem BoOk.node_size (ok : BoOk mm bo) : bo.node.size.toNat = bo.npages.toNat * 2 ^ 14 := by
  have bound := ok.npages_lt
  rw [AneBo.node, shiftPages_toNat]
  omega

theorem BoOk.node_stop (ok : BoOk mm bo) :
    bo.node.stop = bo.iova.toNat + bo.npages.toNat * 2 ^ 14 := by
  rw [Node.stop, ok.node_size]
  rfl

theorem BoOk.node_used (ok : BoOk mm bo) : bo.node.size ≠ 0 := by
  intro zero
  have size := ok.node_size
  have pos := ok.npages_pos
  rw [zero] at size
  simp only [UInt64.toNat_zero] at size
  omega

theorem BoOk.pageIova (ok : BoOk mm bo) {i : Nat} (hi : i < bo.npages.toNat) :
    pageIova bo.iova i = bo.iova.toNat + i * 2 ^ 14 := by
  have bound := ok.npages_lt
  have last := ok.last
  have window := mm.window
  rw [pageIova_toNat, Nat.mod_eq_of_lt (by omega : i * 2 ^ 14 < 2 ^ 32)]
  refine Nat.mod_eq_of_lt ?_
  unfold Allocator.stop at last
  omega

/-- The addresses of the pages are the page-aligned addresses of the range. -/
theorem BoOk.contains_page (ok : BoOk mm bo) {i : Nat} (hi : i < bo.npages.toNat) :
    bo.node.Contains (bo.iova.toNat + i * 2 ^ 14) := by
  have stop := ok.node_stop
  refine ⟨Nat.le_add_right _ _, ?_⟩
  omega

end Sizes

/-- A reservation of a wrapped length cannot be filled: with 2^18 pages the length
is 0, with more the page 2^18 meets page 0. -/
theorem npages_lt_of_mapped {npages : UInt32} {node : Node} {mm : Allocator}
    {cell : Nat → Page} {t t' : Table Nat Page} (size : node.size = shiftPages npages)
    (free : mm.Free pageSize node)
    (mapped : Mapped (pageIova node.start) cell npages.toNat 0 t t') :
    0 < npages.toNat ∧ npages.toNat < 2 ^ 18 := by
  have used : (shiftPages npages).toNat ≠ 0 := fun zero =>
    free.1 (size.trans (UInt64.toNat_inj.mp zero))
  rw [shiftPages_toNat] at used
  have few : npages.toNat ≤ 2 ^ 18 := by
    by_contra many
    exact mapped.inj 0 (2 ^ 18) (le_refl 0) (by decide) (by omega)
      (pageIova_wraps node.start).symm
  refine ⟨?_, ?_⟩
  · by_contra none
    exact used (by simp [Nat.eq_zero_of_not_pos none])
  · by_contra exact18
    have eq : npages.toNat = 2 ^ 18 := by omega
    exact used (by rw [eq]; rfl)

/-- What a completed `aneBoInit` has made. -/
structure Created (dev : Device) (file : FileId) (size : UInt64) (handle : UInt32) (bo : AneBo)
    (iommu : Table Nat Page) : Prop where
  id : bo.id = dev.nextBo
  creator : bo.creator = file
  requested : bo.requested = size
  ok : BoOk dev.mm bo
  free : ∀ m ∈ dev.mm.nodes, bo.node.Disjoint m
  mapped : Mapped (pageIova bo.iova) (fun i => bo.pages.getD i 0) bo.npages.toNat 0 dev.iommu iommu
  handle_ne : handle ≠ 0
  fresh : dev.named file handle = none

/-- The device with a new buffer and its handle. -/
def Device.withBo (dev : Device) (file : FileId) (handle : UInt32) (bo : AneBo)
    (iommu : Table Nat Page) : Device :=
  { dev with
    mm := { dev.mm with nodes := bo.node :: dev.mm.nodes }
    iommu := iommu
    refcount := Function.update dev.refcount bo.id 1
    handles := ⟨file, handle, bo⟩ :: dev.handles
    bos := bo :: dev.bos
    nextBo := dev.nextBo + 1 }

section Init
variable {dev dev' : Device} {file : FileId} {args : DrmAneBoInit} {env : BoInitEnv}

theorem page_toNat (size : UInt64) : (size >>> 14).toNat = size.toNat / 2 ^ 14 := by
  rw [UInt64.toNat_shiftRight, Nat.shiftRight_eq_div_pow]
  rfl

/-- Below the limit on fake offsets the page count survives the cut to 32 bits. -/
theorem npages_exact {size : UInt64} {pick : Option UInt64} {offset : UInt64}
    (h : drmGemCreateMmapOffset size pick = some offset) :
    (size >>> 14).toUInt32.toNat = size.toNat / 2 ^ 14 := by
  unfold drmGemCreateMmapOffset at h
  split at h
  · next small =>
    have limit : drmFilePageOffsetSize < 2 ^ 32 := by decide
    rw [UInt64.toNat_toUInt32, page_toNat]
    rw [page_toNat] at small
    exact Nat.mod_eq_of_lt (by omega)
  · cases h

theorem drmGemGetPages_length {size : UInt64} {pick : Option (List Page)} {pages : List Page}
    (h : drmGemGetPages size pick = some pages) : pages.length = size.toNat / 2 ^ 14 := by
  have len := (Option.filter_eq_some_iff.mp h).2
  rw [← page_toNat]
  simpa using len

/-- The object size is a whole number of pages, and covers the request unless it
is 0. -/
theorem gemSize_spec (size : UInt64) :
    (roundUp size pageSize).toNat % 2 ^ 14 = 0 ∧
      ((roundUp size pageSize).toNat ≠ 0 → size.toNat ≤ (roundUp size pageSize).toNat) := by
  have rounded := roundUp_toNat (x := size) (y := pageSize) (k := 14) (by decide) rfl
  have bound := size.toNat_lt
  rw [rounded]
  omega

/-- A `aneBoInitMapped` that fails leaves the device as it was but for the count
of the object that is gone. -/
theorem aneBoInitMapped_error {bo : AneBo} {err : Errno}
    (h : aneBoInitMapped dev file bo env = (dev', .error err)) :
    ∃ rc : Nat → Nat, (∀ id, id ≠ bo.id → rc id = dev.refcount id) ∧
      dev' = { dev with refcount := rc } := by
  unfold aneBoInitMapped at h
  split at h
  · next failed =>
    cases h
    exact ⟨dev.refcount, fun _ _ => rfl, aneIommuMapPages_error failed⟩
  · next mapped =>
    obtain ⟨node, iommu, -, -, -, done, rfl, rfl⟩ := aneIommuMapPages_ok mapped
    split at h
    · -- no handle: the only reference is dropped, the pages unmapped, the range freed
      cases h
      refine ⟨Function.update dev.refcount bo.id (dev.refcount bo.id - 1),
        fun id other => Function.update_of_ne other _ _, ?_⟩
      have gone : drmGemObjectPut
          { dev with mm := { dev.mm with nodes := node :: dev.mm.nodes }, iommu := iommu }
          { bo with mm := some node, iova := node.start } =
          { dev with
            mm := { dev.mm with nodes := node :: dev.mm.nodes }, iommu := iommu
            refcount := Function.update dev.refcount bo.id (dev.refcount bo.id - 1) } :=
        ite_self _
      rw [gone]
      simp only [aneIommuUnmapPages, Allocator.removeNode_insertNode, unmapFrom_mapped done]
    · cases h

theorem aneBoInit_error {err : Errno} (h : aneBoInit dev file args env = (dev', .error err)) :
    ∃ rc : Nat → Nat, (∀ id, id ≠ dev.nextBo → rc id = dev.refcount id) ∧
      dev' = { dev with refcount := rc } := by
  have same : ∃ rc : Nat → Nat, (∀ id, id ≠ dev.nextBo → rc id = dev.refcount id) ∧
      dev = { dev with refcount := rc } := ⟨dev.refcount, fun _ _ => rfl, rfl⟩
  unfold aneBoInit at h
  split at h
  · cases h; exact same
  split at h
  · cases h; exact same
  split at h
  · cases h; exact same
  dsimp only at h
  split at h
  · cases h; exact same
  split at h
  · cases h; exact same
  · next pages _ =>
    generalize result : aneBoInitMapped _ file (newBo dev file args _ pages) env = r at h
    obtain ⟨dev₁, handle | err₁⟩ := r
    · cases h
      obtain ⟨rc, others, rfl⟩ := aneBoInitMapped_error result
      refine ⟨rc, fun id other => ?_, rfl⟩
      rw [others id other]
      exact Function.update_of_ne other _ _
    · cases h

theorem drmGemHandleCreate_eq_some {bo : AneBo} {pick : Option UInt32} {handle : UInt32}
    (h : drmGemHandleCreate dev file bo pick = some (handle, dev')) :
    handle ≠ 0 ∧ dev.named file handle = none ∧
      dev' = { dev.get bo with handles := ⟨file, handle, bo⟩ :: dev.handles } := by
  cases pick with
  | none => cases h
  | some candidate =>
    simp only [drmGemHandleCreate] at h
    split at h
    · cases h
    · next usable =>
      cases h
      obtain ⟨nonzero, unused⟩ := not_or.mp usable
      exact ⟨nonzero, by simpa using unused, rfl⟩

theorem aneBoInitMapped_ok {bo : AneBo} {handle : UInt32} (one : dev.refcount bo.id = 1)
    (h : aneBoInitMapped dev file bo env = (dev', .ok handle)) :
    ∃ node iommu, node.size = shiftPages bo.npages ∧ dev.mm.Free pageSize node ∧
      Mapped (pageIova node.start) (fun i => bo.pages.getD i 0) bo.npages.toNat 0
        dev.iommu iommu ∧ handle ≠ 0 ∧ dev.named file handle = none ∧
      dev' = dev.withBo file handle { bo with mm := some node, iova := node.start } iommu := by
  unfold aneBoInitMapped at h
  split at h
  · cases h
  · next mapped =>
    obtain ⟨node, iommu, -, size, free, done, rfl, rfl⟩ := aneIommuMapPages_ok mapped
    split at h
    · cases h
    · next candidate dev₁ made =>
      obtain ⟨nonzero, unused, rfl⟩ := drmGemHandleCreate_eq_some made
      cases h
      refine ⟨node, iommu, size, free, done, nonzero, unused, ?_⟩
      have range : node = ⟨node.start, shiftPages bo.npages⟩ := by rw [← size]
      simp [drmGemObjectPut, Device.get, Device.setRefcount, Device.withBo, AneBo.node, one,
        ← range]

/-- The object of a request whose offset and pages were granted. -/
theorem newBo_sizes (dev : Device) (file : FileId) {args : DrmAneBoInit} {pick : Option UInt64}
    {offset : UInt64} {pages : List Page} {pagePick : Option (List Page)}
    (inRange : drmGemCreateMmapOffset (roundUp args.size pageSize) pick = some offset)
    (paged : drmGemGetPages (roundUp args.size pageSize) pagePick = some pages) :
    let bo := newBo dev file args (roundUp args.size pageSize) pages
    bo.pages.length = bo.npages.toNat ∧ bo.gemSize.toNat = bo.npages.toNat * 2 ^ 14 ∧
      (0 < bo.npages.toNat → bo.requested.toNat ≤ bo.npages.toNat * 2 ^ 14) := by
  have exactPages := npages_exact inRange
  have rounded := gemSize_spec args.size
  refine ⟨(drmGemGetPages_length paged).trans exactPages.symm, ?_, ?_⟩ <;>
    simp only [newBo, exactPages] <;> omega

theorem boOk_of_mapped {mm : Allocator} {bo : AneBo} {node : Node} {cell : Nat → Page}
    {t t' : Table Nat Page} (size : node.size = shiftPages bo.npages)
    (free : mm.Free pageSize node)
    (done : Mapped (pageIova node.start) cell bo.npages.toNat 0 t t')
    (sizes : bo.pages.length = bo.npages.toNat ∧ bo.gemSize.toNat = bo.npages.toNat * 2 ^ 14 ∧
      (0 < bo.npages.toNat → bo.requested.toNat ≤ bo.npages.toNat * 2 ^ 14)) :
    BoOk mm { bo with mm := some node, iova := node.start } := by
  have few := npages_lt_of_mapped size free done
  have stop : node.stop = node.start.toNat + bo.npages.toNat * 2 ^ 14 := by
    rw [Node.stop, size, shiftPages_toNat]
    omega
  have range : node = ⟨node.start, shiftPages bo.npages⟩ := by rw [← size]
  obtain ⟨-, aligned, first, last, -⟩ := free
  exact ⟨congrArg some range, few.1, few.2, sizes.1, sizes.2.1, sizes.2.2 few.1, aligned, first,
    stop ▸ last⟩

/-- A completed `aneBoInit` got through every check and allocation. -/
theorem aneBoInit_reached {handle : UInt32} {offset : UInt64}
    (h : aneBoInit dev file args env = (dev', .ok (handle, offset))) :
    (args.pad = 0 ∧ env.boAlloc = true ∧ env.gemInit = true) ∧ ∃ pages,
      drmGemCreateMmapOffset (roundUp args.size pageSize) env.mmapOffset = some offset ∧
      drmGemGetPages (roundUp args.size pageSize) env.pages = some pages ∧
      aneBoInitMapped
        (dev.setRefcount (newBo dev file args (roundUp args.size pageSize) pages) 1) file
        (newBo dev file args (roundUp args.size pageSize) pages) env = (dev', .ok handle) := by
  unfold aneBoInit at h
  split at h
  · cases h
  next pad =>
  split at h
  · cases h
  next alloc =>
  split at h
  · cases h
  next gem =>
  dsimp only at h
  split at h
  · cases h
  next offset₁ inRange =>
  split at h
  · cases h
  next pages paged =>
  have checks : args.pad = 0 ∧ env.boAlloc = true ∧ env.gemInit = true :=
    ⟨by simpa using pad, by simpa using alloc, by simpa using gem⟩
  generalize result : aneBoInitMapped _ file (newBo dev file args _ pages) env = r at h
  obtain ⟨dev₁, err | handle₁⟩ := r
  · cases h
  cases h
  exact ⟨checks, pages, inRange, paged, result⟩

/-- A completed `aneBoInit` has added one buffer that covers the request, mapped
page by page into a range that was free. -/
theorem aneBoInit_ok {handle : UInt32} {offset : UInt64}
    (h : aneBoInit dev file args env = (dev', .ok (handle, offset))) :
    ∃ bo iommu, Created dev file args.size handle bo iommu ∧
      dev' = dev.withBo file handle bo iommu := by
  obtain ⟨-, pages, inRange, paged, result⟩ := aneBoInit_reached h
  have sizes := newBo_sizes dev file inRange paged
  have fresh : (newBo dev file args (roundUp args.size pageSize) pages).id = dev.nextBo ∧
      (newBo dev file args (roundUp args.size pageSize) pages).creator = file ∧
      (newBo dev file args (roundUp args.size pageSize) pages).requested = args.size :=
    ⟨rfl, rfl, rfl⟩
  dsimp only at sizes
  generalize newBo dev file args (roundUp args.size pageSize) pages = bo at result sizes fresh
  obtain ⟨node, iommu, size, free, done, nonzero, unused, rfl⟩ :=
    aneBoInitMapped_ok (Function.update_self _ _ _) result
  have range : node = ⟨node.start, shiftPages bo.npages⟩ := by rw [← size]
  have apart : ∀ m ∈ dev.mm.nodes, Node.Disjoint ⟨node.start, shiftPages bo.npages⟩ m := by
    rw [← range]
    exact free.2.2.2.2
  refine ⟨{ bo with mm := some node, iova := node.start }, iommu, ?_, ?_⟩
  · exact ⟨fresh.1, fresh.2.1, fresh.2.2, boOk_of_mapped size free done sizes, apart, done,
      nonzero, unused⟩
  · simp [Device.withBo, Device.setRefcount]

end Init

section Handles
variable {dev : Device} {file : FileId} {handle : UInt32} {bo : AneBo}

theorem named_eq_some (h : dev.named file handle = some bo) :
    ∃ e ∈ dev.handles, e.file = file ∧ e.handle = handle ∧ e.bo = bo := by
  obtain ⟨e, found, rfl⟩ := Option.map_eq_some_iff.mp h
  have key := List.find?_some found
  simp only [decide_eq_true_eq] at key
  exact ⟨e, List.mem_of_find?_eq_some found, key.1, key.2, rfl⟩

theorem named_eq_none (h : dev.named file handle = none) :
    ∀ e ∈ dev.handles, ¬ (e.file = file ∧ e.handle = handle) := by
  have absent := List.find?_eq_none.mp (Option.map_eq_none_iff.mp h)
  simpa using absent

/-- The object has no release callback, so dropping a reference only counts. -/
theorem drmGemObjectPut_eq (dev : Device) (bo : AneBo) :
    drmGemObjectPut dev bo = dev.setRefcount bo (dev.refcount bo.id - 1) := ite_self _

theorem drmGemHandleDelete_named (h : dev.named file handle = some bo) :
    drmGemHandleDelete dev file handle =
      { dev with
        handles := dev.handles.filter fun e => ¬ (e.file = file ∧ e.handle = handle)
        refcount := Function.update dev.refcount bo.id (dev.refcount bo.id - 1) } := by
  simp only [drmGemHandleDelete, h, drmGemObjectPut_eq]
  rfl

theorem drmGemHandleDelete_frame (dev : Device) (file : FileId) (handle : UInt32) :
    ∃ rc, drmGemHandleDelete dev file handle =
      { dev with
        handles := dev.handles.filter fun e => ¬ (e.file = file ∧ e.handle = handle)
        refcount := rc } := by
  cases h : dev.named file handle with
  | none =>
    refine ⟨dev.refcount, ?_⟩
    have all : (dev.handles.filter fun e => ¬ (e.file = file ∧ e.handle = handle)) =
        dev.handles := List.filter_eq_self.mpr fun e he => decide_eq_true (named_eq_none h e he)
    simp only [drmGemHandleDelete, h, all]
  | some bo => exact ⟨_, drmGemHandleDelete_named h⟩

/-- Other handles name what they named. -/
theorem named_deleted (dev : Device) {file' : FileId} {handle' : UInt32}
    (other : ¬ (file' = file ∧ handle' = handle)) :
    (drmGemHandleDelete dev file handle).named file' handle' = dev.named file' handle' := by
  obtain ⟨rc, frame⟩ := drmGemHandleDelete_frame dev file handle
  rw [frame]
  simp only [Device.named, List.find?_filter]
  congr 2
  funext e
  by_cases here : e.file = file' ∧ e.handle = handle'
  · obtain ⟨rfl, rfl⟩ := here
    simp [other]
  · simp [here]

theorem boLookup_none (h : dev.named file handle = none) :
    boLookup dev file handle = (none, dev) := by simp only [boLookup, h]

theorem boLookup_some (h : dev.named file handle = some bo) :
    boLookup dev file handle = (some bo, dev.get bo) := by simp only [boLookup, h]

/-- Closing a file takes all of its handles and nothing else but counts. -/
theorem drmRelease_frame (dev : Device) (file : FileId) (wake : Wake) :
    ∃ rc pm, drmRelease dev file wake =
      { dev with
        handles := dev.handles.filter fun e => e.file ≠ file
        files := dev.files.filter (· ≠ file)
        refcount := rc
        pmUsage := pm } := by
  have deleted (left : List HandleEntry) (dev : Device) :
      ∃ rc, left.foldl (fun dev e => drmGemHandleDelete dev file e.handle) dev =
        { dev with
          handles := dev.handles.filter fun e =>
            ∀ l ∈ left, ¬ (e.file = file ∧ e.handle = l.handle)
          refcount := rc } := by
    induction left generalizing dev with
    | nil => exact ⟨dev.refcount, by simp⟩
    | cons l left ih =>
      obtain ⟨rc, first⟩ := drmGemHandleDelete_frame dev file l.handle
      obtain ⟨rc', rest⟩ := ih (drmGemHandleDelete dev file l.handle)
      refine ⟨rc', ?_⟩
      rw [List.foldl_cons, rest, first]
      simp only [List.filter_filter, List.forall_mem_cons, Bool.decide_and, Bool.and_comm]
  obtain ⟨rc, gone⟩ := deleted (dev.handles.filter fun e => e.file = file) dev
  have kept : (dev.handles.filter fun e : HandleEntry =>
      decide (∀ l ∈ dev.handles.filter fun l : HandleEntry => l.file = file,
        ¬ (e.file = file ∧ e.handle = l.handle))) =
      dev.handles.filter fun e => e.file ≠ file := by
    refine List.filter_congr fun e he => ?_
    simp only [decide_eq_decide, List.mem_filter, decide_eq_true_eq]
    constructor
    · intro free mine
      exact free e ⟨he, mine⟩ ⟨mine, rfl⟩
    · intro other l hl mine
      exact other mine.1
  rw [kept] at gone
  cases wake with
  | ok _ => exact ⟨rc, _, by simp only [drmRelease, gone]; rfl⟩
  | error _ => exact ⟨rc, _, by simp only [drmRelease, gone]; rfl⟩

end Handles

/-- The device without a buffer and the handle it was freed through. -/
def Device.withoutBo (dev : Device) (file : FileId) (handle : UInt32) (bo : AneBo)
    (rc : Nat → Nat) : Device :=
  { dev with
    mm := dev.mm.removeNode bo.node
    iommu := unmapFrom (pageIova bo.iova) bo.npages.toNat 0 dev.iommu
    refcount := rc
    handles := dev.handles.filter fun e => ¬ (e.file = file ∧ e.handle = handle)
    bos := dev.bos.filter fun other => other.id ≠ bo.id }

section Free
variable {dev dev' : Device} {file : FileId} {args : DrmAneBoFree} {bo : AneBo}

theorem aneBoFree_unnamed (h : dev.named file args.handle = none) :
    aneBoFree dev file args = (dev, .error .EINVAL) := by
  simp only [aneBoFree, boLookup_none h]

/-- The lookup comes before the check of the padding and is not undone. -/
theorem aneBoFree_padded (h : dev.named file args.handle = some bo) (pad : args.pad ≠ 0) :
    aneBoFree dev file args = (dev.get bo, .error .EINVAL) := by
  simp only [aneBoFree, boLookup_some h, if_pos pad]

theorem aneBoFree_ok (h : dev.named file args.handle = some bo) (pad : args.pad = 0)
    (node : bo.mm = some bo.node) :
    aneBoFree dev file args =
      (dev.withoutBo file args.handle bo dev.refcount, .ok ()) := by
  have named : (dev.get bo).named file args.handle = some bo := h
  simp only [aneBoFree, boLookup_some h, pad, ne_eq, not_true_eq_false, if_false,
    drmGemHandleDelete_named named, aneIommuUnmapPages, node, kfree]
  simp [Device.withoutBo, Device.get, Device.setRefcount]

/-- A free fails and changes references at most, or takes the buffer its handle names. -/
theorem aneBoFree_cases (dev : Device) (nodes : ∀ e ∈ dev.handles, e.bo.mm = some e.bo.node)
    (file : FileId) (args : DrmAneBoFree) :
    (∃ rc, aneBoFree dev file args = ({ dev with refcount := rc }, .error .EINVAL)) ∨
      ∃ bo, dev.named file args.handle = some bo ∧
        aneBoFree dev file args = (dev.withoutBo file args.handle bo dev.refcount, .ok ()) := by
  cases named : dev.named file args.handle with
  | none => exact .inl ⟨_, aneBoFree_unnamed named⟩
  | some bo =>
    by_cases pad : args.pad = 0
    · obtain ⟨e, he, -, -, rfl⟩ := named_eq_some named
      exact .inr ⟨_, rfl, aneBoFree_ok named pad (nodes e he)⟩
    · exact .inl ⟨_, aneBoFree_padded named pad⟩

end Free

section Submit
variable {dev dev' : Device} {file : FileId} {args : DrmAneSubmit} {status : Status}

/-- The handle loop takes references and changes nothing else. -/
theorem submitBars_frame (file : FileId) (args : DrmAneSubmit) (left bdx : Nat)
    (bar : Nat → UInt64) (dev : Device) :
    ∃ rc, (submitBars file args left bdx bar dev).1 = { dev with refcount := rc } := by
  induction left generalizing bdx bar dev with
  | zero => exact ⟨dev.refcount, rfl⟩
  | succ left ih =>
    unfold submitBars
    split
    · cases h : dev.named file (args.handles bdx) with
      | none => exact ⟨dev.refcount, by rw [boLookup_none h]⟩
      | some bo =>
        rw [boLookup_some h]
        dsimp only
        split
        · exact ⟨_, rfl⟩
        · exact ih (bdx + 1) _ (dev.get bo)
    · exact ih (bdx + 1) bar dev

/-- Address `b` of a request comes from the buffer its handle names. -/
def BarOf (dev : Device) (file : FileId) (args : DrmAneSubmit) (b : Nat) (iova : UInt64) : Prop :=
  if args.handles b = 0 then iova = 0
  else ∃ bo, dev.named file (args.handles b) = some bo ∧ ¬ barRejected dev.hw args b bo ∧
    iova = bo.iova

theorem submitBars_ok {left bdx : Nat} {bar bar' : Nat → UInt64}
    (h : submitBars file args left bdx bar dev = (dev', .ok bar')) :
    (∀ b, b < bdx → bar' b = bar b) ∧
      ∀ b, bdx ≤ b → b < bdx + left → bar b = 0 → BarOf dev file args b (bar' b) := by
  induction left generalizing bdx bar dev with
  | zero =>
    cases h
    exact ⟨fun b _ => rfl, fun b low high => by omega⟩
  | succ left ih =>
    unfold submitBars at h
    split at h
    · next used =>
      cases named : dev.named file (args.handles bdx) with
      | none =>
        rw [boLookup_none named] at h
        cases h
      | some bo =>
        rw [boLookup_some named] at h
        dsimp only at h
        split at h
        · cases h
        · next accepted =>
          obtain ⟨below, above⟩ := ih h
          refine ⟨?_, ?_⟩
          · intro b hb
            rw [below b (by omega), Function.update_of_ne (by omega)]
          · intro b low high zero
            obtain rfl | later := Nat.eq_or_lt_of_le low
            · rw [BarOf, if_neg used]
              refine ⟨bo, named, accepted, ?_⟩
              rw [below bdx (by omega), Function.update_self]
            · apply above b later (by omega)
              rw [Function.update_of_ne (by omega), zero]
    · next unused =>
      have none : args.handles bdx = 0 := by simpa using unused
      obtain ⟨below, above⟩ := ih h
      refine ⟨fun b hb => below b (by omega), ?_⟩
      intro b low high zero
      obtain rfl | later := Nat.eq_or_lt_of_le low
      · rw [BarOf, if_pos none, below bdx (by omega), zero]
      · exact above b later (by omega) zero

/-- The lookups of a submission that passed every check. -/
structure Validated (dev : Device) (file : FileId) (args : DrmAneSubmit) (bar : Nat → UInt64)
    (btsp : AneBo) : Prop where
  accepted : ¬ submitArgsRejected args
  bars : ∀ b < dev.hw.barCount, BarOf dev file args b (bar b)
  named : dev.named file args.btspHandle = some btsp
  low : ¬ iovaRejected dev.hw btsp

/-- Validation fails with nothing but references taken, or makes a request. -/
theorem submitValidate_cases (dev : Device) (file : FileId) (args : DrmAneSubmit) :
    (∃ rc err, submitValidate dev file args = ({ dev with refcount := rc }, .error err)) ∨
      ∃ rc bar btsp, Validated dev file args bar btsp ∧
        submitValidate dev file args =
          ({ dev with refcount := rc }, .ok (submitRequest args bar btsp)) := by
  unfold submitValidate
  split
  · exact .inl ⟨dev.refcount, _, rfl⟩
  next accepted =>
  obtain ⟨rc, frame⟩ := submitBars_frame file args dev.hw.barCount 0 (fun _ => 0) dev
  generalize looked : submitBars file args dev.hw.barCount 0 (fun _ => 0) dev = r at frame ⊢
  obtain ⟨dev₁, err | bar⟩ := r
  · exact .inl ⟨rc, err, congrArg (·, _) frame⟩
  · dsimp only at frame ⊢
    subst frame
    have bars := (submitBars_ok looked).2
    cases h : Device.named { dev with refcount := rc } file args.btspHandle with
    | none => exact .inl ⟨rc, _, by rw [boLookup_none h]⟩
    | some btsp =>
      rw [boLookup_some h]
      dsimp only
      split
      · exact .inl ⟨_, _, rfl⟩
      · next low =>
        refine .inr ⟨_, bar, btsp, ⟨accepted, ?_, h, low⟩, rfl⟩
        intro b hb
        exact bars b (Nat.zero_le b) (by omega) rfl

theorem submitValidate_ok {req : AneRequest}
    (h : submitValidate dev file args = (dev', .ok req)) :
    ∃ rc bar btsp, Validated dev file args bar btsp ∧ dev' = { dev with refcount := rc } ∧
      req = submitRequest args bar btsp := by
  obtain ⟨rc, err, failed⟩ | ⟨rc, bar, btsp, valid, passed⟩ := submitValidate_cases dev file args
  · rw [failed] at h
    cases h
  · rw [passed] at h
    cases h
    exact ⟨rc, bar, btsp, valid, rfl, rfl⟩

/-- A submission is rejected with nothing but references taken, or it is executed. -/
theorem aneSubmit_cases (dev : Device) (file : FileId) (args : DrmAneSubmit) (status : Status) :
    (∃ rc err, aneSubmit dev file args status = ({ dev with refcount := rc }, .error err)) ∨
      ∃ rc bar btsp, Validated dev file args bar btsp ∧
        aneSubmit dev file args status =
          submitExecute { dev with refcount := rc } (submitRequest args bar btsp) status := by
  unfold aneSubmit
  obtain ⟨rc, err, failed⟩ | ⟨rc, bar, btsp, valid, passed⟩ := submitValidate_cases dev file args
  · exact .inl ⟨rc, err, by rw [failed]⟩
  · exact .inr ⟨rc, bar, btsp, valid, by rw [passed]⟩

theorem submitExecute_frame (dev : Device) (req : AneRequest) (status : Status) :
    ∃ engine, (submitExecute dev req status).1 = { dev with engine := engine } := by
  unfold submitExecute
  split <;> exact ⟨_, rfl⟩

/-- The engine after an H13 submission. -/
def h13Submitted (e : Engine) (req : AneRequest) (status : Status) : Engine :=
  (H13.aneH13TmExecute (H13.aneH13TmEnqueue e req).1 req status).1

theorem submitExecute_h13 (hw : dev.hw = aneHwH13) (req : AneRequest) (status : Status) :
    (submitExecute dev req status).1 = { dev with engine := h13Submitted dev.engine req status } := by
  have enqueue : dev.hw.tmEnqueue = H13.aneH13TmEnqueue := by rw [hw]; rfl
  have execute : dev.hw.tmExecute = H13.aneH13TmExecute := by rw [hw]; rfl
  unfold submitExecute
  rw [enqueue, execute]
  rfl

theorem aneSubmit_frame (dev : Device) (file : FileId) (args : DrmAneSubmit) (status : Status) :
    ∃ rc engine, (aneSubmit dev file args status).1 =
      { dev with refcount := rc, engine := engine } := by
  obtain ⟨rc, err, rejected⟩ | ⟨rc, bar, btsp, -, executed⟩ := aneSubmit_cases dev file args status
  · exact ⟨rc, dev.engine, by rw [rejected]⟩
  · obtain ⟨engine, done⟩ :=
      submitExecute_frame { dev with refcount := rc } (submitRequest args bar btsp) status
    exact ⟨rc, engine, by rw [executed, done]⟩

end Submit

/-- The ways in which an operation changes the device. -/
inductive Change (dev : Device) : Op → Device → Prop
  | quiet (op : Op) (rc : Nat → Nat) (engine : Engine) (pm : Int) :
      Change dev op { dev with refcount := rc, engine := engine, pmUsage := pm }
  | opened (wake : Wake) (pm : Int) :
      Change dev (.openFile wake)
        { dev with files := dev.nextFile :: dev.files, nextFile := dev.nextFile + 1, pmUsage := pm }
  | created (wake : Wake) (pm : Int) {file : FileId} {args : DrmAneBoInit} {env : BoInitEnv}
      {handle : UInt32} {bo : AneBo} {iommu : Table Nat Page} (client : file ∈ dev.files)
      (made : Created dev file args.size handle bo iommu) :
      Change dev (.ioctl file wake (.boInit args env))
        { dev.withBo file handle bo iommu with pmUsage := pm }
  | freed (wake : Wake) (rc : Nat → Nat) (pm : Int) {file : FileId} {args : DrmAneBoFree}
      {bo : AneBo} (named : dev.named file args.handle = some bo) :
      Change dev (.ioctl file wake (.boFree args))
        { dev.withoutBo file args.handle bo rc with pmUsage := pm }
  | closed (file : FileId) (wake : Wake) (rc : Nat → Nat) (pm : Int) (client : file ∈ dev.files) :
      Change dev (.close file wake)
        { dev with
          handles := dev.handles.filter fun e => e.file ≠ file
          files := dev.files.filter (· ≠ file)
          refcount := rc
          pmUsage := pm }

theorem Change.hw {dev dev' : Device} {op : Op} (h : Change dev op dev') : dev'.hw = dev.hw := by
  cases h <;> rfl

theorem drmOpen_error (dev : Device) (err : Errno) :
    drmOpen dev (.error err) = pmRuntimePutAutosuspend dev := by
  have hook : aneDrmOpen dev (.error err) = (pmRuntimePutAutosuspend dev, .error err) :=
    ite_self _
  simp only [drmOpen, hook]

theorem drmOpen_change (dev : Device) (wake : Wake) :
    Change dev (.openFile wake) (drmOpen dev wake) := by
  cases wake with
  | ok _ => exact .opened _ _
  | error err =>
    rw [drmOpen_error]
    exact .quiet _ _ _ _

/-- The ways in which an ioctl of an awake device changes it. -/
inductive IoctlChange (dev : Device) (file : FileId) : Ioctl → Device → Prop
  | counted (call : Ioctl) (rc : Nat → Nat) : IoctlChange dev file call { dev with refcount := rc }
  | created {args : DrmAneBoInit} {env : BoInitEnv} {handle : UInt32} {bo : AneBo}
      {iommu : Table Nat Page} (made : Created dev file args.size handle bo iommu) :
      IoctlChange dev file (.boInit args env) (dev.withBo file handle bo iommu)
  | freed {args : DrmAneBoFree} {bo : AneBo} (named : dev.named file args.handle = some bo) :
      IoctlChange dev file (.boFree args) (dev.withoutBo file args.handle bo dev.refcount)
  | submitted (args : DrmAneSubmit) (status : Status) (rc : Nat → Nat) (engine : Engine) :
      IoctlChange dev file (.submit args status) { dev with refcount := rc, engine := engine }

theorem drmIoctl_cases (dev : Device) (nodes : ∀ e ∈ dev.handles, e.bo.mm = some e.bo.node)
    (file : FileId) (call : Ioctl) : IoctlChange dev file call (drmIoctl dev file call).1 := by
  cases call with
  | info => exact .counted _ dev.refcount
  | boInit args env =>
    simp only [drmIoctl]
    generalize result : aneBoInit dev file args env = r
    obtain ⟨dev₁, err | ⟨handle, offset⟩⟩ := r
    · obtain ⟨rc, -, rfl⟩ := aneBoInit_error result
      exact .counted _ rc
    · obtain ⟨bo, iommu, made, rfl⟩ := aneBoInit_ok result
      exact .created made
  | boFree args =>
    simp only [drmIoctl]
    obtain ⟨rc, failed⟩ | ⟨bo, named, done⟩ := aneBoFree_cases dev nodes file args
    · rw [failed]
      exact .counted _ rc
    · rw [done]
      exact .freed named
  | submit args status =>
    simp only [drmIoctl]
    obtain ⟨rc, engine, done⟩ := aneSubmit_frame dev file args status
    rw [done]
    exact .submitted args status rc engine

theorem drmIoctl_change {dev : Device} {file : FileId} (client : file ∈ dev.files)
    (nodes : ∀ e ∈ dev.handles, e.bo.mm = some e.bo.node) (pm pm' : Int) (wake : Wake)
    (call : Ioctl) :
    Change dev (.ioctl file wake call)
      { (drmIoctl { dev with pmUsage := pm } file call).1 with pmUsage := pm' } := by
  have change := drmIoctl_cases { dev with pmUsage := pm } nodes file call
  generalize (drmIoctl { dev with pmUsage := pm } file call).1 = dev₁ at change ⊢
  cases change with
  | counted rc => exact .quiet _ _ _ _
  | created made => exact .created wake pm' client { made with }
  | freed named => exact .freed _ _ _ named
  | submitted args status rc engine => exact .quiet _ _ _ _

theorem aneDrmUnlockedIoctl_change {dev : Device} {file : FileId} (client : file ∈ dev.files)
    (nodes : ∀ e ∈ dev.handles, e.bo.mm = some e.bo.node) (wake : Wake) (call : Ioctl) :
    Change dev (.ioctl file wake call) (aneDrmUnlockedIoctl dev file wake call).1 := by
  cases wake with
  | ok _ => exact drmIoctl_change client nodes _ _ _ call
  | error err =>
    by_cases off : err = .EACCES
    · subst off
      exact drmIoctl_change client nodes _ _ _ call
    · have failed : (aneDrmUnlockedIoctl dev file (.error err) call).1 =
          { dev with pmUsage := dev.pmUsage - 1 } := by
        simp [aneDrmUnlockedIoctl, pmRuntimeResumeAndGet, wakeFailed, off, pmRuntimePutAutosuspend]
      rw [failed]
      exact .quiet _ _ _ _

/-- Every operation changes the device in one of these ways. -/
theorem exec_change {dev : Device} (nodes : ∀ e ∈ dev.handles, e.bo.mm = some e.bo.node)
    (op : Op) : Change dev op (exec dev op) := by
  have same : Change dev op dev := .quiet op dev.refcount dev.engine dev.pmUsage
  cases op with
  | openFile wake => exact drmOpen_change dev wake
  | ioctl file wake call =>
    simp only [exec]
    split
    · next client => exact aneDrmUnlockedIoctl_change client nodes wake call
    · exact same
  | close file wake =>
    simp only [exec]
    split
    · next client =>
      obtain ⟨rc, pm, done⟩ := drmRelease_frame dev file wake
      rw [done]
      exact .closed file wake rc pm client
    · exact same
  | runtimeResume => exact .quiet _ _ _ _

end Ane.Driver
