import Ane.DriverSteps
import Mathlib.Data.List.Pairwise

/-! What every history of the device keeps: each buffer alive is mapped page by page
into a range of its own, the translation table and the allocator hold nothing else,
and the handles name buffers that are alive. -/
namespace Ane.Driver
open PageTable RangeAllocator Runs TaskManager

/-- Page `p` of the buffer is at device address `a`. -/
def AneBo.Maps (bo : AneBo) (a : Nat) (p : Page) : Prop :=
  ∃ i, i < bo.npages.toNat ∧ a = bo.iova.toNat + i * 2 ^ 14 ∧ bo.pages.getD i 0 = p

theorem BoOk.contains_of_maps {mm : Allocator} {bo : AneBo} (ok : BoOk mm bo) {a : Nat} {p : Page}
    (h : bo.Maps a p) : bo.node.Contains a := by
  obtain ⟨i, hi, rfl, -⟩ := h
  exact ok.contains_page hi

theorem BoOk.of_range {mm mm' : Allocator} {bo : AneBo} (ok : BoOk mm bo)
    (start : mm'.start = mm.start) (size : mm'.size = mm.size) : BoOk mm' bo where
  __ := ok
  first := by rw [start]; exact ok.first
  last := by rw [Allocator.stop, start, size]; exact ok.last

/-- The buffers, their ranges and the translation table. -/
structure BosOk (dev : Device) : Prop where
  window : dev.mm.start = dev.hw.vmBase ∧ dev.mm.size = dev.hw.vmBase + dev.hw.vmSize - pageSize
  ok : ∀ bo ∈ dev.bos, BoOk dev.mm bo
  id_lt : ∀ bo ∈ dev.bos, bo.id < dev.nextBo
  ids : (dev.bos.map AneBo.id).Nodup
  nodes : dev.mm.nodes = dev.bos.map AneBo.node
  apart : dev.bos.Pairwise fun a b => a.node.Disjoint b.node
  table : ∀ a p, dev.iommu a = some p ↔ ∃ bo ∈ dev.bos, bo.Maps a p

def HandleEntry.key (e : HandleEntry) : FileId × UInt32 := (e.file, e.handle)
def HandleEntry.boId (e : HandleEntry) : Nat := e.bo.id

/-- The handle tables. A buffer has one handle as long as the file it was created
through is open, and none afterwards. -/
structure HandlesOk (dev : Device) : Prop where
  alive : ∀ e ∈ dev.handles, e.bo ∈ dev.bos
  creator : ∀ e ∈ dev.handles, e.bo.creator = e.file
  client : ∀ e ∈ dev.handles, e.file ∈ dev.files
  keys : (dev.handles.map HandleEntry.key).Nodup
  unique : (dev.handles.map HandleEntry.boId).Nodup
  owned : ∀ bo ∈ dev.bos, bo.creator ∈ dev.files → ∃ e ∈ dev.handles, e.bo = bo
  creator_lt : ∀ bo ∈ dev.bos, bo.creator < dev.nextFile
  files_lt : ∀ f ∈ dev.files, f < dev.nextFile

structure Inv (dev : Device) : Prop where
  bosOk : BosOk dev
  handlesOk : HandlesOk dev

section Bos
variable {dev : Device} {file : FileId} {size : UInt64} {handle : UInt32} {bo other : AneBo}
  {iommu : Table Nat Page}

theorem BosOk.stop (h : BosOk dev) :
    dev.mm.stop = dev.hw.vmBase.toNat + (dev.hw.vmBase + dev.hw.vmSize - pageSize).toNat := by
  rw [Allocator.stop, h.window.1, h.window.2]

theorem BosOk.stop_h13 (h : BosOk dev) (hw : dev.hw = aneHwH13) : dev.mm.stop = 0xe0004000 := by
  rw [h.stop, hw]
  rfl

theorem BosOk.eq_of_id (h : BosOk dev) (hb : bo ∈ dev.bos) (ho : other ∈ dev.bos)
    (same : bo.id = other.id) : bo = other := List.inj_on_of_nodup_map h.ids hb ho same

theorem BosOk.disjoint (h : BosOk dev) (hb : bo ∈ dev.bos) (ho : other ∈ dev.bos)
    (ne : bo.id ≠ other.id) : bo.node.Disjoint other.node := by
  have symm : Std.Symm fun a b : AneBo => a.node.Disjoint b.node := ⟨fun _ _ => Node.Disjoint.symm⟩
  refine h.apart.forall hb ho ?_
  rintro rfl
  exact ne rfl

theorem BosOk.withBo (h : BosOk dev) (made : Created dev file size handle bo iommu) :
    BosOk (dev.withBo file handle bo iommu) where
  window := h.window
  ok := by
    intro other ho
    obtain rfl | old := List.mem_cons.mp ho
    · exact made.ok.of_range rfl rfl
    · exact (h.ok other old).of_range rfl rfl
  id_lt := by
    intro other ho
    show other.id < dev.nextBo + 1
    obtain rfl | old := List.mem_cons.mp ho
    · rw [made.id]
      omega
    · have := h.id_lt other old
      omega
  ids := by
    refine List.nodup_cons.mpr ⟨?_, h.ids⟩
    intro mem
    obtain ⟨other, ho, same⟩ := List.mem_map.mp mem
    have := h.id_lt other ho
    rw [same, made.id] at this
    omega
  nodes := by simp only [Device.withBo, h.nodes, List.map_cons]
  apart := by
    refine List.pairwise_cons.mpr ⟨?_, h.apart⟩
    intro other ho
    apply made.free
    rw [h.nodes]
    exact List.mem_map_of_mem ho
  table := by
    intro a p
    simp only [Device.withBo, List.exists_mem_cons_iff]
    by_cases mine : ∃ i, i < bo.npages.toNat ∧ pageIova bo.iova i = a
    · obtain ⟨i, hi, rfl⟩ := mine
      rw [made.mapped.cells i (Nat.zero_le i) (by omega), made.ok.pageIova hi]
      have others : ¬ ∃ other ∈ dev.bos, other.Maps (bo.iova.toNat + i * 2 ^ 14) p := by
        rintro ⟨other, ho, maps⟩
        have free := made.mapped.free i (Nat.zero_le i) (by omega)
        rw [made.ok.pageIova hi, (h.table _ p).mpr ⟨other, ho, maps⟩] at free
        cases free
      simp only [Option.some.injEq, others, or_false]
      constructor
      · intro page
        exact ⟨i, hi, rfl, page⟩
      · rintro ⟨j, hj, at_, page⟩
        have same : j = i := by omega
        rw [← page, same]
    · rw [made.mapped.others a fun i _ hi same => mine ⟨i, by omega, same⟩, h.table]
      have away : ¬ bo.Maps a p := by
        rintro ⟨i, hi, rfl, -⟩
        exact mine ⟨i, hi, made.ok.pageIova hi⟩
      simp only [away, false_or]

theorem BosOk.erase (h : BosOk dev) (hb : bo ∈ dev.bos) :
    dev.bos.erase bo = dev.bos.filter fun other => other.id ≠ bo.id := by
  rw [(List.Nodup.of_map _ h.ids).erase_eq_filter]
  apply List.filter_congr
  intro other ho
  by_cases same : other.id = bo.id
  · simp [h.eq_of_id ho hb same]
  · have ne : other ≠ bo := fun eq => same (congrArg AneBo.id eq)
    simp [same, ne]

theorem BosOk.removeNode (h : BosOk dev) (hb : bo ∈ dev.bos) :
    (dev.mm.removeNode bo.node).nodes =
      (dev.bos.filter fun other => other.id ≠ bo.id).map AneBo.node := by
  have distinct : (dev.bos.map AneBo.node).Nodup := by
    rw [List.Nodup, List.pairwise_map]
    exact h.apart.imp_of_mem fun ha _ apart => apart.ne (h.ok _ ha).node_used
  rw [Allocator.removeNode, h.nodes, distinct.erase_eq_filter, List.filter_map]
  apply congrArg (List.map AneBo.node)
  apply List.filter_congr
  intro other ho
  by_cases same : other.id = bo.id
  · simp [h.eq_of_id ho hb same]
  · have ne : other.node ≠ bo.node := (h.disjoint ho hb same).ne (h.ok other ho).node_used
    simp [same, ne]

theorem BosOk.withoutBo (h : BosOk dev) (file : FileId) (handle : UInt32) (hb : bo ∈ dev.bos)
    (rc : Nat → Nat) :
    BosOk (dev.withoutBo file handle bo rc) where
  window := h.window
  ok := by
    intro other ho
    exact (h.ok other (List.mem_of_mem_filter ho)).of_range rfl rfl
  id_lt := by
    intro other ho
    exact h.id_lt other (List.mem_of_mem_filter ho)
  ids := h.ids.sublist (List.filter_sublist.map _)
  nodes := h.removeNode hb
  apart := h.apart.sublist List.filter_sublist
  table := by
    intro a p
    have ok := h.ok bo hb
    simp only [Device.withoutBo, List.mem_filter, decide_eq_true_eq]
    by_cases mine : ∃ i, i < bo.npages.toNat ∧ pageIova bo.iova i = a
    · obtain ⟨i, hi, rfl⟩ := mine
      rw [unmapFrom_cell dev.iommu (Nat.zero_le i) (by omega), ok.pageIova hi]
      simp only [reduceCtorEq, false_iff]
      rintro ⟨other, ⟨ho, ne⟩, maps⟩
      exact (h.disjoint hb ho (Ne.symm ne)).not_contains (ok.contains_page hi)
        ((h.ok other ho).contains_of_maps maps)
    · rw [unmapFrom_other dev.iommu fun i _ hi same => mine ⟨i, by omega, same⟩, h.table]
      constructor
      · rintro ⟨other, ho, maps⟩
        refine ⟨other, ⟨ho, ?_⟩, maps⟩
        intro same
        obtain rfl := h.eq_of_id ho hb same
        obtain ⟨i, hi, rfl, -⟩ := maps
        exact mine ⟨i, hi, ok.pageIova hi⟩
      · rintro ⟨other, ⟨ho, -⟩, maps⟩
        exact ⟨other, ho, maps⟩

end Bos

section Handles
variable {dev : Device} {file : FileId} {size : UInt64} {handle : UInt32} {bo : AneBo}
  {iommu : Table Nat Page}

/-- A smaller handle table over the same buffers. `owned` has to be shown again. -/
theorem HandlesOk.sub (h : HandlesOk dev) {dev' : Device}
    (fewer : dev'.handles.Sublist dev.handles) (bos : ∀ bo ∈ dev'.bos, bo ∈ dev.bos)
    (alive : ∀ e ∈ dev'.handles, e.bo ∈ dev'.bos) (client : ∀ e ∈ dev'.handles, e.file ∈ dev'.files)
    (owned : ∀ bo ∈ dev'.bos, bo.creator ∈ dev'.files → ∃ e ∈ dev'.handles, e.bo = bo)
    (files : ∀ f ∈ dev'.files, f ∈ dev.files) (next : dev'.nextFile = dev.nextFile) :
    HandlesOk dev' where
  alive := alive
  creator := fun e he => h.creator e (fewer.subset he)
  client := client
  keys := h.keys.sublist (fewer.map _)
  unique := h.unique.sublist (fewer.map _)
  owned := owned
  creator_lt := fun bo hb => next.symm ▸ h.creator_lt bo (bos bo hb)
  files_lt := fun f hf => next.symm ▸ h.files_lt f (files f hf)

theorem HandlesOk.opened (h : HandlesOk dev) (pm : Int) :
    HandlesOk { dev with
      files := dev.nextFile :: dev.files, nextFile := dev.nextFile + 1, pmUsage := pm } where
  alive := h.alive
  creator := h.creator
  client := fun e he => List.mem_cons_of_mem _ (h.client e he)
  keys := h.keys
  unique := h.unique
  owned := by
    intro bo hb opens
    obtain same | old := List.mem_cons.mp opens
    · exact absurd same (Nat.ne_of_lt (h.creator_lt bo hb))
    · exact h.owned bo hb old
  creator_lt := fun bo hb => Nat.lt_succ_of_lt (h.creator_lt bo hb)
  files_lt := by
    intro f hf
    obtain rfl | old := List.mem_cons.mp hf
    · exact Nat.lt_succ_self _
    · exact Nat.lt_succ_of_lt (h.files_lt f old)

theorem HandlesOk.withBo (h : HandlesOk dev) (bos : BosOk dev) (client : file ∈ dev.files)
    (made : Created dev file size handle bo iommu) :
    HandlesOk (dev.withBo file handle bo iommu) where
  alive := by
    intro e he
    obtain rfl | old := List.mem_cons.mp he
    · exact List.mem_cons_self
    · exact List.mem_cons_of_mem _ (h.alive e old)
  creator := by
    intro e he
    obtain rfl | old := List.mem_cons.mp he
    · exact made.creator
    · exact h.creator e old
  client := by
    intro e he
    obtain rfl | old := List.mem_cons.mp he
    · exact client
    · exact h.client e old
  keys := by
    refine List.nodup_cons.mpr ⟨?_, h.keys⟩
    intro mem
    obtain ⟨e, he, same⟩ := List.mem_map.mp mem
    exact named_eq_none made.fresh e he (Prod.mk.inj same)
  unique := by
    refine List.nodup_cons.mpr ⟨?_, h.unique⟩
    intro mem
    obtain ⟨e, he, same⟩ := List.mem_map.mp mem
    have old : e.bo.id < dev.nextBo := bos.id_lt e.bo (h.alive e he)
    simp only [HandleEntry.boId, made.id] at same
    omega
  owned := by
    intro other ho opens
    obtain rfl | old := List.mem_cons.mp ho
    · exact ⟨_, List.mem_cons_self, rfl⟩
    · obtain ⟨e, he, rfl⟩ := h.owned other old opens
      exact ⟨e, List.mem_cons_of_mem _ he, rfl⟩
  creator_lt := by
    intro other ho
    obtain rfl | old := List.mem_cons.mp ho
    · exact made.creator ▸ h.files_lt file client
    · exact h.creator_lt other old
  files_lt := h.files_lt

/-- A handle names a buffer that is alive. -/
theorem HandlesOk.named_mem (h : HandlesOk dev) (named : dev.named file handle = some bo) :
    bo ∈ dev.bos := by
  obtain ⟨e, he, -, -, rfl⟩ := named_eq_some named
  exact h.alive e he

theorem HandlesOk.withoutBo (h : HandlesOk dev)
    (named : dev.named file handle = some bo) (rc : Nat → Nat) :
    HandlesOk (dev.withoutBo file handle bo rc) := by
  obtain ⟨e₀, he₀, rfl, rfl, rfl⟩ := named_eq_some named
  have left {e : HandleEntry} : e ∈ (dev.withoutBo e₀.file e₀.handle e₀.bo rc).handles ↔
      e ∈ dev.handles ∧ e.key ≠ e₀.key := by
    simp [Device.withoutBo, HandleEntry.key, imp_iff_not_or]
  have kept {bo : AneBo} : bo ∈ (dev.withoutBo e₀.file e₀.handle e₀.bo rc).bos ↔
      bo ∈ dev.bos ∧ bo.id ≠ e₀.bo.id := by
    simp [Device.withoutBo]
  refine h.sub List.filter_sublist (fun bo hb => (kept.mp hb).1) ?_ ?_ ?_ (fun _ hf => hf) rfl
  · intro e he
    obtain ⟨old, other⟩ := left.mp he
    refine kept.mpr ⟨h.alive e old, ?_⟩
    intro same
    exact other (congrArg _ (List.inj_on_of_nodup_map h.unique old he₀ same))
  · intro e he
    exact h.client e (left.mp he).1
  · intro bo hb opens
    obtain ⟨old, other⟩ := kept.mp hb
    obtain ⟨e, he, rfl⟩ := h.owned bo old opens
    refine ⟨e, left.mpr ⟨he, ?_⟩, rfl⟩
    intro same
    exact other (congrArg (fun e => e.bo.id) (List.inj_on_of_nodup_map h.keys he he₀ same))

theorem HandlesOk.closed (h : HandlesOk dev) (file : FileId) (rc : Nat → Nat) (pm : Int) :
    HandlesOk { dev with
      handles := dev.handles.filter fun e => e.file ≠ file
      files := dev.files.filter (· ≠ file)
      refcount := rc
      pmUsage := pm } := by
  have left {e : HandleEntry} : e ∈ dev.handles.filter (fun e => e.file ≠ file) ↔
      e ∈ dev.handles ∧ e.file ≠ file := by simp
  have opens {f : FileId} : f ∈ dev.files.filter (· ≠ file) ↔ f ∈ dev.files ∧ f ≠ file := by simp
  refine h.sub List.filter_sublist (fun _ hb => hb) ?_ ?_ ?_ (fun f hf => (opens.mp hf).1) rfl
  · intro e he
    exact h.alive e (left.mp he).1
  · intro e he
    obtain ⟨old, other⟩ := left.mp he
    exact opens.mpr ⟨h.client e old, other⟩
  · intro bo hb here
    obtain ⟨was, other⟩ := opens.mp here
    obtain ⟨e, he, rfl⟩ := h.owned bo hb was
    exact ⟨e, left.mpr ⟨he, h.creator e he ▸ other⟩, rfl⟩

end Handles

theorem Inv.nodes {dev : Device} (h : Inv dev) : ∀ e ∈ dev.handles, e.bo.mm = some e.bo.node :=
  fun e he => (h.bosOk.ok e.bo (h.handlesOk.alive e he)).mm_node

theorem Inv.change {dev dev' : Device} {op : Op} (h : Inv dev) (step : Change dev op dev') :
    Inv dev' := by
  cases step with
  | quiet => exact ⟨{ h.bosOk with }, { h.handlesOk with }⟩
  | opened wake pm => exact ⟨{ h.bosOk with }, h.handlesOk.opened pm⟩
  | created wake pm client made =>
    exact ⟨{ h.bosOk.withBo made with }, { h.handlesOk.withBo h.bosOk client made with }⟩
  | @freed wake rc pm file args bo named =>
    have alive := h.handlesOk.named_mem named
    exact ⟨{ h.bosOk.withoutBo file args.handle alive rc with },
      { h.handlesOk.withoutBo named rc with }⟩
  | closed file wake rc pm => exact ⟨{ h.bosOk with }, h.handlesOk.closed file rc pm⟩

theorem Inv.exec {dev : Device} (h : Inv dev) (op : Op) : Inv (exec dev op) :=
  h.change (exec_change h.nodes op)

theorem inv_probed (hw : AneHw) (regs : RegFile) : Inv (probed hw regs) where
  bosOk := by constructor <;> simp [probed, aneIommuDomainInit, RangeAllocator.init]
  handlesOk := by constructor <;> simp [probed]

theorem inv_run (hw : AneHw) (regs : RegFile) (ops : List Op) :
    Inv (run exec (probed hw regs) ops) :=
  run_invariant (fun _ op h => h.exec op) (inv_probed hw regs) ops

theorem exec_hw {dev : Device} (inv : Inv dev) (op : Op) : (exec dev op).hw = dev.hw :=
  (exec_change inv.nodes op).hw

theorem run_hw (hw : AneHw) (regs : RegFile) (ops : List Op) :
    (run exec (probed hw regs) ops).hw = hw := by
  have kept : Inv (run exec (probed hw regs) ops) ∧ (run exec (probed hw regs) ops).hw = hw := by
    apply run_invariant (I := fun dev => Inv dev ∧ dev.hw = hw) ?_ ⟨inv_probed hw regs, rfl⟩
    intro dev op ⟨inv, same⟩
    exact ⟨inv.exec op, (exec_hw inv op).trans same⟩
  exact kept.2

/-- The addresses of a buffer, over the naturals. -/
def AneBo.range (bo : AneBo) : Nat × Nat :=
  (bo.iova.toNat, bo.iova.toNat + bo.npages.toNat * 2 ^ 14)

/-- The table and the allocator hold what the buffers alive need and nothing else. -/
structure MappingExact (dev : Device) : Prop where
  table : ∀ a p, dev.iommu a = some p ↔ ∃ bo ∈ dev.bos, ∃ i, i < bo.npages.toNat ∧
    a = bo.iova.toNat + i * 2 ^ 14 ∧ bo.pages[i]? = some p
  ranges : dev.mm.nodes.map (fun n => (n.start.toNat, n.stop)) = dev.bos.map AneBo.range
  disjoint : dev.bos.Pairwise fun a b => a.range.2 ≤ b.range.1 ∨ b.range.2 ≤ a.range.1
  covers : ∀ bo ∈ dev.bos, bo.requested.toNat ≤ bo.npages.toNat * 2 ^ 14

theorem BoOk.range {mm : Allocator} {bo : AneBo} (ok : BoOk mm bo) :
    (bo.node.start.toNat, bo.node.stop) = bo.range := by
  rw [ok.node_stop]
  rfl

theorem BoOk.maps_iff {mm : Allocator} {bo : AneBo} (ok : BoOk mm bo) (a : Nat) (p : Page) :
    bo.Maps a p ↔ ∃ i, i < bo.npages.toNat ∧ a = bo.iova.toNat + i * 2 ^ 14 ∧
      bo.pages[i]? = some p := by
  have page (i : Nat) (hi : i < bo.npages.toNat) :
      bo.pages.getD i 0 = p ↔ bo.pages[i]? = some p := by
    have here : i < bo.pages.length := by rw [ok.pages]; exact hi
    simp [here]
  apply exists_congr
  intro i
  exact and_congr_right fun hi => and_congr_right fun _ => page i hi

theorem BosOk.mappingExact {dev : Device} (h : BosOk dev) : MappingExact dev where
  table := by
    intro a p
    rw [h.table]
    apply exists_congr
    intro bo
    exact and_congr_right fun hb => (h.ok bo hb).maps_iff a p
  ranges := by
    rw [h.nodes, List.map_map]
    apply List.map_congr_left
    intro bo hb
    exact (h.ok bo hb).range
  disjoint := by
    refine h.apart.imp_of_mem ?_
    intro a b ha hb apart
    rw [← (h.ok a ha).range, ← (h.ok b hb).range]
    exact apart
  covers := fun bo hb => (h.ok bo hb).covers

/-- After any history the mappings are exactly those of the buffers alive; a
`aneBoInit` that completes adds the one it was asked for, one that fails changes no
mapping, and a completed `aneBoFree` takes away the buffer its handle named. -/
theorem mapping_exact (hw : AneHw) (regs : RegFile) (ops : List Op) :
    let dev := run exec (probed hw regs) ops
    MappingExact dev ∧
      (∀ file args env dev' err, aneBoInit dev file args env = (dev', .error err) →
        dev'.iommu = dev.iommu ∧ dev'.mm = dev.mm ∧ dev'.bos = dev.bos) ∧
      (∀ file args env dev' handle offset,
        aneBoInit dev file args env = (dev', .ok (handle, offset)) →
        ∃ bo, bo.creator = file ∧ bo.requested = args.size ∧ bo ∉ dev.bos ∧
          dev'.bos = bo :: dev.bos ∧ dev'.named file handle = some bo) ∧
      (∀ file args dev' err, aneBoFree dev file args = (dev', .error err) →
        dev'.iommu = dev.iommu ∧ dev'.mm = dev.mm ∧ dev'.bos = dev.bos) ∧
      ∀ file args dev', aneBoFree dev file args = (dev', .ok ()) →
        ∃ bo ∈ dev.bos, dev.named file args.handle = some bo ∧ dev'.bos = dev.bos.erase bo := by
  intro dev
  have inv : Inv dev := inv_run hw regs ops
  refine ⟨inv.bosOk.mappingExact, ?_, ?_, ?_, ?_⟩
  · intro file args env dev' err failed
    obtain ⟨rc, -, rfl⟩ := aneBoInit_error failed
    exact ⟨rfl, rfl, rfl⟩
  · intro file args env dev' handle offset done
    obtain ⟨bo, iommu, made, rfl⟩ := aneBoInit_ok done
    refine ⟨bo, made.creator, made.requested, ?_, rfl, ?_⟩
    · intro old
      have := inv.bosOk.id_lt bo old
      have := made.id
      omega
    · simp [Device.named, Device.withBo]
  · intro file args dev' err failed
    obtain ⟨rc, same⟩ | ⟨bo, -, done⟩ := aneBoFree_cases dev inv.nodes file args
    · rw [same] at failed
      cases failed
      exact ⟨rfl, rfl, rfl⟩
    · rw [done] at failed
      cases failed
  · intro file args dev' succeeded
    obtain ⟨rc, failed⟩ | ⟨bo, named, done⟩ := aneBoFree_cases dev inv.nodes file args
    · rw [failed] at succeeded
      cases succeeded
    · rw [done] at succeeded
      cases succeeded
      have alive := inv.handlesOk.named_mem named
      exact ⟨bo, alive, named, (inv.bosOk.erase alive).symm⟩

/-- A client asking for 0x4001 bytes, then for one, then freeing the first buffer. -/
def twoBuffers : List Op :=
  [.openFile (.ok ()), .ioctl 0 (.ok ()) (.boInit ⟨0, 0x4001⟩ (.served 0x4000 [7, 8] 1)),
    .ioctl 0 (.ok ()) (.boInit ⟨0, 1⟩ (.served 0xC000 [9] 2)), .ioctl 0 (.ok ()) (.boFree ⟨1, 0⟩)]

theorem mapping_exact_twoBuffers :
    let dev := run exec (probed aneHwH13 fun _ => 0) twoBuffers
    MappingExact dev ∧ dev.bos.map AneBo.range = [(0xC000, 0x10000)] ∧ dev.iommu 0xC000 = some 9 ∧
      dev.iommu 0x4000 = none :=
  ⟨(mapping_exact aneHwH13 (fun _ => 0) twoBuffers).1, by decide, by decide, by decide⟩

end Ane.Driver
