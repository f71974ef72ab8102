import Ane.HwxLedger
import Ane.Libane

/-! The buffers of a network object. What a world holds for them is exactly what their
entries say, a handle that is not 0 and a mapping that is not null; initialising and freeing
one entry is a step from one such state to the next, whatever the kernel answers. -/
namespace Ane.Libane
open Memory Posix Hwx

section Places

/-- The place of an open node among all that are open; no node before it has its descriptor. -/
structure Place where
  before : List OpenNode
  fd : Fd
  node : Nat
  after : List OpenNode
  fresh : ∀ d ∈ before, d.fd ≠ fd

def Place.devices (place : Place) (handles : List UInt32) : List OpenNode :=
  place.before ++ ⟨place.fd, place.node, handles⟩ :: place.after

theorem Place.find?_devices (place : Place) (handles : List UInt32) :
    (place.devices handles).find? (·.fd = place.fd) = some ⟨place.fd, place.node, handles⟩ := by
  have others : place.before.find? (·.fd = place.fd) = none := by
    simpa using place.fresh
  simp [Place.devices, List.find?_append, others]

theorem Place.withHandles_devices (place : Place) (handles : List UInt32)
    (f : List UInt32 → List UInt32) :
    withHandles place.fd f (place.devices handles) = place.devices (f handles) := by
  obtain ⟨before, fd, node, after, fresh⟩ := place
  simp only [Place.devices] at fresh ⊢
  induction before with
  | nil => simp [withHandles]
  | cons d rest ih =>
    rw [List.forall_mem_cons] at fresh
    simp only [List.cons_append, withHandles, if_neg fresh.1, ih fresh.2]

end Places

def AneBo.handles (bo : AneBo) : List UInt32 := if bo.handle = 0 then [] else [bo.handle]

def AneBo.maps (bo : AneBo) : List (Addr × UInt64) := bo.map.toList.map fun addr => (addr, bo.size)

structure AneBo.Empty (bo : AneBo) : Prop where
  handle : bo.handle = 0
  map : bo.map = none

theorem AneBo.Empty.handles {bo : AneBo} (empty : bo.Empty) : bo.handles = [] :=
  if_pos empty.handle

theorem AneBo.Empty.maps {bo : AneBo} (empty : bo.Empty) : bo.maps = [] := by
  rw [AneBo.maps, empty.map]
  rfl

/-- Since `base` the world has made the buffers with these handles and mappings, on the node
at `place` that had the handles `own`, and no others. A handle that could not be freed is
lost, but still held by the node. -/
structure Buffers (env : Env) (place : Place) (own : List UInt32) (base w : World)
    (handles : List UInt32) (maps : List (Addr × UInt64)) : Prop where
  proc : base.proc.Holds w.proc [] []
  devices : ∃ held lost, w.devices = place.devices held ∧ held.Perm (handles ++ (lost ++ own)) ∧
    ((∀ n, env.boFree n = true) → lost = [])
  badHandles : w.badHandles = base.badHandles
  maps : w.maps.Perm (maps ++ base.maps)
  badUnmaps : w.badUnmaps = base.badUnmaps
  nullWrites : w.nullWrites = base.nullWrites

section Entries

variable {env : Env} {place : Place} {own : List UInt32} {base w w' : World}
  {handles handles' : List UInt32} {maps maps' : List (Addr × UInt64)} {bo bo' : AneBo}
  {status : Status}

theorem Buffers.perm (buffers : Buffers env place own base w handles maps)
    (sameHandles : handles.Perm handles') (sameMaps : maps.Perm maps') :
    Buffers env place own base w handles' maps' := by
  obtain ⟨held, lost, devices, perm, served⟩ := buffers.devices
  exact { buffers with
    devices := ⟨held, lost, devices, perm.trans (sameHandles.append_right _), served⟩
    maps := buffers.maps.trans (sameMaps.append_right _) }

theorem boInit_buffers (buffers : Buffers env place own base w handles maps) (zero : bo.handle = 0)
    (h : boInit env place.fd bo w = (status, bo', w')) :
    Buffers env place own base w' (bo'.handles ++ handles) maps ∧ bo'.map = bo.map ∧
      (∀ e, status = .error e → bo'.handle = 0) := by
  obtain ⟨held, lost, devices, perm, served⟩ := buffers.devices
  have device : w.device place.fd = some ⟨place.fd, place.node, held⟩ := by
    rw [World.device, devices, place.find?_devices]
  simp only [boInit, World.ioctlBoInit, device] at h
  cases answer : env.boInit w.ioctls with
  | none =>
    simp only [answer] at h
    cases h
    rw [AneBo.handles, if_pos zero]
    exact ⟨{ buffers with }, rfl, fun _ _ => zero⟩
  | some made =>
    obtain ⟨handle, offset⟩ := made
    have nonzero := env.boInit_ne _ handle offset answer
    simp only [answer] at h
    cases h
    refine ⟨{ buffers with devices := ⟨handle :: held, lost, ?_, ?_, served⟩ }, rfl, nofun⟩
    · rw [devices, place.withHandles_devices]
    · simpa [AneBo.handles, nonzero] using perm

theorem boFree_buffers (buffers : Buffers env place own base w (bo.handles ++ handles) maps) :
    Buffers env place own base (boFree env place.fd bo w).2 handles maps := by
  obtain ⟨held, lost, devices, perm, served⟩ := buffers.devices
  have device : w.device place.fd = some ⟨place.fd, place.node, held⟩ := by
    rw [World.device, devices, place.find?_devices]
  simp only [boFree]
  by_cases zero : bo.handle = 0
  · simpa [zero, AneBo.handles] using buffers
  rw [if_pos zero]
  rw [AneBo.handles, if_neg zero, List.singleton_append] at perm
  have mem : bo.handle ∈ held := perm.symm.subset List.mem_cons_self
  simp only [World.ioctlBoFree, device, Option.any_some, mem, decide_true, if_true]
  split
  · refine { buffers with devices := ⟨held.erase bo.handle, lost, ?_, ?_, served⟩ }
    · rw [devices, place.withHandles_devices]
    · simpa using perm.erase bo.handle
  · rename_i refused
    refine { buffers with
      devices := ⟨held, bo.handle :: lost, devices, perm.trans ?_, fun all => ?_⟩ }
    · exact List.perm_middle.symm
    · exact absurd (all _) refused

theorem boMmap_buffers (buffers : Buffers env place own base w handles maps)
    (h : boMmap env bo w = (status, bo', w')) :
    Buffers env place own base w' handles (bo'.maps ++ maps) ∧ bo'.handle = bo.handle ∧
      (∀ e, status = .error e → bo'.map = none) := by
  simp only [boMmap, World.mmap] at h
  cases answer : env.mmap w.mmaps with
  | none =>
    simp only [answer] at h
    cases h
    exact ⟨{ buffers with }, rfl, fun _ _ => rfl⟩
  | some addr =>
    simp only [answer] at h
    cases h
    exact ⟨{ buffers with maps := buffers.maps.cons _ }, rfl, nofun⟩

theorem boMunmap_buffers (buffers : Buffers env place own base w handles (bo.maps ++ maps)) :
    Buffers env place own base (boMunmap bo w).2 handles maps := by
  simp only [boMunmap]
  cases map : bo.map with
  | none => simpa [AneBo.maps, map] using buffers
  | some addr =>
    have perm := buffers.maps
    simp only [AneBo.maps, map, Option.toList, List.map_cons, List.map_nil,
      List.cons_append] at perm
    have mem : (addr, bo.size) ∈ w.maps := perm.symm.subset List.mem_cons_self
    simp only [World.munmap, if_pos mem]
    refine { buffers with maps := ?_ }
    simpa using perm.erase (addr, bo.size)

/-- An empty entry is filled, or it is empty again. -/
theorem aneBoInit_buffers (buffers : Buffers env place own base w handles maps) (empty : bo.Empty)
    (h : aneBoInit env place.fd bo w = (status, bo', w')) :
    Buffers env place own base w' (bo'.handles ++ handles) (bo'.maps ++ maps) ∧
      (∀ e, status = .error e → bo'.Empty) := by
  simp only [aneBoInit] at h
  split at h
  · cases h
    rw [empty.handles, empty.maps]
    exact ⟨buffers, fun _ _ => empty⟩
  split at h
  · rename_i failed
    cases h
    obtain ⟨after, map, zero⟩ := boInit_buffers buffers empty.handle failed
    have empty' : bo'.Empty := ⟨zero _ rfl, map.trans empty.map⟩
    rw [empty'.maps]
    exact ⟨after, fun _ _ => empty'⟩
  · rename_i made
    obtain ⟨after, -, -⟩ := boInit_buffers buffers empty.handle made
    split at h
    · rename_i mapped
      cases h
      obtain ⟨after', handle, -⟩ := boMmap_buffers after mapped
      rw [AneBo.handles, ← handle] at after'
      exact ⟨after', nofun⟩
    · rename_i e bo₂ w₂ unmapped
      cases h
      obtain ⟨after', handle, null⟩ := boMmap_buffers after unmapped
      have empty' : (boFree env place.fd bo₂ w₂).1.Empty := ⟨rfl, null e rfl⟩
      have maps : bo₂.maps = [] := by
        rw [AneBo.maps, null e rfl]
        rfl
      rw [maps, AneBo.handles, ← handle] at after'
      rw [empty'.handles, empty'.maps]
      exact ⟨boFree_buffers after', fun _ _ => empty'⟩

/-- An entry that is freed is empty, whatever it was before. -/
theorem aneBoFree_empty (env : Env) (fd : Fd) (bo : AneBo) (w : World) :
    (aneBoFree env fd bo w).1.Empty := ⟨rfl, rfl⟩

theorem aneBoFree_buffers
    (buffers : Buffers env place own base w (bo.handles ++ handles) (bo.maps ++ maps)) :
    Buffers env place own base (aneBoFree env place.fd bo w).2 handles maps :=
  boFree_buffers (boMunmap_buffers buffers)

end Entries

section Networks

variable {env : Env} {place : Place} {own : List UInt32} {base w w' : World} {nn nn' : AneNn}
  {status : Status}

/-- What the entries of a network object contribute. -/
def AneNn.collect {α : Type} (f : AneBo → List α) (nn : AneNn) : List α :=
  f nn.btspChan ++ (List.range ANE_MAX_TILE_COUNT).flatMap fun i => f (nn.chans i)

structure AneNn.Empty (nn : AneNn) : Prop where
  btspChan : nn.btspChan.Empty
  chans : ∀ i < ANE_MAX_TILE_COUNT, (nn.chans i).Empty

theorem AneNn.Empty.collect {α : Type} (empty : nn.Empty) {f : AneBo → List α}
    (nothing : ∀ bo : AneBo, bo.Empty → f bo = []) : nn.collect f = [] := by
  rw [AneNn.collect, nothing _ empty.btspChan, List.nil_append, List.flatMap_eq_nil_iff]
  intro i mem
  exact nothing _ (empty.chans i (List.mem_range.mp mem))

/-- What does not change while buffers come and go. -/
structure AneNn.Same (nn nn' : AneNn) : Prop where
  block : nn'.block = nn.block
  fd : nn'.fd = nn.fd
  model : nn'.model = nn.model

/-- Emptying entry `i` of a table takes away what it contributes. -/
theorem flatMap_clear {α β : Type} (f : β → List α) (g : Nat → β) {b : β} (nothing : f b = [])
    {i n : Nat} (inside : i < n) :
    ((List.range n).flatMap fun j => f (g j)).Perm
      (f (g i) ++ (List.range n).flatMap fun j => f (Function.update g i b j)) := by
  induction n with
  | zero => omega
  | succ n ih =>
    simp only [List.range_succ, List.flatMap_append, List.flatMap_cons, List.flatMap_nil,
      List.append_nil]
    by_cases last : i = n
    · have before : ((List.range n).flatMap fun j => f (Function.update g i b j)) =
          (List.range n).flatMap fun j => f (g j) := by
        apply List.flatMap_congr
        intro j mem
        have other : j ≠ i := by
          have := List.mem_range.mp mem
          omega
        rw [Function.update_of_ne other]
      rw [before, last, Function.update_self, nothing, List.append_nil]
      exact List.perm_append_comm
    · have other : n ≠ i := Ne.symm last
      rw [Function.update_of_ne other, ← List.append_assoc]
      exact (ih (by omega)).append_right _

theorem AneNn.collect_clear {α : Type} (f : AneBo → List α) (nn : AneNn) {bo : AneBo}
    (nothing : f bo = []) {i : Nat} (inside : i < ANE_MAX_TILE_COUNT) :
    (nn.collect f).Perm (f (nn.chans i) ++ (nn.setChan i bo).collect f) :=
  ((flatMap_clear f nn.chans nothing inside).append_left _).trans
    (List.perm_append_comm_assoc _ _ _)

theorem AneNn.collect_fill {α : Type} (f : AneBo → List α) (nn : AneNn) (bo : AneBo) {i : Nat}
    (nothing : f (nn.chans i) = []) (inside : i < ANE_MAX_TILE_COUNT) :
    (f bo ++ nn.collect f).Perm ((nn.setChan i bo).collect f) := by
  have cleared := (nn.setChan i bo).collect_clear f nothing inside
  simp only [AneNn.setChan, Function.update_self, Function.update_idem,
    Function.update_eq_self] at cleared
  exact cleared.symm

/-- Since `base` the world has made the buffers of `nn`, on the device of `nn`. -/
structure Owns (env : Env) (place : Place) (own : List UInt32) (base : World) (nn : AneNn)
    (w : World) : Prop where
  fd : nn.fd = place.fd
  buffers : Buffers env place own base w (nn.collect AneBo.handles) (nn.collect AneBo.maps)

theorem AneNn.Same.refl (nn : AneNn) : nn.Same nn := ⟨rfl, rfl, rfl⟩

theorem AneNn.Same.trans {nn₁ : AneNn} (same : nn.Same nn₁) (same' : nn₁.Same nn') :
    nn.Same nn' :=
  ⟨same'.block.trans same.block, same'.fd.trans same.fd, same'.model.trans same.model⟩

theorem AneNn.below_succ {bdx : Nat} {bo : AneBo} (empty : bo.Empty)
    (below : ∀ i < bdx, (nn.chans i).Empty) : ∀ i < bdx + 1, ((nn.setChan bdx bo).chans i).Empty := by
  intro i less
  by_cases last : i = bdx
  · simpa [AneNn.setChan, last] using empty
  · simpa [AneNn.setChan, last] using below i (by omega)

theorem chanFreeLoop_owns {n bdx : Nat} (owns : Owns env place own base nn w)
    (btspChan : nn.btspChan.Empty) (below : ∀ i < bdx, (nn.chans i).Empty)
    (all : bdx + n = ANE_MAX_TILE_COUNT) :
    Owns env place own base (chanFreeLoop env n bdx nn w).1 (chanFreeLoop env n bdx nn w).2 ∧
      (chanFreeLoop env n bdx nn w).1.Empty ∧ nn.Same (chanFreeLoop env n bdx nn w).1 := by
  induction n generalizing bdx nn w with
  | zero => exact ⟨owns, ⟨btspChan, fun i less => below i (by omega)⟩, .refl nn⟩
  | succ n ih =>
    have inside : bdx < ANE_MAX_TILE_COUNT := by omega
    have cleared := aneBoFree_empty env nn.fd (nn.chans bdx) w
    have split := owns.buffers.perm (nn.collect_clear _ cleared.handles inside)
      (nn.collect_clear _ cleared.maps inside)
    have after := aneBoFree_buffers split
    rw [← owns.fd] at after
    have next : Owns env place own base (nn.setChan bdx (aneBoFree env nn.fd (nn.chans bdx) w).1)
        (aneBoFree env nn.fd (nn.chans bdx) w).2 := ⟨owns.fd, after⟩
    have rest := ih next btspChan (AneNn.below_succ cleared below) (by omega)
    exact ⟨rest.1, rest.2.1, ⟨rest.2.2.block, rest.2.2.fd, rest.2.2.model⟩⟩

theorem aneChanFree_eq (env : Env) (nn : AneNn) (w : World) : aneChanFree env nn w =
    chanFreeLoop env ANE_MAX_TILE_COUNT 0
      { nn with btspChan := (aneBoFree env nn.fd nn.btspChan w).1 }
      (aneBoFree env nn.fd nn.btspChan w).2 := rfl

theorem aneChanFree_owns (owns : Owns env place own base nn w) :
    Owns env place own base (aneChanFree env nn w).1 (aneChanFree env nn w).2 ∧
      (aneChanFree env nn w).1.Empty ∧ nn.Same (aneChanFree env nn w).1 := by
  have cleared := aneBoFree_empty env nn.fd nn.btspChan w
  have after := aneBoFree_buffers owns.buffers
  rw [← owns.fd] at after
  have freed : Owns env place own base
      { nn with btspChan := (aneBoFree env nn.fd nn.btspChan w).1 }
      (aneBoFree env nn.fd nn.btspChan w).2 := by
    refine ⟨owns.fd, ?_⟩
    rw [AneNn.collect, AneNn.collect, cleared.handles, cleared.maps, List.nil_append,
      List.nil_append]
    exact after
  have rest := chanFreeLoop_owns freed cleared (fun i less => absurd less (Nat.not_lt_zero i))
    (Nat.zero_add ANE_MAX_TILE_COUNT)
  rw [aneChanFree_eq]
  exact ⟨rest.1, rest.2.1, ⟨rest.2.2.block, rest.2.2.fd, rest.2.2.model⟩⟩

theorem Owns.write (owns : Owns env place own base nn w) (ram : Mem) :
    Owns env place own base nn { w with ram := ram } := ⟨owns.fd, { owns.buffers with }⟩

theorem setNid_owns (owns : Owns env place own base nn w) (td : Addr) (nid : UInt32) :
    Owns env place own base nn (setNid td nid w) := by
  simp only [setNid]
  exact owns.write _

theorem copyTasks_owns (owns : Owns env place own base nn w) (file : HwxFile) (text : HwxSection)
    (copy : UInt64) (btsp : Addr) :
    Owns env place own base nn (copyTasks env file text copy btsp w) := by
  have read : Owns env place own base nn (readSection env file text btsp copy w).2 :=
    ⟨owns.fd, { owns.buffers with
      proc := hwxSectionRead_holds (some file) (some text) _ copy owns.buffers.proc }⟩
  simp only [copyTasks]
  split
  · split
    · rename_i done
      rwa [done] at read
    · rename_i failed
      rw [failed] at read
      exact read.write _
  · exact owns

/-- Only the memory and the reader of the file change. -/
theorem setBtspAndCommand_owns (owns : Owns env place own base nn w) :
    Owns env place own base nn (setBtspAndCommand env nn w) := by
  simp only [setBtspAndCommand, hwxGetTskSection, hwxSectionByName]
  split
  · split
    · exact owns
    · rename_i file btsp _ _ _
      have cleared : Owns env place own base nn (w.memset btsp 0 nn.btspChan.size.toNat) :=
        owns.write _
      cases sectionInSegments (some textSegment) textSection 0 file.segments.elems with
      | none => exact setNid_owns cleared btsp ANE_FIFO_NID
      | some text =>
        have copied := copyTasks_owns cleared file text.target
          (copySize nn.model.tdSize text.target.size nn.btspChan.size) btsp
        exact setNid_owns copied btsp ANE_FIFO_NID
  · exact owns

/-- An entry from number `bdx` on is filled, the others are as they were. -/
theorem chanInitLoop_owns {n bdx : Nat} (owns : Owns env place own base nn w)
    (above : ∀ i, bdx ≤ i → i < ANE_MAX_TILE_COUNT → (nn.chans i).Empty)
    (all : bdx + n = ANE_MAX_TILE_COUNT) (h : chanInitLoop env n bdx nn w = (status, nn', w')) :
    Owns env place own base nn' w' ∧ nn.Same nn' ∧ nn'.btspChan = nn.btspChan := by
  induction n generalizing bdx nn w with
  | zero =>
    cases h
    exact ⟨owns, .refl _, rfl⟩
  | succ n ih =>
    have inside : bdx < ANE_MAX_TILE_COUNT := by omega
    have empty := above bdx (Nat.le_refl bdx) inside
    have start : AneBo.Empty { nn.chans bdx with size := tileSize nn bdx } :=
      ⟨empty.handle, empty.map⟩
    simp only [chanInitLoop] at h
    split at h
    · generalize made : aneBoInit env nn.fd { nn.chans bdx with size := tileSize nn bdx } w = r at h
      obtain ⟨status₁, bo, w₁⟩ := r
      rw [owns.fd] at made
      have after := (aneBoInit_buffers owns.buffers start made).1
      have next : Owns env place own base (nn.setChan bdx bo) w₁ :=
        ⟨owns.fd, after.perm (nn.collect_fill _ bo empty.handles inside)
          (nn.collect_fill _ bo empty.maps inside)⟩
      cases status₁ with
      | error e =>
        cases h
        exact ⟨next, ⟨rfl, rfl, rfl⟩, rfl⟩
      | ok _ =>
        have above' : ∀ i, bdx + 1 ≤ i → i < ANE_MAX_TILE_COUNT →
            ((nn.setChan bdx bo).chans i).Empty := by
          intro i low high
          have other : i ≠ bdx := by omega
          simpa [AneNn.setChan, other] using above i (by omega) high
        have rest := ih next above' (by omega) h
        exact ⟨rest.1, ⟨rest.2.1.block, rest.2.1.fd, rest.2.1.model⟩, rest.2.2⟩
    · exact ih owns (fun i low high => above i (by omega) high) (by omega) h

theorem chanInitError_owns {e : Errno} (owns : Owns env place own base nn w)
    (h : chanInitError env e nn w = (status, nn', w')) :
    Owns env place own base nn' w' ∧ nn.Same nn' ∧ nn'.Empty ∧ status = .error e := by
  obtain ⟨freed, empty, same⟩ := aneChanFree_owns owns
  simp only [chanInitError] at h
  generalize aneChanFree env nn w = r at h freed empty same
  cases h
  exact ⟨freed, same, empty, rfl⟩

theorem btspChanInit_owns (owns : Owns env place own base nn w) (empty : nn.btspChan.Empty)
    (h : btspChanInit env nn w = (status, nn', w')) :
    Owns env place own base nn' w' ∧ nn.Same nn' ∧
      (nn.model.tdSize ≠ 0 → ∀ e, status = .error e → nn'.Empty) := by
  by_cases zero : nn.model.tdSize = 0
  · rw [btspChanInit, if_pos zero] at h
    cases h
    exact ⟨owns, .refl _, fun nonzero => absurd zero nonzero⟩
  rw [btspChanInit, if_neg zero] at h
  generalize tileAlign nn.model.tdSize.toUInt64 = size at h
  have start : AneBo.Empty { nn.btspChan with size := size } := ⟨empty.handle, empty.map⟩
  generalize made : aneBoInit env nn.fd { nn.btspChan with size := size } w = r at h
  obtain ⟨status₁, bo, w₁⟩ := r
  rw [owns.fd] at made
  have next : Owns env place own base { nn with btspChan := bo } w₁ := by
    have after := (aneBoInit_buffers owns.buffers start made).1
    rw [AneNn.collect, AneNn.collect, empty.handles, empty.maps, List.nil_append,
      List.nil_append] at after
    exact ⟨owns.fd, after⟩
  cases status₁ with
  | error e =>
    obtain ⟨freed, same, empty', -⟩ := chanInitError_owns next h
    exact ⟨freed, ⟨same.block, same.fd, same.model⟩, fun _ _ _ => empty'⟩
  | ok _ =>
    cases h
    exact ⟨setBtspAndCommand_owns next, ⟨rfl, rfl, rfl⟩, fun _ => nofun⟩

/-- Whatever fails, the world holds what the entries say; and when the bootstrap buffer has a
size, a failure leaves no entry that holds anything. -/
theorem aneChanInit_owns (owns : Owns env place own base nn w) (empty : nn.Empty)
    (h : aneChanInit env nn w = (status, nn', w')) :
    Owns env place own base nn' w' ∧ nn.Same nn' ∧
      (nn.model.tdSize ≠ 0 → ∀ e, status = .error e → nn'.Empty) := by
  simp only [aneChanInit] at h
  generalize looped : chanInitLoop env ANE_MAX_TILE_COUNT 0 nn w = r at h
  obtain ⟨status₁, nn₁, w₁⟩ := r
  obtain ⟨filled, same, btsp⟩ := chanInitLoop_owns owns (fun i _ high => empty.chans i high)
    (Nat.zero_add ANE_MAX_TILE_COUNT) looped
  cases status₁ with
  | error e =>
    obtain ⟨freed, same', empty', -⟩ := chanInitError_owns filled h
    exact ⟨freed, same.trans same', fun _ _ _ => empty'⟩
  | ok _ =>
    have start : nn₁.btspChan.Empty := by
      rw [btsp]
      exact empty.btspChan
    obtain ⟨after, same', failed⟩ := btspChanInit_owns filled start h
    rw [same.model] at failed
    exact ⟨after, same.trans same', failed⟩

end Networks

end Ane.Libane
