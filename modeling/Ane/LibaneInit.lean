import Ane.HwxStates
import Ane.LibaneBuffers

/-! Initialising a network and freeing it. The resources come in layers, the object, the HWX
file, the device, the buffers; each layer is entered with a ledger of what is held already
and is left, on every path, with that ledger or with one entry more. -/
namespace Ane.Libane
open Memory Posix Hwx

section Ledger

variable {env : Env} {base w w' : World} {blocks blocks' : List BlockId} {fds fds' : List Fd}
  {devices : List OpenNode} {maps : List (Addr × UInt64)}

/-- Since `base` the world has taken what is listed and holds it still, has given back
everything else it took, and nothing it did not hold. -/
structure World.Holds (base w : World) (blocks : List BlockId) (fds : List Fd)
    (devices : List OpenNode) (maps : List (Addr × UInt64)) : Prop where
  proc : base.proc.Holds w.proc blocks fds
  devices : w.devices = devices ++ base.devices
  badHandles : w.badHandles = base.badHandles
  maps : w.maps.Perm (maps ++ base.maps)
  badUnmaps : w.badUnmaps = base.badUnmaps
  nullWrites : w.nullWrites = base.nullWrites

/-- Everything taken since `base` has been given back once. -/
def World.Restored (base w : World) : Prop := base.Holds w [] [] [] []

namespace World.Holds

theorem refl (w : World) : w.Holds w [] [] [] [] := ⟨.refl _, rfl, rfl, .refl _, rfl, rfl⟩

variable (holds : base.Holds w blocks fds devices maps)
include holds

theorem onProc {p : Process} (proc : base.proc.Holds p blocks' fds') :
    base.Holds { w with proc := p } blocks' fds' devices maps := { holds with proc := proc }

theorem malloc (allocs : ∀ n, env.hwx.alloc n = true) :
    ∃ b w', w.malloc env = (some b, w') ∧ base.Holds w' (b :: blocks) fds devices maps := by
  simp only [World.malloc]
  generalize granted : Posix.malloc env.hwx w.proc = r
  obtain ⟨block, p⟩ := r
  have taken := holds.proc.malloc granted
  simp only [Posix.malloc, allocs, if_true] at granted
  cases granted
  exact ⟨_, _, rfl, holds.onProc taken⟩

theorem openNode {i : Nat} (opens : (env.node i).openError = none) :
    ∃ fd w', w.openNode env i = (some fd, w') ∧
      base.Holds w' blocks (fd :: fds) (⟨fd, i, []⟩ :: devices) maps := by
  simp only [World.openNode, opens]
  refine ⟨_, _, rfl, { holds with proc := ?_, devices := ?_ }⟩
  · exact ⟨holds.proc.live, holds.proc.fds.cons _, holds.proc.badFrees, holds.proc.badCloses⟩
  · rw [holds.devices]
    rfl

omit holds

theorem free {b : BlockId} (holds : base.Holds w (b :: blocks) fds devices maps) :
    base.Holds (w.free (some b)) blocks fds devices maps := holds.onProc holds.proc.free

theorem close {fd : Fd} {node : Nat} {handles : List UInt32}
    (holds : base.Holds w blocks (fd :: fds) (⟨fd, node, handles⟩ :: devices) maps) :
    base.Holds (w.close fd) blocks fds devices maps := by
  refine { holds with proc := holds.proc.close, devices := ?_ }
  simp [World.close, holds.devices]

end World.Holds

end Ledger

section Devices

variable {env : Env} {base w w' : World} {blocks : List BlockId} {fds : List Fd}
  {devices : List OpenNode} {maps : List (Addr × UInt64)}

/-- The driver of the node answers both questions and is called "ane". -/
def Node.isAne (node : Node) : Bool :=
  node.lengthServed && node.nameServed && cString node.driver == ascii ['a', 'n', 'e']

/-- The nodes that open and are ANE devices, in node order. -/
def Env.opensAne (env : Env) (i : Nat) : Bool := (env.node i).openError.isNone && (env.node i).isAne

def Env.aneNodes (env : Env) : List Nat := (List.range MAX_NODE_COUNT).filter env.opensAne

theorem isAneDevice_holds (allocs : ∀ n, env.hwx.alloc n = true) {fd : Fd} {i : Nat}
    (holds : base.Holds w blocks fds (⟨fd, i, []⟩ :: devices) maps) :
    ∃ status w', isAneDevice env fd w = (status, w') ∧
      base.Holds w' blocks fds (⟨fd, i, []⟩ :: devices) maps ∧
        (if (env.node i).isAne then status = .ok () else ∃ e, status = .error e) := by
  have device : w.device fd = some ⟨fd, i, []⟩ := by
    simp [World.device, holds.devices]
  simp only [isAneDevice, device, Node.isAne]
  by_cases length : (env.node i).lengthServed = false
  · simp only [if_pos length]
    exact ⟨_, _, rfl, holds, by simp [length]⟩
  rw [if_neg length]
  by_cases empty : (env.node i).driver.length = 0
  · rw [if_pos empty]
    have none : (env.node i).driver = [] := List.length_eq_zero_iff.mp empty
    exact ⟨_, _, rfl, holds, by simp [none, cString, ascii]⟩
  rw [if_neg empty]
  obtain ⟨name, w₁, granted, taken⟩ := holds.malloc allocs
  simp only [granted]
  by_cases refused : (env.node i).nameServed = false
  · rw [if_pos refused]
    exact ⟨_, _, rfl, taken.free, by simp [refused]⟩
  rw [if_neg refused]
  have written : w₁.writeTo (some name) = w₁ := rfl
  rw [written]
  by_cases other : cString (env.node i).driver ≠ ascii ['a', 'n', 'e']
  · rw [if_pos other]
    exact ⟨_, _, rfl, taken.free, by simp [other]⟩
  · rw [if_neg other]
    rw [Bool.not_eq_false] at length refused
    rw [not_not] at other
    exact ⟨_, _, rfl, taken.free, by simp [length, refused, other]⟩

theorem openFd_holds (allocs : ∀ n, env.hwx.alloc n = true) (i : Nat)
    (holds : base.Holds w blocks fds devices maps) :
    (env.opensAne i = true ∧ ∃ fd w', openFd env i w = (some fd, w') ∧
      base.Holds w' blocks (fd :: fds) (⟨fd, i, []⟩ :: devices) maps) ∨
    (env.opensAne i = false ∧ ∃ w', openFd env i w = (none, w') ∧
      base.Holds w' blocks fds devices maps) := by
  simp only [openFd, Env.opensAne]
  cases opens : (env.node i).openError with
  | some e =>
    simp only [World.openNode, opens]
    exact Or.inr ⟨rfl, _, rfl, holds.onProc holds.proc.setErrno⟩
  | none =>
    obtain ⟨fd, w₁, opened, taken⟩ := holds.openNode opens
    obtain ⟨status, w₂, asked, kept, result⟩ := isAneDevice_holds allocs taken
    simp only [opened, asked, Option.isNone_none, Bool.true_and]
    by_cases ane : (env.node i).isAne = true
    · rw [if_pos ane] at result
      subst result
      exact Or.inl ⟨ane, fd, w₂, rfl, kept⟩
    · rw [if_neg ane] at result
      obtain ⟨e, rfl⟩ := result
      rw [Bool.not_eq_true] at ane
      exact Or.inr ⟨ane, _, rfl, kept.close⟩

/-- With `j` devices still to be passed by, the scan opens device `j` of those left, or none
if there are not so many; the nodes it opened besides are closed. -/
theorem deviceScan_holds (allocs : ∀ n, env.hwx.alloc n = true) {devId : Int} {n i found j : Nat}
    (wanted : devId = found + j) (holds : base.Holds w blocks fds devices maps) :
    (∃ w', deviceScan env devId n i found w = (none, w') ∧
      ((List.range' i n).filter env.opensAne)[j]? = none ∧
        base.Holds w' blocks fds devices maps) ∨
    (∃ fd k w', deviceScan env devId n i found w = (some fd, w') ∧
      ((List.range' i n).filter env.opensAne)[j]? = some k ∧
        base.Holds w' blocks (fd :: fds) (⟨fd, k, []⟩ :: devices) maps) := by
  induction n generalizing i found j w with
  | zero => exact Or.inl ⟨w, rfl, rfl, holds⟩
  | succ n ih =>
    rw [List.range'_succ]
    simp only [deviceScan]
    rcases openFd_holds allocs i holds with ⟨ane, fd, w₁, opened, taken⟩ | ⟨other, w₁, skipped, kept⟩
    · rw [List.filter_cons_of_pos ane, opened]
      cases j with
      | zero =>
        have here : devId = found := by omega
        simp only [if_pos here]
        exact Or.inr ⟨fd, i, w₁, rfl, rfl, taken⟩
      | succ j =>
        have further : devId ≠ found := by omega
        have wanted' : devId = ↑(found + 1) + ↑j := by omega
        simp only [if_neg further, List.getElem?_cons_succ]
        exact ih wanted' taken.close
    · rw [List.filter_cons_of_neg (by simp [other]), skipped]
      exact ih wanted kept

/-- The device asked for is opened, if there is one. -/
theorem deviceOpen_holds (allocs : ∀ n, env.hwx.alloc n = true) (devId : Int)
    (holds : base.Holds w blocks fds devices maps) :
    (∃ w', deviceOpen env devId w = (none, w') ∧ base.Holds w' blocks fds devices maps) ∨
    (∃ fd k w', deviceOpen env devId w = (some fd, w') ∧ 0 ≤ devId ∧
      env.aneNodes[devId.toNat]? = some k ∧
        base.Holds w' blocks (fd :: fds) (⟨fd, k, []⟩ :: devices) maps) := by
  simp only [deviceOpen, Env.aneNodes, List.range_eq_range']
  split
  · exact Or.inl ⟨w, rfl, holds⟩
  · rename_i valid
    have wanted : devId = ↑(0 : Nat) + ↑devId.toNat := by omega
    rcases deviceScan_holds allocs wanted holds with
      ⟨w', scanned, -, kept⟩ | ⟨fd, k, w', scanned, device, taken⟩
    · exact Or.inl ⟨w', scanned, kept⟩
    · exact Or.inr ⟨fd, k, w', scanned, by omega, device, taken⟩

end Devices

section Models

variable {env : Env} {base w w' : World} {blocks : List BlockId} {fds : List Fd}
  {devices : List OpenNode} {maps : List (Addr × UInt64)} {file : HwxFile}

theorem hwxThreadStateNext_holds {start p : Process} (holds : start.Holds p blocks fds)
    (file : Option HwxFile) (flavor : UInt32) (current : Option Int) :
    start.Holds (hwxThreadStateNext file flavor current p).2 blocks fds := by
  simp only [hwxThreadStateNext]
  split
  · exact holds.setErrno
  split
  · exact holds
  split
  · exact holds.setErrno
  · exact holds

theorem segStateLoop_holds {start p : Process} (holds : start.Holds p blocks fds)
    (file : HwxFile) (fuel : Nat) (cursor : Option Int) :
    start.Holds (segStateLoop file fuel cursor p).2 blocks fds := by
  induction fuel generalizing cursor p with
  | zero => exact holds
  | succ fuel ih =>
    have next := hwxThreadStateNext_holds holds (some file) HWX_ANE_SEG_STATE cursor
    simp only [segStateLoop]
    split
    · rename_i found
      rwa [found] at next
    · rename_i found
      rw [found] at next
      split
      · exact next
      · exact ih next _

/-- A model that is accepted has the file and a size of its tasks; else the file is closed. -/
theorem modelOfFile_holds (sound : file.Sound)
    (holds : base.Holds w (file.owned ++ blocks) (file.fd :: fds) devices maps) :
    (∃ e model w', modelOfFile file w = (.error e, model, w') ∧
      base.Holds w' blocks fds devices maps) ∨
    (∃ model w', modelOfFile file w = (.ok (), model, w') ∧ model.hwx = some file ∧
      model.tdSize ≠ 0 ∧ base.Holds w' (file.owned ++ blocks) (file.fd :: fds) devices maps) := by
  have searched := segStateLoop_holds holds.proc file (file.threadStates.elems.length + 1) none
  simp only [modelOfFile, modelInitError, hwxGetTskSection, hwxGetKrnSection, hwxSectionByName]
  generalize segStateLoop file (file.threadStates.elems.length + 1) none w.proc = r at searched
  obtain ⟨state, p⟩ := r
  have closed := holds.onProc (hwxClose_holds sound searched)
  cases state with
  | none => exact Or.inl ⟨_, _, _, rfl, closed⟩
  | some state =>
  simp only
  split
  · exact Or.inl ⟨_, _, _, rfl, closed⟩
  · rename_i nonzero
    cases sectionInSegments (some textSegment) textSection 0 file.segments.elems with
    | none => exact Or.inl ⟨_, _, _, rfl, closed⟩
    | some tsk =>
    cases sectionInSegments (some textSegment) constSection 0 file.segments.elems with
    | none => exact Or.inl ⟨_, _, _, rfl, closed⟩
    | some krn => exact Or.inr ⟨_, _, rfl, rfl, nonzero, holds.onProc searched⟩

theorem aneModelInit_holds (env : Env) (path : Option String) (holds : base.Holds w blocks fds devices maps) :
    (∃ e model w', aneModelInit env path w = (.error e, model, w') ∧
      base.Holds w' blocks fds devices maps) ∨
    (∃ model file w', aneModelInit env path w = (.ok (), model, w') ∧ model.hwx = some file ∧
      file.Sound ∧ model.tdSize ≠ 0 ∧
        base.Holds w' (file.owned ++ blocks) (file.fd :: fds) devices maps) := by
  have opened := hwxOpen_holds env.hwx path holds.proc
  simp only [aneModelInit]
  generalize hwxOpen env.hwx path w.proc = r at opened
  obtain ⟨file, p⟩ := r
  cases file with
  | none => exact Or.inl ⟨_, _, _, rfl, holds.onProc (opened.null rfl)⟩
  | some file =>
    obtain ⟨sound, taken⟩ := opened.file file rfl
    rcases modelOfFile_holds sound (holds.onProc taken) with
      ⟨e, model, w', failed, kept⟩ | ⟨model, w', made, hwx, nonzero, kept⟩
    · exact Or.inl ⟨e, model, w', failed, kept⟩
    · exact Or.inr ⟨model, file, w', made, hwx, sound, nonzero, kept⟩

end Models

section Networks

variable {env : Env} {base start w w' : World} {nn : AneNn} {node : Nat} {handles : List UInt32}
  {file : HwxFile}

/-- The place of the node opened last. -/
def front (fd : Fd) (node : Nat) (after : List OpenNode) : Place where
  before := []
  fd := fd
  node := node
  after := after
  fresh := by simp

/-- A complete network: the file of its model, its object, its device and its buffers are
all the world has taken since `base`. -/
structure Live (env : Env) (base w : World) (nn : AneNn) (node : Nat) (file : HwxFile) : Prop where
  hwx : nn.model.hwx = some file
  sound : file.Sound
  owns : ∃ start, base.Holds start (file.owned ++ [nn.block]) [nn.fd, file.fd]
      [⟨nn.fd, node, []⟩] [] ∧
    Owns env (front nn.fd node base.devices) [] start nn w

/-- The buffers made since the device was opened are added to what was held then. -/
theorem Owns.holds {fd : Fd} {blocks : List BlockId} {fds : List Fd}
    (holds : base.Holds start blocks fds [⟨fd, node, []⟩] [])
    (owns : Owns env (front fd node base.devices) [] start nn w) :
    ∃ handles, base.Holds w blocks fds [⟨fd, node, handles⟩] (nn.collect AneBo.maps) := by
  obtain ⟨held, -, devices, -, -⟩ := owns.buffers.devices
  refine ⟨held, holds.proc.trans owns.buffers.proc, devices, ?_, ?_, ?_, ?_⟩
  · exact owns.buffers.badHandles.trans holds.badHandles
  · exact owns.buffers.maps.trans (holds.maps.append_left _)
  · exact owns.buffers.badUnmaps.trans holds.badUnmaps
  · exact owns.buffers.nullWrites.trans holds.nullWrites

/-- Without buffers the rest of the network is given back. -/
theorem closeNetwork_restored (hwx : nn.model.hwx = some file) (sound : file.Sound)
    (holds : base.Holds w (file.owned ++ [nn.block]) [nn.fd, file.fd] [⟨nn.fd, node, handles⟩] []) :
    base.Restored ((aneModelFree (aneDeviceClose nn w).1 (aneDeviceClose nn w).2).2.free
      (some (aneModelFree (aneDeviceClose nn w).1 (aneDeviceClose nn w).2).1.block)) := by
  have closed := holds.close
  simp only [aneDeviceClose, aneModelFree, hwx]
  exact (closed.onProc (hwxClose_holds sound closed.proc)).free

theorem Live.restored (live : Live env base w nn node file) : base.Restored (aneFree env nn w) := by
  obtain ⟨start, holds, owns⟩ := live.owns
  obtain ⟨freed, empty, same⟩ := aneChanFree_owns owns
  simp only [aneFree]
  generalize aneChanFree env nn w = r at freed empty same
  obtain ⟨nn', w'⟩ := r
  obtain ⟨handles, kept⟩ := freed.holds holds
  rw [empty.collect fun _ => AneBo.Empty.maps, ← same.fd, ← same.block] at kept
  exact closeNetwork_restored (same.model ▸ live.hwx) live.sound kept

/-- With an open device the channels are all made, or everything is given back. -/
theorem initChannels_cases (hwx : nn.model.hwx = some file) (sound : file.Sound)
    (nonzero : nn.model.tdSize ≠ 0) (empty : nn.Empty)
    (holds : base.Holds w (file.owned ++ [nn.block]) [nn.fd, file.fd] [⟨nn.fd, node, []⟩] []) :
    (∃ w', initChannels env nn w = (none, w') ∧ base.Restored w') ∨
    (∃ nn' w', initChannels env nn w = (some nn', w') ∧ Live env base w' nn' node file) := by
  have noHandles : nn.collect AneBo.handles = [] := empty.collect fun _ => AneBo.Empty.handles
  have noMaps : nn.collect AneBo.maps = [] := empty.collect fun _ => AneBo.Empty.maps
  have owns : Owns env (front nn.fd node base.devices) [] w nn w := by
    refine ⟨rfl, ?_⟩
    rw [noHandles, noMaps]
    exact ⟨.refl _, ⟨[], [], holds.devices, .refl _, fun _ => rfl⟩, rfl, .refl _, rfl, rfl⟩
  simp only [initChannels]
  generalize made : aneChanInit env nn w = r
  obtain ⟨status, nn', w'⟩ := r
  obtain ⟨after, same, failed⟩ := aneChanInit_owns owns empty made
  have hwx' : nn'.model.hwx = some file := by rw [same.model, hwx]
  cases status with
  | error e =>
    obtain ⟨handles, kept⟩ := after.holds holds
    rw [(failed nonzero e rfl).collect fun _ => AneBo.Empty.maps, ← same.fd, ← same.block] at kept
    exact Or.inl ⟨_, rfl, closeNetwork_restored hwx' sound kept⟩
  | ok _ =>
    rw [← same.fd] at after
    rw [← same.fd, ← same.block] at holds
    exact Or.inr ⟨nn', w', rfl, hwx', sound, w, holds, after⟩

/-- The object is allocated, the model read, the device opened and the channels made, or
everything is given back. -/
theorem aneInit_cases (allocs : ∀ n, env.hwx.alloc n = true) (path : Option String) (devId : Int)
    (base : World) :
    (∃ w, aneInit env path devId base = (none, w) ∧ base.Restored w) ∨
    (∃ nn w node file, aneInit env path devId base = (some nn, w) ∧ 0 ≤ devId ∧
      env.aneNodes[devId.toNat]? = some node ∧ Live env base w nn node file) := by
  obtain ⟨block, w₁, granted, object⟩ := (World.Holds.refl base).malloc allocs
  simp only [aneInit, granted]
  rcases aneModelInit_holds env path object with
    ⟨e, model, w₂, refused, kept⟩ | ⟨model, file, w₂, read, hwx, sound, nonzero, taken⟩
  · simp only [refused]
    exact Or.inl ⟨_, rfl, kept.free⟩
  simp only [read, aneDeviceOpen]
  rcases deviceOpen_holds allocs devId taken with
    ⟨w₃, missing, kept⟩ | ⟨fd, node, w₃, opened, valid, device, open'⟩
  · simp only [missing, aneModelFree, hwx]
    exact Or.inl ⟨_, rfl, (kept.onProc (hwxClose_holds sound kept.proc)).free⟩
  simp only [opened]
  have empty : AneNn.Empty { AneNn.zero block with model := model, fd := fd } :=
    ⟨⟨rfl, rfl⟩, fun _ _ => ⟨rfl, rfl⟩⟩
  rcases initChannels_cases hwx sound nonzero empty open' with
    ⟨w₄, failed, restored⟩ | ⟨nn, w₄, made, live⟩
  · exact Or.inl ⟨w₄, failed, restored⟩
  · exact Or.inr ⟨nn, w₄, node, file, made, valid, device, live⟩

/-- What a call of `aneInit` in the world `base` is to leave: nothing it acquired when it
returns null; and with a network, the device asked for as the one device node more, until
`aneFree` gives everything back. -/
structure InitLedger (env : Env) (devId : Int) (base : World) (nn : Option AneNn) (w : World) :
    Prop where
  null : nn = none → base.Restored w
  device : ∀ n ∈ nn, 0 ≤ devId ∧ ∃ node handles, env.aneNodes[devId.toNat]? = some node ∧
    w.devices = ⟨n.fd, node, handles⟩ :: base.devices
  descriptors : ∀ n ∈ nn, ∃ file, n.model.hwx = some file ∧
    w.proc.fds.Perm (n.fd :: file.fd :: base.proc.fds)
  freed : ∀ n ∈ nn, base.Restored (aneFree env n w)

/-- For every file, device number and arrangement of the nodes, and whatever calls fail while
memory does not run out. -/
theorem aneInit_ledger (allocs : ∀ n, env.hwx.alloc n = true) (path : Option String) (devId : Int)
    (base : World) :
    InitLedger env devId base (aneInit env path devId base).1 (aneInit env path devId base).2 := by
  rcases aneInit_cases allocs path devId base with
    ⟨w, failed, restored⟩ | ⟨nn, w, node, file, made, valid, device, live⟩
  · rw [failed]
    have none {P : AneNn → Prop} : ∀ n ∈ (none : Option AneNn), P n := by simp
    exact ⟨fun _ => restored, none, none, none⟩
  · obtain ⟨start, holds, owns⟩ := live.owns
    obtain ⟨handles, held⟩ := owns.holds holds
    rw [made]
    refine ⟨nofun, ?_, ?_, ?_⟩
    · rintro n ⟨⟩
      exact ⟨valid, node, handles, device, held.devices⟩
    · rintro n ⟨⟩
      exact ⟨file, live.hwx, held.proc.fds⟩
    · rintro n ⟨⟩
      exact live.restored

/-- The small container with a segment state of two words and one task. -/
def segContainer : List UInt8 :=
  [0xCE, 0xFA, 0xEF, 0xBE] ++ List.replicate 12 0 ++ [2, 0, 0, 0, 0x30, 9, 0, 0] ++
    smallContainer.drop 24 ++ [4, 0, 0, 0, 0x48, 8, 0, 0] ++ [4, 0, 0, 0, 0x0E, 2, 0, 0] ++
      List.replicate 2068 0 ++ [2, 0, 0, 0] ++ List.replicate 8 0 ++ [1, 0, 0, 0] ++
        List.replicate 20 0

theorem segContainer_lt : segContainer.length < 2 ^ 63 := by
  have length : (smallContainer.drop 24).length = 240 := by decide +kernel
  simp only [segContainer, List.length_append, List.length_replicate, List.length_cons,
    List.length_nil, length]
  decide

/-- The first node does not open, the third is another device; no handle can be freed. -/
def fewNodes : Env where
  hwx := Posix.Env.plain segContainer segContainer_lt
  node i :=
    if i = 0 then ⟨some ENOENT, [], true, true⟩
    else if i = 2 then ⟨none, ascii ['i', '9', '1', '5'], true, true⟩
    else ⟨none, ascii ['a', 'n', 'e'], true, true⟩
  boInit _ := some (1, 0)
  boInit_ne _ handle offset made := by
    have first : 1 = handle := congrArg Prod.fst (Option.some.inj made)
    rw [← first]
    decide
  boFree _ := false
  mmap _ := some 0x10000

def World.idle : World := ⟨.fresh, [], 0, 0, 0, [], 0, 0, fun _ => 0⟩

theorem aneInit_ledger_fewNodes : ∃ nn w, aneInit fewNodes (some "a.hwx") 1 .idle = (some nn, w) ∧
    w.devices.map (·.node) = [3] ∧ World.idle.Restored (aneFree fewNodes nn w) := by
  have ledger := aneInit_ledger (fun _ => rfl : ∀ n, fewNodes.hwx.alloc n = true) (some "a.hwx") 1
    .idle
  have opened : (aneInit fewNodes (some "a.hwx") 1 .idle).1.isSome = true := by decide +kernel
  generalize aneInit fewNodes (some "a.hwx") 1 .idle = r at ledger opened
  obtain ⟨nn, w⟩ := r
  obtain ⟨nn, rfl⟩ := Option.isSome_iff_exists.mp opened
  obtain ⟨-, node, handles, device, devices⟩ := ledger.device nn rfl
  have third : fewNodes.aneNodes[Int.toNat 1]? = some 3 := by decide +kernel
  obtain rfl : 3 = node := Option.some.inj (third.symm.trans device)
  refine ⟨nn, w, rfl, ?_, ledger.freed nn rfl⟩
  rw [devices]
  rfl

end Networks

end Ane.Libane
