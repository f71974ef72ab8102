import Ane.HandleTable
import Ane.LibaneChannels

/-! The buffer ioctls of a network object, in the order they are made and with their answers.
The handles that a node has after them are those of a table that replays them; those of the
entries and those that were never taken back make it up. -/
namespace Ane.Libane
open HandleTable Hwx Posix Runs

abbrev BufferCall := Call UInt32 UInt64

section Calls
variable (env : Env)

def boInitCalls (fd : Fd) (bo : AneBo) (w : World) : List BufferCall :=
  [.make bo.size ((w.ioctlBoInit env fd).1.map Prod.fst)]

/-- A handle that the node does not have is refused. -/
def boFreeCalls (fd : Fd) (bo : AneBo) (w : World) : List BufferCall :=
  if bo.handle ≠ 0 then
    [.free bo.handle (env.boFree w.ioctls && (w.device fd).any (bo.handle ∈ ·.handles))]
  else []

def aneBoInitCalls (fd : Fd) (bo : AneBo) (w : World) : List BufferCall :=
  if bo.size = 0 then []
  else
    boInitCalls env fd bo w ++
      match boInit env fd bo w with
      | (.error _, _, _) => []
      | (.ok _, bo, w) =>
        match boMmap env bo w with
        | (.ok _, _, _) => []
        | (.error _, bo, w) => boFreeCalls env fd bo w

def aneBoFreeCalls (fd : Fd) (bo : AneBo) (w : World) : List BufferCall :=
  match boMunmap bo w with
  | (bo, w) => boFreeCalls env fd bo w

def chanFreeLoopCalls : Nat → Nat → AneNn → World → List BufferCall
  | 0, _, _, _ => []
  | n + 1, bdx, nn, w =>
    aneBoFreeCalls env nn.fd (nn.chans bdx) w ++
      match aneBoFree env nn.fd (nn.chans bdx) w with
      | (bo, w) => chanFreeLoopCalls n (bdx + 1) (nn.setChan bdx bo) w

def aneChanFreeCalls (nn : AneNn) (w : World) : List BufferCall :=
  aneBoFreeCalls env nn.fd nn.btspChan w ++
    match aneBoFree env nn.fd nn.btspChan w with
    | (bo, w) => chanFreeLoopCalls env ANE_MAX_TILE_COUNT 0 { nn with btspChan := bo } w

def chanInitLoopCalls : Nat → Nat → AneNn → World → List BufferCall
  | 0, _, _, _ => []
  | n + 1, bdx, nn, w =>
    if nn.model.tiles bdx ≠ 0 then
      aneBoInitCalls env nn.fd { nn.chans bdx with size := tileSize nn bdx } w ++
        match aneBoInit env nn.fd { nn.chans bdx with size := tileSize nn bdx } w with
        | (.error _, _, _) => []
        | (.ok _, bo, w) => chanInitLoopCalls n (bdx + 1) (nn.setChan bdx bo) w
    else chanInitLoopCalls n (bdx + 1) nn w

def btspChanInitCalls (nn : AneNn) (w : World) : List BufferCall :=
  if nn.model.tdSize = 0 then []
  else
    let start := { nn.btspChan with size := tileAlign nn.model.tdSize.toUInt64 }
    aneBoInitCalls env nn.fd start w ++
      match aneBoInit env nn.fd start w with
      | (.error _, bo, w) => aneChanFreeCalls env { nn with btspChan := bo } w
      | (.ok _, _, _) => []

def aneChanInitCalls (nn : AneNn) (w : World) : List BufferCall :=
  chanInitLoopCalls env ANE_MAX_TILE_COUNT 0 nn w ++
    match chanInitLoop env ANE_MAX_TILE_COUNT 0 nn w with
    | (.error _, nn, w) => aneChanFreeCalls env nn w
    | (.ok _, nn, w) => btspChanInitCalls env nn w

def aneInitCalls (path : Option String) (devId : Int) (w : World) : List BufferCall :=
  match w.malloc env with
  | (none, _) => []
  | (some block, w) =>
    match aneModelInit env path w with
    | (.error _, _, _) => []
    | (.ok _, model, w) =>
      match aneDeviceOpen env { AneNn.zero block with model := model } devId w with
      | (.ok _, nn, w) => aneChanInitCalls env nn w
      | (.error _, _, _) => []

/-- A network is made and, when that succeeds, freed again. -/
def sessionCalls (path : Option String) (devId : Int) (w : World) : List BufferCall :=
  aneInitCalls env path devId w ++
    match aneInit env path devId w with
    | (some nn, w) => aneChanFreeCalls env nn w
    | (none, _) => []

end Calls

/-- The handle of an entry with its size. -/
def AneBo.pairs (bo : AneBo) : Table UInt32 UInt64 :=
  if bo.handle = 0 then [] else [(bo.handle, bo.size)]

theorem AneBo.Empty.pairs {bo : AneBo} (empty : bo.Empty) : bo.pairs = [] := if_pos empty.handle

/-- After the calls `cs` the node at `place` has the handles of the table, and `held` is what
the client has of them. -/
structure Tally (place : Place) (t : Table UInt32 UInt64) (cs : List BufferCall)
    (held : Table UInt32 UInt64) (w : World) : Prop where
  devices : w.devices = place.devices (keys (run replay t cs))
  accounts : Accounts t cs held

section Entries
variable {env : Env} {place : Place} {t held held' : Table UInt32 UInt64} {cs more : List BufferCall}
  {w w' : World} {bo bo' : AneBo} {status : Status}

theorem Tally.device (tally : Tally place t cs held w) :
    w.device place.fd = some ⟨place.fd, place.node, keys (run replay t cs)⟩ := by
  rw [World.device, tally.devices, place.find?_devices]

/-- What holds of the errors of a call holds when it succeeds. -/
theorem ok_error {P : Errno → Prop} : ∀ e, (.ok () : Status) = .error e → P e := by
  intro e failed
  cases failed

theorem boInit_tally (tally : Tally place t cs held w) (zero : bo.handle = 0)
    (h : boInit env place.fd bo w = (status, bo', w')) :
    Tally place t (cs ++ boInitCalls env place.fd bo w) (bo'.pairs ++ held) w' ∧
      bo'.size = bo.size ∧ bo'.map = bo.map ∧ (∀ e, status = .error e → bo'.handle = 0) := by
  have made := tally.accounts.make bo.size ((w.ioctlBoInit env place.fd).1.map Prod.fst)
  simp only [boInit, boInitCalls, World.ioctlBoInit, tally.device] at h made ⊢
  cases answer : env.boInit w.ioctls with
  | none =>
    simp only [answer] at h made ⊢
    cases h
    rw [AneBo.pairs, if_pos zero]
    exact ⟨⟨by rw [run_append]; exact tally.devices, made⟩, rfl, rfl, fun _ _ => zero⟩
  | some r =>
    obtain ⟨handle, offset⟩ := r
    have nonzero := env.boInit_ne _ handle offset answer
    simp only [answer] at h made ⊢
    cases h
    refine ⟨⟨?_, ?_⟩, rfl, rfl, ok_error⟩
    · rw [tally.devices, place.withHandles_devices, run_append]
      rfl
    · simpa [AneBo.pairs, nonzero] using made

theorem boFree_tally (tally : Tally place t cs (bo.pairs ++ held) w)
    (nodup : (keys (run replay t cs)).Nodup) :
    Tally place t (cs ++ boFreeCalls env place.fd bo w) held (boFree env place.fd bo w).2 := by
  by_cases zero : bo.handle = 0
  · simpa [boFree, boFreeCalls, AneBo.pairs, zero] using tally
  have pairs : bo.pairs = [(bo.handle, bo.size)] := if_neg zero
  have accounts := tally.accounts
  rw [pairs, List.singleton_append] at accounts
  have freed := accounts.free nodup
    (env.boFree w.ioctls && (w.device place.fd).any (bo.handle ∈ ·.handles))
  simp only [boFree, boFreeCalls, if_pos zero] at freed ⊢
  refine ⟨?_, freed⟩
  have devices := tally.devices
  simp only [World.ioctlBoFree, run_append, tally.device, Option.any_some]
  by_cases served : env.boFree w.ioctls
  · by_cases mem : bo.handle ∈ keys (run replay t cs)
    · simp only [served, mem, decide_true, if_true, Bool.and_self, run_cons, run_nil, replay,
        keys_eraseP]
      rw [devices, place.withHandles_devices]
    · simpa [served, mem, replay] using devices
  · simpa [served, replay] using devices

theorem boMmap_tally (tally : Tally place t cs held w) (h : boMmap env bo w = (status, bo', w')) :
    Tally place t cs held w' ∧ bo'.pairs = bo.pairs ∧ bo'.size = bo.size ∧
      (∀ e, status = .error e → bo'.map = none) := by
  simp only [boMmap, World.mmap] at h
  cases answer : env.mmap w.mmaps with
  | none =>
    simp only [answer] at h
    cases h
    exact ⟨⟨tally.devices, tally.accounts⟩, rfl, rfl, fun _ _ => rfl⟩
  | some addr =>
    simp only [answer] at h
    cases h
    exact ⟨⟨tally.devices, tally.accounts⟩, rfl, rfl, ok_error⟩

theorem boMunmap_tally (tally : Tally place t cs held w) : Tally place t cs held (boMunmap bo w).2 := by
  have same : (boMunmap bo w).2.devices = w.devices := by
    simp only [boMunmap]
    cases bo.map with
    | none => rfl
    | some addr =>
      simp only [World.munmap]
      split <;> rfl
  exact ⟨same.trans tally.devices, tally.accounts⟩

/-- An empty entry is filled, or it is empty again. -/
theorem aneBoInit_tally (tally : Tally place t cs held w) (empty : bo.Empty)
    (legal : Legal t (cs ++ aneBoInitCalls env place.fd bo w))
    (h : aneBoInit env place.fd bo w = (status, bo', w')) :
    Tally place t (cs ++ aneBoInitCalls env place.fd bo w) (bo'.pairs ++ held) w' ∧
      bo'.size = bo.size ∧ (∀ e, status = .error e → bo'.Empty) := by
  simp only [aneBoInit, aneBoInitCalls] at h legal ⊢
  split at h
  · rename_i none
    cases h
    rw [if_pos none, empty.pairs, List.append_nil]
    exact ⟨tally, rfl, fun _ _ => empty⟩
  rename_i some_
  rw [if_neg some_] at legal ⊢
  generalize made : boInit env place.fd bo w = r at h legal ⊢
  obtain ⟨e | done, bo₁, w₁⟩ := r
  · cases h
    obtain ⟨after, size, map, zero⟩ := boInit_tally tally empty.handle made
    rw [List.append_nil]
    exact ⟨after, size, fun _ _ => ⟨zero _ rfl, map.trans empty.map⟩⟩
  · obtain ⟨after, size, -, -⟩ := boInit_tally tally empty.handle made
    dsimp only at h legal ⊢
    generalize mapped : boMmap env bo₁ w₁ = r at h legal ⊢
    obtain ⟨e | done, bo₂, w₂⟩ := r
    · cases h
      obtain ⟨after', pairs, size', null⟩ := boMmap_tally after mapped
      dsimp only at legal ⊢
      rw [← pairs] at after'
      rw [← List.append_assoc] at legal ⊢
      have empty' : (boFree env place.fd bo₂ w₂).1.Empty := ⟨rfl, null e rfl⟩
      rw [empty'.pairs]
      exact ⟨boFree_tally after' legal.before.last, size'.trans size, fun _ _ => empty'⟩
    · cases h
      obtain ⟨after', pairs, size', -⟩ := boMmap_tally after mapped
      rw [List.append_nil, pairs]
      exact ⟨after', size'.trans size, ok_error⟩

theorem aneBoFree_tally (tally : Tally place t cs (bo.pairs ++ held) w)
    (nodup : (keys (run replay t cs)).Nodup) :
    Tally place t (cs ++ aneBoFreeCalls env place.fd bo w) held (aneBoFree env place.fd bo w).2 := by
  have pairs : (boMunmap bo w).1.pairs = bo.pairs := rfl
  rw [← pairs] at tally
  exact boFree_tally (boMunmap_tally tally) nodup

end Entries

section Networks
variable {env : Env} {place : Place} {t : Table UInt32 UInt64} {cs : List BufferCall}
  {w w' : World} {nn nn' : AneNn} {status : Status} {n bdx : Nat}

/-- What a network object holds after the calls `cs`. -/
structure Tracks (place : Place) (t : Table UInt32 UInt64) (cs : List BufferCall) (nn : AneNn)
    (w : World) : Prop where
  fd : nn.fd = place.fd
  tally : Tally place t cs (nn.collect AneBo.pairs) w

theorem Tally.perm {held held' : Table UInt32 UInt64} (tally : Tally place t cs held w)
    (same : held.Perm held') : Tally place t cs held' w :=
  ⟨tally.devices, tally.accounts.perm same⟩

theorem chanFreeLoop_empty (btspChan : nn.btspChan.Empty) (below : ∀ i < bdx, (nn.chans i).Empty)
    (all : bdx + n = ANE_MAX_TILE_COUNT) : (chanFreeLoop env n bdx nn w).1.Empty := by
  induction n generalizing bdx nn w with
  | zero => exact ⟨btspChan, fun i less => below i (by omega)⟩
  | succ n ih =>
    have cleared := aneBoFree_empty env nn.fd (nn.chans bdx) w
    exact ih btspChan (AneNn.below_succ cleared below) (by omega)

theorem aneChanFree_empty (env : Env) (nn : AneNn) (w : World) : (aneChanFree env nn w).1.Empty :=
  chanFreeLoop_empty (aneBoFree_empty env nn.fd nn.btspChan w)
    (fun i less => absurd less (Nat.not_lt_zero i)) (Nat.zero_add ANE_MAX_TILE_COUNT)

theorem chanFreeLoop_tracks (tracks : Tracks place t cs nn w)
    (legal : Legal t (cs ++ chanFreeLoopCalls env n bdx nn w)) (all : bdx + n = ANE_MAX_TILE_COUNT) :
    Tracks place t (cs ++ chanFreeLoopCalls env n bdx nn w) (chanFreeLoop env n bdx nn w).1
      (chanFreeLoop env n bdx nn w).2 := by
  induction n generalizing bdx nn w cs with
  | zero =>
    rw [chanFreeLoopCalls, List.append_nil]
    exact tracks
  | succ n ih =>
    have inside : bdx < ANE_MAX_TILE_COUNT := by omega
    have cleared := aneBoFree_empty env nn.fd (nn.chans bdx) w
    have split := tracks.tally.perm (nn.collect_clear _ cleared.pairs inside)
    simp only [chanFreeLoopCalls] at legal ⊢
    rw [← List.append_assoc] at legal ⊢
    have after : Tally place t (cs ++ aneBoFreeCalls env place.fd (nn.chans bdx) w) _ _ :=
      aneBoFree_tally split legal.before.before.last
    rw [← tracks.fd] at after
    have next : Tracks place t (cs ++ aneBoFreeCalls env nn.fd (nn.chans bdx) w)
        (nn.setChan bdx (aneBoFree env nn.fd (nn.chans bdx) w).1)
        (aneBoFree env nn.fd (nn.chans bdx) w).2 := ⟨tracks.fd, after⟩
    exact ih next legal (by omega)

theorem aneChanFree_tracks (tracks : Tracks place t cs nn w)
    (legal : Legal t (cs ++ aneChanFreeCalls env nn w)) :
    Tracks place t (cs ++ aneChanFreeCalls env nn w) (aneChanFree env nn w).1
      (aneChanFree env nn w).2 := by
  have cleared := aneBoFree_empty env nn.fd nn.btspChan w
  simp only [aneChanFreeCalls] at legal ⊢
  rw [← List.append_assoc] at legal ⊢
  have after : Tally place t (cs ++ aneBoFreeCalls env place.fd nn.btspChan w) _ _ :=
    aneBoFree_tally tracks.tally legal.before.before.last
  rw [← tracks.fd] at after
  have next : Tracks place t (cs ++ aneBoFreeCalls env nn.fd nn.btspChan w)
      { nn with btspChan := (aneBoFree env nn.fd nn.btspChan w).1 }
      (aneBoFree env nn.fd nn.btspChan w).2 := by
    refine ⟨tracks.fd, ?_⟩
    rw [AneNn.collect, cleared.pairs, List.nil_append]
    exact after
  exact chanFreeLoop_tracks next legal (Nat.zero_add ANE_MAX_TILE_COUNT)

theorem copyTasks_devices (env : Env) (file : HwxFile) (text : HwxSection) (copy : UInt64)
    (btsp : Addr) (w : World) : (copyTasks env file text copy btsp w).devices = w.devices := by
  have read : (readSection env file text btsp copy w).2.devices = w.devices := rfl
  simp only [copyTasks]
  split
  · split
    · rename_i done
      rwa [done] at read
    · rename_i failed
      rwa [failed] at read
  · rfl

/-- Nothing is called for the contents of the bootstrap buffer. -/
theorem setBtspAndCommand_devices (env : Env) (nn : AneNn) (w : World) :
    (setBtspAndCommand env nn w).devices = w.devices := by
  simp only [setBtspAndCommand, hwxGetTskSection, hwxSectionByName]
  split
  · split
    · rfl
    · rename_i file btsp _ _ _
      cases sectionInSegments (some textSegment) textSection 0 file.segments.elems with
      | none => rfl
      | some text => exact copyTasks_devices env file text.target _ btsp _
  · rfl

theorem aneBoInit_ok {fd : Fd} {bo bo' : AneBo} (h : aneBoInit env fd bo w = (.ok (), bo', w')) :
    bo'.size = bo.size ∧ bo'.handle ≠ 0 := by
  simp only [aneBoInit, boInit, boMmap, World.ioctlBoInit, World.mmap] at h
  split at h
  · cases h
  cases device : w.device fd with
  | none =>
    simp only [device] at h
    cases h
  | some d =>
    cases made : env.boInit w.ioctls with
    | none =>
      simp only [device, made] at h
      cases h
    | some r =>
      have nonzero := env.boInit_ne _ r.1 r.2 made
      simp only [device, made] at h
      cases mapped : env.mmap w.mmaps with
      | none =>
        simp only [mapped] at h
        cases h
      | some addr =>
        simp only [mapped] at h
        cases h
        exact ⟨rfl, nonzero⟩

/-- A buffer of this size was made for the entry. -/
structure AneBo.Made (bo : AneBo) (size : UInt64) : Prop where
  size : bo.size = size
  handle : bo.handle ≠ 0

/-- What the loop over `n` tiles from number `bdx` on does to the entries. -/
structure Filled (nn nn' : AneNn) (bdx n : Nat) (status : Status) : Prop where
  same : nn.Same nn'
  btspChan : nn'.btspChan = nn.btspChan
  earlier : ∀ i < bdx, nn'.chans i = nn.chans i
  tiles : status = .ok () → ∀ i, bdx ≤ i → i < bdx + n → nn.model.tiles i ≠ 0 →
    (nn'.chans i).Made (tileSize nn i)

theorem chanInitLoop_entries (h : chanInitLoop env n bdx nn w = (status, nn', w')) :
    Filled nn nn' bdx n status := by
  induction n generalizing bdx nn w with
  | zero =>
    cases h
    refine ⟨.refl _, rfl, fun _ _ => rfl, ?_⟩
    intro _ i low high
    omega
  | succ n ih =>
    simp only [chanInitLoop] at h
    split at h
    · generalize made : aneBoInit env nn.fd { nn.chans bdx with size := tileSize nn bdx } w = r at h
      obtain ⟨status₁, bo, w₁⟩ := r
      have before (i : Nat) (below : i < bdx) : (nn.setChan bdx bo).chans i = nn.chans i :=
        Function.update_of_ne (by omega) _ _
      cases status₁ with
      | error e =>
        cases h
        refine ⟨⟨rfl, rfl, rfl⟩, rfl, before, ?_⟩
        intro done
        cases done
      | ok _ =>
        obtain ⟨size, handle⟩ := aneBoInit_ok made
        have rest := ih h
        have first : nn'.chans bdx = bo := by
          rw [rest.earlier bdx (Nat.lt_succ_self bdx)]
          exact Function.update_self _ _ _
        refine ⟨⟨rest.same.block, rest.same.fd, rest.same.model⟩, rest.btspChan, ?_, ?_⟩
        · intro i below
          rw [rest.earlier i (by omega), before i below]
        · intro done i low high used
          by_cases here : i = bdx
          · rw [here, first]
            exact ⟨size, handle⟩
          · exact rest.tiles done i (by omega) (by omega) used
    · rename_i unused
      have rest := ih h
      refine ⟨rest.same, rest.btspChan, fun i below => rest.earlier i (by omega), ?_⟩
      intro done i low high used
      have other : i ≠ bdx := fun same => unused (same ▸ used)
      exact rest.tiles done i (by omega) (by omega) used

/-- A network object with all of its buffers. -/
structure AneNn.Complete (nn nn' : AneNn) : Prop where
  tiles : ∀ i < ANE_MAX_TILE_COUNT, nn.model.tiles i ≠ 0 → (nn'.chans i).Made (tileSize nn i)
  btspChan : nn'.btspChan.Made (tileAlign nn.model.tdSize.toUInt64)

theorem aneChanInit_complete (h : aneChanInit env nn w = (.ok (), nn', w')) : nn.Complete nn' := by
  simp only [aneChanInit] at h
  generalize looped : chanInitLoop env ANE_MAX_TILE_COUNT 0 nn w = r at h
  obtain ⟨status₁, nn₁, w₁⟩ := r
  have filled := chanInitLoop_entries looped
  cases status₁ with
  | error e =>
    simp only [chanInitError] at h
    cases h
  | ok _ =>
    simp only [btspChanInit, filled.same.model] at h
    split at h
    · cases h
    · generalize made : aneBoInit env nn₁.fd
        { nn₁.btspChan with size := tileAlign nn.model.tdSize.toUInt64 } w₁ = r at h
      obtain ⟨status₂, bo, w₂⟩ := r
      cases status₂ with
      | error e =>
        simp only [chanInitError] at h
        cases h
      | ok _ =>
        cases h
        obtain ⟨size, handle⟩ := aneBoInit_ok made
        refine ⟨fun i below used => ?_, ⟨size, handle⟩⟩
        exact filled.tiles rfl i (Nat.zero_le i) (by omega) used

/-- An entry from number `bdx` on is filled if its tile is used, the others are as they were. -/
theorem chanInitLoop_tracks (tracks : Tracks place t cs nn w)
    (above : ∀ i, bdx ≤ i → i < ANE_MAX_TILE_COUNT → (nn.chans i).Empty)
    (all : bdx + n = ANE_MAX_TILE_COUNT) (legal : Legal t (cs ++ chanInitLoopCalls env n bdx nn w))
    (h : chanInitLoop env n bdx nn w = (status, nn', w')) :
    Tracks place t (cs ++ chanInitLoopCalls env n bdx nn w) nn' w' := by
  induction n generalizing bdx nn w cs with
  | zero =>
    cases h
    rw [chanInitLoopCalls, List.append_nil]
    exact tracks
  | succ n ih =>
    have inside : bdx < ANE_MAX_TILE_COUNT := by omega
    have empty := above bdx (Nat.le_refl bdx) inside
    have start : AneBo.Empty { nn.chans bdx with size := tileSize nn bdx } :=
      ⟨empty.handle, empty.map⟩
    simp only [chanInitLoop, chanInitLoopCalls] at h legal ⊢
    split at h
    · rename_i used
      rw [if_pos used, ← List.append_assoc] at legal ⊢
      generalize made : aneBoInit env nn.fd { nn.chans bdx with size := tileSize nn bdx } w = r
        at h legal ⊢
      obtain ⟨status₁, bo, w₁⟩ := r
      have here := legal.before
      rw [tracks.fd] at made here
      have after := (aneBoInit_tally tracks.tally start here made).1
      rw [← tracks.fd] at after
      have next : Tracks place t (cs ++ aneBoInitCalls env nn.fd
          { nn.chans bdx with size := tileSize nn bdx } w) (nn.setChan bdx bo) w₁ :=
        ⟨tracks.fd, after.perm (nn.collect_fill _ bo empty.pairs inside)⟩
      cases status₁ with
      | error e =>
        cases h
        rw [List.append_nil]
        exact next
      | ok _ =>
        have above' : ∀ i, bdx + 1 ≤ i → i < ANE_MAX_TILE_COUNT →
            ((nn.setChan bdx bo).chans i).Empty := by
          intro i low high
          have other : i ≠ bdx := by omega
          simpa [AneNn.setChan, other] using above i (by omega) high
        exact ih next above' (by omega) legal h
    · rename_i unused
      rw [if_neg unused] at legal ⊢
      exact ih tracks (fun i low high => above i (by omega) high) (by omega) legal h

theorem btspChanInit_tracks (tracks : Tracks place t cs nn w) (empty : nn.btspChan.Empty)
    (legal : Legal t (cs ++ btspChanInitCalls env nn w))
    (h : btspChanInit env nn w = (status, nn', w')) :
    Tracks place t (cs ++ btspChanInitCalls env nn w) nn' w' := by
  by_cases zero : nn.model.tdSize = 0
  · rw [btspChanInit, if_pos zero] at h
    rw [btspChanInitCalls, if_pos zero, List.append_nil]
    cases h
    exact tracks
  rw [btspChanInit, if_neg zero] at h
  rw [btspChanInitCalls, if_neg zero] at legal ⊢
  dsimp only at legal ⊢
  generalize tileAlign nn.model.tdSize.toUInt64 = size at h legal ⊢
  have start : AneBo.Empty { nn.btspChan with size := size } := ⟨empty.handle, empty.map⟩
  rw [← List.append_assoc] at legal ⊢
  generalize made : aneBoInit env nn.fd { nn.btspChan with size := size } w = r at h legal ⊢
  obtain ⟨status₁, bo, w₁⟩ := r
  have here := legal.before
  rw [tracks.fd] at made here
  have next : Tracks place t (cs ++ aneBoInitCalls env nn.fd { nn.btspChan with size := size } w)
      { nn with btspChan := bo } w₁ := by
    have after := (aneBoInit_tally tracks.tally start here made).1
    rw [← tracks.fd, AneNn.collect, empty.pairs, List.nil_append] at after
    exact ⟨tracks.fd, after⟩
  cases status₁ with
  | error e =>
    simp only [chanInitError] at h
    cases h
    exact aneChanFree_tracks next legal
  | ok _ =>
    cases h
    rw [List.append_nil]
    exact ⟨next.fd, (setBtspAndCommand_devices env _ w₁).trans next.tally.devices,
      next.tally.accounts⟩

theorem aneChanInit_failed {e : Errno} (nonzero : nn.model.tdSize ≠ 0)
    (h : aneChanInit env nn w = (.error e, nn', w')) : nn'.Empty := by
  simp only [aneChanInit] at h
  generalize looped : chanInitLoop env ANE_MAX_TILE_COUNT 0 nn w = r at h
  obtain ⟨status₁, nn₁, w₁⟩ := r
  cases status₁ with
  | error e₁ =>
    simp only [chanInitError] at h
    cases h
    exact aneChanFree_empty env nn₁ w₁
  | ok _ =>
    simp only [btspChanInit, (chanInitLoop_entries looped).same.model, if_neg nonzero] at h
    split at h
    · simp only [chanInitError] at h
      cases h
      exact aneChanFree_empty env _ _
    · cases h

theorem aneChanInit_tracks (tracks : Tracks place t cs nn w) (empty : nn.Empty)
    (legal : Legal t (cs ++ aneChanInitCalls env nn w))
    (h : aneChanInit env nn w = (status, nn', w')) :
    Tracks place t (cs ++ aneChanInitCalls env nn w) nn' w' := by
  simp only [aneChanInit, aneChanInitCalls] at h legal ⊢
  rw [← List.append_assoc] at legal ⊢
  generalize looped : chanInitLoop env ANE_MAX_TILE_COUNT 0 nn w = r at h legal ⊢
  obtain ⟨status₁, nn₁, w₁⟩ := r
  have filled := chanInitLoop_tracks tracks (fun i _ high => empty.chans i high)
    (Nat.zero_add ANE_MAX_TILE_COUNT) legal.before looped
  cases status₁ with
  | error e =>
    simp only [chanInitError] at h
    cases h
    exact aneChanFree_tracks filled legal
  | ok _ =>
    have start : nn₁.btspChan.Empty := by
      rw [(chanInitLoop_entries looped).btspChan]
      exact empty.btspChan
    exact btspChanInit_tracks filled start legal h

/-- Nothing is called before the node is open, and after that what `aneChanInit` calls. -/
theorem aneInit_stages (allocs : ∀ n, env.hwx.alloc n = true) (path : Option String) (devId : Int)
    (base : World) :
    ((aneInit env path devId base).1 = none ∧ aneInitCalls env path devId base = []) ∨
    ∃ nn w node, aneInit env path devId base = initChannels env nn w ∧
      aneInitCalls env path devId base = aneChanInitCalls env nn w ∧ nn.Empty ∧
        nn.model.tdSize ≠ 0 ∧ w.devices = (front nn.fd node base.devices).devices [] := by
  obtain ⟨block, w₁, granted, object⟩ := (World.Holds.refl base).malloc allocs
  simp only [aneInit, aneInitCalls, granted]
  rcases aneModelInit_holds env path object with
    ⟨e, model, w₂, refused, -⟩ | ⟨model, file, w₂, read, hwx, -, nonzero, taken⟩
  · simp only [refused]
    exact .inl ⟨trivial, trivial⟩
  simp only [read, aneDeviceOpen]
  rcases deviceOpen_holds allocs devId taken with
    ⟨w₃, missing, -⟩ | ⟨fd, node, w₃, opened, -, -, open'⟩
  · simp only [missing, aneModelFree, hwx]
    exact .inl ⟨trivial, trivial⟩
  · simp only [opened]
    exact .inr ⟨_, w₃, node, rfl, rfl, ⟨⟨rfl, rfl⟩, fun _ _ => ⟨rfl, rfl⟩⟩, nonzero, open'.devices⟩

theorem Tracks.start (fd : nn.fd = place.fd) (empty : nn.Empty)
    (devices : w.devices = place.devices (keys t)) : Tracks place t [] nn w := by
  refine ⟨fd, devices, ?_⟩
  rw [empty.collect fun _ => AneBo.Empty.pairs]
  exact Accounts.nil t

/-- When a network is made and freed again, or its making fails, all that is left are the
handles that were not taken back. -/
theorem sessionCalls_accounts (allocs : ∀ n, env.hwx.alloc n = true) (path : Option String)
    (devId : Int) (base : World) (legal : Legal [] (sessionCalls env path devId base)) :
    Accounts [] (sessionCalls env path devId base) [] := by
  rcases aneInit_stages allocs path devId base with
    ⟨failed, none⟩ | ⟨nn, w, node, stage, calls, empty, nonzero, devices⟩
  · generalize made : aneInit env path devId base = r at failed
    obtain ⟨result, w⟩ := r
    simp only at failed
    subst failed
    simp only [sessionCalls, made, none]
    exact Accounts.nil []
  · have start : Tracks (front nn.fd node base.devices) [] [] nn w := .start rfl empty devices
    simp only [sessionCalls, stage, calls, initChannels] at legal ⊢
    generalize made : aneChanInit env nn w = r at legal ⊢
    obtain ⟨status, nn', w'⟩ := r
    have after := aneChanInit_tracks start empty legal.before made
    rw [List.nil_append] at after
    cases status with
    | error e =>
      have empty' := aneChanInit_failed nonzero made
      have accounts := after.tally.accounts
      rw [empty'.collect fun _ => AneBo.Empty.pairs] at accounts
      rwa [List.append_nil]
    | ok _ =>
      have freed := (aneChanFree_tracks after legal).tally.accounts
      rwa [(aneChanFree_empty env nn' w').collect fun _ => AneBo.Empty.pairs] at freed

end Networks

end Ane.Libane
