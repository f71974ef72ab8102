import Ane.LibaneInit

/-! When `aneChanInit` fails without leaving anything behind. Every exit but one goes through
the label that frees all channels; the exit for a bootstrap buffer without a size does not,
and it is reached when all tiles were made. -/
namespace Ane.Libane
open Memory Posix Hwx

variable {env : Env} {place : Place} {own : List UInt32} {base w w' : World} {nn nn' : AneNn}
  {bo bo' : AneBo} {status : Status} {n bdx : Nat}

/-- How many of the `n` tiles from number `bdx` on are used. -/
def AneModel.usedFrom (model : AneModel) (bdx n : Nat) : Nat :=
  (List.range' bdx n).countP (model.tiles · ≠ 0)

/-- All tiles. -/
def AneModel.used (model : AneModel) : Nat := model.usedFrom 0 ANE_MAX_TILE_COUNT

/-- The creation of the next buffers and their mapping, for `k` buffers one after another. -/
def Makes (env : Env) (w : World) (k : Nat) : Prop :=
  ∀ j < k, env.boInit (w.ioctls + j) ≠ none ∧ env.mmap (w.mmaps + j) ≠ none

/-- After a failure every entry is empty, and the world holds what it held before: the
handles of the node, in whatever order, and the mappings, and nothing was given back that
was not held. -/
structure ChansReleased (place : Place) (own : List UInt32) (w : World) (nn' : AneNn)
    (w' : World) : Prop where
  entries : nn'.Empty
  handles : ∃ held, w'.devices = place.devices held ∧ held.Perm own
  badHandles : w'.badHandles = w.badHandles
  maps : w'.maps.Perm w.maps
  badUnmaps : w'.badUnmaps = w.badUnmaps

section Entry

theorem makes_zero : Makes env w 0 := fun j below => absurd below (Nat.not_lt_zero j)

theorem makes_succ {k : Nat} {w₁ : World} (ioctls : w₁.ioctls = w.ioctls + 1)
    (mmaps : w₁.mmaps = w.mmaps + 1) : Makes env w (k + 1) ↔
      (env.boInit w.ioctls ≠ none ∧ env.mmap w.mmaps ≠ none) ∧ Makes env w₁ k := by
  simp only [Makes, ioctls, mmaps, Nat.add_assoc, Nat.add_comm 1]
  constructor
  · intro all
    exact ⟨all 0 (Nat.succ_pos k), fun j below => all (j + 1) (Nat.succ_lt_succ below)⟩
  · rintro ⟨first, later⟩ j below
    cases j with
    | zero => exact first
    | succ j => exact later j (Nat.lt_of_succ_lt_succ below)

/-- Changing the handles of a node leaves it open. -/
theorem find?_withHandles (fd : Fd) (f : List UInt32 → List UInt32) (devices : List OpenNode) :
    (withHandles fd f devices).find? (·.fd = fd) =
      (devices.find? (·.fd = fd)).map fun d => { d with handles := f d.handles } := by
  induction devices with
  | nil => rfl
  | cons d rest ih =>
    by_cases here : d.fd = fd
    · simp [withHandles, here]
    · simp [withHandles, here, ih]

/-- On an open device an entry of some size is filled, by one call of each kind, or a call
failed. -/
theorem aneBoInit_cases (env : Env) (device : ∃ d, w.device nn.fd = some d) (size : bo.size ≠ 0) :
    (∃ e bo' w', aneBoInit env nn.fd bo w = (.error e, bo', w') ∧
      ¬ (env.boInit w.ioctls ≠ none ∧ env.mmap w.mmaps ≠ none)) ∨
    (∃ bo' w', aneBoInit env nn.fd bo w = (.ok (), bo', w') ∧ bo'.handle ≠ 0 ∧
      w'.ioctls = w.ioctls + 1 ∧ w'.mmaps = w.mmaps + 1 ∧
        (env.boInit w.ioctls ≠ none ∧ env.mmap w.mmaps ≠ none) ∧
          ∃ d, w'.device nn.fd = some d) := by
  obtain ⟨d, device⟩ := device
  simp only [aneBoInit, if_neg size, boInit, World.ioctlBoInit, device, boMmap, World.mmap]
  cases made : env.boInit w.ioctls with
  | none => exact Or.inl ⟨_, _, _, rfl, by simp⟩
  | some r =>
    obtain ⟨handle, offset⟩ := r
    have nonzero := env.boInit_ne _ handle offset made
    dsimp only
    cases mapped : env.mmap w.mmaps with
    | none => exact Or.inl ⟨_, _, _, rfl, by simp⟩
    | some addr =>
      refine Or.inr ⟨_, _, rfl, nonzero, rfl, rfl, ⟨by simp, by simp⟩,
        { d with handles := handle :: d.handles }, ?_⟩
      rw [World.device, find?_withHandles]
      exact congrArg (Option.map _) device

theorem tileSize_ne_zero (used : nn.model.tiles bdx ≠ 0) : tileSize nn bdx ≠ 0 := by
  intro zero
  apply used
  apply UInt32.toNat_inj.mp
  have word := (nn.model.tiles bdx).toNat_lt
  have value := congrArg UInt64.toNat zero
  simp only [tileSize, tileShift, UInt64.toNat_shiftLeft, UInt32.toNat_toUInt64, Nat.shiftLeft_eq,
    UInt64.reduceToNat, Nat.reduceMod, Nat.reducePow] at value
  simp only [UInt32.toNat_zero]
  omega

theorem Owns.device (owns : Owns env place own base nn w) : ∃ d, w.device nn.fd = some d := by
  obtain ⟨held, lost, devices, -, -⟩ := owns.buffers.devices
  exact ⟨_, by rw [World.device, devices, owns.fd, place.find?_devices]⟩

end Entry

section Loop

theorem usedFrom_succ (model : AneModel) (bdx n : Nat) : model.usedFrom bdx (n + 1) =
    (if model.tiles bdx ≠ 0 then 1 else 0) + model.usedFrom (bdx + 1) n := by
  simp only [AneModel.usedFrom, List.range'_succ, List.countP_cons, decide_eq_true_eq]
  exact Nat.add_comm _ _

/-- The loop makes all buffers, one call of each kind for each used tile, or a call failed. -/
theorem chanInitLoop_cases (env : Env) (device : ∃ d, w.device nn.fd = some d) (n bdx : Nat) :
    (∃ e nn' w', chanInitLoop env n bdx nn w = (.error e, nn', w') ∧
      ¬ Makes env w (nn.model.usedFrom bdx n)) ∨
    (∃ nn' w', chanInitLoop env n bdx nn w = (.ok (), nn', w') ∧
      Makes env w (nn.model.usedFrom bdx n) ∧
        (∀ i, bdx ≤ i → i < bdx + n → nn.model.tiles i ≠ 0 → (nn'.chans i).handle ≠ 0) ∧
        (∀ i < bdx, nn'.chans i = nn.chans i)) := by
  induction n generalizing bdx nn w with
  | zero =>
    refine Or.inr ⟨nn, w, rfl, makes_zero, ?_, fun _ _ => rfl⟩
    intro i low high
    omega
  | succ n ih =>
    rw [usedFrom_succ]
    simp only [chanInitLoop]
    by_cases used : nn.model.tiles bdx ≠ 0
    · rw [if_pos used, if_pos used, Nat.add_comm 1]
      have size : AneBo.size { nn.chans bdx with size := tileSize nn bdx } ≠ 0 :=
        tileSize_ne_zero used
      rcases aneBoInit_cases env device size with
        ⟨e, bo, w₁, failed, call⟩ | ⟨bo, w₁, made, filled, ioctls, mmaps, calls, device₁⟩
      · rw [failed]
        exact Or.inl ⟨_, _, _, rfl, fun all => call (all 0 (Nat.succ_pos _))⟩
      · have next : ∃ d, w₁.device (nn.setChan bdx bo).fd = some d := device₁
        rw [made, makes_succ ioctls mmaps]
        rcases ih next (bdx + 1) with
          ⟨e, nn', w', failed, call⟩ | ⟨nn', w', looped, all, later, earlier⟩
        · exact Or.inl ⟨_, _, _, failed, fun all => call all.2⟩
        · refine Or.inr ⟨_, _, looped, ⟨calls, all⟩, ?_, ?_⟩
          · intro i low high usedTile
            by_cases first : i = bdx
            · rw [first, earlier bdx (Nat.lt_succ_self bdx)]
              simpa [AneNn.setChan] using filled
            · exact later i (by omega) (by omega) usedTile
          · intro i below
            rw [earlier i (by omega)]
            exact Function.update_of_ne (by omega) _ _
    · rw [if_neg used, if_neg used, Nat.zero_add]
      rcases ih device (bdx + 1) with
        ⟨e, nn', w', failed, call⟩ | ⟨nn', w', looped, all, later, earlier⟩
      · exact Or.inl ⟨_, _, _, failed, call⟩
      · refine Or.inr ⟨_, _, looped, all, ?_, fun i below => earlier i (by omega)⟩
        intro i low high usedTile
        have other : i ≠ bdx := fun same => used (same ▸ usedTile)
        exact later i (by omega) (by omega) usedTile

/-- Without used tiles the loop does nothing. -/
theorem chanInitLoop_unused (n bdx : Nat) (none : nn.model.usedFrom bdx n = 0) :
    chanInitLoop env n bdx nn w = (.ok (), nn, w) := by
  induction n generalizing bdx with
  | zero => rfl
  | succ n ih =>
    rw [usedFrom_succ] at none
    have unused : ¬ nn.model.tiles bdx ≠ 0 := by
      intro used
      rw [if_pos used] at none
      omega
    rw [chanInitLoop, if_neg unused]
    exact ih (bdx + 1) (by omega)

end Loop

section Failures

theorem AneNn.Empty.owns (empty : nn.Empty) (fd : nn.fd = place.fd)
    (devices : w.devices = place.devices own) : Owns env place own w nn w := by
  refine ⟨fd, ?_⟩
  rw [empty.collect fun _ => AneBo.Empty.handles, empty.collect fun _ => AneBo.Empty.maps]
  exact ⟨.refl _, ⟨own, [], devices, .refl _, fun _ => rfl⟩, rfl, .refl _, rfl, rfl⟩

/-- When every entry is empty, all that was made since has been given back. -/
theorem Owns.released (owns : Owns env place own w nn' w') (frees : ∀ n, env.boFree n = true)
    (empty : nn'.Empty) : ChansReleased place own w nn' w' := by
  obtain ⟨fd, buffers⟩ := owns
  rw [empty.collect fun _ => AneBo.Empty.handles, empty.collect fun _ => AneBo.Empty.maps]
    at buffers
  obtain ⟨held, lost, devices, perm, served⟩ := buffers.devices
  rw [served frees] at perm
  exact ⟨empty, ⟨held, devices, perm⟩, buffers.badHandles, buffers.maps, buffers.badUnmaps⟩

/-- Without a size for the bootstrap buffer the error of the loop is reported after all
channels are freed, and its success as an error with the channels as the loop left them. -/
theorem aneChanInit_unsized (owns : Owns env place own w nn w) (empty : nn.Empty)
    (frees : ∀ n, env.boFree n = true) (zero : nn.model.tdSize = 0) :
    (¬ Makes env w nn.model.used ∧ ∃ e nn' w', aneChanInit env nn w = (.error e, nn', w') ∧
      ChansReleased place own w nn' w') ∨
    (Makes env w nn.model.used ∧ ∃ nn' w', aneChanInit env nn w = (.error EINVAL, nn', w') ∧
      (∀ i < ANE_MAX_TILE_COUNT, nn.model.tiles i ≠ 0 → (nn'.chans i).handle ≠ 0) ∧
        (nn.model.used = 0 → ChansReleased place own w nn' w')) := by
  rcases chanInitLoop_cases env owns.device ANE_MAX_TILE_COUNT 0 with
    ⟨e, nn₁, w₁, looped, call⟩ | ⟨nn₁, w₁, looped, all, filled, -⟩
  · obtain ⟨held, -, -⟩ := chanInitLoop_owns owns (fun i _ high => empty.chans i high)
      (Nat.zero_add _) looped
    generalize ended : chanInitError env e nn₁ w₁ = r
    obtain ⟨status, nn', w'⟩ := r
    obtain ⟨freed, -, empty', rfl⟩ := chanInitError_owns held ended
    refine Or.inl ⟨call, e, nn', w', ?_, freed.released frees empty'⟩
    simp only [aneChanInit, looped, ended]
  · obtain ⟨-, same, -⟩ := chanInitLoop_owns owns (fun i _ high => empty.chans i high)
      (Nat.zero_add _) looped
    have refused : aneChanInit env nn w = (.error EINVAL, nn₁, w₁) := by
      simp only [aneChanInit, looped, btspChanInit, same.model, if_pos zero]
    refine Or.inr ⟨all, nn₁, w₁, refused, fun i below => filled i (Nat.zero_le i) (by omega), ?_⟩
    intro none
    rw [chanInitLoop_unused _ _ none] at looped
    cases looped
    exact owns.released frees empty

theorem AneModel.exists_used {model : AneModel} (some : model.used ≠ 0) :
    ∃ i < ANE_MAX_TILE_COUNT, model.tiles i ≠ 0 := by
  obtain ⟨i, mem, used⟩ := List.countP_pos_iff.mp (Nat.pos_of_ne_zero some)
  have range := List.mem_range'_1.mp mem
  exact ⟨i, by omega, by simpa using used⟩

/-- On a network object without buffers, for every table of tiles and every pattern of
failures of the two calls that make a buffer: a failure leaves nothing behind exactly when
the bootstrap buffer has a size, or no tile is used, or a buffer of a tile cannot be made. -/
theorem aneChanInit_released_iff (frees : ∀ n, env.boFree n = true) (fd : nn.fd = place.fd)
    (devices : w.devices = place.devices own) (empty : nn.Empty) :
    (∀ e, (aneChanInit env nn w).1 = .error e →
      ChansReleased place own w (aneChanInit env nn w).2.1 (aneChanInit env nn w).2.2) ↔
    nn.model.tdSize ≠ 0 ∨ nn.model.used = 0 ∨ ¬ Makes env w nn.model.used := by
  have owns : Owns env place own w nn w := empty.owns fd devices
  by_cases zero : nn.model.tdSize = 0
  · rcases aneChanInit_unsized owns empty frees zero with
      ⟨call, e, nn', w', failed, released⟩ | ⟨all, nn', w', failed, filled, unused⟩
    · rw [failed]
      exact ⟨fun _ => Or.inr (Or.inr call), fun _ _ _ => released⟩
    · rw [failed]
      constructor
      · intro released
        refine Or.inr (Or.inl ?_)
        by_contra some
        obtain ⟨i, inside, used⟩ := AneModel.exists_used some
        exact filled i inside used ((released EINVAL rfl).entries.chans i inside).handle
      · rintro (sized | none | call)
        · exact absurd zero sized
        · exact fun _ _ => unused none
        · exact absurd all call
  · refine ⟨fun _ => Or.inl zero, fun _ e failed => ?_⟩
    obtain ⟨after, -, freed⟩ := aneChanInit_owns owns empty rfl
    exact after.released frees (freed zero e failed)

/-- The kernel makes and frees every buffer. -/
def serving : Env := { fewNodes with boFree := fun _ => true }

/-- One tile is used, and the bootstrap buffer has no size. -/
def oneTile : AneNn :=
  { AneNn.zero 0 with
    fd := 3
    model := { AneModel.zero with tiles := fun i => if i = 4 then 1 else 0 } }

def World.oneDevice : World := { World.idle with devices := (front 3 0 []).devices [] }

theorem oneTile_empty : oneTile.Empty := ⟨⟨rfl, rfl⟩, fun _ _ => ⟨rfl, rfl⟩⟩

/-- The buffer of the tile is made, and kept by an object whose initialisation failed. -/
theorem aneChanInit_oneTile_leaks :
    ¬ ∀ e, (aneChanInit serving oneTile .oneDevice).1 = .error e →
      ChansReleased (front 3 0 []) [] .oneDevice (aneChanInit serving oneTile .oneDevice).2.1
        (aneChanInit serving oneTile .oneDevice).2.2 := by
  intro released
  have failed : (aneChanInit serving oneTile .oneDevice).1 = .error EINVAL := by decide +kernel
  have kept : ((aneChanInit serving oneTile .oneDevice).2.1.chans 4).handle = 1 := by decide +kernel
  have empty := ((released EINVAL failed).entries.chans 4 (by decide)).handle
  rw [kept] at empty
  exact absurd empty (by decide)

/-- Where no buffer can be mapped the same object is left empty. -/
theorem aneChanInit_released_unmapped :
    (aneChanInit { serving with mmap := fun _ => none } oneTile .oneDevice).1 = .error EINVAL ∧
      ChansReleased (front 3 0 []) [] .oneDevice
        (aneChanInit { serving with mmap := fun _ => none } oneTile .oneDevice).2.1
        (aneChanInit { serving with mmap := fun _ => none } oneTile .oneDevice).2.2 := by
  have failed : (aneChanInit { serving with mmap := fun _ => none } oneTile .oneDevice).1 =
      .error EINVAL := by decide +kernel
  have used : 0 < oneTile.model.used := by decide +kernel
  refine ⟨failed, (aneChanInit_released_iff (fun _ => rfl) rfl rfl oneTile_empty).mpr ?_ _ failed⟩
  exact Or.inr (Or.inr fun all => (all 0 used).2 rfl)

end Failures

end Ane.Libane
