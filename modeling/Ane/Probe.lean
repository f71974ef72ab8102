import Ane.Driver

/-! Binding the driver to a device and taking it off again. The platform keeps what the
driver acquired in the kernel; device-managed memory is not part of it. What the services
called by a probe answer is given by its environment. -/
namespace Ane.Probe
open TaskManager RangeAllocator

def ENODEV : Errno := .other 19
def EPROBE_DEFER : Errno := .other 517

/-- Runtime power management of the device, which is enabled at depth 0. -/
structure Pm where
  disableDepth : Nat
  usage : Int
  autosuspendDelay : Int
  autosuspend : Bool

/-- What the driver holds in the kernel. The domains and the links to them go by the index
of the domain, an allocator by its range. What is given back without being held is counted. -/
structure Platform where
  domains : List Nat
  badDetaches : Nat
  links : List Nat
  badLinkDels : Nat
  dartDisableDepth : Nat
  allocators : List (UInt64 × UInt64)
  badTakedowns : Nat
  pm : Pm
  registered : Bool

inductive PdDev
  | null
  | err (e : Errno)
  | attached (domain : Nat)

/-- The device-managed record; a new one is zero. -/
structure AneDevice where
  hw : AneHw
  pdCount : Int
  pdDev : Nat → PdDev
  pdLink : Nat → Option Nat
  irq : Int
  dartIrq : Int
  engine : Engine
  mm : Allocator

/-- The answers: the record, the count of power domains, the two arrays, each domain and
each link to one, the two interrupts, the mapped registers, the IOMMU domain and the
registration. Attaching a domain may also answer that there is nothing to attach. -/
structure ProbeEnv where
  hw : AneHw
  devAlloc : Except Errno Unit
  pdCount : Int
  pdDevAlloc : Bool
  pdLinkAlloc : Bool
  attach : Nat → Except Errno Bool
  link : Nat → Bool
  irq : Int
  dartIrq : Int
  ioremap : Except Errno RegFile
  domain : Bool
  register : Except Errno Unit

section Services

def devPmDomainAttachById (i : Nat) (answer : Except Errno Bool) (k : Platform) :
    PdDev × Platform :=
  match answer with
  | .error e => (.err e, k)
  | .ok false => (.null, k)
  | .ok true => (.attached i, { k with domains := i :: k.domains })

def devPmDomainDetach (domain : Nat) (k : Platform) : Platform :=
  if domain ∈ k.domains then { k with domains := k.domains.erase domain }
  else { k with badDetaches := k.badDetaches + 1 }

/-- There is no link without a device to link to. -/
def deviceLinkAdd (supplier : PdDev) (answer : Bool) (k : Platform) : Option Nat × Platform :=
  match supplier, answer with
  | .attached domain, true => (some domain, { k with links := domain :: k.links })
  | _, _ => (none, k)

def deviceLinkDel (link : Nat) (k : Platform) : Platform :=
  if link ∈ k.links then { k with links := k.links.erase link }
  else { k with badLinkDels := k.badLinkDels + 1 }

def disableIrq (k : Platform) : Platform := { k with dartDisableDepth := k.dartDisableDepth + 1 }

def drmMmInit (mm : Allocator) (k : Platform) : Platform :=
  { k with allocators := (mm.start, mm.size) :: k.allocators }

/-- An allocator is to be empty when it is taken down. -/
def drmMmTakedown (mm : Allocator) (k : Platform) : Platform :=
  if (mm.start, mm.size) ∈ k.allocators ∧ mm.nodes = [] then
    { k with allocators := k.allocators.erase (mm.start, mm.size) }
  else { k with badTakedowns := k.badTakedowns + 1 }

namespace Pm

/-- With a negative delay autosuspend keeps the device in use. -/
def autosuspendHold (pm : Pm) : Int :=
  if pm.autosuspend = true ∧ pm.autosuspendDelay < 0 then 1 else 0

def updateAutosuspend (delay : Int) (use : Bool) (pm : Pm) : Pm :=
  let next := { pm with autosuspendDelay := delay, autosuspend := use }
  { next with usage := pm.usage + next.autosuspendHold - pm.autosuspendHold }

def setAutosuspendDelay (delay : Int) (pm : Pm) : Pm := pm.updateAutosuspend delay pm.autosuspend
def useAutosuspend (pm : Pm) : Pm := pm.updateAutosuspend pm.autosuspendDelay true
def dontUseAutosuspend (pm : Pm) : Pm := pm.updateAutosuspend pm.autosuspendDelay false
def getNoresume (pm : Pm) : Pm := { pm with usage := pm.usage + 1 }
def putAutosuspend (pm : Pm) : Pm := { pm with usage := pm.usage - 1 }
def disable (pm : Pm) : Pm := { pm with disableDepth := pm.disableDepth + 1 }

/-- Enabling what is enabled only warns. -/
def enable (pm : Pm) : Pm := { pm with disableDepth := pm.disableDepth - 1 }

end Pm

end Services

/-- The loop of `aneDetachGenpd` from index `n - 1` down. -/
def detachLoop (ane : AneDevice) : Nat → Platform → Platform
  | 0, k => k
  | i + 1, k =>
    let k := match ane.pdLink i with
      | some link => deviceLinkDel link k
      | none => k
    let k := match ane.pdDev i with
      | .attached domain => devPmDomainDetach domain k
      | .err _ | .null => k
    detachLoop ane i k

def aneDetachGenpd (ane : AneDevice) (k : Platform) : Platform :=
  if ane.pdCount ≤ 1 then k else detachLoop ane ane.pdCount.toNat k

/-- The loop of `aneAttachGenpd` over `n` more domains from number `i` on. -/
def attachLoop (env : ProbeEnv) : Nat → Nat → AneDevice → Platform →
    Except Errno Unit × AneDevice × Platform
  | 0, _, ane, k => (.ok (), ane, k)
  | n + 1, i, ane, k =>
    match devPmDomainAttachById i (env.attach i) k with
    | (pdDev, k) =>
      let ane := { ane with pdDev := Function.update ane.pdDev i pdDev }
      match pdDev with
      | .err e => (.error e, ane, aneDetachGenpd ane k)
      | .null | .attached _ =>
        match deviceLinkAdd pdDev (env.link i) k with
        | (none, k) => (.error .EINVAL, ane, aneDetachGenpd ane k)
        | (some link, k) =>
          attachLoop env n (i + 1) { ane with pdLink := Function.update ane.pdLink i (some link) } k

def aneAttachGenpd (env : ProbeEnv) (ane : AneDevice) (k : Platform) :
    Except Errno Unit × AneDevice × Platform :=
  let ane := { ane with pdCount := env.pdCount }
  if ane.pdCount ≤ 1 then (.ok (), ane, k)
  else if env.pdDevAlloc = false then (.error .ENOMEM, ane, k)
  else if env.pdLinkAlloc = false then (.error .ENOMEM, ane, k)
  else attachLoop env ane.pdCount.toNat 0 ane k

def aneIommuDomainInit (env : ProbeEnv) (ane : AneDevice) (k : Platform) :
    Except Errno Unit × AneDevice × Platform :=
  if env.domain then
    let ane := { ane with mm := Driver.aneIommuDomainInit ane.hw }
    (.ok (), ane, drmMmInit ane.mm k)
  else (.error EPROBE_DEFER, ane, k)

def aneIommuDomainFree (ane : AneDevice) (k : Platform) : Platform := drmMmTakedown ane.mm k

def AneDevice.zero (hw : AneHw) : AneDevice where
  hw := hw
  pdCount := 0
  pdDev _ := .null
  pdLink _ := none
  irq := 0
  dartIrq := 0
  engine := ⟨fun _ => 0, []⟩
  mm := ⟨0, 0, [], by decide⟩

/-- The calls that switch runtime power management on, and those at `disable_pm`. -/
def pmSetup (pm : Pm) : Pm :=
  (((pm.setAutosuspendDelay 1000).useAutosuspend.getNoresume).enable).putAutosuspend

def pmTeardown (pm : Pm) : Pm := pm.disable.dontUseAutosuspend

def anePlatformProbe (env : ProbeEnv) (k : Platform) : Except Errno AneDevice × Platform :=
  match env.devAlloc with
  | .error e => (.error e, k)
  | .ok _ =>
    match aneAttachGenpd env (.zero env.hw) k with
    | (.error e, _, k) => (.error e, k)
    | (.ok _, ane, k) =>
      let ane := { ane with irq := env.irq }
      if ane.irq < 0 then (.error ENODEV, aneDetachGenpd ane k)
      else
        let ane := { ane with dartIrq := env.dartIrq }
        if ane.dartIrq < 0 then (.error ENODEV, aneDetachGenpd ane k)
        else
          let k := disableIrq k
          match env.ioremap with
          | .error e => (.error e, aneDetachGenpd ane k)
          | .ok regs =>
            let ane := { ane with engine := ⟨regs, []⟩ }
            match aneIommuDomainInit env ane k with
            | (.error e, ane, k) => (.error e, aneDetachGenpd ane k)
            | (.ok _, ane, k) =>
              let ane := { ane with engine := ane.hw.tmEnable ane.engine }
              let k := { k with pm := pmSetup k.pm }
              match env.register with
              | .error e =>
                let k := { k with pm := pmTeardown k.pm }
                (.error e, aneDetachGenpd ane (aneIommuDomainFree ane k))
              | .ok _ => (.ok ane, { k with registered := true })

def anePlatformRemove (ane : AneDevice) (k : Platform) : Platform :=
  let k := { k with registered := false }
  let k := { k with pm := pmTeardown k.pm }
  aneDetachGenpd ane (aneIommuDomainFree ane k)

/-- The state of a device without a driver: the driver core has runtime power management
disabled, and autosuspend is a matter of the driver. -/
structure Platform.Unbound (k : Platform) : Prop where
  disabled : 0 < k.pm.disableDepth
  autosuspend : k.pm.autosuspend = false
  registered : k.registered = false

/-- Nothing is held that was not held before, and nothing was given back twice; but the
interrupt of the DART is disabled `n` times more. -/
structure Leaves (n : Nat) (before after : Platform) : Prop where
  domains : after.domains = before.domains
  badDetaches : after.badDetaches = before.badDetaches
  links : after.links = before.links
  badLinkDels : after.badLinkDels = before.badLinkDels
  dartDisableDepth : after.dartDisableDepth = before.dartDisableDepth + n
  allocators : after.allocators = before.allocators
  badTakedowns : after.badTakedowns = before.badTakedowns
  pmDisableDepth : after.pm.disableDepth = before.pm.disableDepth
  pmUsage : after.pm.usage = before.pm.usage
  registered : after.registered = before.registered

/-- What is left by a probe that fails, or by one that succeeds and the removal of the
driver once the last buffer is gone. -/
def ProbeLeaves (n : Nat) (env : ProbeEnv) (before : Platform) : Prop :=
  match anePlatformProbe env before with
  | (.error _, after) => Leaves n before after
  | (.ok ane, after) => ∀ mm : Allocator, mm.start = ane.mm.start → mm.size = ane.mm.size →
      mm.nodes = [] → Leaves n before (anePlatformRemove { ane with mm := mm } after)

/-- Every power domain can be attached and linked, or there is none to attach. -/
def ProbeEnv.Attaches (env : ProbeEnv) : Prop :=
  env.pdCount ≤ 1 ∨ (env.pdDevAlloc = true ∧ env.pdLinkAlloc = true ∧
    ∀ i < env.pdCount.toNat, env.attach i = .ok true ∧ env.link i = true)

/-- Nothing fails up to the interrupt of the DART. -/
structure ProbeEnv.DartObtained (env : ProbeEnv) : Prop where
  devAlloc : env.devAlloc = .ok ()
  attaches : env.Attaches
  irq : 0 ≤ env.irq
  dartIrq : 0 ≤ env.dartIrq

section PowerDomains

variable {env : ProbeEnv} {ane : AneDevice} {k : Platform} {i n : Nat}

/-- The first `n` domains are attached and linked, the last one last. -/
def held (n : Nat) (k : Platform) : Platform :=
  { k with
    domains := (List.range n).reverse ++ k.domains
    links := (List.range n).reverse ++ k.links }

theorem held_zero (k : Platform) : held 0 k = k := rfl

theorem range_succ_reverse (n : Nat) (l : List Nat) :
    (List.range (n + 1)).reverse ++ l = n :: ((List.range n).reverse ++ l) := by
  simp [List.range_succ]

theorem attach_link_held (i : Nat) (k : Platform) :
    (deviceLinkAdd (.attached i) true (devPmDomainAttachById i (.ok true) (held i k)).2) =
      (some i, held (i + 1) k) := by
  simp only [deviceLinkAdd, devPmDomainAttachById, held, range_succ_reverse]

theorem detach_attach_held (i : Nat) (k : Platform) :
    devPmDomainDetach i (devPmDomainAttachById i (.ok true) k).2 = k := by
  simp [devPmDomainDetach, devPmDomainAttachById]

theorem unlink_detach_held (i : Nat) (k : Platform) :
    devPmDomainDetach i (deviceLinkDel i (held (i + 1) k)) = held i k := by
  simp only [held, range_succ_reverse, deviceLinkDel, List.mem_cons_self, if_true,
    List.erase_cons_head, devPmDomainDetach]

/-- The records of the first `n` domains. -/
def Linked (ane : AneDevice) (n : Nat) : Prop :=
  ∀ i < n, ane.pdDev i = .attached i ∧ ane.pdLink i = some i

theorem detachLoop_held (linked : Linked ane n) (k : Platform) :
    detachLoop ane n (held n k) = k := by
  induction n with
  | zero => rfl
  | succ n ih =>
    obtain ⟨dev, link⟩ := linked n (Nat.lt_succ_self n)
    simp only [detachLoop, dev, link, unlink_detach_held]
    exact ih fun i less => linked i (Nat.lt_succ_of_lt less)

/-- Entries without a domain and a link are passed by. -/
theorem detachLoop_skip (le : i ≤ n) (empty : ∀ j, i ≤ j → j < n →
    ane.pdLink j = none ∧ ∀ domain, ane.pdDev j ≠ .attached domain) (k : Platform) :
    detachLoop ane n k = detachLoop ane i k := by
  induction n with
  | zero => rw [Nat.le_zero.mp le]
  | succ n ih =>
    by_cases all : i = n + 1
    · rw [all]
    · obtain ⟨link, dev⟩ := empty n (by omega) (by omega)
      have skipped := ih (by omega) fun j low high => empty j low (by omega)
      simp only [detachLoop, link]
      cases entry : ane.pdDev n with
      | attached domain => exact absurd entry (dev domain)
      | null => exact skipped
      | err e => exact skipped

/-- The loop over the domains has come to number `i`. -/
structure AttachedUpTo (ane : AneDevice) (i : Nat) : Prop where
  linked : Linked ane i
  dev : ∀ j, i ≤ j → ane.pdDev j = .null
  link : ∀ j, i ≤ j → ane.pdLink j = none

theorem AttachedUpTo.next (upTo : AttachedUpTo ane i) : AttachedUpTo
    { ane with
      pdDev := Function.update ane.pdDev i (.attached i)
      pdLink := Function.update ane.pdLink i (some i) } (i + 1) where
  linked j less := by
    by_cases last : j = i
    · simp [last]
    · have old := upTo.linked j (by omega)
      simpa [last] using old
  dev j beyond := by
    have other : j ≠ i := by omega
    simpa [other] using upTo.dev j (by omega)
  link j beyond := by
    have other : j ≠ i := by omega
    simpa [other] using upTo.link j (by omega)

/-- A domain that was not attached leaves nothing to detach but the ones before it. -/
theorem AttachedUpTo.detach_failed (upTo : AttachedUpTo ane i) (large : 1 < ane.pdCount)
    (le : i ≤ ane.pdCount.toNat) (entry : PdDev) (none : ∀ domain, entry ≠ .attached domain)
    (k : Platform) :
    aneDetachGenpd { ane with pdDev := Function.update ane.pdDev i entry } (held i k) = k := by
  have many : ¬ ane.pdCount ≤ 1 := by omega
  simp only [aneDetachGenpd, if_neg many]
  rw [detachLoop_skip le]
  · apply detachLoop_held
    intro j less
    have other : j ≠ i := by omega
    simpa [other] using upTo.linked j less
  · intro j beyond _
    refine ⟨upTo.link j beyond, fun domain => ?_⟩
    by_cases last : j = i
    · simpa [last] using none domain
    · simp [last, upTo.dev j beyond]

/-- A domain that could not be linked is detached, then the ones before it. -/
theorem AttachedUpTo.detach_unlinked (upTo : AttachedUpTo ane i) (large : 1 < ane.pdCount)
    (less : i < ane.pdCount.toNat) (k : Platform) :
    aneDetachGenpd { ane with pdDev := Function.update ane.pdDev i (.attached i) }
      (devPmDomainAttachById i (.ok true) (held i k)).2 = k := by
  have many : ¬ ane.pdCount ≤ 1 := by omega
  simp only [aneDetachGenpd, if_neg many]
  rw [detachLoop_skip (Nat.succ_le_of_lt less)]
  · simp only [detachLoop, Function.update_self, upTo.link i (Nat.le_refl i), detach_attach_held]
    apply detachLoop_held
    intro j below
    have other : j ≠ i := by omega
    simpa [other] using upTo.linked j below
  · intro j beyond _
    have other : j ≠ i := by omega
    exact ⟨upTo.link j (by omega), by simp [other, upTo.dev j (by omega)]⟩

/-- All `n` domains of the device are attached; with one at most there is nothing to do. -/
def Genpd (ane : AneDevice) (n : Nat) : Prop :=
  (ane.pdCount ≤ 1 ∧ n = 0) ∨ (1 < ane.pdCount ∧ ane.pdCount.toNat = n ∧ Linked ane n)

theorem aneDetachGenpd_held (genpd : Genpd ane n) (k : Platform) :
    aneDetachGenpd ane (held n k) = k := by
  rcases genpd with ⟨few, rfl⟩ | ⟨large, count, linked⟩
  · simp only [aneDetachGenpd, if_pos few, held_zero]
  · have many : ¬ ane.pdCount ≤ 1 := by omega
    simp only [aneDetachGenpd, if_neg many, count]
    exact detachLoop_held linked k

/-- The loop attaches all domains or none. -/
theorem attachLoop_cases (env : ProbeEnv) (upTo : AttachedUpTo ane i) (large : 1 < ane.pdCount)
    (count : ane.pdCount.toNat = i + n) (k : Platform) :
    (∃ e ane', attachLoop env n i ane (held i k) = (.error e, ane', k) ∧
      ¬ ∀ j, i ≤ j → j < i + n → env.attach j = .ok true ∧ env.link j = true) ∨
    (∃ ane', attachLoop env n i ane (held i k) = (.ok (), ane', held (i + n) k) ∧
      (∀ j, i ≤ j → j < i + n → env.attach j = .ok true ∧ env.link j = true) ∧
      Genpd ane' (i + n) ∧ ane'.hw = ane.hw) := by
  induction n generalizing i ane with
  | zero =>
    refine Or.inr ⟨ane, rfl, fun j low high => ?_, Or.inr ⟨large, count, upTo.linked⟩, rfl⟩
    omega
  | succ n ih =>
    have first : i < i + (n + 1) := by omega
    have inRange : i < ane.pdCount.toNat := by omega
    simp only [attachLoop]
    cases attach : env.attach i with
    | error e =>
      have detached := upTo.detach_failed large (by omega) (.err e) (by simp) k
      simp only [devPmDomainAttachById, detached]
      refine Or.inl ⟨e, _, rfl, fun all => ?_⟩
      simpa [attach] using (all i (Nat.le_refl i) first).1
    | ok attached =>
    cases attached with
    | false =>
      have detached := upTo.detach_failed large (by omega) .null (by simp) k
      simp only [devPmDomainAttachById, deviceLinkAdd, detached]
      refine Or.inl ⟨_, _, rfl, fun all => ?_⟩
      simpa [attach] using (all i (Nat.le_refl i) first).1
    | true =>
    cases link : env.link i with
    | false =>
      have detached := upTo.detach_unlinked large inRange k
      simp only [devPmDomainAttachById] at detached
      simp only [devPmDomainAttachById, deviceLinkAdd, detached]
      refine Or.inl ⟨_, _, rfl, fun all => ?_⟩
      simpa [link] using (all i (Nat.le_refl i) first).2
    | true =>
      have left : ane.pdCount.toNat = i + 1 + n := by omega
      have next := ih upTo.next large left
      have both := attach_link_held i k
      simp only [devPmDomainAttachById] at both
      simp only [devPmDomainAttachById, both]
      rw [Nat.add_right_comm, Nat.add_assoc] at next
      rcases next with ⟨e, ane', run, failed⟩ | ⟨ane', run, all, genpd, hw⟩
      · exact Or.inl ⟨e, ane', run, fun all => failed fun j low => all j (by omega)⟩
      · refine Or.inr ⟨ane', run, fun j low high => ?_, genpd, hw⟩
        by_cases start : j = i
        · exact start ▸ ⟨attach, link⟩
        · exact all j (by omega) high

theorem aneAttachGenpd_cases (env : ProbeEnv) (k : Platform) :
    (∃ e ane, aneAttachGenpd env (.zero env.hw) k = (.error e, ane, k) ∧ ¬ env.Attaches) ∨
    (∃ ane n, aneAttachGenpd env (.zero env.hw) k = (.ok (), ane, held n k) ∧ env.Attaches ∧
      Genpd ane n ∧ ane.hw = env.hw) := by
  simp only [aneAttachGenpd, ProbeEnv.Attaches]
  by_cases few : env.pdCount ≤ 1
  · rw [if_pos few]
    exact Or.inr ⟨_, 0, rfl, Or.inl few, Or.inl ⟨few, rfl⟩, rfl⟩
  rw [if_neg few]
  by_cases noDevs : env.pdDevAlloc = false
  · rw [if_pos noDevs]
    exact Or.inl ⟨_, _, rfl, by simp [few, noDevs]⟩
  rw [if_neg noDevs]
  by_cases noLinks : env.pdLinkAlloc = false
  · rw [if_pos noLinks]
    exact Or.inl ⟨_, _, rfl, by simp [few, noLinks]⟩
  rw [if_neg noLinks]
  rw [Bool.not_eq_false] at noDevs noLinks
  generalize started : { AneDevice.zero env.hw with pdCount := env.pdCount } = ane
  have upTo : AttachedUpTo ane 0 := by
    subst started
    exact ⟨fun i less => absurd less (Nat.not_lt_zero i), fun _ _ => rfl, fun _ _ => rfl⟩
  have same : ane.pdCount = env.pdCount ∧ ane.hw = env.hw := by
    subst started
    exact ⟨rfl, rfl⟩
  have run := attachLoop_cases env upTo (by omega) (Nat.zero_add _).symm k
  rw [held_zero, same.1] at run
  rcases run with ⟨e, ane', run, failed⟩ | ⟨ane', run, all, genpd, hw⟩
  · refine Or.inl ⟨e, ane', same.1 ▸ run, fun attaches => ?_⟩
    rcases attaches with small | ⟨-, -, all⟩
    · exact few small
    · exact failed fun j _ less => all j (by omega)
  · refine Or.inr ⟨ane', _, same.1 ▸ run, Or.inr ⟨noDevs, noLinks, fun j less => ?_⟩, genpd,
      hw.trans same.2⟩
    exact all j (Nat.zero_le j) (by omega)

end PowerDomains

section Balance

variable {env : ProbeEnv} {before : Platform}

theorem Platform.Unbound.pm_restored (unbound : before.Unbound) :
    (pmTeardown (pmSetup before.pm)).disableDepth = before.pm.disableDepth ∧
      (pmTeardown (pmSetup before.pm)).usage = before.pm.usage := by
  have disabled := unbound.disabled
  constructor
  · show before.pm.disableDepth - 1 + 1 = before.pm.disableDepth
    omega
  · simp [pmTeardown, pmSetup, Pm.dontUseAutosuspend, Pm.disable, Pm.putAutosuspend, Pm.enable,
      Pm.getNoresume, Pm.useAutosuspend, Pm.setAutosuspendDelay, Pm.updateAutosuspend,
      Pm.autosuspendHold, unbound.autosuspend]

theorem drmMmTakedown_init {mm mm' : Allocator} (start : mm'.start = mm.start)
    (size : mm'.size = mm.size) (empty : mm'.nodes = []) (k : Platform) :
    drmMmTakedown mm' (drmMmInit mm k) = k := by
  simp [drmMmTakedown, drmMmInit, start, size, empty]

/-- The allocator is taken down and the domains are detached, whatever else was changed. -/
theorem unwind_held {ane : AneDevice} {n : Nat} (genpd : Genpd ane n) {mm : Allocator}
    (start : ane.mm.start = mm.start) (size : ane.mm.size = mm.size) (empty : ane.mm.nodes = [])
    (k : Platform) :
    aneDetachGenpd ane (aneIommuDomainFree ane (drmMmInit mm (held n k))) = k := by
  rw [aneIommuDomainFree, drmMmTakedown_init start size empty, aneDetachGenpd_held genpd]

/-- Up to the interrupt of the DART a failure undoes all there is. -/
theorem anePlatformProbe_early (env : ProbeEnv) (before : Platform)
    (early : ¬ env.DartObtained) : ∃ e, anePlatformProbe env before = (.error e, before) := by
  simp only [anePlatformProbe]
  cases devAlloc : env.devAlloc with
  | error e => exact ⟨e, rfl⟩
  | ok _ =>
  rcases aneAttachGenpd_cases env before with ⟨e, ane, run, -⟩ | ⟨ane, n, run, attaches, genpd, -⟩
  · simp only [run]
    exact ⟨e, rfl⟩
  simp only [run]
  split
  · exact ⟨_, Prod.ext rfl (aneDetachGenpd_held (by exact genpd) before)⟩
  split
  · exact ⟨_, Prod.ext rfl (aneDetachGenpd_held (by exact genpd) before)⟩
  · exact absurd ⟨devAlloc, attaches, by omega, by omega⟩ early

/-- What is left after the interrupt of the DART was disabled and all else undone. -/
theorem leaves_one {after : Platform} (unbound : before.Unbound) {pm : Pm}
    (restored : pm = before.pm ∨ pm = pmTeardown (pmSetup before.pm)) {registered : Bool}
    (unregistered : registered = before.registered)
    (same : after = { disableIrq before with pm := pm, registered := registered }) :
    Leaves 1 before after := by
  obtain ⟨depth, usage⟩ := unbound.pm_restored
  subst same
  refine ⟨rfl, rfl, rfl, rfl, rfl, rfl, rfl, ?_, ?_, unregistered⟩
  · rcases restored with rfl | rfl
    · rfl
    · exact depth
  · rcases restored with rfl | rfl
    · rfl
    · exact usage

/-- Later failures and the removal undo all but the disabling of that interrupt. -/
theorem anePlatformProbe_late (unbound : before.Unbound) (dart : env.DartObtained) :
    ProbeLeaves 1 env before := by
  have irq : ¬ env.irq < 0 := Int.not_lt.mpr dart.irq
  have dartIrq : ¬ env.dartIrq < 0 := Int.not_lt.mpr dart.dartIrq
  rcases aneAttachGenpd_cases env before with ⟨e, ane, -, failed⟩ | ⟨ane, n, run, -, genpd, -⟩
  · exact absurd dart.attaches failed
  simp only [ProbeLeaves, anePlatformProbe, dart.devAlloc, run, if_neg irq, if_neg dartIrq]
  cases env.ioremap with
  | error e =>
    exact leaves_one unbound (.inl rfl) rfl (aneDetachGenpd_held (by exact genpd) (disableIrq before))
  | ok regs =>
  simp only [aneIommuDomainInit]
  cases env.domain with
  | false =>
    exact leaves_one unbound (.inl rfl) rfl (aneDetachGenpd_held (by exact genpd) (disableIrq before))
  | true =>
  cases env.register with
  | error e =>
    exact leaves_one unbound (.inr rfl) rfl (unwind_held (by exact genpd) rfl rfl rfl
      { disableIrq before with pm := pmTeardown (pmSetup before.pm) })
  | ok _ =>
    intro mm start size empty
    exact leaves_one unbound (.inr rfl) unbound.registered.symm (unwind_held (by exact genpd) start
      size empty { disableIrq before with pm := pmTeardown (pmSetup before.pm), registered := false })

theorem Leaves.unique {after : Platform} {n m : Nat} (leaves : Leaves n before after)
    (leaves' : Leaves m before after) : n = m := by
  have depth := leaves.dartDisableDepth
  rw [leaves'.dartDisableDepth] at depth
  omega

theorem ProbeLeaves.unique {n m : Nat} (leaves : ProbeLeaves n env before)
    (leaves' : ProbeLeaves m env before) : n = m := by
  unfold ProbeLeaves at leaves leaves'
  generalize anePlatformProbe env before = run at leaves leaves'
  obtain ⟨e | ane, after⟩ := run
  · exact leaves.unique leaves'
  · have emptied := fun k => leaves ⟨ane.mm.start, ane.mm.size, [], ane.mm.window⟩ rfl rfl k
    have emptied' := fun k => leaves' ⟨ane.mm.start, ane.mm.size, [], ane.mm.window⟩ rfl rfl k
    exact (emptied rfl).unique (emptied' rfl)

/-- A probe, with the removal of the driver after it if it succeeds, leaves everything as it
was exactly if the interrupt of the DART was not obtained: nothing enables it again. -/
theorem anePlatformProbe_balanced_iff (env : ProbeEnv) {before : Platform}
    (unbound : before.Unbound) : ProbeLeaves 0 env before ↔ ¬ env.DartObtained := by
  constructor
  · intro balanced dart
    exact absurd (balanced.unique (anePlatformProbe_late unbound dart)) (by decide)
  · intro early
    obtain ⟨e, run⟩ := anePlatformProbe_early env before early
    simp only [ProbeLeaves, run]
    exact ⟨rfl, rfl, rfl, rfl, rfl, rfl, rfl, rfl, rfl, rfl⟩

/-- A device with three power domains whose registers cannot be mapped. -/
def unmapped : ProbeEnv where
  hw := aneHwH13
  devAlloc := .ok ()
  pdCount := 3
  pdDevAlloc := true
  pdLinkAlloc := true
  attach _ := .ok true
  link _ := true
  irq := 5
  dartIrq := 6
  ioremap := .error .EBUSY
  domain := true
  register := .ok ()

def idle : Platform where
  domains := []
  badDetaches := 0
  links := []
  badLinkDels := 0
  dartDisableDepth := 1
  allocators := []
  badTakedowns := 0
  pm := ⟨1, 0, 0, false⟩
  registered := false

theorem idle_unbound : idle.Unbound := ⟨by decide, rfl, rfl⟩

/-- The domains are detached again, but the interrupt stays disabled once more. -/
theorem unmapped_unbalanced : idle.Unbound ∧ ¬ ProbeLeaves 0 unmapped idle := by
  refine ⟨idle_unbound, fun balanced => ?_⟩
  have left : Leaves 0 idle (anePlatformProbe unmapped idle).2 := balanced
  exact absurd left.dartDisableDepth (by decide)

/-- The third domain cannot be linked yet. -/
theorem anePlatformProbe_balanced_iff_unlinked :
    ProbeLeaves 0 { unmapped with link := fun i => decide (i < 2) } idle := by
  apply (anePlatformProbe_balanced_iff _ idle_unbound).mpr
  rintro ⟨-, few | ⟨-, -, all⟩, -, -⟩
  · exact absurd few (by decide)
  · exact absurd (all 2 (by decide)).2 (by decide)

end Balance

/-- A device bound successfully is the one all runs of the driver start from. -/
theorem anePlatformProbe_probed {env : ProbeEnv} {before after : Platform} {ane : AneDevice}
    (bound : anePlatformProbe env before = (.ok ane, after)) :
    ∃ regs, env.ioremap = .ok regs ∧ ane.mm = (Driver.probed env.hw regs).mm ∧
      ane.engine = (Driver.probed env.hw regs).engine := by
  simp only [anePlatformProbe] at bound
  cases devAlloc : env.devAlloc with
  | error e => simp [devAlloc] at bound
  | ok _ =>
  simp only [devAlloc] at bound
  rcases aneAttachGenpd_cases env before with ⟨e, ane', run, -⟩ | ⟨ane', n, run, -, -, hw⟩
  · simp [run] at bound
  simp only [run] at bound
  split at bound
  · simp at bound
  split at bound
  · simp at bound
  cases ioremap : env.ioremap with
  | error e => simp [ioremap] at bound
  | ok regs =>
  cases domain : env.domain with
  | false => simp [ioremap, aneIommuDomainInit, domain] at bound
  | true =>
  cases register : env.register with
  | error e => simp [ioremap, aneIommuDomainInit, domain, register] at bound
  | ok _ =>
    simp only [ioremap, aneIommuDomainInit, domain, if_true, register, Prod.mk.injEq,
      Except.ok.injEq] at bound
    refine ⟨regs, rfl, ?_, ?_⟩
    · rw [← bound.1, ← hw]
      rfl
    · rw [← bound.1, ← hw]
      rfl

end Ane.Probe
