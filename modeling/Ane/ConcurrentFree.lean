import Ane.Concurrent
import Ane.References

/-! Frees that run at the same time. The lookup and the deletion of the handle are
separate steps, and what follows is not conditional on the deletion, so two threads
that look up the same buffer take it down twice. As long as no thread looks up a
buffer that another has looked up to free and not yet deleted, every buffer is taken
down once, by one thread. For creations and submissions this holds of the coarser steps
that they have here. -/
namespace Ane.Concurrent
open PageTable RangeAllocator Runs TaskManager Driver

/-- How far a buffer is taken down by an action. -/
def Action.level : Action → Nat
  | .lookup | .publish | .delete => 0
  | .unmap => 2
  | .release => 3
  | .kfree => 4

def Event.level (e : Event) : Nat := e.action.level

/-- The buffer a thread is making or taking down, and how far it has got. -/
structure Hold where
  id : Nat
  stage : Nat

def Thread.hold : Thread → Option Hold
  | .freeing _ _ bo => some ⟨bo.id, 0⟩
  | .publishing _ bo _ => some ⟨bo.id, 1⟩
  | .unmapping bo => some ⟨bo.id, 1⟩
  | .releasing bo => some ⟨bo.id, 2⟩
  | .kfreeing bo => some ⟨bo.id, 3⟩
  | _ => none

theorem Thread.freeing_of_hold {th : Thread} {h : Hold} (holds : th.hold = some h)
    (stage : h.stage = 0) : ∃ file handle bo, th = .freeing file handle bo ∧ h = ⟨bo.id, 0⟩ := by
  cases th <;> cases holds
  case freeing file handle bo => exact ⟨file, handle, bo, rfl, rfl⟩
  all_goals simp at stage

/-- No buffer is unmapped, released or freed twice. -/
def TakenDownOnce (trace : List Event) : Prop :=
  ∀ id, trace.count ⟨.unmap, id⟩ ≤ 1 ∧ trace.count ⟨.release, id⟩ ≤ 1 ∧
    trace.count ⟨.kfree, id⟩ ≤ 1

/-- No access to a buffer after it was freed; the trace has its newest event first. -/
def NoUseAfterFree (trace : List Event) : Prop :=
  trace.Pairwise fun later earlier => earlier.action = .kfree → later.id ≠ earlier.id

/-- On one buffer, an access after some taking down takes it down further. -/
def Ordered (later earlier : Event) : Prop :=
  2 ≤ earlier.level → later.id = earlier.id → earlier.level < later.level

theorem Ordered.count_le {trace : List Event} (h : trace.Pairwise Ordered) {e : Event}
    (taking : 2 ≤ e.level) : trace.count e ≤ 1 := by
  induction trace with
  | nil => simp
  | cons newest trace ih =>
    obtain ⟨first, rest⟩ := List.pairwise_cons.mp h
    by_cases same : newest = e
    · have fresh : e ∉ trace := by
        intro mem
        have := first e mem taking (by rw [same])
        rw [same] at this
        omega
      rw [same, List.count_cons_self, List.count_eq_zero_of_not_mem fresh]
    · rw [List.count_cons_of_ne same]
      exact ih rest

theorem Ordered.takenDownOnce {trace : List Event} (h : trace.Pairwise Ordered) :
    TakenDownOnce trace := by
  intro id
  refine ⟨count_le h ?_, count_le h ?_, count_le h ?_⟩ <;> simp [Event.level, Action.level]

theorem Event.level_le (e : Event) : e.level ≤ 4 := by
  obtain ⟨action, id⟩ := e
  cases action <;> simp [Event.level, Action.level]

theorem Ordered.noUseAfterFree {trace : List Event} (h : trace.Pairwise Ordered) :
    NoUseAfterFree trace := by
  refine h.imp ?_
  intro later earlier ordered freed same
  have level : earlier.level = 4 := by rw [Event.level, freed]; rfl
  have := ordered (by omega) same
  have := later.level_le
  omega

/-- Who holds which buffer, and what has been done to it. -/
structure Ledger (m : Machine) : Prop where
  single : Single m.dev
  named_lt : ∀ e ∈ m.dev.handles, e.bo.id < m.dev.nextBo
  held_lt : ∀ t h, (m.threads t).hold = some h → h.id < m.dev.nextBo
  event_lt : ∀ ev ∈ m.trace, ev.id < m.dev.nextBo
  apart : ∀ t u h k, t ≠ u → (m.threads t).hold = some h → (m.threads u).hold = some k → h.id ≠ k.id
  freeing : ∀ t file handle bo, m.threads t = .freeing file handle bo →
    m.dev.named file handle = some bo
  unnamed : ∀ t h, (m.threads t).hold = some h → 1 ≤ h.stage → ∀ e ∈ m.dev.handles, e.bo.id ≠ h.id
  taken_named : ∀ ev ∈ m.trace, 2 ≤ ev.level → ∀ e ∈ m.dev.handles, e.bo.id ≠ ev.id
  taken_held : ∀ ev ∈ m.trace, 2 ≤ ev.level → ∀ t h, (m.threads t).hold = some h → h.id = ev.id →
    ev.level ≤ h.stage
  ordered : m.trace.Pairwise Ordered

section Ledger
variable {m : Machine} {t : ThreadId}

/-- Other parts of the device do not matter. -/
theorem Ledger.of_dev (L : Ledger m) (dev : Device) (handles : dev.handles = m.dev.handles)
    (next : dev.nextBo = m.dev.nextBo) : Ledger { m with dev := dev } where
  single := by
    have := L.single
    exact ⟨by rw [handles]; exact this.keys, by rw [handles]; exact this.unique⟩
  named_lt := by rw [handles, next]; exact L.named_lt
  held_lt := by rw [next]; exact L.held_lt
  event_lt := by rw [next]; exact L.event_lt
  apart := L.apart
  freeing := by
    intro t file handle bo at_
    rw [Device.named, handles]
    exact L.freeing t file handle bo at_
  unnamed := by rw [handles]; exact L.unnamed
  taken_named := by rw [handles]; exact L.taken_named
  taken_held := L.taken_held
  ordered := L.ordered

theorem Ledger.log (L : Ledger m) {action : Action} {bo : AneBo} (lt : bo.id < m.dev.nextBo)
    (fresh : ∀ ev ∈ m.trace, 2 ≤ ev.level → bo.id = ev.id → ev.level < action.level)
    (named : 2 ≤ action.level → ∀ e ∈ m.dev.handles, e.bo.id ≠ bo.id)
    (held : 2 ≤ action.level → ∀ u h, (m.threads u).hold = some h → h.id = bo.id →
      action.level ≤ h.stage) : Ledger (m.log action bo) where
  __ := L
  event_lt := List.forall_mem_cons.mpr ⟨lt, L.event_lt⟩
  taken_named := List.forall_mem_cons.mpr ⟨named, L.taken_named⟩
  taken_held := List.forall_mem_cons.mpr ⟨held, L.taken_held⟩
  ordered := List.pairwise_cons.mpr ⟨fresh, L.ordered⟩

/-- A named buffer may be accessed. -/
theorem Ledger.touch (L : Ledger m) {action : Action} (level : action.level = 0) {bo : AneBo}
    (named : ∃ e ∈ m.dev.handles, e.bo = bo) : Ledger (m.log action bo) := by
  obtain ⟨e, he, rfl⟩ := named
  apply L.log (L.named_lt e he)
  · intro ev mem taking same
    exact absurd same (L.taken_named ev mem taking e he)
  · omega
  · omega

/-- A thread moves on. What it holds then has to fit the rest. -/
theorem Ledger.become (L : Ledger m) {th : Thread}
    (freeing : ∀ file handle bo, th = .freeing file handle bo → m.dev.named file handle = some bo)
    (hold : ∀ h, th.hold = some h → h.id < m.dev.nextBo ∧
      (∀ u k, u ≠ t → (m.threads u).hold = some k → h.id ≠ k.id) ∧
      (1 ≤ h.stage → ∀ e ∈ m.dev.handles, e.bo.id ≠ h.id) ∧
      ∀ ev ∈ m.trace, 2 ≤ ev.level → h.id = ev.id → ev.level ≤ h.stage) :
    Ledger (m.become t th) := by
  have here (u : ThreadId) : (u = t ∧ (m.become t th).threads u = th) ∨
      (u ≠ t ∧ (m.become t th).threads u = m.threads u) := by
    by_cases same : u = t
    · left
      rw [same]
      exact ⟨rfl, become_self m t th⟩
    · exact .inr ⟨same, become_other m same th⟩
  refine { L with
    held_lt := ?_, apart := ?_, freeing := ?_, unnamed := ?_, taken_held := ?_ }
  · intro u h holds
    obtain ⟨rfl, now⟩ | ⟨ne, now⟩ := here u <;> rw [now] at holds
    · exact (hold h holds).1
    · exact L.held_lt u h holds
  · intro u v h k ne holds holds'
    obtain ⟨rfl, now⟩ | ⟨neu, now⟩ := here u <;> obtain ⟨rfl, now'⟩ | ⟨nev, now'⟩ := here v <;>
      rw [now] at holds <;> rw [now'] at holds'
    · exact absurd rfl ne
    · exact (hold h holds).2.1 v k nev holds'
    · exact ((hold k holds').2.1 u h neu holds).symm
    · exact L.apart u v h k ne holds holds'
  · intro u file handle bo at_
    obtain ⟨rfl, now⟩ | ⟨ne, now⟩ := here u <;> rw [now] at at_
    · exact freeing file handle bo at_
    · exact L.freeing u file handle bo at_
  · intro u h holds
    obtain ⟨rfl, now⟩ | ⟨ne, now⟩ := here u <;> rw [now] at holds
    · exact (hold h holds).2.2.1
    · exact L.unnamed u h holds
  · intro ev mem taking u h holds
    obtain ⟨rfl, now⟩ | ⟨ne, now⟩ := here u <;> rw [now] at holds
    · exact (hold h holds).2.2.2 ev mem taking
    · exact L.taken_held ev mem taking u h holds

theorem Ledger.become_none (L : Ledger m) (th : Thread) (none : th.hold = none) :
    Ledger (m.become t th) := by
  apply L.become
  · rintro file handle bo rfl
    cases none
  · intro h holds
    rw [none] at holds
    cases holds

/-- The next step of taking a buffer down. -/
theorem Ledger.advance (L : Ledger m) (stage : Nat) {th : Thread} {action : Action} {bo : AneBo}
    (before : (m.threads t).hold = some ⟨bo.id, stage⟩) (some_stage : 1 ≤ stage)
    (level : action.level = stage + 1) (after : ∀ h, th.hold = some h → h = ⟨bo.id, stage + 1⟩)
    (notFreeing : ∀ file handle bo, th ≠ .freeing file handle bo) :
    Ledger ((m.log action bo).become t th) := by
  have moved : Ledger (m.become t th) := by
    apply L.become
    · intro file handle bo eq
      exact absurd eq (notFreeing file handle bo)
    · intro h holds
      obtain rfl := after h holds
      refine ⟨L.held_lt t ⟨bo.id, stage⟩ before, ?_, ?_, ?_⟩
      · intro u k ne holds'
        exact L.apart t u ⟨bo.id, stage⟩ k ne.symm before holds'
      · intro _
        exact L.unnamed t ⟨bo.id, stage⟩ before some_stage
      · intro ev mem taking same
        exact Nat.le_succ_of_le (L.taken_held ev mem taking t ⟨bo.id, stage⟩ before same)
  apply moved.log (L.held_lt t ⟨bo.id, stage⟩ before)
  · intro ev mem taking same
    have := L.taken_held ev mem taking t ⟨bo.id, stage⟩ before same
    dsimp only at this
    omega
  · intro _
    exact L.unnamed t ⟨bo.id, stage⟩ before some_stage
  · intro _ u h holds same
    by_cases here : u = t
    · rw [here, become_self] at holds
      obtain rfl := after h holds
      exact le_of_eq level
    · rw [become_other m here] at holds
      exact absurd same.symm (L.apart t u ⟨bo.id, stage⟩ h (Ne.symm here) before holds)

/-- A thread looks up a buffer to free. -/
theorem Ledger.take (L : Ledger m) {file : FileId} {handle : UInt32} {bo : AneBo}
    (named : m.dev.named file handle = some bo)
    (alone : ∀ u file handle other, m.threads u = .freeing file handle other → other.id ≠ bo.id) :
    Ledger (m.become t (.freeing file handle bo)) := by
  obtain ⟨e, he, -, -, rfl⟩ := named_eq_some named
  apply L.become
  · intro file' handle' bo' eq
    cases eq
    exact named
  · intro h holds
    cases holds
    refine ⟨L.named_lt e he, ?_, ?_, ?_⟩
    · intro u k _ holds same
      by_cases stage : 1 ≤ k.stage
      · exact L.unnamed u k holds stage e he same
      · obtain ⟨file', handle', other, at_, rfl⟩ := Thread.freeing_of_hold holds (by omega)
        exact alone u file' handle' other at_ same.symm
    · intro impossible
      simp at impossible
    · intro ev mem taking same
      exact absurd same (L.taken_named ev mem taking e he)

theorem Ledger.delete (L : Ledger m) {file : FileId} {handle : UInt32}
    (others : ∀ u file' handle' bo, m.threads u = .freeing file' handle' bo →
      ¬ (file' = file ∧ handle' = handle)) :
    Ledger { m with dev := drmGemHandleDelete m.dev file handle } := by
  obtain ⟨rc, frame⟩ := drmGemHandleDelete_frame m.dev file handle
  have left : ∀ e ∈ (drmGemHandleDelete m.dev file handle).handles, e ∈ m.dev.handles := by
    intro e mem
    rw [frame] at mem
    exact List.mem_of_mem_filter mem
  have next : (drmGemHandleDelete m.dev file handle).nextBo = m.dev.nextBo := by rw [frame]
  exact {
    single := L.single.deleted file handle
    named_lt := fun e he => next ▸ L.named_lt e (left e he)
    held_lt := by rw [next]; exact L.held_lt
    event_lt := by rw [next]; exact L.event_lt
    apart := L.apart
    freeing := by
      intro u file' handle' bo at_
      rw [named_deleted m.dev (others u file' handle' bo at_)]
      exact L.freeing u file' handle' bo at_
    unnamed := fun u h holds stage e he => L.unnamed u h holds stage e (left e he)
    taken_named := fun ev mem taking e he => L.taken_named ev mem taking e (left e he)
    taken_held := L.taken_held
    ordered := L.ordered }

/-- The handle is deleted through which a buffer was looked up to be freed. -/
theorem Ledger.deleteHandle (L : Ledger m) {file : FileId} {handle : UInt32} {bo : AneBo}
    (at_ : m.threads t = .freeing file handle bo) :
    Ledger ({ m with dev := drmGemHandleDelete m.dev file handle }.become t (.unmapping bo)) := by
  have named := L.freeing t file handle bo at_
  have before : (m.threads t).hold = some ⟨bo.id, 0⟩ := by rw [at_]; rfl
  -- the thread leaves the handle before the handle goes
  have idle : Ledger (m.become t .idle) := L.become_none .idle rfl
  have others : ∀ u file' handle' other, (m.become t .idle).threads u = .freeing file' handle' other →
      ¬ (file' = file ∧ handle' = handle) := by
    rintro u file' handle' other at_' ⟨rfl, rfl⟩
    by_cases here : u = t
    · rw [here, become_self] at at_'
      cases at_'
    · rw [become_other m here] at at_'
      have named' := L.freeing u file' handle' other at_'
      rw [named] at named'
      cases named'
      exact L.apart t u ⟨bo.id, 0⟩ ⟨bo.id, 0⟩ (Ne.symm here) before (by rw [at_']; rfl) rfl
  have deleted := idle.delete others
  have same : { m with dev := drmGemHandleDelete m.dev file handle }.become t (.unmapping bo) =
      { m.become t .idle with dev := drmGemHandleDelete m.dev file handle }.become t
        (.unmapping bo) := by
    simp only [Machine.become, Function.update_idem]
  have next : (drmGemHandleDelete m.dev file handle).nextBo = m.dev.nextBo := by
    obtain ⟨rc, frame⟩ := drmGemHandleDelete_frame m.dev file handle
    rw [frame]
  rw [same]
  apply deleted.become
  · intro file' handle' other eq
    cases eq
  · intro h holds
    cases holds
    refine ⟨next ▸ L.held_lt t ⟨bo.id, 0⟩ before, ?_, ?_, ?_⟩
    · intro u k ne holds
      rw [show ({ m.become t .idle with dev := drmGemHandleDelete m.dev file handle } : Machine).threads
        u = m.threads u from become_other m ne .idle] at holds
      exact L.apart t u ⟨bo.id, 0⟩ k ne.symm before holds
    · intro _ e he same
      have gone := (L.single.mem_deleted named bo.id).mp
      obtain ⟨rc, frame⟩ := drmGemHandleDelete_frame m.dev file handle
      dsimp only at he
      rw [become_dev, frame] at he
      exact (gone (List.mem_map.mpr ⟨e, he, same⟩)).2 rfl
    · intro ev mem taking same
      have := L.taken_held ev mem taking t ⟨bo.id, 0⟩ before same
      dsimp only at this
      omega

/-- A new buffer. -/
theorem Ledger.make (L : Ledger m) {dev : Device} (handles : dev.handles = m.dev.handles)
    (next : dev.nextBo = m.dev.nextBo + 1) {file : FileId} {bo : AneBo} (id : bo.id = m.dev.nextBo)
    (pick : Option UInt32) :
    Ledger ({ m with dev := dev }.become t (.publishing file bo pick)) := by
  have grown : Ledger { m with dev := dev } := by
    have same := L.of_dev { dev with nextBo := m.dev.nextBo } handles rfl
    refine { same with
      single := ⟨same.single.keys, same.single.unique⟩, named_lt := ?_, held_lt := ?_, event_lt := ?_ }
    · intro e he
      have := same.named_lt e he
      dsimp only at this ⊢
      omega
    · intro u h holds
      have := same.held_lt u h holds
      dsimp only at this ⊢
      omega
    · intro ev mem
      have := same.event_lt ev mem
      dsimp only at this ⊢
      omega
  apply grown.become
  · intro file' handle' other eq
    cases eq
  · intro h holds
    cases holds
    refine ⟨?_, ?_, ?_, ?_⟩
    · dsimp only
      omega
    · intro u k _ holds same
      have := L.held_lt u k holds
      dsimp only at same
      omega
    · intro _ e he same
      dsimp only at he same
      rw [handles] at he
      have := L.named_lt e he
      omega
    · intro ev mem taking same
      have := L.event_lt ev mem
      dsimp only at same
      omega

/-- A buffer that a thread holds and has not begun to take down is taken down by none. -/
theorem Ledger.untaken (L : Ledger m) {id : Nat} (before : (m.threads t).hold = some ⟨id, 1⟩) :
    ∀ ev ∈ m.trace, 2 ≤ ev.level → id ≠ ev.id := by
  intro ev mem taking same
  have := L.taken_held ev mem taking t ⟨id, 1⟩ before same
  dsimp only at this
  omega

/-- Without a handle, a new buffer is taken down by the thread that made it. -/
theorem Ledger.unpublish (L : Ledger m) {file : FileId} {bo : AneBo} {pick : Option UInt32}
    (at_ : m.threads t = .publishing file bo pick) {n : Nat} :
    Ledger (({ m with dev := m.dev.setRefcount bo n }.log .publish bo).become t (.unmapping bo)) := by
  have before : (m.threads t).hold = some ⟨bo.id, 1⟩ := by rw [at_]; rfl
  have untaken : ∀ ev ∈ m.trace, 2 ≤ ev.level → bo.id ≠ ev.id := L.untaken before
  have logged : Ledger ({ m with dev := m.dev.setRefcount bo n }.log .publish bo) := by
    apply (L.of_dev (m.dev.setRefcount bo n) rfl rfl).log (L.held_lt t ⟨bo.id, 1⟩ before)
    · intro ev mem taking same
      exact absurd same (untaken ev mem taking)
    · intro impossible
      simp [Action.level] at impossible
    · intro impossible
      simp [Action.level] at impossible
  apply logged.become
  · intro file' handle' other eq
    cases eq
  · intro h holds
    cases holds
    refine ⟨logged.held_lt t ⟨bo.id, 1⟩ before, ?_, logged.unnamed t ⟨bo.id, 1⟩ before, ?_⟩
    · intro u k ne holds
      exact logged.apart t u ⟨bo.id, 1⟩ k ne.symm before holds
    · intro ev mem taking
      exact logged.taken_held ev mem taking t ⟨bo.id, 1⟩ before

/-- A handle for a buffer that no thread works on. -/
theorem Ledger.addHandle (L : Ledger m) {file : FileId} {bo : AneBo} {handle : UInt32} {dev : Device}
    (handles : dev.handles = ⟨file, handle, bo⟩ :: m.dev.handles) (next : dev.nextBo = m.dev.nextBo)
    (fresh : m.dev.named file handle = none) (lt : bo.id < m.dev.nextBo)
    (unnamed : ∀ e ∈ m.dev.handles, e.bo.id ≠ bo.id)
    (untaken : ∀ ev ∈ m.trace, 2 ≤ ev.level → bo.id ≠ ev.id)
    (unheld : ∀ u h, (m.threads u).hold = some h → h.id ≠ bo.id) :
    Ledger { m with dev := dev } where
  single := by
    refine ⟨?_, ?_⟩
    · rw [handles]
      refine List.nodup_cons.mpr ⟨?_, L.single.keys⟩
      intro mem
      obtain ⟨e, he, same⟩ := List.mem_map.mp mem
      exact named_eq_none fresh e he (Prod.mk.inj same)
    · rw [handles]
      refine List.nodup_cons.mpr ⟨?_, L.single.unique⟩
      intro mem
      obtain ⟨e, he, same⟩ := List.mem_map.mp mem
      exact unnamed e he same
  named_lt := by
    rw [handles, next]
    exact List.forall_mem_cons.mpr ⟨lt, L.named_lt⟩
  held_lt := by
    rw [next]
    exact L.held_lt
  event_lt := by
    rw [next]
    exact L.event_lt
  apart := L.apart
  freeing := by
    intro u file' handle' other at_
    have named := L.freeing u file' handle' other at_
    rw [Device.named, handles, List.find?_cons_of_neg]
    · exact named
    · have ne : ¬ (file = file' ∧ handle = handle') := by
        rintro ⟨rfl, rfl⟩
        rw [fresh] at named
        cases named
      simpa using ne
  unnamed := by
    intro u h holds stage
    rw [handles]
    exact List.forall_mem_cons.mpr ⟨(unheld u h holds).symm, L.unnamed u h holds stage⟩
  taken_named := by
    intro ev mem taking
    rw [handles]
    exact List.forall_mem_cons.mpr ⟨untaken ev mem taking, L.taken_named ev mem taking⟩
  taken_held := L.taken_held
  ordered := L.ordered

/-- A buffer gets its handle, and its thread is done with it. -/
theorem Ledger.publish (L : Ledger m) {file : FileId} {bo : AneBo} {pick : Option UInt32}
    (at_ : m.threads t = .publishing file bo pick) {handle : UInt32} {dev : Device}
    (handles : dev.handles = ⟨file, handle, bo⟩ :: m.dev.handles) (next : dev.nextBo = m.dev.nextBo)
    (fresh : m.dev.named file handle = none) :
    Ledger (({ m with dev := dev }.log .publish bo).become t .idle) := by
  have before : (m.threads t).hold = some ⟨bo.id, 1⟩ := by rw [at_]; rfl
  have lt : bo.id < m.dev.nextBo := L.held_lt t ⟨bo.id, 1⟩ before
  have unnamed : ∀ e ∈ m.dev.handles, e.bo.id ≠ bo.id := L.unnamed t ⟨bo.id, 1⟩ before (le_refl 1)
  have untaken : ∀ ev ∈ m.trace, 2 ≤ ev.level → bo.id ≠ ev.id := L.untaken before
  have idle : Ledger (m.become t .idle) := L.become_none .idle rfl
  have unheld : ∀ u h, ((m.become t .idle).threads u).hold = some h → h.id ≠ bo.id := by
    intro u h holds same
    by_cases here : u = t
    · rw [here, become_self] at holds
      cases holds
    · rw [become_other m here] at holds
      exact L.apart t u ⟨bo.id, 1⟩ h (Ne.symm here) before holds same.symm
  have named := idle.addHandle handles next fresh lt unnamed untaken unheld
  show Ledger ({ m.become t .idle with dev := dev }.log .publish bo)
  apply named.log
  · rw [next]
    exact lt
  · intro ev mem taking same
    exact absurd same (untaken ev mem taking)
  · intro impossible
    simp [Action.level] at impossible
  · intro impossible
    simp [Action.level] at impossible

end Ledger

/-- No thread looks up a buffer to free while another, having looked it up to free,
has not deleted its handle. -/
def LooksUpAlone (m : Machine) : ThreadOp → Prop
  | .boFree t file args => m.threads t = .idle → args.pad = 0 →
    ∀ bo, m.dev.named file args.handle = some bo →
      ∀ u file' handle' other, m.threads u = .freeing file' handle' other → other.id ≠ bo.id
  | _ => True

section Steps
variable {m : Machine}

theorem Ledger.lookOne (L : Ledger m) (t : ThreadId) (job : Job) (bdx : Nat) :
    Ledger (lookOne m t job bdx) := by
  have touched {file : FileId} {handle : UInt32} {bo : AneBo}
      (named : m.dev.named file handle = some bo) :
      Ledger ({ m with dev := m.dev.get bo }.log .lookup bo) := by
    obtain ⟨e, he, -, -, same⟩ := named_eq_some named
    exact (L.of_dev (m.dev.get bo) rfl rfl).touch rfl ⟨e, he, same⟩
  unfold Concurrent.lookOne
  split
  · split
    · cases named : m.dev.named job.file (job.args.handles bdx) with
      | none =>
        simp only [boLookup_none named]
        exact L.become_none _ rfl
      | some bo =>
        simp only [boLookup_some named]
        split <;> exact (touched named).become_none _ rfl
    · exact L.become_none _ rfl
  · cases named : m.dev.named job.file job.args.btspHandle with
    | none =>
      simp only [boLookup_none named]
      exact L.become_none _ rfl
    | some btsp =>
      simp only [boLookup_some named]
      split <;> exact (touched named).become_none _ rfl

theorem Ledger.observe (L : Ledger m) (t : ThreadId) (job : Job) (btsp : AneBo) (status : Status) :
    Ledger (observe m t job btsp status) := by
  have other := L.of_dev (Concurrent.observe m t job btsp status).dev rfl rfl
  have unlocked : Ledger { Concurrent.observe m t job btsp status with threads := m.threads } :=
    { other with }
  exact unlocked.become_none .idle rfl

theorem Ledger.stepThread (L : Ledger m) (t : ThreadId) (status : Status) :
    Ledger (stepThread m t status) := by
  unfold Concurrent.stepThread
  cases at_ : m.threads t with
  | idle => exact L
  | freeing file handle bo =>
    have named := L.freeing t file handle bo at_
    obtain ⟨e, he, -, -, same⟩ := named_eq_some named
    simp only [named]
    have deleting : Action.delete.level = 0 := rfl
    exact (L.touch deleting ⟨e, he, same⟩).deleteHandle at_
  | unmapping bo =>
    have handles : (aneIommuUnmapPages m.dev bo).handles = m.dev.handles ∧
        (aneIommuUnmapPages m.dev bo).nextBo = m.dev.nextBo := by
      unfold aneIommuUnmapPages
      split <;> exact ⟨rfl, rfl⟩
    have other := L.of_dev _ handles.1 handles.2
    exact other.advance 1 (t := t) (congrArg Thread.hold at_) (le_refl 1) rfl
      (fun h holds => by cases holds; rfl) (fun _ _ _ eq => by cases eq)
  | releasing bo =>
    exact L.advance 2 (t := t) (congrArg Thread.hold at_) (by decide) rfl
      (fun h holds => by cases holds; rfl) (fun _ _ _ eq => by cases eq)
  | kfreeing bo =>
    have other := L.of_dev (kfree m.dev bo) rfl rfl
    exact other.advance 3 (t := t) (congrArg Thread.hold at_) (by decide) rfl
      (fun h holds => by cases holds) (fun _ _ _ eq => by cases eq)
  | publishing file bo pick =>
    dsimp only
    cases made : drmGemHandleCreate m.dev file bo pick with
    | none =>
      rw [drmGemObjectPut_eq]
      exact L.unpublish at_
    | some r =>
      obtain ⟨handle, dev⟩ := r
      obtain ⟨-, fresh, rfl⟩ := drmGemHandleCreate_eq_some made
      dsimp only
      rw [drmGemObjectPut_eq]
      exact L.publish at_ rfl rfl fresh
  | looking job bdx => exact L.lookOne t job bdx
  | locking job btsp =>
    dsimp only
    split
    · have locked : Ledger { m with engineLock := some t } := { L with }
      exact locked.become_none (.enqueuing job btsp) rfl
    · exact L
  | enqueuing job btsp =>
    have other := L.of_dev { m.dev with
      engine := (H13.aneH13TmEnqueue m.dev.engine (job.request btsp)).1 } rfl rfl
    exact other.become_none (.pushing job btsp) rfl
  | pushing job btsp =>
    have other := L.of_dev { m.dev with
      engine := H13.aneTmPushTq m.dev.engine (job.request btsp) } rfl rfl
    exact other.become_none (.polling job btsp) rfl
  | polling job btsp => exact L.observe t job btsp status

theorem Ledger.exec (L : Ledger m) (op : ThreadOp) (alone : LooksUpAlone m op) :
    Ledger (exec m op) := by
  cases op with
  | boFree t file args =>
    unfold Concurrent.exec
    dsimp only
    split
    · next idle =>
      cases named : m.dev.named file args.handle with
      | none =>
        simp only [boLookup_none named]
        exact L
      | some bo =>
        obtain ⟨e, he, -, -, same⟩ := named_eq_some named
        have touched : Ledger ({ m with dev := m.dev.get bo }.log .lookup bo) :=
          (L.of_dev (m.dev.get bo) rfl rfl).touch rfl ⟨e, he, same⟩
        simp only [boLookup_some named]
        split
        · exact touched
        · next pad =>
          apply touched.take named
          exact alone idle (by simpa using pad) bo named
    · exact L
  | boInit t file args env =>
    unfold Concurrent.exec
    dsimp only
    split
    · generalize made : boInitMap m.dev file args env = r
      obtain ⟨dev, none | bo⟩ := r
      · obtain ⟨rc, rfl⟩ := boInitMap_none made
        exact L.of_dev _ rfl rfl
      · obtain ⟨rc, iommu, -, id, -, -, rfl⟩ := boInitMap_some made
        dsimp only
        apply L.make
        · rfl
        · rfl
        · exact id
    · exact L
  | submit t file args =>
    unfold Concurrent.exec
    dsimp only
    split
    · split
      · exact L
      · exact L.become_none _ rfl
    · exact L
  | step t status => exact L.stepThread t status

end Steps

theorem ledger_quiet {dev : Device} (inv : Inv dev) : Ledger (quiet dev) where
  single := inv.handlesOk.single
  named_lt := fun e he => inv.bosOk.id_lt e.bo (inv.handlesOk.alive e he)
  held_lt := fun t h holds => by cases holds
  event_lt := fun ev mem => by cases mem
  apart := fun t u h k ne holds => by cases holds
  freeing := fun t file handle bo at_ => by cases at_
  unnamed := fun t h holds => by cases holds
  taken_named := fun ev mem => by cases mem
  taken_held := fun ev mem => by cases mem
  ordered := List.Pairwise.nil

/-- However the ioctls of the threads interleave, every buffer is taken down at most
once and never accessed after, as long as every free looks up its buffer alone. -/
theorem frees_safe (hw : AneHw) (regs : RegFile) (history : List Op) (ops : List ThreadOp)
    (alone : AllSteps exec LooksUpAlone (quiet (run Driver.exec (probed hw regs) history)) ops) :
    AllStates exec (fun m => TakenDownOnce m.trace ∧ NoUseAfterFree m.trace)
      (quiet (run Driver.exec (probed hw regs) history)) ops := by
  have safe : AllStates exec Ledger (quiet (run Driver.exec (probed hw regs) history)) ops :=
    allStates_of_allSteps (fun m op L admitted => L.exec op admitted)
      (ledger_quiet (inv_run hw regs history)) alone
  exact safe.mono fun m L => ⟨Ordered.takenDownOnce L.ordered, Ordered.noUseAfterFree L.ordered⟩

theorem exec_boFree {m : Machine} {t : ThreadId} {file : FileId} {args : DrmAneBoFree} {bo : AneBo}
    (idle : m.threads t = .idle) (named : m.dev.named file args.handle = some bo)
    (pad : args.pad = 0) : exec m (.boFree t file args) =
      ({ m with dev := m.dev.get bo }.log .lookup bo).become t (.freeing file args.handle bo) := by
  simp [exec, idle, boLookup_some named, pad]

def twoPages : List Op :=
  oneBuffer 0x4000 ++ [.ioctl 0 (.ok ()) (.boInit ⟨0, 0x4000⟩ (.served 0x8000 [8] 2))]

def clientWithTwo : Machine := quiet (run Driver.exec (probed aneHwH13 fun _ => 0) twoPages)

/-- Two threads free a buffer each, step by step in turn. -/
def freeTogether : List ThreadOp :=
  .boFree 0 0 ⟨1, 0⟩ :: .boFree 1 0 ⟨2, 0⟩ ::
    (List.replicate 4 [.step 0 (.ok ()), .step 1 (.ok ())]).flatten

theorem frees_safe_freeTogether :
    let trace := (run exec clientWithTwo freeTogether).trace
    TakenDownOnce trace ∧ NoUseAfterFree trace ∧ trace.count ⟨.kfree, 0⟩ = 1 ∧
      trace.count ⟨.kfree, 1⟩ = 1 := by
  have first : (clientWithTwo.dev.named 0 1).map AneBo.id = some 0 := by decide
  have second : ((exec clientWithTwo (.boFree 0 0 ⟨1, 0⟩)).dev.named 0 2).map AneBo.id = some 1 := by
    decide
  obtain ⟨bo₀, named₀, id₀⟩ := Option.map_eq_some_iff.mp first
  obtain ⟨bo₁, named₁, id₁⟩ := Option.map_eq_some_iff.mp second
  have begun : exec clientWithTwo (.boFree 0 0 ⟨1, 0⟩) = _ := exec_boFree rfl named₀ rfl
  have alone : AllSteps exec LooksUpAlone clientWithTwo freeTogether := by
    refine ⟨?_, ?_, trivial, trivial, trivial, trivial, trivial, trivial, trivial, trivial, trivial⟩
    · intro _ _ bo _ u file handle other at_
      cases at_
    · intro _ _ bo named u file handle other at_
      rw [named₁] at named
      cases named
      rw [begun] at at_
      by_cases here : u = 0
      · rw [here, become_self] at at_
        cases at_
        rw [id₀, id₁]
        decide
      · rw [become_other _ here] at at_
        cases at_
  have safe := (frees_safe aneHwH13 (fun _ => 0) twoPages freeTogether alone).last
  exact ⟨safe.1, safe.2, by decide, by decide⟩

/-- Two threads look it up before either deletes the handle. -/
def freeTwice : List ThreadOp :=
  .boFree 0 0 ⟨1, 0⟩ :: .boFree 1 0 ⟨1, 0⟩ ::
    (List.replicate 4 (.step 0 (.ok ())) ++ List.replicate 4 (.step 1 (.ok ())))

/-- The second thread unmaps and frees a buffer that is gone. -/
theorem not_safe_freeTwice :
    ¬ ∀ ops, AllStates exec (fun m => TakenDownOnce m.trace ∧ NoUseAfterFree m.trace)
      clientWithBuffer ops := by
  intro safe
  have once := ((safe freeTwice).last.1 0).1
  have twice : (run exec clientWithBuffer freeTwice).trace.count ⟨.unmap, 0⟩ = 2 := by decide
  omega

end Ane.Concurrent
