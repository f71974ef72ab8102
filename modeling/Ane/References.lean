import Ane.Mapping

/-! Reference counts of buffers against the handles that name them. Lookups take a
reference and nothing in the driver drops it, so the counts are exact as long as no
operation gets past its first lookup without freeing what it found. -/
namespace Ane.Driver
open PageTable RangeAllocator Runs TaskManager

/-- The handles naming an object. -/
def Device.handleCount (dev : Device) (id : Nat) : Nat := (dev.handles.map HandleEntry.boId).count id

/-- The count of each buffer alive is the number of handles naming it. -/
def RefsExact (dev : Device) : Prop := ∀ bo ∈ dev.bos, dev.refcount bo.id = dev.handleCount bo.id

instance (dev : Device) : Decidable (RefsExact dev) := inferInstanceAs (Decidable (∀ _ ∈ _, _))

/-- A call that takes a reference and keeps it: a rejected free of a buffer that
exists, or a submission that finds its microcode. -/
def KeepsReference (dev : Device) (file : FileId) : Ioctl → Prop
  | .boFree args => args.pad ≠ 0 ∧ (dev.named file args.handle).isSome
  | .submit args _ => ¬ submitArgsRejected args ∧ (dev.named file (args.handles cmdBufBdx)).isSome
  | _ => False

/-- The operation gets as far as such a call. -/
def LeavesReference (dev : Device) : Op → Prop
  | .ioctl file wake call =>
    file ∈ dev.files ∧ wakeFailed wake = false ∧ KeepsReference dev file call
  | _ => False

section Handles
variable {dev : Device} {file : FileId} {handle : UInt32} {bo : AneBo}

/-- One handle to a key and one to a buffer. -/
structure Single (dev : Device) : Prop where
  keys : (dev.handles.map HandleEntry.key).Nodup
  unique : (dev.handles.map HandleEntry.boId).Nodup

theorem HandlesOk.single (h : HandlesOk dev) : Single dev := ⟨h.keys, h.unique⟩

/-- The handles left after a deletion name what the others named. -/
theorem Single.mem_deleted (h : Single dev) (named : dev.named file handle = some bo) (id : Nat) :
    id ∈ (dev.handles.filter fun e => ¬ (e.file = file ∧ e.handle = handle)).map HandleEntry.boId ↔
      id ∈ dev.handles.map HandleEntry.boId ∧ id ≠ bo.id := by
  obtain ⟨e₀, he₀, rfl, rfl, rfl⟩ := named_eq_some named
  simp only [List.mem_map, List.mem_filter, decide_eq_true_eq]
  constructor
  · rintro ⟨e, ⟨he, other⟩, rfl⟩
    refine ⟨⟨e, he, rfl⟩, ?_⟩
    intro same
    obtain rfl := List.inj_on_of_nodup_map h.unique he he₀ same
    exact other ⟨rfl, rfl⟩
  · rintro ⟨⟨e, he, rfl⟩, other⟩
    refine ⟨e, ⟨he, ?_⟩, rfl⟩
    intro same
    obtain rfl := List.inj_on_of_nodup_map h.keys he he₀ (Prod.ext same.1 same.2)
    exact other rfl

theorem Single.deleted (h : Single dev) (file : FileId) (handle : UInt32) :
    Single (drmGemHandleDelete dev file handle) := by
  obtain ⟨rc, done⟩ := drmGemHandleDelete_frame dev file handle
  rw [done]
  exact ⟨h.keys.sublist (List.filter_sublist.map _), h.unique.sublist (List.filter_sublist.map _)⟩

/-- Deleting a handle drops the reference it held. -/
theorem Single.refs_deleted (h : Single dev) (file : FileId) (handle : UInt32) {id : Nat}
    (counted : dev.refcount id = dev.handleCount id) :
    (drmGemHandleDelete dev file handle).refcount id =
      (drmGemHandleDelete dev file handle).handleCount id := by
  cases named : dev.named file handle with
  | none => simpa only [drmGemHandleDelete, named] using counted
  | some bo =>
    have after := (h.deleted file handle).unique
    have mem := h.mem_deleted named id
    simp only [Device.handleCount, h.unique.count] at counted
    simp only [Device.handleCount, after.count]
    rw [drmGemHandleDelete_named named]
    simp only [mem]
    by_cases here : id = bo.id
    · obtain ⟨e₀, he₀, -, -, rfl⟩ := named_eq_some named
      have listed : e₀.bo.id ∈ dev.handles.map HandleEntry.boId := List.mem_map_of_mem he₀
      rw [here, Function.update_self, ← here, counted, here, if_pos listed]
      simp
    · rw [Function.update_of_ne here, counted]
      simp [here]

end Handles

/-- Closing a file drops the references of the handles it had. -/
theorem Single.refs_closed {dev : Device} (h : Single dev) (file : FileId) (left : List HandleEntry)
    {id : Nat} (counted : dev.refcount id = dev.handleCount id) :
    let after := left.foldl (fun dev e => drmGemHandleDelete dev file e.handle) dev
    after.refcount id = after.handleCount id := by
  induction left generalizing dev with
  | nil => exact counted
  | cons e left ih => exact ih (h.deleted file e.handle) (h.refs_deleted file e.handle counted)

section Lookups
variable {dev : Device} {file : FileId} {args : DrmAneSubmit} {bo : AneBo}

theorem get_refcount (dev : Device) (bo : AneBo) (id : Nat) :
    (dev.get bo).refcount id = dev.refcount id + if id = bo.id then 1 else 0 := by
  simp only [Device.get, Device.setRefcount, Function.update_apply]
  split
  · next here => rw [here]
  · rfl

theorem boLookup_mono (dev : Device) (file : FileId) (handle : UInt32) (id : Nat) :
    dev.refcount id ≤ (boLookup dev file handle).2.refcount id := by
  cases named : dev.named file handle with
  | none => rw [boLookup_none named]
  | some bo =>
    rw [boLookup_some named, get_refcount]
    omega

theorem submitBars_mono (file : FileId) (args : DrmAneSubmit) (left bdx : Nat)
    (bar : Nat → UInt64) (dev : Device) (id : Nat) :
    dev.refcount id ≤ (submitBars file args left bdx bar dev).1.refcount id := by
  induction left generalizing bdx bar dev with
  | zero => exact le_refl _
  | succ left ih =>
    unfold submitBars
    split
    · have here := boLookup_mono dev file (args.handles bdx) id
      generalize boLookup dev file (args.handles bdx) = looked at here ⊢
      obtain ⟨none | bo, dev₁⟩ := looked
      · exact here
      · dsimp only at here ⊢
        split
        · exact here
        · exact le_trans here (ih _ _ dev₁)
    · exact ih (bdx + 1) bar dev

theorem submitExecute_refcount (dev : Device) (req : AneRequest) (status : Status) :
    (submitExecute dev req status).1.refcount = dev.refcount := by
  obtain ⟨engine, done⟩ := submitExecute_frame dev req status
  rw [done]

/-- What the handle loop has taken stays taken. -/
theorem submitValidate_mono (accepted : ¬ submitArgsRejected args) (id : Nat) :
    (submitBars file args dev.hw.barCount 0 (fun _ => 0) dev).1.refcount id ≤
      (submitValidate dev file args).1.refcount id := by
  unfold submitValidate
  rw [if_neg accepted]
  generalize submitBars file args dev.hw.barCount 0 (fun _ => 0) dev = looked
  obtain ⟨dev₁, err | bar⟩ := looked
  · exact le_refl _
  · have here := boLookup_mono dev₁ file args.btspHandle id
    dsimp only
    generalize boLookup dev₁ file args.btspHandle = found at here ⊢
    obtain ⟨none | btsp, dev₂⟩ := found
    · exact here
    · dsimp only at here ⊢
      split
      · exact here
      · exact here

theorem aneSubmit_mono (accepted : ¬ submitArgsRejected args) (status : Status) (id : Nat) :
    (submitBars file args dev.hw.barCount 0 (fun _ => 0) dev).1.refcount id ≤
      (aneSubmit dev file args status).1.refcount id := by
  have validated : (submitBars file args dev.hw.barCount 0 (fun _ => 0) dev).1.refcount id ≤
      (submitValidate dev file args).1.refcount id := submitValidate_mono accepted id
  unfold aneSubmit
  generalize submitValidate dev file args = r at validated ⊢
  obtain ⟨dev', err | req⟩ := r
  · exact validated
  · dsimp only at validated ⊢
    rw [submitExecute_refcount]
    exact validated

/-- The first handle is looked up first, so a submission that does not find it
takes nothing. -/
theorem aneSubmit_unnamed (bars : 0 < dev.hw.barCount)
    (named : dev.named file (args.handles cmdBufBdx) = none) (status : Status) :
    (aneSubmit dev file args status).1 = dev := by
  obtain ⟨left, count⟩ := Nat.exists_eq_add_one_of_ne_zero (Nat.ne_of_gt bars)
  unfold aneSubmit submitValidate
  by_cases accepted : submitArgsRejected args
  · rw [if_pos accepted]
  · rw [if_neg accepted]
    have used : args.handles 0 ≠ 0 := fun zero => accepted (.inr (.inr (.inr (.inr (.inl zero)))))
    have first : dev.named file (args.handles 0) = none := named
    rw [count, submitBars, if_pos used, boLookup_none first]

/-- A submission that finds its microcode buffer keeps a reference to it. -/
theorem aneSubmit_named (bars : 0 < dev.hw.barCount) (accepted : ¬ submitArgsRejected args)
    (named : dev.named file (args.handles cmdBufBdx) = some bo) (status : Status) :
    dev.refcount bo.id < (aneSubmit dev file args status).1.refcount bo.id := by
  obtain ⟨left, count⟩ := Nat.exists_eq_add_one_of_ne_zero (Nat.ne_of_gt bars)
  have used : args.handles 0 ≠ 0 := fun zero => accepted (.inr (.inr (.inr (.inr (.inl zero)))))
  refine lt_of_lt_of_le ?_ (aneSubmit_mono accepted status bo.id)
  have first : dev.named file (args.handles 0) = some bo := named
  rw [count, submitBars, if_pos used, boLookup_some first]
  have taken : dev.refcount bo.id < (dev.get bo).refcount bo.id := by
    rw [get_refcount, if_pos rfl]
    omega
  dsimp only
  split
  · exact taken
  · exact lt_of_lt_of_le taken (submitBars_mono _ _ _ _ _ _ _)

end Lookups

section Exact
variable {dev : Device}

/-- Where the counts of the buffers alive stay, so does exactness. -/
theorem refsExact_congr (dev dev' : Device) (bos : dev'.bos = dev.bos) (handles : dev'.handles = dev.handles)
    (counts : ∀ bo ∈ dev.bos, dev'.refcount bo.id = dev.refcount bo.id) :
    RefsExact dev' ↔ RefsExact dev := by
  unfold RefsExact Device.handleCount
  rw [bos, handles]
  apply forall₂_congr
  intro bo hb
  rw [counts bo hb]

/-- A reference taken without a handle breaks exactness. -/
theorem not_refsExact (dev dev' : Device) (bos : dev'.bos = dev.bos) (handles : dev'.handles = dev.handles)
    (h : RefsExact dev) {bo : AneBo} (hb : bo ∈ dev.bos)
    (taken : dev.refcount bo.id < dev'.refcount bo.id) : ¬ RefsExact dev' := by
  intro kept
  have before := h bo hb
  have after := kept bo (bos ▸ hb)
  unfold Device.handleCount at before after
  rw [handles] at after
  omega

theorem refsExact_withBo (inv : Inv dev) (h : RefsExact dev) {file : FileId} {size : UInt64}
    {handle : UInt32} {bo : AneBo} {iommu : Table Nat Page}
    (made : Created dev file size handle bo iommu) : RefsExact (dev.withBo file handle bo iommu) := by
  have fresh : bo.id ∉ dev.handles.map HandleEntry.boId := by
    intro mem
    obtain ⟨e, he, same⟩ := List.mem_map.mp mem
    have old : e.bo.id < dev.nextBo := inv.bosOk.id_lt e.bo (inv.handlesOk.alive e he)
    have := made.id
    simp only [HandleEntry.boId] at same
    omega
  intro other ho
  show Function.update dev.refcount bo.id 1 other.id =
    (bo.id :: dev.handles.map HandleEntry.boId).count other.id
  obtain rfl | old := List.mem_cons.mp ho
  · simp [List.count_eq_zero_of_not_mem fresh]
  · have ne : other.id ≠ bo.id := by
      have := inv.bosOk.id_lt other old
      have := made.id
      omega
    rw [Function.update_of_ne ne, h other old, List.count_cons_of_ne ne.symm]
    rfl

theorem refsExact_withoutBo (inv : Inv dev) (h : RefsExact dev) {file : FileId} {handle : UInt32}
    {bo : AneBo} (named : dev.named file handle = some bo) :
    RefsExact (dev.withoutBo file handle bo dev.refcount) := by
  have single := inv.handlesOk.single
  intro other ho
  obtain ⟨old, ne⟩ := List.mem_filter.mp ho
  have ne : other.id ≠ bo.id := by simpa using ne
  have left := single.unique.sublist ((List.filter_sublist (p := fun e : HandleEntry =>
    decide (¬ (e.file = file ∧ e.handle = handle)))).map HandleEntry.boId)
  have counted := h other old
  simp only [Device.handleCount, single.unique.count] at counted
  simp only [Device.withoutBo, Device.handleCount, left.count, single.mem_deleted named, counted, ne,
    ne_eq, not_false_eq_true, and_true]

theorem refsExact_aneBoInit (inv : Inv dev) (h : RefsExact dev) (file : FileId) (args : DrmAneBoInit)
    (env : BoInitEnv) : RefsExact (aneBoInit dev file args env).1 := by
  generalize result : aneBoInit dev file args env = r
  obtain ⟨dev₁, err | ⟨handle, offset⟩⟩ := r
  · obtain ⟨rc, others, rfl⟩ := aneBoInit_error result
    refine (refsExact_congr dev { dev with refcount := rc } rfl rfl ?_).mpr h
    intro bo hb
    have := inv.bosOk.id_lt bo hb
    exact others bo.id (by omega)
  · obtain ⟨bo, iommu, made, rfl⟩ := aneBoInit_ok result
    exact refsExact_withBo inv h made

theorem refsExact_drmIoctl (inv : Inv dev) (bars : 0 < dev.hw.barCount) (h : RefsExact dev)
    (file : FileId) (call : Ioctl) :
    RefsExact (drmIoctl dev file call).1 ↔ ¬ KeepsReference dev file call := by
  cases call with
  | info => simp [drmIoctl, KeepsReference, h]
  | boInit args env => simp [drmIoctl, KeepsReference, refsExact_aneBoInit inv h]
  | boFree args =>
    simp only [drmIoctl, KeepsReference]
    cases named : dev.named file args.handle with
    | none => simp [aneBoFree_unnamed named, h]
    | some bo =>
      have alive := inv.handlesOk.named_mem named
      by_cases pad : args.pad = 0
      · rw [aneBoFree_ok named pad (inv.bosOk.ok bo alive).mm_node]
        simp [pad, refsExact_withoutBo inv h named]
      · rw [aneBoFree_padded named pad]
        have taken : dev.refcount bo.id < (dev.get bo).refcount bo.id := by
          rw [get_refcount, if_pos rfl]
          omega
        simp [pad, not_refsExact dev (dev.get bo) rfl rfl h alive taken]
  | submit args status =>
    simp only [drmIoctl, KeepsReference]
    obtain ⟨rc, engine, frame⟩ := aneSubmit_frame dev file args status
    by_cases rejected : submitArgsRejected args
    · simp [aneSubmit, submitValidate, rejected, h]
    · cases named : dev.named file (args.handles cmdBufBdx) with
      | none => simp [aneSubmit_unnamed bars named, h]
      | some bo =>
        have taken := aneSubmit_named bars rejected named status
        have broken := not_refsExact dev _ (by rw [frame]) (by rw [frame]) h (inv.handlesOk.named_mem named)
          taken
        simp [rejected, broken]

theorem refsExact_drmRelease (inv : Inv dev) (h : RefsExact dev) (file : FileId) (wake : Wake) :
    RefsExact (drmRelease dev file wake) := by
  obtain ⟨_, _, frame⟩ := drmRelease_frame dev file wake
  have bos : (drmRelease dev file wake).bos = dev.bos := by rw [frame]
  intro bo hb
  rw [bos] at hb
  have closed := inv.handlesOk.single.refs_closed file (dev.handles.filter fun e => e.file = file)
    (h bo hb)
  cases wake <;> exact closed

/-- One operation keeps the counts exact unless it leaves a reference behind. -/
theorem refsExact_exec (inv : Inv dev) (bars : 0 < dev.hw.barCount) (h : RefsExact dev) (op : Op) :
    RefsExact (exec dev op) ↔ ¬ LeavesReference dev op := by
  cases op with
  | openFile wake =>
    have same : RefsExact (drmOpen dev wake) := by
      cases wake with
      | ok _ => exact h
      | error err =>
        rw [drmOpen_error]
        exact h
    simp [exec, LeavesReference, same]
  | ioctl file wake call =>
    simp only [exec, LeavesReference]
    split
    · next client =>
      simp only [client, true_and]
      cases wake with
      | ok _ =>
        have awake : Inv { dev with pmUsage := dev.pmUsage + 1 } :=
          inv.change (.quiet .runtimeResume dev.refcount dev.engine (dev.pmUsage + 1))
        have step := refsExact_drmIoctl awake bars h file call
        simp only [wakeFailed, true_and]
        exact step
      | error err =>
        have step := refsExact_drmIoctl inv bars h file call
        by_cases failed : wakeFailed (.error err) = true
        · simp only [aneDrmUnlockedIoctl, pmRuntimeResumeAndGet, failed, if_true, Bool.true_eq_false,
            false_and, not_false_eq_true, iff_true]
          exact h
        · simp only [aneDrmUnlockedIoctl, pmRuntimeResumeAndGet, failed]
          simp only [true_and]
          exact step
    · next closed => simp [closed, h]
  | close file wake =>
    simp only [exec, LeavesReference, not_false_eq_true, iff_true]
    split
    · exact refsExact_drmRelease inv h file wake
    · exact h
  | runtimeResume =>
    have same : RefsExact (aneRuntimeResume dev) := h
    simp [exec, LeavesReference, same]

/-- The counts are exact throughout a history exactly when no operation of it leaves
a reference behind. -/
theorem refs_exact_iff (hw : AneHw) (bars : 0 < hw.barCount) (regs : RegFile) (ops : List Op) :
    AllStates exec RefsExact (probed hw regs) ops ↔
      AllSteps exec (fun dev op => ¬ LeavesReference dev op) (probed hw regs) ops := by
  apply allStates_iff_allSteps (I := fun dev => Inv dev ∧ dev.hw = hw)
  · intro dev op ⟨inv, same⟩
    exact ⟨inv.exec op, (exec_hw inv op).trans same⟩
  · intro dev op ⟨inv, same⟩ h
    exact refsExact_exec inv (by rw [same]; exact bars) h op
  · exact ⟨inv_probed hw regs, rfl⟩
  · intro bo hb
    cases hb

end Exact

/-- A client with one buffer that submits a job, bootstrap and microcode in that buffer. -/
def oneSubmission : List Op :=
  let handles : Nat → UInt32 := fun b => if b = 0 then 1 else 0
  oneBuffer 0x4000 ++ [.ioctl 0 (.ok ()) (.submit ⟨0x274, 1, 0x274, handles, 1, 0⟩ (.ok ()))]

theorem refs_exact_iff_oneSubmission :
    ¬ AllSteps exec (fun dev op => ¬ LeavesReference dev op) (probed aneHwH13 fun _ => 0)
      oneSubmission := by
  rw [← refs_exact_iff aneHwH13 (by decide)]
  intro states
  exact absurd states.last (by decide)

/-- Three references, one handle. -/
theorem not_refsExact_oneSubmission :
    ¬ ∀ ops, AllStates exec RefsExact (probed aneHwH13 fun _ => 0) ops := by
  intro states
  exact absurd (states oneSubmission).last (by decide)

end Ane.Driver
