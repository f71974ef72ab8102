import Ane.BufferCalls
import Ane.LibaneCalls

/-! A client of libane and the device it works on. The two are put together at the ioctls: in a
history of the device that serves the calls the library makes, with whatever other clients do
in between, the buffers that the library believes it has are the ones the driver holds for it. -/
namespace Ane.Session
open Driver HandleTable Libane Runs TaskManager

section Buffers
variable {dev : Device} {file : FileId}

/-- As long as its file is open a client has one handle for each of its buffers. -/
theorem countP_bos (inv : Inv dev) (client : file ∈ dev.files) :
    dev.bos.countP (·.creator = file) = (bufferTable file dev).length := by
  have perm : ((dev.handles.filter (·.file = file)).map HandleEntry.bo).Perm
      (dev.bos.filter (·.creator = file)) := by
    apply (List.perm_ext_iff_of_nodup ?_ ?_).mpr
    · intro bo
      simp only [List.mem_map, List.mem_filter, decide_eq_true_eq]
      constructor
      · rintro ⟨e, ⟨mem, rfl⟩, rfl⟩
        exact ⟨inv.handlesOk.alive e mem, inv.handlesOk.creator e mem⟩
      · rintro ⟨mem, rfl⟩
        obtain ⟨e, handle, rfl⟩ := inv.handlesOk.owned bo mem client
        exact ⟨e, ⟨handle, (inv.handlesOk.creator e handle).symm⟩, rfl⟩
    · have ids := inv.handlesOk.unique.sublist
        ((List.filter_sublist (p := fun e => decide (e.file = file))).map HandleEntry.boId)
      refine List.Nodup.of_map AneBo.id ?_
      rwa [List.map_map]
    · exact (List.Nodup.of_map _ inv.bosOk.ids).filter _
  rw [List.countP_eq_length_filter, ← perm.length_eq, bufferTable, List.length_map, List.length_map]

/-- A file that was just opened has no handles. -/
theorem bufferTable_opened (inv : Inv dev) :
    bufferTable dev.nextFile (exec dev (.openFile (.ok ()))) = [] := by
  simp only [bufferTable, List.map_eq_nil_iff, List.filter_eq_nil_iff, decide_eq_true_eq]
  intro e mem
  exact Nat.ne_of_lt (inv.handlesOk.files_lt e.file (inv.handlesOk.client e mem))

/-- Closing a file takes handles, never buffers. -/
theorem exec_close_bos (dev : Device) (file : FileId) (wake : Wake) :
    (exec dev (.close file wake)).bos = dev.bos := by
  obtain ⟨rc, pm, closed⟩ := drmRelease_frame dev file wake
  simp only [exec]
  split
  · rw [closed]
  · rfl

end Buffers

section Leaving
variable {env : Libane.Env}

/-- The client's file is opened, the device serves what the library calls while it makes and
frees its network, others work on it as well, and the file is closed. However it went, the
device is left with one buffer of the client for each free that it did not serve. -/
theorem session_leaves (hw : AneHw) (regs : RegFile) (before during : List Op) (wake : Wake)
    (allocs : ∀ n, env.hwx.alloc n = true) (path : Option String) (devId : Int) (base : World) :
    let dev := run exec (probed hw regs) before
    let opened := exec dev (.openFile (.ok ()))
    (∀ op ∈ during, KeepsOpen dev.nextFile op) →
    observed exec (bufferCalls dev.nextFile) opened during = sessionCalls env path devId base →
    (run exec opened (during ++ [.close dev.nextFile wake])).bos.countP
        (·.creator = dev.nextFile) = (sessionCalls env path devId base).countP (¬ ·.Served) := by
  intro dev opened stays seen
  have inv : Inv dev := inv_run hw regs before
  have client : dev.nextFile ∈ opened.files := List.mem_cons_self
  have none : bufferTable dev.nextFile opened = [] := bufferTable_opened inv
  have inv' : Inv opened := inv.exec _
  obtain ⟨⟨last, still⟩, table, fresh⟩ := run_replays inv' client stays
  rw [none, seen] at table fresh
  have accounts := sessionCalls_accounts allocs path devId base ⟨List.nodup_nil, fresh⟩
  rw [run_append, run_cons, run_nil, exec_close_bos, countP_bos last still, table]
  exact accounts.length_eq

/-- Another client has a buffer, and makes one more while the first is served; then the device
cannot be woken up for the free. -/
def interleaved : List Op × List Op :=
  ([.openFile (.ok ()), .ioctl 0 (.ok ()) (.boInit ⟨0, 1⟩ (.served 0x4000 [7] 1))],
    [.ioctl 1 (.ok ()) (.boInit ⟨0, 0x4000⟩ (.served 0x8000 [8] 1)),
      .ioctl 0 (.ok ()) (.boInit ⟨0, 1⟩ (.served 0xC000 [9] 2)), .ioctl 0 (.ok ()) (.boFree ⟨1, 0⟩),
      .ioctl 1 (.error (.other 110)) (.boFree ⟨1, 0⟩)])

theorem session_leaves_interleaved :
    (run exec (exec (run exec (probed aneHwH13 fun _ => 0) interleaved.1) (.openFile (.ok ())))
      (interleaved.2 ++ [.close 1 (.ok ())])).bos.countP (·.creator = 1) = 1 := by
  have stays : ∀ op ∈ interleaved.2, KeepsOpen 1 op := by
    intro op mem wake
    simp only [interleaved, List.mem_cons, List.not_mem_nil, or_false] at mem
    rintro rfl
    simp at mem
  have calls : sessionCalls fewNodes (some "a.hwx") 1 .idle = [.make 0x4000 (some 1), .free 1 false] := by
    decide +kernel
  have left := session_leaves aneHwH13 (fun _ => 0) interleaved.1 interleaved.2 (.ok ())
    (fun _ => rfl : ∀ n, fewNodes.hwx.alloc n = true) (some "a.hwx") 1 .idle stays
    (by rw [calls]; decide +kernel)
  rw [calls] at left
  exact left

end Leaving

section Channels
variable {env : Libane.Env} {place : Place} {nn nn' : AneNn} {w w' : World} {status : Libane.Status}

/-- The entries of a network have buffers of the client on the device: each a buffer of its own
that covers it, with all of its pages mapped for the engine and out of reach of the others. -/
structure Supplied (dev : Device) (file : FileId) (nn : AneNn) : Prop where
  buffers : ∀ e ∈ nn.collect Libane.AneBo.pairs, ∃ bo, dev.named file e.1 = some bo ∧
    Backed dev file bo ∧ bo.requested = e.2 ∧ e.2.toNat ≤ bo.npages.toNat * 2 ^ 14
  distinct : (keys (nn.collect Libane.AneBo.pairs)).Nodup
  apart : ∀ handle handle' bo bo', dev.named file handle = some bo → dev.named file handle' = some bo' →
    handle ≠ handle' → bo.id ≠ bo'.id

theorem named_of_mem {dev : Device} (inv : Inv dev) {file : FileId} {handle : UInt32} {size : UInt64}
    (mem : (handle, size) ∈ bufferTable file dev) :
    ∃ bo, dev.named file handle = some bo ∧ bo.requested = size := by
  obtain ⟨e, mine, same⟩ := List.mem_map.mp mem
  obtain ⟨held, client⟩ := List.mem_filter.mp mine
  cases same
  cases named : dev.named file e.handle with
  | none => exact absurd (And.intro (of_decide_eq_true client) rfl) (named_eq_none named e held)
  | some bo =>
    obtain ⟨other, held', file', handle', rfl⟩ := named_eq_some named
    have key : other.key = e.key := Prod.ext (file'.trans (of_decide_eq_true client).symm) handle'
    obtain rfl := List.inj_on_of_nodup_map inv.handlesOk.keys held' held key
    exact ⟨other.bo, rfl, rfl⟩

/-- Two handles of a client name two buffers. -/
theorem named_ne {dev : Device} (inv : Inv dev) {file : FileId} {handle handle' : UInt32}
    {bo bo' : Driver.AneBo} (named : dev.named file handle = some bo)
    (named' : dev.named file handle' = some bo') (ne : handle ≠ handle') : bo.id ≠ bo'.id := by
  obtain ⟨e, held, -, rfl, rfl⟩ := named_eq_some named
  obtain ⟨e', held', -, rfl, rfl⟩ := named_eq_some named'
  intro same
  exact ne (congrArg HandleEntry.handle (List.inj_on_of_nodup_map inv.handlesOk.unique held held' same))

theorem supplied_of_tracks {dev : Device} (inv : Inv dev) {file : FileId}
    {t : Table UInt32 UInt64} {cs : List BufferCall} (tracks : Tracks place t cs nn w)
    (table : bufferTable file dev = run replay t cs) : Supplied dev file nn := by
  obtain ⟨lost, -, perm⟩ := tracks.tally.accounts
  rw [← table] at perm
  refine ⟨?_, ?_, fun _ _ _ _ named named' ne => named_ne inv named named' ne⟩
  · rintro ⟨handle, size⟩ mem
    obtain ⟨bo, named, requested⟩ :=
      named_of_mem inv (perm.symm.subset (List.mem_append_left _ mem))
    have backed := inv.backed named
    have covers := (inv.bosOk.ok bo backed.alive).covers
    exact ⟨bo, named, backed, requested, requested ▸ covers⟩
  · have nodup := inv.handlesOk.bufferTable file
    have all := (perm.map Prod.fst).nodup_iff.mp nodup
    rw [List.map_append] at all
    exact (List.nodup_append.mp all).1

/-- A network object without buffers is given its channels while the device serves the calls.
Then the handles of the node are those the driver holds for the file, every entry has its
buffer on the device, and if `aneChanInit` succeeds, there is an entry for every tile used and
for the tasks. -/
theorem channels_supplied (hw : AneHw) (regs : RegFile) (before during : List Op) (file : FileId)
    (stays : ∀ op ∈ during, KeepsOpen file op) (fd : nn.fd = place.fd) (empty : nn.Empty)
    (made : aneChanInit env nn w = (status, nn', w')) :
    let dev := run exec (probed hw regs) before
    let dev' := run exec dev during
    file ∈ dev.files →
    w.devices = place.devices (keys (bufferTable file dev)) →
    observed exec (bufferCalls file) dev during = aneChanInitCalls env nn w →
    w'.devices = place.devices (keys (bufferTable file dev')) ∧ Supplied dev' file nn' ∧
      (status = .ok () → nn.Complete nn') := by
  intro dev dev' client devices seen
  have inv : Inv dev := inv_run hw regs before
  obtain ⟨⟨last, -⟩, table, fresh⟩ := run_replays inv client stays
  rw [seen] at table fresh
  have start : Tracks place (bufferTable file dev) [] nn w := .start fd empty devices
  have tracks := aneChanInit_tracks start empty ⟨inv.handlesOk.bufferTable file, fresh⟩ made
  rw [List.nil_append] at tracks
  refine ⟨?_, supplied_of_tracks last tracks table, ?_⟩
  · rw [tracks.tally.devices, table]
  · rintro rfl
    exact aneChanInit_complete made

/-- The first buffer asked for gets handle 1, the others handle 2. -/
def twoHandles : Libane.Env :=
  { serving with
    boInit := fun n => some (if n = 0 then 1 else 2, 0)
    boInit_ne := by
      intro n handle offset made
      cases made
      split <;> decide }

/-- One tile is used, and there are tasks of two words. -/
def tileAndTasks : AneNn := { oneTile with model := { oneTile.model with tdSize := 8 } }

/-- The client's two buffers, with one of another client made between them. -/
def twoChannels : List Op × List Op :=
  ([.openFile (.ok ()), .openFile (.ok ())],
    [.ioctl 0 (.ok ()) (.boInit ⟨0, 0x4000⟩ (.served 0x4000 [7] 1)),
      .ioctl 1 (.ok ()) (.boInit ⟨0, 1⟩ (.served 0xC000 [9] 2)),
      .ioctl 0 (.ok ()) (.boInit ⟨0, 0x4000⟩ (.served 0x8000 [8] 2))])

theorem channels_supplied_twoChannels :
    ∃ nn w, aneChanInit twoHandles tileAndTasks .oneDevice = (.ok (), nn, w) ∧
      Supplied (run exec (run exec (probed aneHwH13 fun _ => 0) twoChannels.1) twoChannels.2) 0 nn ∧
        (nn.chans 4).Made 0x4000 ∧ nn.btspChan.Made 0x4000 := by
  have stays : ∀ op ∈ twoChannels.2, KeepsOpen 0 op := by
    intro op mem wake
    simp only [twoChannels, List.mem_cons, List.not_mem_nil, or_false] at mem
    rintro rfl
    simp at mem
  have done : (aneChanInit twoHandles tileAndTasks .oneDevice).1 = .ok () := by decide +kernel
  generalize made : aneChanInit twoHandles tileAndTasks .oneDevice = r at done
  obtain ⟨status, nn, w⟩ := r
  simp only at done
  subst done
  have empty : tileAndTasks.Empty := ⟨⟨rfl, rfl⟩, fun _ _ => ⟨rfl, rfl⟩⟩
  have fd : tileAndTasks.fd = (front 3 0 []).fd := rfl
  obtain ⟨-, supplied, complete⟩ := channels_supplied aneHwH13 (fun _ => 0) twoChannels.1
    twoChannels.2 0 stays fd empty made (by decide +kernel) rfl (by decide +kernel)
  refine ⟨nn, w, rfl, supplied, ?_, ?_⟩
  · exact (complete rfl).tiles 4 (by decide) (by decide)
  · exact (complete rfl).btspChan

end Channels

end Ane.Session
