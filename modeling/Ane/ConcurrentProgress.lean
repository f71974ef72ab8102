import Ane.ConcurrentEngine

/-! No interleaving blocks an ioctl. The engine lock is the only thing a thread waits for, and
the thread that has it never waits. -/
namespace Ane.Concurrent
open PageTable RangeAllocator Runs TaskManager Driver

/-- The steps a thread has left when it never waits and nothing goes wrong earlier. -/
def Thread.left (bars : Nat) : Thread → Nat
  | .idle => 0
  | .freeing .. => 4
  | .unmapping .. => 3
  | .releasing .. => 2
  | .kfreeing .. => 1
  | .publishing .. => 4
  | .looking _ bdx => bars - bdx + 5
  | .locking .. => 4
  | .enqueuing .. => 3
  | .pushing .. => 2
  | .polling .. => 1

section Progress
variable {m : Machine} {t : ThreadId}

theorem stepThread_hw (m : Machine) (t : ThreadId) (status : Status) :
    (stepThread m t status).dev.hw = m.dev.hw := by
  by_cases other : sectionOp m (.step t status) = .other
  · exact (away_stepThread other).hw
  · cases at_ : m.threads t with
    | locking job btsp =>
      simp only [stepThread, at_]
      split <;> rfl
    | enqueuing job btsp => simp only [stepThread, at_, become_dev]
    | pushing job btsp => simp only [stepThread, at_, become_dev]
    | polling job btsp => simp only [stepThread, at_, observe, become_dev]
    | _ => exact absurd (by simp only [sectionOp, at_]) other

theorem exec_hw (m : Machine) (op : ThreadOp) : (exec m op).dev.hw = m.dev.hw := by
  cases op with
  | boFree t file args => exact (away_boFree t file args).hw
  | boInit t file args env => exact (away_boInit t file args env).hw
  | submit t file args => exact (away_submit t file args).hw
  | step t status => exact stepThread_hw m t status

theorem run_threads_hw {hw : AneHw} (start : m.dev.hw = hw) (ops : List ThreadOp) :
    (run exec m ops).dev.hw = hw :=
  run_invariant (I := fun m => m.dev.hw = hw) (fun m op same => (exec_hw m op).trans same) start ops

theorem lookOne_left {job : Job} {bdx bars : Nat} (count : bars = m.dev.hw.barCount) :
    ((lookOne m t job bdx).threads t).left bars < bars - bdx + 5 := by
  unfold lookOne
  split
  · have next : bars - (bdx + 1) < bars - bdx := by omega
    split
    · split
      · rw [become_self]
        exact Nat.succ_pos _
      · dsimp only
        split
        · rw [become_self]
          exact Nat.succ_pos _
        · rw [become_self]
          exact Nat.add_lt_add_right next 5
    · rw [become_self]
      exact Nat.add_lt_add_right next 5
  · split
    · rw [become_self]
      exact Nat.succ_pos _
    · dsimp only
      split
      · rw [become_self]
        exact Nat.succ_pos _
      · rw [become_self]
        exact Nat.lt_add_left _ (by decide : 4 < 5)

/-- A thread that does not wait for the lock comes nearer to its end with each step. -/
theorem stepThread_left (status : Status) {bars : Nat} (count : bars = m.dev.hw.barCount)
    (active : m.threads t ≠ .idle) (free : m.engineLock = none ∨ (m.threads t).locked ≠ none) :
    ((stepThread m t status).threads t).left bars < (m.threads t).left bars := by
  cases at_ : m.threads t with
  | idle => exact absurd at_ active
  | publishing file bo pick =>
    simp only [stepThread, at_]
    split
    · rw [become_self]
      exact (by decide : 3 < 4)
    · rw [become_self]
      exact (by decide : 0 < 4)
  | looking job bdx =>
    simp only [stepThread, at_]
    exact lookOne_left count
  | locking job btsp =>
    rw [at_] at free
    have unlocked := free.resolve_right (fun inside => inside rfl)
    simp only [stepThread, at_, unlocked, if_true, become_self, Thread.left]
    decide
  | polling job btsp =>
    simp only [stepThread, at_, observe, become_self, Thread.left]
    decide
  | _ =>
    simp only [stepThread, at_, become_self, Thread.left]
    decide

theorem lookOne_other {job : Job} {bdx : Nat} {u : ThreadId} (ne : u ≠ t) :
    (lookOne m t job bdx).threads u = m.threads u := by
  unfold lookOne
  split
  · split
    · split
      · exact become_other _ ne _
      · dsimp only
        split
        · exact become_other _ ne _
        · exact become_other _ ne _
    · exact become_other _ ne _
  · split
    · exact become_other _ ne _
    · dsimp only
      split
      · exact become_other _ ne _
      · exact become_other _ ne _

theorem stepThread_other (status : Status) {u : ThreadId} (ne : u ≠ t) :
    (stepThread m t status).threads u = m.threads u := by
  unfold stepThread
  split
  · rfl
  · dsimp only
    cases m.dev.named _ _ <;> exact become_other _ ne _
  · exact become_other _ ne _
  · exact become_other _ ne _
  · exact become_other _ ne _
  · split <;> exact become_other _ ne _
  · exact lookOne_other ne
  · split
    · exact become_other _ ne _
    · rfl
  · exact become_other _ ne _
  · exact become_other _ ne _
  · exact become_other _ ne _

/-- Only the lock of a thread itself can come between it and its end. -/
theorem stepThread_lock (status : Status) (ok : LockOk m)
    (mine : m.engineLock = none ∨ m.engineLock = some t) :
    (stepThread m t status).engineLock = none ∨ (stepThread m t status).engineLock = some t := by
  cases lock : (stepThread m t status).engineLock with
  | none => exact .inl rfl
  | some u =>
    right
    by_contra other
    have ne : u ≠ t := fun same => other (by rw [same])
    have inside := (ok.exec (.step t status)).held u lock
    have before : (m.threads u).locked ≠ none := by
      rw [← stepThread_other status ne]
      exact inside
    have held := ok.owner u before
    rw [held] at mine
    simp [ne] at mine

theorem steps_end (status : Status) {bars n : Nat} (ok : LockOk m) (count : bars = m.dev.hw.barCount)
    (mine : m.engineLock = none ∨ m.engineLock = some t) (enough : (m.threads t).left bars ≤ n) :
    (steps m t status n).threads t = .idle := by
  by_cases active : m.threads t = .idle
  · rw [steps_idle active]
    exact active
  induction n generalizing m with
  | zero =>
    have none_left : (m.threads t).left bars = 0 := Nat.le_zero.mp enough
    cases at_ : m.threads t <;> simp_all [Thread.left]
  | succ n ih =>
    have free : m.engineLock = none ∨ (m.threads t).locked ≠ none := mine.imp id (ok.held t)
    have nearer := stepThread_left status count active free
    rw [steps_succ]
    by_cases ended : (stepThread m t status).threads t = .idle
    · rw [steps_idle ended]
      exact ended
    · refine ih (ok.exec (.step t status)) ?_ (stepThread_lock status ok mine) (by omega) ended
      rw [stepThread_hw]
      exact count

theorem steps_lock (status : Status) (ok : LockOk m)
    (mine : m.engineLock = none ∨ m.engineLock = some t) (n : Nat) :
    (steps m t status n).engineLock = none ∨ (steps m t status n).engineLock = some t := by
  induction n generalizing m with
  | zero => exact mine
  | succ n ih => exact ih (ok.exec (.step t status)) (stepThread_lock status ok mine)

theorem steps_other (status : Status) {u : ThreadId} (ne : u ≠ t) (n : Nat) :
    (steps m t status n).threads u = m.threads u := by
  induction n generalizing m with
  | zero => rfl
  | succ n ih => rw [steps_succ, ih, stepThread_other status ne]

theorem steps_hw (status : Status) (n : Nat) : (steps m t status n).dev.hw = m.dev.hw := by
  induction n generalizing m with
  | zero => rfl
  | succ n ih => rw [steps_succ, ih, stepThread_hw]

theorem left_le (bars : Nat) (th : Thread) : th.left bars ≤ bars + 5 := by
  cases th <;> simp only [Thread.left] <;> omega

/-- A thread at the engine is through in three steps, and then the lock is free. -/
theorem holder_leaves (status : Status) (ok : LockOk m) (held : m.engineLock = some t) :
    (steps m t status 3).engineLock = none := by
  have inside := ok.held t held
  have short : (m.threads t).left m.dev.hw.barCount ≤ 3 := by
    cases at_ : m.threads t <;> simp_all [Thread.left, Thread.locked]
  have ended := steps_end status ok rfl (.inr held) short
  obtain free | still := steps_lock status ok (.inr held) 3
  · exact free
  · have kept : LockOk (steps m t status 3) := ok.run _
    have inside := kept.held t still
    rw [ended] at inside
    exact absurd rfl inside

end Progress

/-- No interleaving blocks an ioctl for good: from every state reached, three steps of the thread
that has the engine, if that is another, and then 37 of its own end it. -/
theorem ioctl_ends (regs : RegFile) (history : List Op) (ops : List ThreadOp) (t : ThreadId)
    (status : Status) :
    let m := run exec (quiet (run Driver.exec (probed aneHwH13 regs) history)) ops
    ∃ first, ((m.engineLock = none ∨ m.engineLock = some t) ∧ first = [] ∨
        ∃ u ≠ t, m.engineLock = some u ∧ first = List.replicate 3 (.step u status)) ∧
      (run exec m (first ++ List.replicate 37 (.step t status))).threads t = .idle := by
  intro m
  have ok : LockOk m := (lockOk_quiet _).run ops
  have bars : m.dev.hw.barCount = 0x20 := by
    have hw : m.dev.hw = aneHwH13 := run_threads_hw (run_hw aneHwH13 regs history) ops
    rw [hw]
    rfl
  have enough : (m.threads t).left 0x20 ≤ 37 := left_le 0x20 _
  by_cases mine : m.engineLock = none ∨ m.engineLock = some t
  · exact ⟨[], .inl ⟨mine, rfl⟩, steps_end status ok bars.symm mine enough⟩
  · obtain ⟨free, other⟩ := not_or.mp mine
    obtain ⟨u, held⟩ := Option.ne_none_iff_exists'.mp free
    have ne : t ≠ u := fun same => other (by rw [held, same])
    have unlocked := holder_leaves status ok held
    refine ⟨List.replicate 3 (.step u status), .inr ⟨u, ne.symm, held, rfl⟩, ?_⟩
    rw [run_append]
    have kept : LockOk (steps m u status 3) := ok.run _
    have count : 0x20 = (steps m u status 3).dev.hw.barCount := by rw [steps_hw, bars]
    have same := steps_other (m := m) status ne 3
    rw [← same] at enough
    exact steps_end status kept count (.inl unlocked) enough

end Ane.Concurrent
