import Ane.Hwx

/-! `hwxPreadExact` under every schedule of interruptions, errors and short reads. The
invariant of its loop is that the buffer starts with the bytes transferred so far. -/
namespace Ane.Hwx
open Memory Posix

theorem hwxWithinFile_iff {fileSize offset length : UInt64} :
    hwxWithinFile fileSize offset length = true ↔
      offset.toNat + length.toNat ≤ fileSize.toNat := by
  simp only [hwxWithinFile, gt_iff_lt, UInt64.lt_iff_toNat_lt]
  by_cases below : fileSize.toNat < offset.toNat
  · simp only [if_pos below, Bool.false_eq_true, false_iff]
    omega
  · have diff : (fileSize - offset).toNat = fileSize.toNat - offset.toNat := by
      apply UInt64.toNat_sub_of_le
      rw [UInt64.le_iff_toNat_le]
      omega
    simp only [if_neg below, diff]
    split <;> simp <;> omega

variable {env : Env} {size total : Nat} {offset : UInt64} {dst₀ dst : Mem} {p : Process}

/-- The first `total` bytes of `dst` are the file's from `offset` on, the others those of
`dst₀`. -/
structure Filled (env : Env) (offset : UInt64) (dst₀ : Mem) (total : Nat) (dst : Mem) : Prop where
  inside : 0 < total → offset.toNat + total ≤ env.content.length
  bytes : SameBytes total dst 0 (ofList env.content) offset.toNat
  rest : ∀ i, total ≤ i → dst i = dst₀ i

theorem Filled.start : Filled env offset dst 0 dst where
  inside h := absurd h (Nat.lt_irrefl 0)
  bytes i hi := absurd hi (Nat.not_lt_zero i)
  rest _ _ := rfl

/-- The next position to read from does not wrap. -/
theorem Filled.position (filled : Filled env offset dst₀ total dst) :
    (offset + UInt64.ofNat total).toNat = offset.toNat + total := by
  have bound := env.content_lt
  have wide := offset.toNat_lt
  by_cases pos : 0 < total
  · have inside := filled.inside pos
    have small : (UInt64.ofNat total).toNat = total := by
      apply UInt64.toNat_ofNat_of_lt'
      simp only [UInt64.size]
      omega
    rw [UInt64.toNat_add, small, Nat.mod_eq_of_lt]
    omega
  · have zero : total = 0 := by omega
    simp [zero]

theorem Filled.step (filled : Filled env offset dst₀ total dst) {count : Nat} {bytes : List UInt8}
    {p' : Process} (h : pread env count (offset + UInt64.ofNat total) p = (.ok bytes, p'))
    (some : bytes ≠ []) :
    bytes.length ≤ count ∧
      Filled env offset dst₀ (total + bytes.length) (store dst total bytes) := by
  obtain ⟨k, taken⟩ := pread_ok h
  rw [filled.position] at taken
  have length : bytes.length = min (min (k + 1) count) (env.content.length - (offset.toNat + total)) := by
    simp [taken]
  have pos : 0 < bytes.length := List.length_pos_of_ne_nil some
  refine ⟨by omega, ⟨fun _ => by omega, ?_, ?_⟩⟩
  · intro i hi
    rw [Nat.zero_add]
    by_cases old : i < total
    · rw [store_outside (Or.inl old)]
      simpa using filled.bytes i old
    · obtain ⟨j, rfl⟩ : ∃ j, i = total + j := ⟨i - total, by omega⟩
      have hj : j < bytes.length := by omega
      rw [store_inside hj]
      have inTake : j < min (k + 1) count := by omega
      simp [taken, ofList, inTake, Nat.add_assoc]
  · intro i hi
    rw [store_outside (Or.inr hi)]
    apply filled.rest
    omega

/-- Whatever happens, the buffer starts with bytes of the file; with all of them when the
loop succeeds. -/
theorem preadLoop_filled (fuel : Nat) (filled : Filled env offset dst₀ total dst)
    (le : total ≤ size) :
    ∃ n ≤ size, Filled env offset dst₀ n (preadLoop env size offset fuel total dst p).dst ∧
      ((preadLoop env size offset fuel total dst p).ok = true → n = size) := by
  induction fuel generalizing total dst p with
  | zero => exact ⟨total, le, filled, by simp [preadLoop]⟩
  | succ fuel ih =>
    unfold preadLoop
    by_cases more : total < size
    · rw [if_pos more]
      split
      · split
        · exact ih filled le
        · exact ⟨total, le, filled, by simp⟩
      · rename_i bytes p' answer
        split
        · exact ⟨total, le, filled, by simp⟩
        · rename_i nonempty
          have next := filled.step answer (by simpa using nonempty)
          exact ih next.2 (by omega)
    · rw [if_neg more]
      exact ⟨total, le, filled, fun _ => by omega⟩

/-- The fuel is not used up when a file that reads has the bytes. -/
theorem preadLoop_ok (reads : env.Reads) (inside : offset.toNat + size ≤ env.content.length)
    {fuel : Nat} (filled : Filled env offset dst₀ total dst) (le : total ≤ size)
    (enough : size - total + (env.lastEintr - p.preads) < fuel) :
    (preadLoop env size offset fuel total dst p).ok = true := by
  induction fuel generalizing total dst p with
  | zero => omega
  | succ fuel ih =>
    unfold preadLoop
    by_cases more : total < size
    · rw [if_pos more]
      have position := filled.position
      have fits : (offset + UInt64.ofNat total).toNat + (size - total) ≤ env.content.length := by
        omega
      have pos : 0 < size - total := by omega
      rcases reads.pread_turn p fits pos with ⟨early, answer⟩ | ⟨bytes, nonempty, answer⟩
      · simp only [answer, if_true]
        apply ih filled le
        simp only
        omega
      · have next := filled.step answer nonempty
        have pos := List.length_pos_of_ne_nil nonempty
        have notZero : ¬ bytes.length = 0 := by omega
        simp only [answer, if_neg notZero]
        apply ih next.2 (by omega)
        simp only
        omega
    · rw [if_neg more]

/-- Beyond what the loop needs, the fuel does not matter. -/
theorem preadLoop_fuel {fuel fuel' : Nat}
    (enough : size - total + (env.lastEintr - p.preads) < fuel)
    (enough' : size - total + (env.lastEintr - p.preads) < fuel') :
    preadLoop env size offset fuel total dst p = preadLoop env size offset fuel' total dst p := by
  induction fuel generalizing fuel' total dst p with
  | zero => omega
  | succ fuel ih =>
    cases fuel' with
    | zero => omega
    | succ fuel' =>
      unfold preadLoop
      split
      · obtain ⟨e, after⟩ := pread_proc env (size - total)
          (offset + UInt64.ofNat total) p
        split
        · rename_i answer
          simp only [answer] at after
          split
          · rename_i eintr
            rw [eintr] at answer
            have early := pread_eintr answer
            subst after
            apply ih <;> simp only <;> omega
          · rfl
        · rename_i answer
          simp only [answer] at after
          subst after
          split
          · rfl
          · apply ih <;> simp only <;> omega
      · rfl

/-- Whether the loop succeeds does not depend on what the buffer held. -/
theorem preadLoop_ok_eq (dst dst' : Mem) (fuel : Nat) :
    (preadLoop env size offset fuel total dst p).ok =
      (preadLoop env size offset fuel total dst' p).ok := by
  induction fuel generalizing total dst dst' p with
  | zero => rfl
  | succ fuel ih =>
    unfold preadLoop
    split
    · split
      · split
        · exact ih dst dst'
        · rfl
      · split
        · rfl
        · exact ih _ _
    · rfl

/-- The loop touches nothing of the process but `errno` and the count of calls. -/
theorem preadLoop_proc (fuel : Nat) :
    ∃ e k, (preadLoop env size offset fuel total dst p).proc =
      { p with errno := e, preads := k } := by
  induction fuel generalizing total dst p with
  | zero => exact ⟨p.errno, p.preads, rfl⟩
  | succ fuel ih =>
    obtain ⟨e, after⟩ := pread_proc env (size - total)
      (offset + UInt64.ofNat total) p
    unfold preadLoop
    split
    · split
      · rename_i answer
        simp only [answer] at after
        subst after
        split
        · exact ih
        · exact ⟨_, _, rfl⟩
      · rename_i answer
        simp only [answer] at after
        subst after
        split
        · exact ⟨_, _, rfl⟩
        · exact ih
    · exact ⟨p.errno, p.preads, rfl⟩

theorem hwxPreadExact_filled (env : Env) (dst : Mem) (size : Nat) (offset : UInt64)
    (p : Process) : ∃ n ≤ size,
    Filled env offset dst n (hwxPreadExact env dst size offset p).dst ∧
      ((hwxPreadExact env dst size offset p).ok = true → n = size) :=
  preadLoop_filled _ .start (Nat.zero_le size)

theorem hwxPreadExact_bytes (ok : (hwxPreadExact env dst size offset p).ok = true) :
    Filled env offset dst size (hwxPreadExact env dst size offset p).dst := by
  obtain ⟨n, -, filled, all⟩ := hwxPreadExact_filled env dst size offset p
  rwa [all ok] at filled

theorem hwxPreadExact_ok (reads : env.Reads) (inside : offset.toNat + size ≤ env.content.length) :
    (hwxPreadExact env dst size offset p).ok = true := by
  have empty : Filled env offset dst 0 dst := .start
  exact preadLoop_ok reads inside empty (Nat.zero_le size) (by omega)

theorem hwxPreadExact_proc (env : Env) (dst : Mem) (size : Nat) (offset : UInt64) (p : Process) :
    ∃ e k,
      (hwxPreadExact env dst size offset p).proc = { p with errno := e, preads := k } :=
  preadLoop_proc _

end Ane.Hwx
