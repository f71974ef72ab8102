import Ane.HwxOpen
import Ane.HwxLedger

/-! Decoding a thread command loses nothing. Written out again, its states give the bytes of
the command back, up to a tail too short for another state. The induction is along the
states of the command: where the next one starts and what is left for it follow from the
bytes written so far. -/
namespace Ane.Hwx
open Memory Posix Process

variable {c : Mem} {off n left remaining : Nat} {s : HwxThreadState}
  {states pre post : List HwxThreadState}

/-- The bytes of a state: flavor, count and the `byteSize` bytes of its payload. -/
def HwxThreadState.written (s : HwxThreadState) : List UInt8 :=
  toBytes 4 s.flavor.toNat ++ toBytes 4 s.count.toNat ++ s.data.elems.take s.byteSize.toNat

theorem ThreadStateDecoded.written (decoded : ThreadStateDecoded c off remaining s) :
    s.written = slice c off (8 + s.byteSize.toNat) := by
  have payload : s.data.elems.take s.byteSize.toNat = slice c (off + 8) s.byteSize.toNat := by
    rw [decoded.data]
    exact List.take_of_length_le (Nat.le_of_eq slice_length)
  rw [HwxThreadState.written, decoded.flavor, decoded.count, toBytes_u32, toBytes_u32, payload,
    ← slice_append, ← slice_append]

theorem ThreadStateDecoded.written_length (decoded : ThreadStateDecoded c off remaining s) :
    s.written.length = 8 + s.byteSize.toNat := by
  rw [decoded.written, slice_length]

theorem ThreadStateDecoded.fits (decoded : ThreadStateDecoded c off remaining s) :
    s.byteSize.toNat ≤ remaining - 8 := by
  rw [decoded.byteSize]
  exact Nat.min_le_right _ _

theorem ThreadStates.written (decoded : ThreadStates c off remaining states) :
    ∃ tail, tail.length < 8 ∧
      states.flatMap HwxThreadState.written ++ tail = slice c off remaining := by
  induction decoded with
  | @done off remaining short => exact ⟨slice c off remaining, by rwa [slice_length], rfl⟩
  | @next off remaining s rest header state _ ih =>
    obtain ⟨tail, short, same⟩ := ih
    have fits := state.fits
    refine ⟨tail, short, ?_⟩
    calc (s :: rest).flatMap HwxThreadState.written ++ tail
        = s.written ++ (rest.flatMap HwxThreadState.written ++ tail) := by
          rw [List.flatMap_cons, List.append_assoc]
      _ = slice c off (8 + s.byteSize.toNat + (remaining - 8 - s.byteSize.toNat)) := by
          rw [same, state.written, slice_append c off (8 + _), Nat.add_assoc off]
      _ = slice c off remaining := by
          congr 1
          omega

/-- A state with another one after it is whole. -/
theorem ThreadStates.byteSize (decoded : ThreadStates c off remaining (pre ++ s :: post)) :
    s.byteSize.toNat = min (4 * s.count.toNat)
        (remaining - ((pre.flatMap HwxThreadState.written).length + 8)) ∧
      (post ≠ [] → s.byteSize.toNat = 4 * s.count.toNat) := by
  induction pre generalizing off remaining with
  | nil =>
    cases decoded with
    | next header state states =>
      have size := state.byteSize
      rw [← state.count] at size
      refine ⟨size, fun more => ?_⟩
      cases states with
      | done => exact absurd rfl more
      | next header' _ _ => omega
  | cons first pre ih =>
    cases decoded with
    | next header state states =>
      obtain ⟨size, whole⟩ := ih states
      refine ⟨?_, whole⟩
      rw [size, List.flatMap_cons, List.length_append, state.written_length]
      omega

/-- Every command of a walk lies in its bytes. -/
theorem Walk.inside {offs : List Nat} (walk : Walk c off n left offs) :
    ∀ o ∈ offs, 8 ≤ cmdsizeAt c o ∧ o + cmdsizeAt c o ≤ off + left := by
  induction walk with
  | done => simp
  | next header fits _ ih =>
    simp only [List.forall_mem_cons]
    refine ⟨by omega, fun o mem => ?_⟩
    have later := ih o mem
    omega

/-- The small container with a thread command after its segment: a state with a payload of
4 bytes, one without, and 5 bytes more. -/
def threadContainer : List UInt8 :=
  [0xCE, 0xFA, 0xEF, 0xBE] ++ List.replicate 12 0 ++ [2, 0, 0, 0, 9, 1, 0, 0] ++
    smallContainer.drop 24 ++ [4, 0, 0, 0, 33, 0, 0, 0] ++ [4, 0, 0, 0, 1, 0, 0, 0, 10, 20, 30, 40] ++
      [1, 0, 0, 0, 0, 0, 0, 0] ++ [1, 2, 3, 4, 5]

theorem threadContainer_lt : threadContainer.length < 2 ^ 63 := by
  decide +kernel

def threadFile : HwxFile where
  block := 0
  fd := 0
  fileSize := 297
  header := ⟨HWX_MACHO_MAGIC_64, 0, 0, 0, 2, 265, 0, 0⟩
  segments := ⟨some 3, [⟨textSegment, 0, 0, 0, 264, 0, 0, 0, ⟨some 2,
    [⟨[], textSection, 0, 8, 32, 0, 0, 0, 0, 0, 0, 0⟩,
      ⟨[], constSection, 0, 0, 0, 0, 0, 0, 0, 0, 0, 0⟩]⟩⟩]⟩
  tdVersion := 5
  threadStates := ⟨some 7, [⟨4, 1, 4, ⟨some 5, [10, 20, 30, 40]⟩⟩, ⟨1, 0, 0, .null⟩]⟩

theorem threadFile_opened : (hwxOpen (Env.plain threadContainer threadContainer_lt)
    (some "a.hwx") .fresh).1 = some threadFile := by
  decide +kernel

end Ane.Hwx
