import Mathlib.Algebra.Group.Nat.Defs
import Mathlib.Data.List.Basic
import Mathlib.Tactic.Common

/-! Bytes in memory and little-endian integers in them. A memory has a byte at every
address; which addresses may be read is the business of who reads. -/
namespace Ane.Memory

abbrev Mem := Nat → UInt8

def ofList (bytes : List UInt8) : Mem := fun i => bytes.getD i 0

def slice (m : Mem) (off len : Nat) : List UInt8 := (List.range len).map fun i => m (off + i)

/-- Write `bytes` from address `off` on. -/
def store (m : Mem) (off : Nat) (bytes : List UInt8) : Mem :=
  fun i => if off ≤ i ∧ i < off + bytes.length then bytes.getD (i - off) 0 else m i

/-- The little-endian number in the `n` bytes from `off`. -/
def littleEndian (m : Mem) (off : Nat) : Nat → Nat
  | 0 => 0
  | n + 1 => (m off).toNat + 256 * littleEndian m (off + 1) n

/-- The `n` bytes of a number, the least significant one first. -/
def toBytes : Nat → Nat → List UInt8
  | 0, _ => []
  | n + 1, x => UInt8.ofNat x :: toBytes n (x / 256)

def u32 (m : Mem) (off : Nat) : UInt32 := UInt32.ofNat (littleEndian m off 4)

def u64 (m : Mem) (off : Nat) : UInt64 := UInt64.ofNat (littleEndian m off 8)

/-- The same `n` bytes stand in `m` at `off` and in `m'` at `off'`. -/
def SameBytes (n : Nat) (m : Mem) (off : Nat) (m' : Mem) (off' : Nat) : Prop :=
  ∀ i < n, m (off + i) = m' (off' + i)

variable {m m' : Mem} {off off' n : Nat}

theorem SameBytes.sub (same : SameBytes n m off m' off') (k : Nat) {len : Nat}
    (h : k + len ≤ n) : SameBytes len m (off + k) m' (off' + k) := by
  intro i hi
  simp only [Nat.add_assoc]
  apply same
  omega

theorem SameBytes.littleEndian (same : SameBytes n m off m' off') :
    littleEndian m off n = littleEndian m' off' n := by
  induction n generalizing off off' with
  | zero => rfl
  | succ n ih =>
    have head : m off = m' off' := same 0 (Nat.succ_pos n)
    have tail : SameBytes n m (off + 1) m' (off' + 1) := same.sub 1 (by omega)
    simp only [Memory.littleEndian, head, ih tail]

theorem SameBytes.u32 (same : SameBytes n m off m' off') (k : Nat) (h : k + 4 ≤ n) :
    u32 m (off + k) = u32 m' (off' + k) := by
  simp only [Memory.u32, (same.sub k h).littleEndian]

theorem SameBytes.u64 (same : SameBytes n m off m' off') (k : Nat) (h : k + 8 ≤ n) :
    u64 m (off + k) = u64 m' (off' + k) := by
  simp only [Memory.u64, (same.sub k h).littleEndian]

theorem SameBytes.slice (same : SameBytes n m off m' off') (k len : Nat) (h : k + len ≤ n) :
    slice m (off + k) len = slice m' (off' + k) len := by
  apply List.map_congr_left
  intro i hi
  exact same.sub k h i (List.mem_range.mp hi)

theorem slice_length : (slice m off n).length = n := by simp [slice]

theorem slice_append (m : Mem) (off k n : Nat) :
    slice m off (k + n) = slice m off k ++ slice m (off + k) n := by
  simp [slice, List.range_add, Nat.add_assoc]

theorem slice_succ (m : Mem) (off n : Nat) :
    slice m off (n + 1) = m off :: slice m (off + 1) n := by
  rw [Nat.add_comm, slice_append]
  rfl

theorem toBytes_littleEndian (m : Mem) (off n : Nat) :
    toBytes n (littleEndian m off n) = slice m off n := by
  induction n generalizing off with
  | zero => rfl
  | succ n ih =>
    have bound := (m off).toNat_lt
    have head : UInt8.ofNat (littleEndian m off (n + 1)) = m off := by
      apply UInt8.toNat_inj.mp
      simp only [littleEndian, UInt8.toNat_ofNat']
      omega
    have rest : littleEndian m off (n + 1) / 256 = littleEndian m (off + 1) n := by
      simp only [littleEndian]
      omega
    rw [toBytes, head, rest, ih, slice_succ]

theorem littleEndian_lt (m : Mem) (off n : Nat) : littleEndian m off n < 256 ^ n := by
  induction n generalizing off with
  | zero => simp [littleEndian]
  | succ n ih =>
    have head := (m off).toNat_lt
    have tail := ih (off + 1)
    simp only [littleEndian, Nat.pow_succ]
    omega

theorem u32_toNat (m : Mem) (off : Nat) : (u32 m off).toNat = littleEndian m off 4 :=
  UInt32.toNat_ofNat_of_lt' (littleEndian_lt m off 4)

theorem toBytes_u32 (m : Mem) (off : Nat) : toBytes 4 (u32 m off).toNat = slice m off 4 := by
  rw [u32_toNat, toBytes_littleEndian]

theorem toBytes_length (n x : Nat) : (toBytes n x).length = n := by
  induction n generalizing x with
  | zero => rfl
  | succ n ih => rw [toBytes, List.length_cons, ih]

theorem littleEndian_toBytes (n x : Nat) : littleEndian (ofList (toBytes n x)) 0 n = x % 256 ^ n := by
  induction n generalizing x with
  | zero =>
    rw [Nat.pow_zero, Nat.mod_one]
    rfl
  | succ n ih =>
    have tail : SameBytes n (ofList (toBytes (n + 1) x)) 1 (ofList (toBytes n (x / 256))) 0 := by
      intro i _
      rw [Nat.add_comm 1, Nat.zero_add]
      rfl
    have head : (ofList (toBytes (n + 1) x) 0).toNat = x % 256 := UInt8.toNat_ofNat'
    rw [littleEndian, Nat.zero_add, tail.littleEndian, ih, head, Nat.pow_succ', Nat.mod_mul]

theorem slice_zeros (zero : ∀ i < n, m (off + i) = 0) : slice m off n = List.replicate n 0 := by
  apply List.ext_getElem
  · rw [slice_length, List.length_replicate]
  · intro i hi _
    rw [slice_length] at hi
    simp [slice, zero i hi]

theorem ofList_slice (bytes : List UInt8) (h : off + n ≤ bytes.length) :
    slice (ofList bytes) off n = (bytes.drop off).take n := by
  apply List.ext_getElem
  · simp only [slice_length, List.length_take, List.length_drop]
    omega
  · intro i hi _
    have hi : i < n := by rwa [slice_length] at hi
    have inside : off + i < bytes.length := by omega
    simp [slice, ofList, List.getElem?_eq_getElem inside]

theorem store_inside {bytes : List UInt8} {i : Nat} (h : i < bytes.length) :
    store m off bytes (off + i) = bytes.getD i 0 := by
  have inside : off ≤ off + i ∧ off + i < off + bytes.length := by omega
  simp only [store, if_pos inside, Nat.add_sub_cancel_left]

theorem store_outside {bytes : List UInt8} {i : Nat} (h : i < off ∨ off + bytes.length ≤ i) :
    store m off bytes i = m i := by
  have outside : ¬ (off ≤ i ∧ i < off + bytes.length) := by omega
  simp only [store, if_neg outside]

theorem store_bytes (m : Mem) (off : Nat) (bytes : List UInt8) :
    SameBytes bytes.length (store m off bytes) off (ofList bytes) 0 := by
  intro i hi
  rw [store_inside hi, ofList, Nat.zero_add]

/-- A word written is read back. -/
theorem u32_store (m : Mem) (off : Nat) (x : UInt32) :
    u32 (store m off (toBytes 4 x.toNat)) off = x := by
  have same := store_bytes m off (toBytes 4 x.toNat)
  rw [toBytes_length] at same
  have small := x.toNat_lt
  apply UInt32.toNat_inj.mp
  rw [u32_toNat, same.littleEndian, littleEndian_toBytes]
  omega

end Ane.Memory
