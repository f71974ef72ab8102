import Ane.Memory

/-! Bytes that stand at an address, and records of a fixed size. Writing a record down and
finding it in memory are two sides of one equivalence, which gives reading back and its
converse at once. -/
namespace Ane.Memory

/-- `bytes` stand in `m` from `off` on. -/
def At (m : Mem) (off : Nat) (bytes : List UInt8) : Prop := slice m off bytes.length = bytes

section At
variable {m : Mem} {off n : Nat} {xs ys : List UInt8}

theorem at_slice (m : Mem) (off n : Nat) : At m off (slice m off n) := by
  rw [At, slice_length]

theorem at_nil (m : Mem) (off : Nat) : At m off [] := rfl

theorem at_append : At m off (xs ++ ys) ↔ At m off xs ∧ At m (off + xs.length) ys := by
  rw [At, List.length_append, slice_append]
  constructor
  · intro same
    exact List.append_inj same slice_length
  · rintro ⟨first, second⟩
    rw [At] at first second
    rw [first, second]

/-- What stands at an address is determined by its length. -/
theorem At.unique (x : At m off xs) (y : At m off ys) (same : xs.length = ys.length) : xs = ys := by
  rw [At] at x y
  rw [← x, ← y, same]

theorem at_ofList (xs : List UInt8) : At (ofList xs) 0 xs := by
  rw [At, ofList_slice xs (by omega), List.drop_zero, List.take_length]

theorem at_toBytes {x : Nat} (small : x < 256 ^ n) :
    At m off (toBytes n x) ↔ littleEndian m off n = x := by
  rw [At, toBytes_length, ← toBytes_littleEndian]
  constructor
  · intro same
    have value := congrArg (fun bytes => littleEndian (ofList bytes) 0 n) same
    simp only [littleEndian_toBytes] at value
    rwa [Nat.mod_eq_of_lt (littleEndian_lt m off n), Nat.mod_eq_of_lt small] at value
  · intro same
    rw [same]

@[simp] theorem at_u32 {x : UInt32} : At m off (toBytes 4 x.toNat) ↔ u32 m off = x := by
  rw [at_toBytes x.toNat_lt, ← u32_toNat, UInt32.toNat_inj]

@[simp] theorem at_u64 {x : UInt64} : At m off (toBytes 8 x.toNat) ↔ u64 m off = x := by
  have value : (u64 m off).toNat = littleEndian m off 8 :=
    UInt64.toNat_ofNat_of_lt' (littleEndian_lt m off 8)
  rw [at_toBytes x.toNat_lt, ← value, UInt64.toNat_inj]

theorem at_bytes (length : xs.length = n) : At m off xs ↔ slice m off n = xs := by
  rw [At, length]

end At

/-- A record of `size` bytes. What is read is always `Good`, and a good record stands at an
address exactly when it is what is read there. -/
structure Record (α : Type) where
  size : Nat
  Good : α → Prop
  write : α → List UInt8
  read : Mem → Nat → α
  length : ∀ x, Good x → (write x).length = size
  good_read : ∀ m off, Good (read m off)
  placed : ∀ m off x, Good x → (At m off (write x) ↔ read m off = x)

namespace Record
variable {α : Type} (r : Record α) {m : Mem} {off : Nat}

theorem at_read (m : Mem) (off : Nat) : At m off (r.write (r.read m off)) :=
  (r.placed m off _ (r.good_read m off)).mpr rfl

/-- Records of one kind, one behind the other. -/
def readAll (m : Mem) (off n : Nat) : List α :=
  (List.range n).map fun i => r.read m (off + r.size * i)

theorem readAll_succ (m : Mem) (off n : Nat) :
    r.readAll m off (n + 1) = r.read m off :: r.readAll m (off + r.size) n := by
  rw [readAll, List.range_succ_eq_map, List.map_cons, List.map_map, Nat.mul_zero, Nat.add_zero]
  apply congrArg
  apply List.map_congr_left
  intro i _
  simp only [Function.comp_apply, Nat.mul_succ]
  rw [Nat.add_comm (r.size * i), ← Nat.add_assoc]

theorem flatMap_length {xs : List α} (good : ∀ x ∈ xs, r.Good x) :
    (xs.flatMap r.write).length = r.size * xs.length := by
  induction xs with
  | nil => rfl
  | cons x xs ih =>
    obtain ⟨first, rest⟩ := List.forall_mem_cons.mp good
    rw [List.flatMap_cons, List.length_append, ih rest, r.length x first, List.length_cons,
      Nat.mul_succ, Nat.add_comm]

theorem at_flatMap {xs : List α} (good : ∀ x ∈ xs, r.Good x) :
    At m off (xs.flatMap r.write) ↔ r.readAll m off xs.length = xs := by
  induction xs generalizing off with
  | nil => exact ⟨fun _ => rfl, fun _ => at_nil m off⟩
  | cons x xs ih =>
    obtain ⟨first, rest⟩ := List.forall_mem_cons.mp good
    rw [List.flatMap_cons, at_append, r.placed m off x first, r.length x first, ih rest,
      List.length_cons, readAll_succ, List.cons.injEq]

end Record

end Ane.Memory
