import Ane.Tile

/-! Tiles in buffers that are larger than they. What lies behind the tile takes no part: packing
leaves it as it is and unpacking does not look at it. -/
namespace Ane.ByteBuffer
variable {α : Type*} {dst src rest : List α} {d s n : Nat} {x : α} {rows : List Row}

theorem memcpy_append (room : d + n ≤ dst.length) :
    memcpy (dst ++ rest) d src s n = (memcpy dst d src s n).map (· ++ rest) := by
  have more : d + n ≤ (dst ++ rest).length := by
    rw [List.length_append]
    omega
  simp only [memcpy, room, more, true_and]
  split
  · rw [Option.map_some, List.take_append_of_le_length (by omega),
      List.drop_append_of_le_length room, ← List.append_assoc]
  · rfl

theorem memcpy_append_src (room : s + n ≤ src.length) :
    memcpy dst d (src ++ rest) s n = memcpy dst d src s n := by
  have more : s + n ≤ (src ++ rest).length := by
    rw [List.length_append]
    omega
  have inside : n ≤ (src.drop s).length := by
    rw [List.length_drop]
    omega
  simp only [memcpy, room, more]
  rw [List.drop_append_of_le_length (by omega), List.take_append_of_le_length inside]

theorem memset_append (room : n ≤ dst.length) :
    memset (dst ++ rest) x n = (memset dst x n).map (· ++ rest) := by
  have more : n ≤ (dst ++ rest).length := by
    rw [List.length_append]
    omega
  rw [memset, memset, if_pos more, if_pos room, Option.map_some,
    List.drop_append_of_le_length room, List.append_assoc]

theorem copyRows_append (fits : ∀ r ∈ rows, r.dst + r.len ≤ dst.length) :
    copyRows src rows (dst ++ rest) = (copyRows src rows dst).map (· ++ rest) := by
  induction rows generalizing dst with
  | nil => rfl
  | cons r rows ih =>
    obtain ⟨first, others⟩ := List.forall_mem_cons.mp fits
    rw [copyRows_cons, copyRows_cons, copyRow, copyRow, memcpy_append first]
    cases copied : memcpy dst r.dst src r.src r.len with
    | none => rfl
    | some mid =>
      rw [Option.map_some, Option.bind_some, Option.bind_some, ih]
      rw [memcpy_length copied]
      exact others

theorem copyRows_append_src (fits : ∀ r ∈ rows, r.src + r.len ≤ src.length) :
    copyRows (src ++ rest) rows dst = copyRows src rows dst := by
  induction rows generalizing dst with
  | nil => rfl
  | cons r rows ih =>
    obtain ⟨first, others⟩ := List.forall_mem_cons.mp fits
    rw [copyRows_cons, copyRows_cons, copyRow, copyRow, memcpy_append_src first]
    congr 1
    funext mid
    exact ih others

end Ane.ByteBuffer

namespace Ane.Tile
open ByteBuffer
variable {N C H W P R : UInt64} {data tile rest : List UInt8}

theorem Layout.aneTile_append (lay : Layout N C H W P R)
    (htile : tile.length = N.toNat * C.toNat * P.toNat) :
    aneTile data (tile ++ rest) N C H W P R = (aneTile data tile N C H W P R).map (· ++ rest) := by
  by_cases fast : P / R = H ∧ R / 2 = W
  · rw [aneTile_fast _ _ fast, aneTile_fast _ _ fast, memcpy_append]
    rw [lay.tile_size]
    omega
  · have room : (N * C * P).toNat ≤ tile.length := by
      rw [lay.tile_size]
      omega
    rw [aneTile_slow _ _ fast, aneTile_slow _ _ fast, memset_append room, lay.tile_size, ← htile,
      memset_whole, Option.map_some, Option.bind_some, Option.bind_some, copyRows_append]
    intro r mem
    rw [List.length_replicate, htile]
    exact (lay.rows_fit r mem).1

theorem Layout.aneUntile_append (lay : Layout N C H W P R)
    (htile : tile.length = N.toNat * C.toNat * P.toNat) :
    aneUntile data (tile ++ rest) N C H W P R = aneUntile data tile N C H W P R := by
  by_cases fast : P / R = H ∧ R / 2 = W
  · rw [aneUntile_fast _ _ fast, aneUntile_fast _ _ fast, memcpy_append_src]
    have fits := lay.data_le
    rw [lay.data_size]
    omega
  · rw [aneUntile_slow _ _ fast, aneUntile_slow _ _ fast]
    congr 1
    funext cleared
    apply copyRows_append_src
    intro r mem
    obtain ⟨q, inTile, rfl⟩ := List.mem_map.mp mem
    rw [htile]
    exact (lay.rows_fit q inTile).1

end Ane.Tile
