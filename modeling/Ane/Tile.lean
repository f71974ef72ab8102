import Ane.ByteBuffer
import Mathlib.Tactic.Ring
import Mathlib.Tactic.Linarith

/-! Packing tensors into tile buffers. `aneTile` spreads N*C*H rows of W
half-words over planes of P bytes and rows of R bytes, `aneUntile` collects them.
Every offset is 64-bit arithmetic as in the library; a copy outside either buffer
has no result. -/
namespace Ane.Tile
open ByteBuffer

/-- The values of a loop variable that counts from 0 below `n`. -/
def counters (n : UInt64) : List UInt64 := (List.range n.toNat).map UInt64.ofNat

theorem mem_counters {n i : UInt64} : i ∈ counters n ↔ i.toNat < n.toNat := by
  simp only [counters, List.mem_map, List.mem_range]
  constructor
  · rintro ⟨k, hk, rfl⟩
    rwa [UInt64.toNat_ofNat_of_lt' (Nat.lt_trans hk n.toNat_lt)]
  · intro hi
    exact ⟨i.toNat, hi, by simp⟩

def aneTile (data tile : List UInt8) (N C H W P R : UInt64) : Option (List UInt8) :=
  let newH := P / R
  let newW := R / 2
  let stride := W * 2
  let C0 := C * H * W
  let C1 := C * newH * newW
  let H0 := H * W
  let H1 := newH * newW
  if newH = H ∧ newW = W then
    memcpy tile 0 data 0 (N * C * P).toNat
  else do
    let tile ← memset tile 0 (N * C * P).toNat
    (counters N).foldlM (fun tile n =>
      (counters C).foldlM (fun tile c =>
        (counters H).foldlM (fun tile h =>
          let src := (n * C0 + c * H0 + h * W) * 2
          let dst := (n * C1 + c * H1 + h * newW) * 2
          memcpy tile dst.toNat data src.toNat stride.toNat) tile) tile) tile

def aneUntile (data tile : List UInt8) (N C H W P R : UInt64) : Option (List UInt8) :=
  let newH := P / R
  let newW := R / 2
  let stride := W * 2
  let C0 := C * H * W
  let C1 := C * newH * newW
  let H0 := H * W
  let H1 := newH * newW
  if newH = H ∧ newW = W then
    memcpy data 0 tile 0 (N * C * H * W * 2).toNat
  else do
    let data ← memset data 0 (N * C * H * W * 2).toNat
    (counters N).foldlM (fun data n =>
      (counters C).foldlM (fun data c =>
        (counters H).foldlM (fun data h =>
          let src := (n * C1 + c * H1 + h * newW) * 2
          let dst := (n * C0 + c * H0 + h * W) * 2
          memcpy data dst.toNat tile src.toNat stride.toNat) data) data) data

/-- The copy of row (n, c, h) from the tensor to the tile. -/
def tileRow (C H W P R n c h : UInt64) : Row where
  dst := ((n * (C * (P / R) * (R / 2)) + c * ((P / R) * (R / 2)) + h * (R / 2)) * 2).toNat
  src := ((n * (C * H * W) + c * (H * W) + h * W) * 2).toNat
  len := (W * 2).toNat

def tileRows (N C H W P R : UInt64) : List Row :=
  (counters N).flatMap fun n => (counters C).flatMap fun c => (counters H).map fun h =>
    tileRow C H W P R n c h

theorem mem_tileRows {N C H W P R : UInt64} {r : Row} :
    r ∈ tileRows N C H W P R ↔ ∃ n c h : UInt64, n.toNat < N.toNat ∧ c.toNat < C.toNat ∧
      h.toNat < H.toNat ∧ tileRow C H W P R n c h = r := by
  simp only [tileRows, List.mem_flatMap, List.mem_map, mem_counters]
  constructor
  · rintro ⟨n, hn, c, hc, h, hh, rfl⟩
    exact ⟨n, c, h, hn, hc, hh, rfl⟩
  · rintro ⟨n, c, h, hn, hc, hh, rfl⟩
    exact ⟨n, hn, c, hc, h, hh, rfl⟩

theorem foldlM_flatMap {α β σ : Type} (l : List α) (f : α → List β) (g : σ → β → Option σ)
    (s : σ) : (l.flatMap f).foldlM g s = l.foldlM (fun s a => (f a).foldlM g s) s := by
  induction l generalizing s with
  | nil => rfl
  | cons a l ih =>
    rw [List.flatMap_cons, List.foldlM_append, List.foldlM_cons]
    exact bind_congr fun s' => ih s'

/-- The three loops of `aneTile` are one batch of row copies. -/
theorem aneTile_slow (data tile : List UInt8) {N C H W P R : UInt64}
    (slow : ¬ (P / R = H ∧ R / 2 = W)) :
    aneTile data tile N C H W P R =
      (memset tile 0 (N * C * P).toNat).bind (copyRows data (tileRows N C H W P R)) := by
  simp only [aneTile, if_neg slow]
  refine congrArg (Option.bind _) (funext fun t => ?_)
  simp only [copyRows, tileRows, foldlM_flatMap, List.foldlM_map]
  rfl

theorem aneUntile_slow (data tile : List UInt8) {N C H W P R : UInt64}
    (slow : ¬ (P / R = H ∧ R / 2 = W)) :
    aneUntile data tile N C H W P R =
      (memset data 0 (N * C * H * W * 2).toNat).bind
        (copyRows tile ((tileRows N C H W P R).map Row.swap)) := by
  simp only [aneUntile, if_neg slow]
  refine congrArg (Option.bind _) (funext fun t => ?_)
  simp only [copyRows, tileRows, List.map_flatMap, List.map_map, foldlM_flatMap,
    List.foldlM_map]
  rfl

theorem exists_word {k : Nat} (hk : k < 2 ^ 64) : ∃ x : UInt64, x.toNat = k :=
  ⟨UInt64.ofNat k, UInt64.toNat_ofNat_of_lt' hk⟩

/-- What every caller of the two functions promises about the shape: rows of W
half-words fit the row stride, H rows fit a plane, and the tile has a 64-bit size. -/
structure Layout (N C H W P R : UInt64) : Prop where
  row_pos : 0 < R.toNat
  row_fits : 2 * W.toNat ≤ R.toNat
  plane_fits : H.toNat * R.toNat ≤ P.toNat
  size_lt : N.toNat * C.toNat * P.toNat < 2 ^ 64

section Offsets
variable {N C H W P R : UInt64}

theorem rank_lt {A B a b : Nat} (ha : a < A) (hb : b < B) : a * B + b < A * B := by
  calc
    a * B + b < (a + 1) * B := by rw [Nat.succ_mul]; omega
    _ ≤ A * B := Nat.mul_le_mul_right B ha

theorem rank_inj {B a b a' b' : Nat} (hb : b < B) (hb' : b' < B)
    (h : a * B + b = a' * B + b') : a = a' ∧ b = b' := by
  have hB : 0 < B := by omega
  have hdiv := congrArg (· / B) h
  have hmod := congrArg (· % B) h
  simp only [Nat.mul_comm _ B, Nat.mul_add_div hB, Nat.div_eq_of_lt hb, Nat.div_eq_of_lt hb',
    Nat.add_zero] at hdiv
  simp only [Nat.mul_comm _ B, Nat.mul_add_mod, Nat.mod_eq_of_lt hb, Nat.mod_eq_of_lt hb'] at hmod
  exact ⟨hdiv, hmod⟩

/-- The plane stride the code rebuilds from `P / R` and `R / 2`. -/
def planeStride (P R : UInt64) : Nat := P.toNat / R.toNat * R.toNat

theorem planeStride_le : planeStride P R ≤ P.toNat := Nat.div_mul_le_self _ _

/-- The row stride the code rebuilds from `R / 2`. -/
def rowStride (R : UInt64) : Nat := R.toNat / 2 * 2

theorem rowStride_even (even : R.toNat % 2 = 0) : rowStride R = R.toNat :=
  Nat.div_mul_cancel (Nat.dvd_of_mod_eq_zero even)

theorem rowStride_le : rowStride R ≤ R.toNat := Nat.div_mul_le_self _ _

theorem Layout.row_le (lay : Layout N C H W P R) : 2 * W.toNat ≤ rowStride R := by
  have fits := lay.row_fits
  unfold rowStride
  omega

theorem Layout.rows_le (lay : Layout N C H W P R) : H.toNat ≤ P.toNat / R.toNat :=
  (Nat.le_div_iff_mul_le lay.row_pos).mpr lay.plane_fits

theorem Layout.rows_le_planeStride (lay : Layout N C H W P R) :
    H.toNat * R.toNat ≤ planeStride P R := Nat.mul_le_mul_right _ lay.rows_le

theorem tileRow_dst_mod (n c h : UInt64) :
    (tileRow C H W P R n c h).dst =
      ((n.toNat * C.toNat + c.toNat) * (P.toNat / R.toNat * rowStride R) +
        h.toNat * rowStride R) % 2 ^ 64 := by
  have exact (x y z d q w : Nat) :
      (x * (d * q * w) + y * (q * w) + z * w) * 2 =
        (x * d + y) * (q * (w * 2)) + z * (w * 2) := by ring
  have scaled := exact n.toNat c.toNat h.toNat C.toNat (P.toNat / R.toNat) (R.toNat / 2)
  rw [rowStride, ← scaled]
  simp only [tileRow, UInt64.toNat_mul, UInt64.toNat_add, UInt64.toNat_div,
    UInt64.reduceToNat, Nat.add_mod_mod, Nat.mod_add_mod, Nat.mul_mod_mod, Nat.mod_mul_mod]

theorem tileRow_src_mod (n c h : UInt64) :
    (tileRow C H W P R n c h).src =
      ((n.toNat * C.toNat + c.toNat) * H.toNat + h.toNat) * (2 * W.toNat) % 2 ^ 64 := by
  have exact (x y z d q w : Nat) :
      (x * (d * q * w) + y * (q * w) + z * w) * 2 = ((x * d + y) * q + z) * (2 * w) := by ring
  rw [← exact]
  simp only [tileRow, UInt64.toNat_mul, UInt64.toNat_add, UInt64.reduceToNat,
    Nat.add_mod_mod, Nat.mod_add_mod, Nat.mul_mod_mod, Nat.mod_mul_mod]

theorem Layout.row_len (lay : Layout N C H W P R) (n c h : UInt64) :
    (tileRow C H W P R n c h).len = 2 * W.toNat := by
  have bound := R.toNat_lt
  have fits := lay.row_fits
  simp only [tileRow, UInt64.toNat_mul, UInt64.reduceToNat]
  omega

/-- The tensor is no larger than the tile. -/
theorem Layout.data_le (lay : Layout N C H W P R) :
    N.toNat * C.toNat * H.toNat * (2 * W.toNat) ≤ N.toNat * C.toNat * P.toNat := by
  rw [Nat.mul_assoc]
  refine Nat.mul_le_mul_left _ ?_
  exact (Nat.mul_le_mul_left _ lay.row_fits).trans lay.plane_fits

section InRange
variable {n c h : UInt64} (lay : Layout N C H W P R) (even : R.toNat % 2 = 0)
  (hn : n.toNat < N.toNat) (hc : c.toNat < C.toNat) (hh : h.toNat < H.toNat)
include lay hn hc hh

theorem Layout.dst_end : (n.toNat * C.toNat + c.toNat) * (P.toNat / R.toNat * rowStride R) +
    h.toNat * rowStride R + 2 * W.toNat ≤ N.toNat * C.toNat * P.toNat := by
  have plane := rank_lt hn hc
  have row : h.toNat * rowStride R + 2 * W.toNat ≤ P.toNat / R.toNat * rowStride R := by
    calc
      h.toNat * rowStride R + 2 * W.toNat ≤ (h.toNat + 1) * rowStride R := by
        rw [Nat.add_one_mul h.toNat]
        exact Nat.add_le_add_left lay.row_le _
      _ ≤ P.toNat / R.toNat * rowStride R := Nat.mul_le_mul_right _ (hh.trans_le lay.rows_le)
  calc
    (n.toNat * C.toNat + c.toNat) * (P.toNat / R.toNat * rowStride R) + h.toNat * rowStride R +
        2 * W.toNat
        ≤ (n.toNat * C.toNat + c.toNat + 1) * (P.toNat / R.toNat * rowStride R) := by
          rw [Nat.add_one_mul (n.toNat * C.toNat + c.toNat), Nat.add_assoc]
          exact Nat.add_le_add_left row _
    _ ≤ N.toNat * C.toNat * (P.toNat / R.toNat * rowStride R) := Nat.mul_le_mul_right _ plane
    _ ≤ N.toNat * C.toNat * planeStride P R :=
      Nat.mul_le_mul_left _ (Nat.mul_le_mul_left _ rowStride_le)
    _ ≤ N.toNat * C.toNat * P.toNat := Nat.mul_le_mul_left _ planeStride_le

omit lay in
theorem src_end : ((n.toNat * C.toNat + c.toNat) * H.toNat + h.toNat) * (2 * W.toNat) +
    2 * W.toNat ≤ N.toNat * C.toNat * H.toNat * (2 * W.toNat) := by
  have row := rank_lt (rank_lt hn hc) hh
  calc
    _ = ((n.toNat * C.toNat + c.toNat) * H.toNat + h.toNat + 1) * (2 * W.toNat) :=
      (Nat.add_one_mul _ _).symm
    _ ≤ _ := Nat.mul_le_mul_right _ row

theorem Layout.row_src : (tileRow C H W P R n c h).src =
    ((n.toNat * C.toNat + c.toNat) * H.toNat + h.toNat) * (2 * W.toNat) := by
  have last := src_end (W := W) hn hc hh
  have data := lay.data_le
  have size := lay.size_lt
  rw [tileRow_src_mod]
  by_cases empty : W.toNat = 0
  · simp [empty]
  · exact Nat.mod_eq_of_lt (by omega)

theorem Layout.row_dst_strides : (tileRow C H W P R n c h).dst =
    (n.toNat * C.toNat + c.toNat) * (P.toNat / R.toNat * rowStride R) +
      h.toNat * rowStride R := by
  have last := lay.dst_end hn hc hh
  have size := lay.size_lt
  rw [tileRow_dst_mod]
  exact Nat.mod_eq_of_lt (by omega)

include even in
theorem Layout.row_dst : (tileRow C H W P R n c h).dst =
    (n.toNat * C.toNat + c.toNat) * planeStride P R + h.toNat * R.toNat := by
  rw [lay.row_dst_strides hn hc hh, rowStride_even even]
  rfl

end InRange

/-- Rows lie inside the tile and inside the tensor. -/
theorem Layout.rows_fit (lay : Layout N C H W P R) :
    ∀ r ∈ tileRows N C H W P R, r.Fits (N.toNat * C.toNat * P.toNat)
      (N.toNat * C.toNat * H.toNat * (2 * W.toNat)) := by
  intro r hr
  obtain ⟨n, c, h, hn, hc, hh, rfl⟩ := mem_tileRows.mp hr
  refine ⟨?_, ?_⟩
  · rw [lay.row_dst_strides hn hc hh, lay.row_len]
    exact lay.dst_end hn hc hh
  · rw [lay.row_src hn hc hh, lay.row_len]
    exact src_end hn hc hh

/-- A tile byte belongs to one row at most: its plane, row and column are the
digits of its offset. -/
theorem Layout.row_unique_dst (lay : Layout N C H W P R) (even : R.toNat % 2 = 0)
    {r q : Row} (hr : r ∈ tileRows N C H W P R) (hq : q ∈ tileRows N C H W P R) {j : Nat}
    (hrj : r.Covers j) (hqj : q.Covers j) : r = q := by
  obtain ⟨n, c, h, hn, hc, hh, rfl⟩ := mem_tileRows.mp hr
  obtain ⟨n', c', h', hn', hc', hh', rfl⟩ := mem_tileRows.mp hq
  obtain ⟨i, hi, hji⟩ := Row.covers_iff.mp hrj
  obtain ⟨i', hi', hji'⟩ := Row.covers_iff.mp hqj
  rw [lay.row_len] at hi hi'
  rw [lay.row_dst even hn hc hh] at hji
  rw [lay.row_dst even hn' hc' hh'] at hji'
  have fits := lay.row_fits
  have column (k : UInt64) (hk : k.toNat < H.toNat) (l : Nat) (hl : l < 2 * W.toNat) :
      k.toNat * R.toNat + l < planeStride P R :=
    (rank_lt hk (by omega : l < R.toNat)).trans_le lay.rows_le_planeStride
  have whole := rank_inj (column h hh i hi) (column h' hh' i' hi')
    (by omega : (n.toNat * C.toNat + c.toNat) * planeStride P R + (h.toNat * R.toNat + i) =
      (n'.toNat * C.toNat + c'.toNat) * planeStride P R + (h'.toNat * R.toNat + i'))
  have plane := rank_inj hc hc' whole.1
  have row := rank_inj (by omega : i < R.toNat) (by omega : i' < R.toNat) whole.2
  rw [UInt64.toNat_inj.mp plane.1, UInt64.toNat_inj.mp plane.2, UInt64.toNat_inj.mp row.1]

theorem Layout.row_unique_src (lay : Layout N C H W P R)
    {r q : Row} (hr : r ∈ tileRows N C H W P R) (hq : q ∈ tileRows N C H W P R) {j : Nat}
    (hrj : r.swap.Covers j) (hqj : q.swap.Covers j) : r = q := by
  obtain ⟨n, c, h, hn, hc, hh, rfl⟩ := mem_tileRows.mp hr
  obtain ⟨n', c', h', hn', hc', hh', rfl⟩ := mem_tileRows.mp hq
  obtain ⟨i, hi, hji⟩ := Row.covers_iff.mp hrj
  obtain ⟨i', hi', hji'⟩ := Row.covers_iff.mp hqj
  simp only [Row.swap, lay.row_len] at hi hi' hji hji'
  rw [lay.row_src hn hc hh] at hji
  rw [lay.row_src hn' hc' hh'] at hji'
  have row := rank_inj hi hi' (hji.symm.trans hji')
  have plane := rank_inj hh hh' row.1
  have batch := rank_inj hc hc' plane.1
  rw [UInt64.toNat_inj.mp batch.1, UInt64.toNat_inj.mp batch.2, UInt64.toNat_inj.mp plane.2]

theorem Layout.agree (lay : Layout N C H W P R) (even : R.toNat % 2 = 0) :
    Agree (tileRows N C H W P R) := by
  intro r hr q hq j hrj hqj
  rw [lay.row_unique_dst even hr hq hrj hqj]

theorem Layout.agree_swap (lay : Layout N C H W P R) :
    Agree ((tileRows N C H W P R).map Row.swap) := by
  intro r' hr' q' hq' j hrj hqj
  obtain ⟨r, hr, rfl⟩ := List.mem_map.mp hr'
  obtain ⟨q, hq, rfl⟩ := List.mem_map.mp hq'
  rw [lay.row_unique_src hr hq hrj hqj]

/-- Every tensor byte belongs to a row. -/
theorem Layout.row_of_data (lay : Layout N C H W P R) {j : Nat}
    (hj : j < N.toNat * C.toNat * H.toNat * (2 * W.toNat)) :
    ∃ r ∈ tileRows N C H W P R, r.swap.Covers j := by
  have hW : 0 < 2 * W.toNat := Nat.pos_of_mul_pos_left (Nat.zero_lt_of_lt hj)
  have hx : j / (2 * W.toNat) < N.toNat * C.toNat * H.toNat :=
    (Nat.div_lt_iff_lt_mul hW).mpr hj
  have hH : 0 < H.toNat := Nat.pos_of_mul_pos_left (Nat.zero_lt_of_lt hx)
  have hy : j / (2 * W.toNat) / H.toNat < N.toNat * C.toNat :=
    (Nat.div_lt_iff_lt_mul hH).mpr hx
  have hC : 0 < C.toNat := Nat.pos_of_mul_pos_left (Nat.zero_lt_of_lt hy)
  have hz : j / (2 * W.toNat) / H.toNat / C.toNat < N.toNat :=
    (Nat.div_lt_iff_lt_mul hC).mpr hy
  obtain ⟨n, hn⟩ := exists_word (hz.trans N.toNat_lt)
  obtain ⟨c, hc⟩ := exists_word ((Nat.mod_lt (j / (2 * W.toNat) / H.toNat) hC).trans C.toNat_lt)
  obtain ⟨h, hh⟩ := exists_word ((Nat.mod_lt (j / (2 * W.toNat)) hH).trans H.toNat_lt)
  have hn' : n.toNat < N.toNat := by rw [hn]; exact hz
  have hc' : c.toNat < C.toNat := by rw [hc]; exact Nat.mod_lt _ hC
  have hh' : h.toNat < H.toNat := by rw [hh]; exact Nat.mod_lt _ hH
  refine ⟨_, mem_tileRows.mpr ⟨n, c, h, hn', hc', hh', rfl⟩, Row.covers_iff.mpr
    ⟨j % (2 * W.toNat), ?_, ?_⟩⟩
  · simp only [Row.swap, lay.row_len]
    exact Nat.mod_lt _ hW
  · simp only [Row.swap, lay.row_src hn' hc' hh', hn, hc, hh]
    rw [Nat.div_add_mod' _ C.toNat, Nat.div_add_mod' _ H.toNat, Nat.div_add_mod' _ (2 * W.toNat)]

theorem Layout.tile_size (lay : Layout N C H W P R) :
    (N * C * P).toNat = N.toNat * C.toNat * P.toNat := by
  simp only [UInt64.toNat_mul, Nat.mod_mul_mod]
  exact Nat.mod_eq_of_lt lay.size_lt

theorem Layout.data_size (lay : Layout N C H W P R) :
    (N * C * H * W * 2).toNat = N.toNat * C.toNat * H.toNat * (2 * W.toNat) := by
  have data := lay.data_le
  have size := lay.size_lt
  simp only [UInt64.toNat_mul, UInt64.reduceToNat, Nat.mod_mul_mod]
  rw [Nat.mul_assoc _ W.toNat, Nat.mul_comm W.toNat]
  exact Nat.mod_eq_of_lt (by omega)

/-- The row by row path clears the tile and copies every row. -/
theorem Layout.aneTile_rows (lay : Layout N C H W P R)
    (slow : ¬ (P / R = H ∧ R / 2 = W)) {data tile : List UInt8}
    (hdata : data.length = N.toNat * C.toNat * H.toNat * (2 * W.toNat))
    (htile : tile.length = N.toNat * C.toNat * P.toNat) :
    ∃ out, aneTile data tile N C H W P R = some out ∧
      copyRows data (tileRows N C H W P R) (List.replicate tile.length 0) = some out := by
  have fits : ∀ r ∈ tileRows N C H W P R,
      r.Fits (List.replicate tile.length (0 : UInt8)).length data.length := by
    rw [List.length_replicate, hdata, htile]
    exact lay.rows_fit
  obtain ⟨out, hout⟩ := copyRows_isSome fits
  refine ⟨out, ?_, hout⟩
  rw [aneTile_slow data tile slow, lay.tile_size, ← htile, memset_whole, Option.bind_some, hout]

theorem Layout.aneUntile_rows (lay : Layout N C H W P R)
    (slow : ¬ (P / R = H ∧ R / 2 = W)) {data tile : List UInt8}
    (hdata : data.length = N.toNat * C.toNat * H.toNat * (2 * W.toNat))
    (htile : tile.length = N.toNat * C.toNat * P.toNat) :
    ∃ out, aneUntile data tile N C H W P R = some out ∧
      copyRows tile ((tileRows N C H W P R).map Row.swap) (List.replicate data.length 0) =
        some out := by
  have fits : ∀ r ∈ (tileRows N C H W P R).map Row.swap,
      r.Fits (List.replicate data.length (0 : UInt8)).length tile.length := by
    intro r' hr'
    obtain ⟨r, hr, rfl⟩ := List.mem_map.mp hr'
    rw [List.length_replicate, hdata, htile]
    exact (lay.rows_fit r hr).swap
  obtain ⟨out, hout⟩ := copyRows_isSome fits
  refine ⟨out, ?_, hout⟩
  rw [aneUntile_slow data tile slow, lay.data_size, ← hdata, memset_whole, Option.bind_some, hout]

theorem fast_quotients (even : R.toNat % 2 = 0) (fast : P / R = H ∧ R / 2 = W) :
    P.toNat / R.toNat = H.toNat ∧ R.toNat = 2 * W.toNat := by
  have hH : P.toNat / R.toNat = H.toNat := by rw [← fast.1, UInt64.toNat_div]
  have hW : R.toNat / 2 = W.toNat := by rw [← fast.2, UInt64.toNat_div]; rfl
  exact ⟨hH, by omega⟩

/-- On the single copy path the tile has exactly the bytes of the tensor. -/
theorem fast_size (even : R.toNat % 2 = 0)
    (whole : R.toNat ∣ P.toNat) (fast : P / R = H ∧ R / 2 = W) :
    N.toNat * C.toNat * P.toNat = N.toNat * C.toNat * H.toNat * (2 * W.toNat) := by
  obtain ⟨hH, hR⟩ := fast_quotients even fast
  have hP : P.toNat = H.toNat * R.toNat := by rw [← hH, Nat.div_mul_cancel whole]
  rw [← hR, hP, Nat.mul_assoc _ H.toNat]

theorem aneTile_fast (data tile : List UInt8) (fast : P / R = H ∧ R / 2 = W) :
    aneTile data tile N C H W P R = memcpy tile 0 data 0 (N * C * P).toNat := by
  simp only [aneTile, if_pos fast]

theorem aneUntile_fast (data tile : List UInt8) (fast : P / R = H ∧ R / 2 = W) :
    aneUntile data tile N C H W P R = memcpy data 0 tile 0 (N * C * H * W * 2).toNat := by
  simp only [aneUntile, if_pos fast]

end Offsets

/-- Byte `j` of the tile carries a tensor byte. -/
def Payload (N C H W P R : UInt64) (j : Nat) : Prop :=
  ∃ n c h, n < N.toNat ∧ c < C.toNat ∧ h < H.toNat ∧
    (n * C.toNat + c) * P.toNat + h * R.toNat ≤ j ∧
    j < (n * C.toNat + c) * P.toNat + h * R.toNat + 2 * W.toNat

/-- The bytes under rows are the payload where planes start at multiples of `P`. -/
theorem Layout.payload_of_row {N C H W P R : UInt64} (lay : Layout N C H W P R)
    (even : R.toNat % 2 = 0)
    (planes : ∀ n c h : UInt64, n.toNat < N.toNat → c.toNat < C.toNat → h.toNat < H.toNat →
      0 < W.toNat →
      (n.toNat * C.toNat + c.toNat) * planeStride P R = (n.toNat * C.toNat + c.toNat) * P.toNat)
    {j : Nat} : (∃ r ∈ tileRows N C H W P R, r.Covers j) ↔ Payload N C H W P R j := by
  constructor
  · rintro ⟨_, hr, hj⟩
    obtain ⟨n, c, h, hn, hc, hh, rfl⟩ := mem_tileRows.mp hr
    rw [Row.Covers, lay.row_dst even hn hc hh, lay.row_len] at hj
    rw [planes n c h hn hc hh (by omega)] at hj
    exact ⟨_, _, _, hn, hc, hh, hj⟩
  · rintro ⟨n, c, h, hn, hc, hh, hj⟩
    obtain ⟨n, rfl⟩ := exists_word (hn.trans N.toNat_lt)
    obtain ⟨c, rfl⟩ := exists_word (hc.trans C.toNat_lt)
    obtain ⟨h, rfl⟩ := exists_word (hh.trans H.toNat_lt)
    refine ⟨_, mem_tileRows.mpr ⟨n, c, h, hn, hc, hh, rfl⟩, ?_⟩
    rw [Row.Covers, lay.row_dst even hn hc hh, lay.row_len, planes n c h hn hc hh (by omega)]
    exact hj

section RoundTrip
variable {N C H W P R : UInt64} (lay : Layout N C H W P R) (even : R.toNat % 2 = 0)
  (whole : R.toNat ∣ P.toNat)
include lay even whole

theorem Layout.untile_tile {data tile data' : List UInt8}
    (hdata : data.length = N.toNat * C.toNat * H.toNat * (2 * W.toNat))
    (htile : tile.length = N.toNat * C.toNat * P.toNat)
    (hdata' : data'.length = N.toNat * C.toNat * H.toNat * (2 * W.toNat)) :
    ∃ out, aneTile data tile N C H W P R = some out ∧
      aneUntile data' out N C H W P R = some data := by
  by_cases fast : P / R = H ∧ R / 2 = W
  · have size := fast_size (N := N) (C := C) even whole fast
    refine ⟨data, ?_, ?_⟩
    · rw [aneTile_fast _ _ fast, lay.tile_size, size, ← hdata]
      exact memcpy_whole (by omega)
    · rw [aneUntile_fast _ _ fast, lay.data_size, ← hdata]
      exact memcpy_whole (by omega)
  · obtain ⟨out, hout, rows⟩ := lay.aneTile_rows fast hdata htile
    have houtLength : out.length = N.toNat * C.toNat * P.toNat := by
      rw [copyRows_length rows, List.length_replicate, htile]
    obtain ⟨back, hback, rowsBack⟩ := lay.aneUntile_rows fast hdata' houtLength
    refine ⟨out, hout, hback.trans (congrArg some (List.ext_getElem? fun j => ?_))⟩
    have hbackLength : back.length = data.length := by
      rw [copyRows_length rowsBack, List.length_replicate, hdata', hdata]
    by_cases hj : j < data.length
    · obtain ⟨r, hr, hrj⟩ := lay.row_of_data (hdata ▸ hj)
      exact copyRows_roundTrip rows rowsBack (lay.agree even) lay.agree_swap hr hrj
    · rw [List.getElem?_eq_none (by omega), List.getElem?_eq_none (by omega)]

theorem Layout.tile_untile {buffer data tile : List UInt8}
    (hbuffer : buffer.length = N.toNat * C.toNat * P.toNat)
    (padding : ∀ j < buffer.length, ¬ Payload N C H W P R j → buffer[j]? = some 0)
    (hdata : data.length = N.toNat * C.toNat * H.toNat * (2 * W.toNat))
    (htile : tile.length = N.toNat * C.toNat * P.toNat) :
    ∃ out, aneUntile data buffer N C H W P R = some out ∧
      aneTile out tile N C H W P R = some buffer := by
  by_cases fast : P / R = H ∧ R / 2 = W
  · have size := fast_size (N := N) (C := C) even whole fast
    refine ⟨buffer, ?_, ?_⟩
    · rw [aneUntile_fast _ _ fast, lay.data_size, ← size, ← hbuffer]
      exact memcpy_whole (by omega)
    · rw [aneTile_fast _ _ fast, lay.tile_size, ← hbuffer]
      exact memcpy_whole (by omega)
  · obtain ⟨out, hout, rows⟩ := lay.aneUntile_rows fast hdata hbuffer
    have houtLength : out.length = N.toNat * C.toNat * H.toNat * (2 * W.toNat) := by
      rw [copyRows_length rows, List.length_replicate, hdata]
    obtain ⟨back, hback, rowsBack⟩ := lay.aneTile_rows fast houtLength htile
    refine ⟨out, hout, hback.trans (congrArg some (List.ext_getElem? fun j => ?_))⟩
    have hbackLength : back.length = buffer.length := by
      rw [copyRows_length rowsBack, List.length_replicate, htile, hbuffer]
    by_cases carried : ∃ r ∈ tileRows N C H W P R, r.Covers j
    · obtain ⟨r, hr, hrj⟩ := carried
      have swapped : ((tileRows N C H W P R).map Row.swap).map Row.swap =
          tileRows N C H W P R := by simp [Function.comp_def, Row.swap]
      exact copyRows_roundTrip rows (swapped.symm ▸ rowsBack) lay.agree_swap
        (swapped.symm ▸ lay.agree even) (List.mem_map_of_mem hr) hrj
    · rw [copyRows_getElem?_outside rowsBack fun r hr hrj => carried ⟨r, hr, hrj⟩]
      have stride : planeStride P R = P.toNat := Nat.div_mul_cancel whole
      have rows := lay.payload_of_row (j := j) even fun n c h _ _ _ _ => by rw [stride]
      by_cases hj : j < buffer.length
      · rw [padding j hj fun hp => carried (rows.mpr hp)]
        simp [htile, ← hbuffer, hj]
      · have beyond : (List.replicate tile.length (0 : UInt8)).length ≤ j := by
          rw [List.length_replicate]
          omega
        rw [List.getElem?_eq_none beyond, List.getElem?_eq_none (by omega)]

end RoundTrip

/-- Packing and unpacking are inverse on both paths, whatever the destination
held before, as long as whole rows tile a plane. -/
theorem tile_untile_inverse {N C H W P R : UInt64} (lay : Layout N C H W P R)
    (even : R.toNat % 2 = 0) (whole : R.toNat ∣ P.toNat) :
    (∀ data tile data' : List UInt8,
      data.length = N.toNat * C.toNat * H.toNat * (2 * W.toNat) →
      tile.length = N.toNat * C.toNat * P.toNat →
      data'.length = N.toNat * C.toNat * H.toNat * (2 * W.toNat) →
      ∃ out, aneTile data tile N C H W P R = some out ∧
        aneUntile data' out N C H W P R = some data) ∧
    (∀ buffer data tile : List UInt8,
      buffer.length = N.toNat * C.toNat * P.toNat →
      (∀ j < buffer.length, ¬ Payload N C H W P R j → buffer[j]? = some 0) →
      data.length = N.toNat * C.toNat * H.toNat * (2 * W.toNat) →
      tile.length = N.toNat * C.toNat * P.toNat →
      ∃ out, aneUntile data buffer N C H W P R = some out ∧
        aneTile out tile N C H W P R = some buffer) :=
  ⟨fun _ _ _ hdata htile hdata' => lay.untile_tile even whole hdata htile hdata',
    fun _ _ _ hbuffer padding hdata htile => lay.tile_untile even whole hbuffer padding hdata htile⟩

/-- A tile of two channels of two rows of three half-words, in rows of eight bytes and planes of
three such rows. -/
def paddedTile : List UInt8 :=
  (List.range 48).map fun j => if j % 24 < 16 ∧ j % 8 < 6 then UInt8.ofNat (j + 1) else 0

theorem tile_untile_inverse_padded :
    (∃ out, aneTile ((List.range 24).map UInt8.ofNat) (List.replicate 48 7) 1 2 2 3 24 8 =
        some out ∧
      aneUntile (List.replicate 24 9) out 1 2 2 3 24 8 =
        some ((List.range 24).map UInt8.ofNat)) ∧
    ∃ out, aneUntile (List.replicate 24 9) paddedTile 1 2 2 3 24 8 = some out ∧
      aneTile out (List.replicate 48 7) 1 2 2 3 24 8 = some paddedTile := by
  have inverse := tile_untile_inverse (N := 1) (C := 2) (H := 2) (W := 3) (P := 24) (R := 8)
    ⟨by decide, by decide, by decide, by decide⟩ (by decide) (by decide)
  refine ⟨inverse.1 _ _ _ rfl rfl rfl, inverse.2 _ _ _ rfl ?_ rfl rfl⟩
  intro j hj hole
  have below : j < 48 := hj
  have outside : ¬ (j % 24 < 16 ∧ j % 8 < 6) := by
    rintro ⟨row, column⟩
    refine hole ⟨0, j / 24, j % 24 / 8, by decide, ?_, ?_, ?_, ?_⟩
    · show j / 24 < 2
      omega
    · show j % 24 / 8 < 2
      omega
    · show (0 * 2 + j / 24) * 24 + j % 24 / 8 * 8 ≤ j
      omega
    · show j < (0 * 2 + j / 24) * 24 + j % 24 / 8 * 8 + 2 * 3
      omega
  rw [paddedTile, List.getElem?_map, List.getElem?_range below, Option.map_some, if_neg outside]

end Ane.Tile
