import Ane.Tile

/-! Where the half-words of a tensor lie in a tile, and when the copies stay inside
their buffers. The code starts planes at multiples of whole rows and takes a single
copy for any shape whose quotients match, so a plane stride with a remainder is
honoured for a single plane only, and not even there on the single copy path. -/
namespace Ane.Tile
open ByteBuffer

variable {N C H W P R : UInt64}

/-- An index of the tensor. -/
structure InShape (N C H W : UInt64) (n c h w : Nat) : Prop where
  batch : n < N.toNat
  channel : c < C.toNat
  row : h < H.toNat
  column : w < W.toNat

/-- Where half-word (n, c, h, w) of the tensor starts in a tile. -/
def tileAt (C P R : UInt64) (n c h w : Nat) : Nat :=
  (n * C.toNat + c) * P.toNat + h * R.toNat + 2 * w

/-- Where it starts in the tensor itself. -/
def dataAt (C H W : UInt64) (n c h w : Nat) : Nat :=
  (((n * C.toNat + c) * H.toNat + h) * W.toNat + w) * 2

/-- Each half-word of the tensor, both of its bytes, is at its place in the tile. -/
def Carries (N C H W P R : UInt64) (data tile : List UInt8) : Prop :=
  ∀ n c h w, InShape N C H W n c h w → ∀ b < 2,
    tile[tileAt C P R n c h w + b]? = data[dataAt C H W n c h w + b]?

/-- `aneTile` puts every half-word at its place and zeros everywhere else. -/
def TilesInPlace (N C H W P R : UInt64) : Prop :=
  ∀ data tile : List UInt8, data.length = N.toNat * C.toNat * H.toNat * (2 * W.toNat) →
    tile.length = N.toNat * C.toNat * P.toNat →
    ∃ out, aneTile data tile N C H W P R = some out ∧ out.length = tile.length ∧
      Carries N C H W P R data out ∧
      ∀ j < out.length, ¬ Payload N C H W P R j → out[j]? = some 0

/-- `aneUntile` takes every half-word from its place. -/
def UntilesInPlace (N C H W P R : UInt64) : Prop :=
  ∀ data tile : List UInt8, data.length = N.toNat * C.toNat * H.toNat * (2 * W.toNat) →
    tile.length = N.toNat * C.toNat * P.toNat →
    ∃ out, aneUntile data tile N C H W P R = some out ∧ out.length = data.length ∧
      Carries N C H W P R out tile

/-- Whole rows tile a plane, or there is nothing to place, or the rows are copied one
by one and no plane but the first holds anything. -/
def LayoutKept (N C H W P R : UInt64) : Prop :=
  R.toNat ∣ P.toNat ∨ N.toNat * C.toNat = 0 ∨
    (¬ (P / R = H ∧ R / 2 = W) ∧ (N.toNat * C.toNat = 1 ∨ H.toNat = 0 ∨ W.toNat = 0))

theorem dataAt_row (n c h w b : Nat) : dataAt C H W n c h w + b =
    ((n * C.toNat + c) * H.toNat + h) * (2 * W.toNat) + (2 * w + b) := by
  unfold dataAt
  ring

section Rows
variable (lay : Layout N C H W P R) (even : R.toNat % 2 = 0)
  (slow : ¬ (P / R = H ∧ R / 2 = W)) {data tile : List UInt8}
  (hdata : data.length = N.toNat * C.toNat * H.toNat * (2 * W.toNat))
  (htile : tile.length = N.toNat * C.toNat * P.toNat)
include lay even slow hdata htile

/-- What the row by row path leaves in the tile: planes are a whole number of rows
apart. -/
theorem Layout.aneTile_cells : ∃ out, aneTile data tile N C H W P R = some out ∧
    out.length = tile.length ∧
    (∀ n c h : UInt64, n.toNat < N.toNat → c.toNat < C.toNat → h.toNat < H.toNat →
      ∀ i < 2 * W.toNat,
        out[(n.toNat * C.toNat + c.toNat) * planeStride P R + h.toNat * R.toNat + i]? =
          data[((n.toNat * C.toNat + c.toNat) * H.toNat + h.toNat) * (2 * W.toNat) + i]?) ∧
    ∀ j < out.length, (¬ ∃ r ∈ tileRows N C H W P R, r.Covers j) → out[j]? = some 0 := by
  obtain ⟨out, hout, rows⟩ := lay.aneTile_rows slow hdata htile
  have size : out.length = tile.length := by rw [copyRows_length rows, List.length_replicate]
  refine ⟨out, hout, size, ?_, ?_⟩
  · intro n c h hn hc hh i hi
    have member : tileRow C H W P R n c h ∈ tileRows N C H W P R :=
      mem_tileRows.mpr ⟨n, c, h, hn, hc, hh, rfl⟩
    have covered : (tileRow C H W P R n c h).Covers ((tileRow C H W P R n c h).dst + i) :=
      Row.covers_iff.mpr ⟨i, by rw [lay.row_len]; exact hi, rfl⟩
    have landed := copyRows_getElem?_inside rows (lay.agree even) member covered
    rwa [Row.source, Nat.add_sub_cancel_left, lay.row_dst even hn hc hh, lay.row_src hn hc hh]
      at landed
  · intro j hj free
    rw [copyRows_getElem?_outside rows fun r hr hrj => free ⟨r, hr, hrj⟩]
    exact List.getElem?_replicate_of_lt (size ▸ hj)

theorem Layout.aneUntile_cells : ∃ out, aneUntile data tile N C H W P R = some out ∧
    out.length = data.length ∧
    ∀ n c h : UInt64, n.toNat < N.toNat → c.toNat < C.toNat → h.toNat < H.toNat →
      ∀ i < 2 * W.toNat,
        out[((n.toNat * C.toNat + c.toNat) * H.toNat + h.toNat) * (2 * W.toNat) + i]? =
          tile[(n.toNat * C.toNat + c.toNat) * planeStride P R + h.toNat * R.toNat + i]? := by
  obtain ⟨out, hout, rows⟩ := lay.aneUntile_rows slow hdata htile
  have size : out.length = data.length := by rw [copyRows_length rows, List.length_replicate]
  refine ⟨out, hout, size, ?_⟩
  intro n c h hn hc hh i hi
  have member : (tileRow C H W P R n c h).swap ∈ (tileRows N C H W P R).map Row.swap :=
    List.mem_map_of_mem (mem_tileRows.mpr ⟨n, c, h, hn, hc, hh, rfl⟩)
  have covered : (tileRow C H W P R n c h).swap.Covers ((tileRow C H W P R n c h).src + i) :=
    Row.covers_iff.mpr ⟨i, by simp only [Row.swap, lay.row_len]; exact hi, rfl⟩
  have landed := copyRows_getElem?_inside rows lay.agree_swap member covered
  simp only [Row.source, Row.swap, Nat.add_sub_cancel_left] at landed
  rwa [lay.row_dst even hn hc hh, lay.row_src hn hc hh] at landed

end Rows

/-- In a shape that keeps the layout every plane that holds anything starts at its
multiple of `P`. -/
theorem plane_start (kept : LayoutKept N C H W P R) {n c h : Nat}
    (hn : n < N.toNat) (hc : c < C.toNat) (hh : h < H.toNat) (hW : 0 < W.toNat) :
    (n * C.toNat + c) * planeStride P R = (n * C.toNat + c) * P.toNat := by
  have plane := rank_lt hn hc
  obtain whole | none | ⟨-, one | none | none⟩ := kept
  · rw [planeStride, Nat.div_mul_cancel whole]
  · omega
  · have first : n * C.toNat + c = 0 := by omega
    rw [first, Nat.zero_mul, Nat.zero_mul]
  · omega
  · omega

theorem Layout.inPlace_slow (lay : Layout N C H W P R) (even : R.toNat % 2 = 0)
    (slow : ¬ (P / R = H ∧ R / 2 = W)) (kept : LayoutKept N C H W P R) :
    TilesInPlace N C H W P R ∧ UntilesInPlace N C H W P R := by
  refine ⟨?_, ?_⟩
  · intro data tile hdata htile
    obtain ⟨out, hout, size, cells, zeros⟩ := lay.aneTile_cells even slow hdata htile
    refine ⟨out, hout, size, ?_, ?_⟩
    · intro n c h w inside b hb
      obtain ⟨hn, hc, hh, hw⟩ := inside
      have start := plane_start kept hn hc hh (by omega)
      obtain ⟨n, rfl⟩ := exists_word (hn.trans N.toNat_lt)
      obtain ⟨c, rfl⟩ := exists_word (hc.trans C.toNat_lt)
      obtain ⟨h, rfl⟩ := exists_word (hh.trans H.toNat_lt)
      rw [dataAt_row, ← cells n c h hn hc hh _ (by omega), start, tileAt, Nat.add_assoc _ _ b]
    · intro j hj padding
      apply zeros j hj
      rw [lay.payload_of_row even fun n c h hn hc hh hW => plane_start kept hn hc hh hW]
      exact padding
  · intro data tile hdata htile
    obtain ⟨out, hout, size, cells⟩ := lay.aneUntile_cells even slow hdata htile
    refine ⟨out, hout, size, ?_⟩
    intro n c h w inside b hb
    obtain ⟨hn, hc, hh, hw⟩ := inside
    have start := plane_start kept hn hc hh (by omega)
    obtain ⟨n, rfl⟩ := exists_word (hn.trans N.toNat_lt)
    obtain ⟨c, rfl⟩ := exists_word (hc.trans C.toNat_lt)
    obtain ⟨h, rfl⟩ := exists_word (hh.trans H.toNat_lt)
    rw [dataAt_row, cells n c h hn hc hh _ (by omega), start, tileAt, Nat.add_assoc _ _ b]

section Fast
variable (lay : Layout N C H W P R) (even : R.toNat % 2 = 0) (fast : P / R = H ∧ R / 2 = W)
include lay even fast

omit lay in
/-- On the single copy path tensor and tile are byte for byte the same. -/
theorem fast_offset (whole : R.toNat ∣ P.toNat) (n c h w : Nat) :
    tileAt C P R n c h w = dataAt C H W n c h w := by
  obtain ⟨hH, hR⟩ := fast_quotients even fast
  have hP : P.toNat = H.toNat * R.toNat := by rw [← hH, Nat.div_mul_cancel whole]
  rw [tileAt, dataAt, hP, hR]
  ring

theorem Layout.fast_payload (whole : R.toNat ∣ P.toNat) {j : Nat}
    (hj : j < N.toNat * C.toNat * P.toNat) : Payload N C H W P R j := by
  have size := fast_size (N := N) (C := C) even whole fast
  have stride : planeStride P R = P.toNat := Nat.div_mul_cancel whole
  obtain ⟨hH, hR⟩ := fast_quotients even fast
  have hP : P.toNat = H.toNat * R.toNat := by rw [← hH, Nat.div_mul_cancel whole]
  obtain ⟨r, member, covers⟩ := lay.row_of_data (size ▸ hj)
  rw [← lay.payload_of_row even fun n c h _ _ _ _ => by rw [stride]]
  refine ⟨r, member, ?_⟩
  obtain ⟨n, c, h, hn, hc, hh, rfl⟩ := mem_tileRows.mp member
  have same : (tileRow C H W P R n c h).dst = (tileRow C H W P R n c h).src := by
    rw [lay.row_dst even hn hc hh, lay.row_src hn hc hh, stride, hP, ← hR]
    ring
  rw [Row.Covers, same]
  exact covers

theorem Layout.inPlace_fast (kept : R.toNat ∣ P.toNat ∨ N.toNat * C.toNat = 0) :
    TilesInPlace N C H W P R ∧ UntilesInPlace N C H W P R := by
  have size : N.toNat * C.toNat * P.toNat = N.toNat * C.toNat * H.toNat * (2 * W.toNat) := by
    obtain whole | none := kept
    · exact fast_size even whole fast
    · simp [none]
  have place {data : List UInt8} (hdata : data.length = N.toNat * C.toNat * P.toNat) :
      Carries N C H W P R data data ∧
        ∀ j < data.length, ¬ Payload N C H W P R j → data[j]? = some 0 := by
    obtain whole | none := kept
    · refine ⟨fun n c h w _ b _ => by rw [fast_offset even fast whole], ?_⟩
      intro j hj padding
      exact absurd (lay.fast_payload even fast whole (hdata ▸ hj)) padding
    · refine ⟨?_, fun j hj => by rw [hdata, none, Nat.zero_mul] at hj; omega⟩
      rintro n c h w ⟨hn, hc, -, -⟩
      have plane := rank_lt hn hc
      omega
  refine ⟨?_, ?_⟩
  · intro data tile hdata htile
    refine ⟨data, ?_, by omega, place (by omega)⟩
    rw [aneTile_fast _ _ fast, lay.tile_size, size, ← hdata]
    exact memcpy_whole (by omega)
  · intro data tile hdata htile
    refine ⟨tile, ?_, by omega, (place htile).1⟩
    rw [aneUntile_fast _ _ fast, lay.data_size, ← size, ← htile]
    exact memcpy_whole (by omega)

/-- Otherwise the single copy reads more than the tensor has. -/
theorem Layout.aneTile_overread (some_plane : 0 < N.toNat * C.toNat) (rest : ¬ R.toNat ∣ P.toNat)
    {data : List UInt8} (hdata : data.length = N.toNat * C.toNat * H.toNat * (2 * W.toNat))
    (tile : List UInt8) : aneTile data tile N C H W P R = none := by
  obtain ⟨hH, hR⟩ := fast_quotients even fast
  have short : H.toNat * R.toNat < P.toNat := by
    refine Nat.lt_of_le_of_ne lay.plane_fits fun whole => rest ?_
    exact ⟨H.toNat, by rw [← whole, Nat.mul_comm]⟩
  have more : data.length < N.toNat * C.toNat * P.toNat := by
    rw [hdata, Nat.mul_assoc, ← hR]
    exact Nat.mul_lt_mul_of_pos_left short some_plane
  rw [aneTile_fast _ _ fast, lay.tile_size, memcpy, if_neg]
  omega

end Fast

theorem exists_plane {N C k : Nat} (hk : k < N * C) : ∃ n < N, ∃ c < C, n * C + c = k := by
  have pos : 0 < C := Nat.pos_of_mul_pos_left (Nat.zero_lt_of_lt hk)
  exact ⟨k / C, (Nat.div_lt_iff_lt_mul pos).mpr hk, k % C, Nat.mod_lt k pos,
    Nat.div_add_mod' k C⟩

/-- All zeros but for one byte. -/
theorem getElem?_marked {size mark j : Nat}
    (h : ((List.replicate size (0 : UInt8)).set mark 1)[j]? = some 1) : j = mark := by
  by_contra other
  simp [List.getElem?_set_ne (Ne.symm other), List.getElem?_replicate] at h

/-- The row that starts plane 1 of the tensor reaches the second plane of the tile only
when whole rows tile a plane. -/
theorem dvd_of_second {plane h i : Nat} (hh : h < H.toNat) (hi : i < 2 * W.toNat)
    (source : (plane * H.toNat + h) * (2 * W.toNat) + i = H.toNat * (2 * W.toNat))
    (dest : plane * planeStride P R + h * R.toNat + i = P.toNat) : R.toNat ∣ P.toNat := by
  have pos : 0 < H.toNat := Nat.zero_lt_of_lt hh
  have row := rank_inj hi (by omega : 0 < 2 * W.toNat) (source.trans (Nat.add_zero _).symm)
  have first := rank_inj hh pos (row.1.trans (by omega : H.toNat = 1 * H.toNat + 0))
  rw [row.2, first.1, first.2, Nat.one_mul, Nat.zero_mul, planeStride] at dest
  exact ⟨P.toNat / R.toNat, by rw [Nat.mul_comm]; exact dest.symm⟩

/-- Row by row, a plane stride with a remainder moves the second plane. -/
theorem Layout.not_inPlace_slow (lay : Layout N C H W P R) (even : R.toNat % 2 = 0)
    (slow : ¬ (P / R = H ∧ R / 2 = W)) (rest : ¬ R.toNat ∣ P.toNat)
    (planes : 1 < N.toNat * C.toNat) (hH : 0 < H.toNat) (hW : 0 < W.toNat) :
    ¬ TilesInPlace N C H W P R := by
  intro places
  -- a tensor that is zero but for the first byte of its second plane
  let mark := H.toNat * (2 * W.toNat)
  let data : List UInt8 :=
    (List.replicate (N.toNat * C.toNat * H.toNat * (2 * W.toNat)) 0).set mark 1
  have hdata : data.length = N.toNat * C.toNat * H.toNat * (2 * W.toNat) := by simp [data]
  have inside : mark < N.toNat * C.toNat * H.toNat * (2 * W.toNat) := by
    rw [Nat.mul_assoc _ H.toNat]
    exact lt_mul_of_one_lt_left (by positivity) planes
  have marked : data[mark]? = some 1 := by simp [data, inside]
  obtain ⟨n, hn, c, hc, one⟩ := exists_plane planes
  obtain ⟨out, hout, size, carries, -⟩ := places data _ hdata List.length_replicate
  obtain ⟨out', hout', -, cells, zeros⟩ :=
    lay.aneTile_cells even slow hdata
      (List.length_replicate (n := N.toNat * C.toNat * P.toNat) (a := (0 : UInt8)))
  obtain rfl : out = out' := Option.some.inj (hout.symm.trans hout')
  have second : out[P.toNat]? = some 1 := by
    have here := carries n c 0 0 ⟨hn, hc, hH, hW⟩ 0 (by decide)
    have start : dataAt C H W n c 0 0 + 0 = mark := by
      rw [dataAt_row, one]
      simp [mark]
    rwa [start, marked, tileAt, one, Nat.one_mul, Nat.zero_mul] at here
  by_cases covered : ∃ r ∈ tileRows N C H W P R, r.Covers P.toNat
  · obtain ⟨r, member, covers⟩ := covered
    obtain ⟨n, c, h, hn, hc, hh, rfl⟩ := mem_tileRows.mp member
    obtain ⟨i, hi, at_⟩ := Row.covers_iff.mp covers
    rw [lay.row_len] at hi
    rw [lay.row_dst even hn hc hh] at at_
    have landed := cells n c h hn hc hh i hi
    rw [← at_, second] at landed
    exact rest (dvd_of_second hh hi (getElem?_marked landed.symm) at_.symm)
  · have pos : 0 < H.toNat * R.toNat := Nat.mul_pos hH lay.row_pos
    have plane : P.toNat < out.length := by
      rw [size, List.length_replicate]
      exact lt_mul_of_one_lt_left (pos.trans_le lay.plane_fits) planes
    have zero := zeros P.toNat plane covered
    rw [second] at zero
    cases zero

/-- Every tensor goes to its place and comes back from there exactly in the shapes
that keep the layout. -/
theorem tile_layout_iff (lay : Layout N C H W P R) (even : R.toNat % 2 = 0) :
    (TilesInPlace N C H W P R ∧ UntilesInPlace N C H W P R) ↔ LayoutKept N C H W P R := by
  by_cases fast : P / R = H ∧ R / 2 = W
  · constructor
    · rintro ⟨places, -⟩
      by_contra moved
      obtain ⟨rest, planes, -⟩ := not_or.mp moved |>.imp_right not_or.mp
      have overread := lay.aneTile_overread even fast (Nat.pos_of_ne_zero planes) rest
        (List.length_replicate (a := (0 : UInt8))) (List.replicate (N.toNat * C.toNat * P.toNat) 0)
      obtain ⟨out, hout, -⟩ := places _ _ List.length_replicate List.length_replicate
      rw [overread] at hout
      cases hout
    · rintro (whole | none | ⟨slow, -⟩)
      · exact lay.inPlace_fast even fast (.inl whole)
      · exact lay.inPlace_fast even fast (.inr none)
      · exact absurd fast slow
  · constructor
    · rintro ⟨places, -⟩
      by_contra moved
      simp only [LayoutKept, not_or] at moved
      obtain ⟨rest, planes, small⟩ := moved
      obtain ⟨one, rows, columns⟩ :
          ¬ N.toNat * C.toNat = 1 ∧ ¬ H.toNat = 0 ∧ ¬ W.toNat = 0 := by
        rw [← not_or, ← not_or]
        exact fun shape => small ⟨fast, shape⟩
      exact lay.not_inPlace_slow even fast rest (by omega) (Nat.pos_of_ne_zero rows)
        (Nat.pos_of_ne_zero columns) places
    · exact lay.inPlace_slow even fast

/-- One plane of two rows of three half-words, with four bytes behind its rows. -/
theorem tile_layout_iff_remainder : TilesInPlace 1 1 2 3 20 8 ∧ UntilesInPlace 1 1 2 3 20 8 :=
  (tile_layout_iff ⟨by decide, by decide, by decide, by decide⟩ (by decide)).mpr
    (.inr (.inr ⟨by decide, .inl (by decide)⟩))

/-- Two planes of one half-word, rows of 4 and planes of 6 bytes: the second plane is
put at byte 4. -/
theorem not_tilesInPlace_remainder :
    ¬ ∀ N C H W P R, Layout N C H W P R → R.toNat % 2 = 0 →
      TilesInPlace N C H W P R ∧ UntilesInPlace N C H W P R := by
  intro places
  have shape : Layout 1 2 1 1 6 4 := ⟨by decide, by decide, by decide, by decide⟩
  obtain ⟨out, hout, -, carries, -⟩ :=
    (places 1 2 1 1 6 4 shape (by decide)).1 [1, 2, 3, 4] (List.replicate 12 0) rfl rfl
  have result : aneTile [1, 2, 3, 4] (List.replicate 12 0) 1 2 1 1 6 4 =
      some [1, 2, 0, 0, 3, 4, 0, 0, 0, 0, 0, 0] := by decide
  obtain rfl := Option.some.inj (hout.symm.trans result)
  have second := carries 0 1 0 0 ⟨by decide, by decide, by decide, by decide⟩ 0 (by decide)
  exact absurd second (by decide)

theorem memcpy_isSome {α : Type} (dst src : List α) (n : Nat) :
    (memcpy dst 0 src 0 n).isSome ↔ n ≤ dst.length ∧ n ≤ src.length := by
  simp [memcpy]

/-- No copy leaves its buffers exactly when rows are copied one by one, or there is no
plane, or a plane has no padding at all. -/
theorem copies_inside_iff (lay : Layout N C H W P R) {data tile : List UInt8}
    (hdata : data.length = N.toNat * C.toNat * H.toNat * (2 * W.toNat))
    (htile : tile.length = N.toNat * C.toNat * P.toNat) :
    ((aneTile data tile N C H W P R).isSome ∧ (aneUntile data tile N C H W P R).isSome) ↔
      (¬ (P / R = H ∧ R / 2 = W) ∨ N.toNat * C.toNat = 0 ∨ P.toNat = H.toNat * (2 * W.toNat)) := by
  by_cases fast : P / R = H ∧ R / 2 = W
  · have smaller := lay.data_le
    have plane : H.toNat * (2 * W.toNat) ≤ P.toNat :=
      (Nat.mul_le_mul_left _ lay.row_fits).trans lay.plane_fits
    have enough : N.toNat * C.toNat * P.toNat ≤ N.toNat * C.toNat * H.toNat * (2 * W.toNat) ↔
        N.toNat * C.toNat = 0 ∨ P.toNat = H.toNat * (2 * W.toNat) := by
      rw [Nat.mul_assoc _ H.toNat]
      constructor
      · intro le
        obtain none | some_plane := Nat.eq_zero_or_pos (N.toNat * C.toNat)
        · exact .inl none
        · exact .inr (Nat.le_antisymm (Nat.le_of_mul_le_mul_left le some_plane) plane)
      · rintro (none | same)
        · rw [none, Nat.zero_mul, Nat.zero_mul]
        · rw [same]
    rw [aneTile_fast _ _ fast, aneUntile_fast _ _ fast, memcpy_isSome, memcpy_isSome, lay.tile_size,
      lay.data_size, hdata, htile]
    simp only [fast, and_self, not_true_eq_false, false_or, ← enough]
    omega
  · obtain ⟨out, hout, -⟩ := lay.aneTile_rows fast hdata htile
    obtain ⟨back, hback, -⟩ := lay.aneUntile_rows fast hdata htile
    simp [hout, hback, fast]

/-- Rows of an odd stride, copied one by one. -/
theorem copies_inside_iff_odd :
    (aneTile [1, 2, 3, 4] (List.replicate 14 0) 1 1 2 1 14 5).isSome ∧
      (aneUntile [1, 2, 3, 4] (List.replicate 14 0) 1 1 2 1 14 5).isSome :=
  (copies_inside_iff (N := 1) (C := 1) (H := 2) (W := 1) (P := 14) (R := 5)
    ⟨by decide, by decide, by decide, by decide⟩ rfl rfl).mpr (.inl (by decide))

/-- One half-word in a plane of three bytes: the copy takes three bytes of a tensor of
two. -/
theorem not_copiesInside_overread :
    ¬ ∀ N C H W P R, Layout N C H W P R → ∀ data tile : List UInt8,
      data.length = N.toNat * C.toNat * H.toNat * (2 * W.toNat) →
      tile.length = N.toNat * C.toNat * P.toNat →
      (aneTile data tile N C H W P R).isSome ∧ (aneUntile data tile N C H W P R).isSome := by
  intro inside
  have shape : Layout 1 1 1 1 3 2 := ⟨by decide, by decide, by decide, by decide⟩
  have copied := (inside 1 1 1 1 3 2 shape [1, 2] [0, 0, 0] rfl rfl).1
  exact absurd copied (by decide)

end Ane.Tile
