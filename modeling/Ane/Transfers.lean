import Ane.Libane
import Ane.TileFront
import Ane.TileLayout
import Mathlib.Data.List.Induction

/-! Sending inputs to a network and reading its outputs. The counts, the tile table and the
shapes of a network are what its creator put there: `ane_model_init` leaves them zero, and then
every transfer is refused. A copy outside a buffer or an index outside an array has no result. -/
namespace Ane.Libane
open ByteBuffer Tile

structure Nchw where
  N : UInt64
  C : UInt64
  H : UInt64
  W : UInt64
  P : UInt64
  R : UInt64

/-- A network as the transfers see it. `chans` holds the bytes behind the mapping of each
channel, none if there is no mapping. -/
structure Network where
  srcCount : UInt32
  dstCount : UInt32
  tiles : Nat → UInt32
  nchw : Nat → Nchw
  chans : Nat → List UInt8

namespace Network

def tileSize (nn : Network) (bdx : Nat) : UInt64 := tileShift (nn.tiles bdx).toUInt64

def srcBdx (nn : Network) (idx : UInt32) : UInt32 := 4 + nn.dstCount + idx
def dstBdx (idx : UInt32) : UInt32 := 4 + idx

/-- An index into the arrays of the model and of the channels. -/
def slot (bdx : UInt32) : Option Nat :=
  if bdx.toNat < ANE_MAX_TILE_COUNT then some bdx.toNat else none

def setChan (nn : Network) (bdx : Nat) (bytes : List UInt8) : Network :=
  { nn with chans := Function.update nn.chans bdx bytes }

def aneSrcSize (nn : Network) (idx : UInt32) : Option UInt64 :=
  if idx ≥ nn.srcCount then some 0 else (slot (nn.srcBdx idx)).map nn.tileSize

def aneDstSize (nn : Network) (idx : UInt32) : Option UInt64 :=
  if idx ≥ nn.dstCount then some 0 else (slot (dstBdx idx)).map nn.tileSize

def aneSend (nn : Network) (from_ : List UInt8) (idx : UInt32) : Option Network :=
  if idx ≥ nn.srcCount then some nn
  else do
    let bdx ← slot (nn.srcBdx idx)
    let chan ← memcpy (nn.chans bdx) 0 from_ 0 (nn.tileSize bdx).toNat
    some (nn.setChan bdx chan)

/-- The buffer `dst` after the call. -/
def aneRead (nn : Network) (dst : List UInt8) (idx : UInt32) : Option (List UInt8) :=
  if idx ≥ nn.dstCount then some dst
  else do
    let bdx ← slot (dstBdx idx)
    memcpy dst 0 (nn.chans bdx) 0 (nn.tileSize bdx).toNat

def aneTileSend (nn : Network) (from_ : List UInt8) (idx : UInt32) : Option Network :=
  if idx ≥ nn.srcCount then some nn
  else do
    let bdx ← slot (nn.srcBdx idx)
    let s := nn.nchw bdx
    let chan ← aneTile from_ (nn.chans bdx) s.N s.C s.H s.W s.P s.R
    some (nn.setChan bdx chan)

def aneTileRead (nn : Network) (dst : List UInt8) (idx : UInt32) : Option (List UInt8) :=
  if idx ≥ nn.dstCount then some dst
  else do
    let bdx ← slot (dstBdx idx)
    let s := nn.nchw bdx
    aneUntile dst (nn.chans bdx) s.N s.C s.H s.W s.P s.R

/-- The binding takes 32 buffers, the missing ones empty. What lies behind them is null, and
nothing can be copied there. -/
def argument (xs : List (List UInt8)) (i : Nat) : Option (List UInt8) :=
  if i < 32 then some (xs.getD i []) else none

def pyaneSend (nn : Network) (xs : List (List UInt8)) : Option Network :=
  (List.range nn.srcCount.toNat).foldlM (fun nn i => do
    let x ← argument xs i
    nn.aneTileSend x (UInt32.ofNat i)) nn

/-- One round of the loop of `pyaneRead`. -/
def readArgument (nn : Network) (xs : List (List UInt8)) (i : Nat) :
    Option (List (List UInt8)) := do
  let x ← argument xs i
  let out ← nn.aneTileRead x (UInt32.ofNat i)
  some (xs.set i out)

/-- The buffers after the call. -/
def pyaneRead (nn : Network) (xs : List (List UInt8)) : Option (List (List UInt8)) :=
  (List.range nn.dstCount.toNat).foldlM nn.readArgument xs

end Network

namespace Nchw

/-- The bytes of a tensor of this shape, and of its tile. -/
def dataSize (s : Nchw) : Nat := s.N.toNat * s.C.toNat * s.H.toNat * (2 * s.W.toNat)
def planes (s : Nchw) : Nat := s.N.toNat * s.C.toNat * s.P.toNat

/-- A shape whose tile fits a channel of `size` bytes. -/
structure Fits (s : Nchw) (size : Nat) : Prop where
  layout : Layout s.N s.C s.H s.W s.P s.R
  even : s.R.toNat % 2 = 0
  whole : s.R.toNat ∣ s.P.toNat
  room : s.planes ≤ size

/-- The half-words of a tensor are at their places in a channel. -/
def InPlace (s : Nchw) (data chan : List UInt8) : Prop := Carries s.N s.C s.H s.W s.P s.R data chan

/-- A channel after a tensor is packed into it. -/
structure Packed (s : Nchw) (data chan : List UInt8) : Prop where
  inPlace : s.InPlace data chan
  padding : ∀ j < s.planes, ¬ Payload s.N s.C s.H s.W s.P s.R j → chan[j]? = some 0

variable {s : Nchw} {data chan dst : List UInt8}

theorem Fits.tilesInPlace {size : Nat} (fits : s.Fits size) :
    TilesInPlace s.N s.C s.H s.W s.P s.R ∧ UntilesInPlace s.N s.C s.H s.W s.P s.R := by
  by_cases fast : s.P / s.R = s.H ∧ s.R / 2 = s.W
  · exact fits.layout.inPlace_fast fits.even fast (.inl fits.whole)
  · exact fits.layout.inPlace_slow fits.even fast (.inl fits.whole)

theorem Fits.front (fits : s.Fits chan.length) : (chan.take s.planes).length = s.planes := by
  rw [List.length_take]
  exact Nat.min_eq_left fits.room

theorem dataAt_lt {n c h w b : Nat} (inside : InShape s.N s.C s.H s.W n c h w) (half : b < 2) :
    dataAt s.C s.H s.W n c h w + b < s.dataSize := by
  have plane := rank_lt (rank_lt inside.batch inside.channel) inside.row
  have column := inside.column
  rw [dataAt_row]
  exact rank_lt plane (by omega)

theorem InPlace.of_take (length : data.length = s.dataSize)
    (front : s.InPlace data (chan.take s.planes)) : s.InPlace data chan := by
  intro n c h w inside b half
  have here := front n c h w inside b half
  rw [List.getElem?_take] at here
  split at here
  next => exact here
  next =>
    have some_byte := List.getElem?_eq_getElem (length ▸ dataAt_lt inside half)
    rw [← here] at some_byte
    cases some_byte

/-- A channel holds one tensor only. -/
theorem InPlace.unique {data' : List UInt8} (layout : Layout s.N s.C s.H s.W s.P s.R)
    (length : data.length = s.dataSize) (length' : data'.length = s.dataSize)
    (one : s.InPlace data chan) (other : s.InPlace data' chan) : data = data' := by
  refine List.ext_getElem? fun j => ?_
  by_cases inside : j < s.dataSize
  · obtain ⟨r, member, covers⟩ := layout.row_of_data inside
    obtain ⟨n, c, h, hn, hc, hh, rfl⟩ := mem_tileRows.mp member
    obtain ⟨i, hi, rfl⟩ := Row.covers_iff.mp covers
    have column : i < 2 * s.W.toNat := layout.row_len n c h ▸ hi
    have shape : InShape s.N s.C s.H s.W n.toNat c.toNat h.toNat (i / 2) :=
      ⟨hn, hc, hh, by omega⟩
    have place : dataAt s.C s.H s.W n.toNat c.toNat h.toNat (i / 2) + i % 2 =
        (tileRow s.C s.H s.W s.P s.R n c h).swap.dst + i := by
      rw [dataAt_row, Nat.div_add_mod, Row.swap, layout.row_src hn hc hh]
    have half : i % 2 < 2 := Nat.mod_lt _ Nat.two_pos
    rw [← place, ← one _ _ _ _ shape _ half, other _ _ _ _ shape _ half]
  · rw [List.getElem?_eq_none (by omega), List.getElem?_eq_none (by omega)]

theorem Fits.aneTile (fits : s.Fits chan.length) (length : data.length = s.dataSize) :
    ∃ out, aneTile data chan s.N s.C s.H s.W s.P s.R = some out ∧ out.length = chan.length ∧
      s.Packed data out := by
  have room := fits.room
  obtain ⟨tile, packed, size, carried, padding⟩ :=
    fits.tilesInPlace.1 data (chan.take s.planes) length fits.front
  rw [fits.front] at size
  have parts : Tile.aneTile data (chan.take s.planes ++ chan.drop s.planes)
      s.N s.C s.H s.W s.P s.R = (Tile.aneTile data (chan.take s.planes)
        s.N s.C s.H s.W s.P s.R).map (· ++ chan.drop s.planes) :=
    fits.layout.aneTile_append fits.front
  rw [List.take_append_drop, packed, Option.map_some] at parts
  refine ⟨_, parts, ?_, ?_, ?_⟩
  · rw [List.length_append, List.length_drop, size]
    omega
  · apply InPlace.of_take length
    rwa [← size, List.take_left]
  · intro j inside hole
    rw [List.getElem?_append_left (by omega)]
    exact padding j (by omega) hole

/-- Unpacking finds the tensor that is in place, whatever the padding holds. -/
theorem Fits.aneUntile (fits : s.Fits chan.length) (length : data.length = s.dataSize)
    (inPlace : s.InPlace data chan) (room : dst.length = s.dataSize) :
    aneUntile dst chan s.N s.C s.H s.W s.P s.R = some data := by
  obtain ⟨out, unpacked, size, carried⟩ :=
    fits.tilesInPlace.2 dst (chan.take s.planes) room fits.front
  have parts : Tile.aneUntile dst (chan.take s.planes ++ chan.drop s.planes)
      s.N s.C s.H s.W s.P s.R = Tile.aneUntile dst (chan.take s.planes) s.N s.C s.H s.W s.P s.R :=
    fits.layout.aneUntile_append fits.front
  rw [List.take_append_drop, unpacked] at parts
  have found : s.InPlace out chan := InPlace.of_take (size.trans room) carried
  rw [parts, found.unique fits.layout (size.trans room) length inPlace]

end Nchw

namespace Network

/-- What the creator of a network promises: a transfer finds every channel it can name in the
arrays, mapped, and large enough for a tile of its shape. -/
structure WellLaid (nn : Network) : Prop where
  table : 4 + nn.dstCount.toNat + nn.srcCount.toNat ≤ ANE_MAX_TILE_COUNT
  mapped : ∀ b, 4 ≤ b → b < 4 + nn.dstCount.toNat + nn.srcCount.toNat →
    (nn.chans b).length = (nn.tileSize b).toNat
  fits : ∀ b, 4 ≤ b → b < 4 + nn.dstCount.toNat + nn.srcCount.toNat →
    (nn.nchw b).Fits (nn.tileSize b).toNat

/-- What happens to the channels of a network between reads. -/
inductive Transfer
  | send (from_ : List UInt8) (idx : UInt32)
  | tileSend (from_ : List UInt8) (idx : UInt32)
  /-- The device fills a channel. -/
  | device (bdx : Nat) (bytes : List UInt8)

def transfer (nn : Network) : Transfer → Option Network
  | .send from_ idx => nn.aneSend from_ idx
  | .tileSend from_ idx => nn.aneTileSend from_ idx
  | .device bdx bytes => some (nn.setChan bdx bytes)

def transferAll (nn : Network) (ts : List Transfer) : Option Network := ts.foldlM transfer nn

/-- The place of an input among the channels, without the wrap around of `srcBdx`. -/
def inputAt (nn : Network) (idx : UInt32) : Nat := 4 + nn.dstCount.toNat + idx.toNat

/-- The channel a transfer fills, none if the index check turns it away. -/
def channel (nn : Network) : Transfer → Option Nat
  | .send _ idx | .tileSend _ idx =>
    if idx ≥ nn.srcCount then none else some (nn.inputAt idx)
  | .device bdx _ => some bdx

/-- The buffers that come with a transfer have the sizes of its channel. -/
def Sized (nn : Network) (t : Transfer) : Prop :=
  ∀ b, nn.channel t = some b → match t with
    | .send from_ _ => (nn.tileSize b).toNat ≤ from_.length
    | .tileSend from_ _ => from_.length = (nn.nchw b).dataSize
    | .device _ bytes => bytes.length = (nn.chans b).length

/-- The transfer that filled a channel last. -/
def last (nn : Network) (ts : List Transfer) (b : Nat) : Option Transfer :=
  (ts.filter fun t => nn.channel t = some b).getLast?

/-- What that transfer leaves in the channel. -/
def Holds (nn : Network) (b : Nat) (bytes : List UInt8) : Option Transfer → Prop
  | none => bytes = nn.chans b
  | some (.send from_ _) => bytes = from_.take (nn.tileSize b).toNat
  | some (.tileSend from_ _) => (nn.nchw b).Packed from_ bytes
  | some (.device _ written) => bytes = written

section Indices
variable {nn : Network} {idx : UInt32}

theorem slot_srcBdx (table : 4 + nn.dstCount.toNat + nn.srcCount.toNat ≤ ANE_MAX_TILE_COUNT)
    (below : idx < nn.srcCount) : slot (nn.srcBdx idx) = some (nn.inputAt idx) := by
  have index : idx.toNat < nn.srcCount.toNat := below
  have arrays : ANE_MAX_TILE_COUNT = 97 := rfl
  have exact_ : (nn.srcBdx idx).toNat = nn.inputAt idx := by
    rw [srcBdx, UInt32.toNat_add, UInt32.toNat_add]
    change ((4 + nn.dstCount.toNat) % 2 ^ 32 + idx.toNat) % 2 ^ 32 =
      4 + nn.dstCount.toNat + idx.toNat
    omega
  rw [slot, exact_, if_pos]
  change 4 + nn.dstCount.toNat + idx.toNat < _
  omega

theorem slot_dstBdx (table : 4 + nn.dstCount.toNat ≤ ANE_MAX_TILE_COUNT)
    (below : idx < nn.dstCount) : slot (dstBdx idx) = some (4 + idx.toNat) := by
  have index : idx.toNat < nn.dstCount.toNat := below
  have arrays : ANE_MAX_TILE_COUNT = 97 := rfl
  have exact_ : (dstBdx idx).toNat = 4 + idx.toNat := by
    rw [dstBdx, UInt32.toNat_add]
    change (4 + idx.toNat) % 2 ^ 32 = _
    omega
  rw [slot, exact_, if_pos (by omega)]

/-- The index checks compare with the counts only. They keep every index inside the arrays of
the model exactly if both counts fit those together. -/
theorem slots_iff (nn : Network) :
    (∀ idx, nn.aneSrcSize idx ≠ none ∧ nn.aneDstSize idx ≠ none) ↔
      4 + nn.dstCount.toNat + nn.srcCount.toNat ≤ ANE_MAX_TILE_COUNT := by
  constructor
  · intro inside
    have arrays : ANE_MAX_TILE_COUNT = 97 := rfl
    by_contra beyond
    by_cases outputs : nn.dstCount.toNat ≤ 93
    · -- the first input behind the arrays
      have first : (UInt32.ofNat (93 - nn.dstCount.toNat)).toNat = 93 - nn.dstCount.toNat :=
        UInt32.toNat_ofNat_of_lt' (by change _ < 2 ^ 32; omega)
      have below : ¬ UInt32.ofNat (93 - nn.dstCount.toNat) ≥ nn.srcCount := by
        rw [ge_iff_le, UInt32.le_iff_toNat_le, first]
        omega
      have behind : (nn.srcBdx (UInt32.ofNat (93 - nn.dstCount.toNat))).toNat = 97 := by
        rw [srcBdx, UInt32.toNat_add, UInt32.toNat_add, first]
        change ((4 + nn.dstCount.toNat) % 2 ^ 32 + _) % 2 ^ 32 = _
        omega
      apply (inside (UInt32.ofNat (93 - nn.dstCount.toNat))).1
      rw [aneSrcSize, if_neg below, slot, behind, if_neg (by omega), Option.map_none]
    · have below : ¬ (93 : UInt32) ≥ nn.dstCount := by
        rw [ge_iff_le, UInt32.le_iff_toNat_le]
        change ¬ nn.dstCount.toNat ≤ 93
        exact outputs
      apply (inside 93).2
      rw [aneDstSize, if_neg below]
      rfl
  · intro table idx
    constructor
    · unfold aneSrcSize
      split
      next => exact Option.some_ne_none 0
      next below =>
        rw [slot_srcBdx table (UInt32.not_le.mp below)]
        exact Option.some_ne_none _
    · unfold aneDstSize
      split
      next => exact Option.some_ne_none 0
      next below =>
        rw [slot_dstBdx (by omega) (UInt32.not_le.mp below)]
        exact Option.some_ne_none _

end Indices

section Steps
variable {nn nn' : Network} {t : Transfer} {ts : List Transfer} {b : Nat} {bytes : List UInt8}

/-- A network with other bytes in its channels, as many of them. -/
structure Refilled (nn nn' : Network) : Prop where
  tables : nn' = { nn with chans := nn'.chans }
  lengths : ∀ b, (nn'.chans b).length = (nn.chans b).length

theorem Refilled.channel (same : Refilled nn nn') : nn'.channel t = nn.channel t := by
  rw [same.tables]
  rfl

theorem Refilled.wellLaid (same : Refilled nn nn') (laid : nn.WellLaid) : nn'.WellLaid := by
  have lengths := same.lengths
  rw [same.tables] at lengths ⊢
  exact ⟨laid.table, fun b low high => (lengths b).trans (laid.mapped b low high), laid.fits⟩

theorem Refilled.sized (same : Refilled nn nn') (sized : nn.Sized t) : nn'.Sized t := by
  intro b fills
  rw [same.channel] at fills
  have sizes := sized b fills
  have lengths := same.lengths b
  rw [same.tables] at lengths ⊢
  cases t with
  | send | tileSend => exact sizes
  | device => exact sizes.trans lengths.symm

@[simp] theorem setChan_self : (nn.setChan b bytes).chans b = bytes := Function.update_self ..

@[simp] theorem setChan_of_ne {c : Nat} (other : c ≠ b) :
    (nn.setChan b bytes).chans c = nn.chans c := Function.update_of_ne other ..

theorem setChan_refilled (length : bytes.length = (nn.chans b).length) :
    Refilled nn (nn.setChan b bytes) := by
  refine ⟨rfl, fun c => ?_⟩
  by_cases same : c = b
  · rw [same, setChan_self, length]
  · rw [setChan_of_ne same]

/-- One transfer fills its channel and no other. -/
structure Filled (nn nn' : Network) (t : Transfer) : Prop where
  refilled : Refilled nn nn'
  holds : ∀ b, nn.channel t = some b → nn.Holds b (nn'.chans b) (some t)
  frame : ∀ b, nn.channel t ≠ some b → nn'.chans b = nn.chans b

theorem setChan_filled (fills : nn.channel t = some b)
    (length : bytes.length = (nn.chans b).length) (holds : nn.Holds b bytes (some t)) :
    Filled nn (nn.setChan b bytes) t := by
  refine ⟨setChan_refilled length, ?_, ?_⟩
  · intro c same
    have here : b = c := Option.some.inj (fills.symm.trans same)
    subst here
    rwa [setChan_self]
  · intro c other
    refine setChan_of_ne fun here => other ?_
    rw [fills, here]

theorem refused_filled (refused : nn.channel t = none) : Filled nn nn t :=
  ⟨⟨rfl, fun _ => rfl⟩,
    fun b fills => absurd (refused.symm.trans fills) (Option.some_ne_none b).symm, fun _ _ => rfl⟩

theorem WellLaid.input (laid : nn.WellLaid) {idx : UInt32} (accepted : ¬ idx ≥ nn.srcCount) :
    slot (nn.srcBdx idx) = some (nn.inputAt idx) ∧
      (nn.chans (nn.inputAt idx)).length = (nn.tileSize (nn.inputAt idx)).toNat ∧
      (nn.nchw (nn.inputAt idx)).Fits (nn.chans (nn.inputAt idx)).length := by
  have below : idx.toNat < nn.srcCount.toNat := Nat.not_le.mp accepted
  have low : 4 ≤ nn.inputAt idx := by
    rw [inputAt]
    omega
  have high : nn.inputAt idx < 4 + nn.dstCount.toNat + nn.srcCount.toNat := by
    rw [inputAt]
    omega
  have mapped := laid.mapped _ low high
  refine ⟨slot_srcBdx laid.table (UInt32.not_le.mp accepted), mapped, ?_⟩
  rw [mapped]
  exact laid.fits _ low high

theorem transfer_step (laid : nn.WellLaid) (sized : nn.Sized t) :
    ∃ nn', nn.transfer t = some nn' ∧ Filled nn nn' t := by
  cases t with
  | send from_ idx =>
    by_cases refused : idx ≥ nn.srcCount
    · exact ⟨nn, if_pos refused, refused_filled (if_pos refused)⟩
    · obtain ⟨index, mapped, -⟩ := laid.input refused
      have fills : nn.channel (.send from_ idx) = some (nn.inputAt idx) := if_neg refused
      have room : _ ≤ from_.length := sized _ fills
      have copied : memcpy (nn.chans (nn.inputAt idx)) 0 from_ 0
          (nn.tileSize (nn.inputAt idx)).toNat =
            some (from_.take (nn.tileSize (nn.inputAt idx)).toNat) := by
        rw [memcpy_eq_some, Nat.zero_add, List.drop_of_length_le (Nat.le_of_eq mapped)]
        exact ⟨Nat.le_of_eq mapped.symm, by omega, by simp⟩
      refine ⟨_, ?_, setChan_filled fills (memcpy_length copied) rfl⟩
      rw [transfer, aneSend, if_neg refused, index, Option.bind_eq_bind, Option.bind_some, copied]
      rfl
  | tileSend from_ idx =>
    by_cases refused : idx ≥ nn.srcCount
    · exact ⟨nn, if_pos refused, refused_filled (if_pos refused)⟩
    · obtain ⟨index, -, fits⟩ := laid.input refused
      have fills : nn.channel (.tileSend from_ idx) = some (nn.inputAt idx) := if_neg refused
      obtain ⟨out, packed, length, tiled⟩ := fits.aneTile (sized _ fills)
      refine ⟨_, ?_, setChan_filled fills length tiled⟩
      rw [transfer, aneTileSend, if_neg refused, index, Option.bind_eq_bind, Option.bind_some]
      dsimp only
      rw [packed]
      rfl
  | device bdx bytes => exact ⟨_, rfl, setChan_filled rfl (sized _ rfl) rfl⟩

theorem last_snoc : nn.last (ts ++ [t]) b =
    if nn.channel t = some b then some t else nn.last ts b := by
  by_cases fills : nn.channel t = some b
  · rw [if_pos fills, last, List.filter_append, List.filter_singleton, decide_eq_true fills]
    exact List.getLast?_concat
  · rw [if_neg fills, last, List.filter_append, List.filter_singleton, decide_eq_false fills]
    simp [last]

/-- After a whole run each channel holds what the transfer that filled it last left there. -/
theorem transferAll_holds (laid : nn.WellLaid) (sized : ∀ t ∈ ts, nn.Sized t) :
    ∃ nn', nn.transferAll ts = some nn' ∧ Refilled nn nn' ∧
      ∀ b, nn.Holds b (nn'.chans b) (nn.last ts b) := by
  induction ts using List.reverseRecOn with
  | nil => exact ⟨nn, rfl, ⟨rfl, fun _ => rfl⟩, fun _ => rfl⟩
  | append_singleton ts t ih =>
    obtain ⟨mid, run, same, holds⟩ :=
      ih fun q mem => sized q (List.mem_append_left _ mem)
    have next := sized t (List.mem_append_right _ (List.mem_singleton_self t))
    obtain ⟨nn', step, filled⟩ := transfer_step (same.wellLaid laid) (same.sized next)
    refine ⟨nn', ?_, ⟨?_, fun b => (filled.refilled.lengths b).trans (same.lengths b)⟩, fun b => ?_⟩
    · rw [transferAll] at run ⊢
      rw [List.foldlM_append, run]
      simpa using step
    · rw [filled.refilled.tables, same.tables]
    · rw [last_snoc]
      split
      next fills =>
        have held := filled.holds b (same.channel.trans fills)
        rw [same.tables] at held
        cases t <;> exact held
      next other =>
        rw [filled.frame b (same.channel ▸ other)]
        exact holds b

theorem last_of_only (mem : t ∈ ts) (fills : nn.channel t = some b)
    (only : ∀ q ∈ ts, nn.channel q = some b → q = t) : nn.last ts b = some t := by
  have kept : t ∈ ts.filter fun q => nn.channel q = some b :=
    List.mem_filter.mpr ⟨mem, decide_eq_true fills⟩
  have last_mem := List.getLast_mem (List.ne_nil_of_mem kept)
  obtain ⟨there, filled⟩ := List.mem_filter.mp last_mem
  rw [last, List.getLast?_eq_some_getLast (List.ne_nil_of_mem kept),
    only _ there (of_decide_eq_true filled)]

theorem last_none (unfilled : ∀ t ∈ ts, nn.channel t ≠ some b) : nn.last ts b = none := by
  rw [last, List.getLast?_eq_none_iff, List.filter_eq_nil_iff]
  exact fun t mem => decide_eq_false (unfilled t mem) ▸ Bool.false_ne_true

theorem aneTileRead_gives (laid : nn.WellLaid) {idx : UInt32} {data dst : List UInt8}
    (accepted : idx < nn.dstCount)
    (inPlace : (nn.nchw (4 + idx.toNat)).InPlace data (nn.chans (4 + idx.toNat)))
    (length : data.length = (nn.nchw (4 + idx.toNat)).dataSize) (room : dst.length = data.length) :
    nn.aneTileRead dst idx = some data := by
  have below : idx.toNat < nn.dstCount.toNat := accepted
  have fits := laid.fits (4 + idx.toNat) (by omega) (by omega)
  rw [← laid.mapped (4 + idx.toNat) (by omega) (by omega)] at fits
  have table := laid.table
  rw [aneTileRead, if_neg (UInt32.not_le.mpr accepted), slot_dstBdx (by omega) accepted,
    Option.bind_eq_bind, Option.bind_some]
  exact fits.aneUntile length inPlace (room.trans length)

/-- A plain read copies the whole channel. -/
theorem aneRead_gives (laid : nn.WellLaid) {idx : UInt32} {dst : List UInt8}
    (accepted : idx < nn.dstCount) (room : (nn.tileSize (4 + idx.toNat)).toNat ≤ dst.length) :
    nn.aneRead dst idx = some (nn.chans (4 + idx.toNat) ++
      dst.drop (nn.tileSize (4 + idx.toNat)).toNat) := by
  have below : idx.toNat < nn.dstCount.toNat := accepted
  have mapped := laid.mapped (4 + idx.toNat) (by omega) (by omega)
  have table := laid.table
  rw [aneRead, if_neg (UInt32.not_le.mpr accepted), slot_dstBdx (by omega) accepted,
    Option.bind_eq_bind, Option.bind_some, memcpy_eq_some]
  refine ⟨by omega, by omega, ?_⟩
  rw [List.take_zero, List.drop_zero, List.take_of_length_le mapped.le, Nat.zero_add, List.nil_append]

/-- Any run of transfers whose buffers have the sizes of their channels succeeds. Each channel
then holds what the last transfer to it left there, a plain read gives the whole channel, a tiled
read the tensor that the device laid down last, and a channel nobody filled is as it was. -/
theorem transfers_carry (laid : nn.WellLaid) (sized : ∀ t ∈ ts, nn.Sized t) :
    ∃ nn', nn.transferAll ts = some nn' ∧
      (∀ b, nn.Holds b (nn'.chans b) (nn.last ts b)) ∧
      (∀ idx dst, idx < nn.dstCount → (nn.tileSize (4 + idx.toNat)).toNat ≤ dst.length →
        nn'.aneRead dst idx = some (nn'.chans (4 + idx.toNat) ++
          dst.drop (nn.tileSize (4 + idx.toNat)).toNat)) ∧
      (∀ idx data bytes dst, idx < nn.dstCount →
        nn.last ts (4 + idx.toNat) = some (.device (4 + idx.toNat) bytes) →
        (nn.nchw (4 + idx.toNat)).InPlace data bytes →
        data.length = (nn.nchw (4 + idx.toNat)).dataSize → dst.length = data.length →
        nn'.aneTileRead dst idx = some data) ∧
      ∀ b, (∀ t ∈ ts, nn.channel t ≠ some b) → nn'.chans b = nn.chans b := by
  obtain ⟨nn', run, same, holds⟩ := transferAll_holds laid sized
  have laid' := same.wellLaid laid
  have counts : nn'.dstCount = nn.dstCount := by rw [same.tables]
  refine ⟨nn', run, holds, ?_, ?_, ?_⟩
  · intro idx dst accepted room
    have sizes : nn'.tileSize = nn.tileSize := by
      rw [same.tables]
      rfl
    rw [← sizes] at room ⊢
    exact aneRead_gives laid' (counts ▸ accepted) room
  · intro idx data bytes dst accepted written inPlace length room
    have held : nn'.chans (4 + idx.toNat) = bytes := by
      have held := holds (4 + idx.toNat)
      rwa [written] at held
    have shapes : nn'.nchw = nn.nchw := by rw [same.tables]
    rw [← shapes] at inPlace length
    exact aneTileRead_gives laid' (counts ▸ accepted) (held ▸ inPlace) length room
  · intro b unfilled
    have held := holds b
    rwa [last_none unfilled] at held

/-- Two inputs and an output of two channels of two rows of three half-words each. -/
def small : Network where
  srcCount := 2
  dstCount := 1
  tiles := fun _ => 1
  nchw := fun _ => ⟨1, 2, 2, 3, 24, 8⟩
  chans := fun _ => List.replicate 0x4000 0

theorem small_wellLaid : small.WellLaid := by
  have size (b : Nat) : (small.tileSize b).toNat = 0x4000 := by rfl
  have shape : Nchw.Fits ⟨1, 2, 2, 3, 24, 8⟩ 0x4000 :=
    ⟨⟨by decide, by decide, by decide, by decide⟩, by decide, by decide, by decide⟩
  refine ⟨by decide, fun b _ _ => ?_, fun b _ _ => ?_⟩
  · rw [size]
    exact List.length_replicate
  · rw [size]
    exact shape

theorem small_inPlace (x : UInt8) :
    (small.nchw 4).InPlace (List.replicate 24 x) (List.replicate 0x4000 x) := by
  intro n c h w inside b half
  have batch : n < 1 := inside.batch
  have channel : c < 2 := inside.channel
  have row : h < 2 := inside.row
  have column : w < 3 := inside.column
  have tile : tileAt (small.nchw 4).C (small.nchw 4).P (small.nchw 4).R n c h w + b < 0x4000 := by
    change (n * 2 + c) * 24 + h * 8 + 2 * w + b < 0x4000
    omega
  have data : dataAt (small.nchw 4).C (small.nchw 4).H (small.nchw 4).W n c h w + b < 24 := by
    change (((n * 2 + c) * 2 + h) * 3 + w) * 2 + b < 24
    omega
  rw [List.getElem?_replicate_of_lt tile, List.getElem?_replicate_of_lt data]

/-- One input is sent twice, the other once as it is, and the device fills the output. -/
def smallTransfers : List Transfer :=
  [.tileSend (List.replicate 24 5) 0, .send (List.replicate 0x4000 9) 1,
    .tileSend (List.replicate 24 7) 0, .device 4 (List.replicate 0x4000 1)]

theorem transfers_carry_small : ∃ nn', small.transferAll smallTransfers = some nn' ∧
    (small.nchw 5).Packed (List.replicate 24 7) (nn'.chans 5) ∧
    nn'.chans 6 = List.replicate 0x4000 9 ∧
    nn'.aneRead (List.replicate 0x4000 0) 0 = some (List.replicate 0x4000 1) ∧
    nn'.aneTileRead (List.replicate 24 0) 0 = some (List.replicate 24 1) ∧
    nn'.chans 7 = List.replicate 0x4000 0 := by
  have size (b : Nat) : (small.tileSize b).toNat = 0x4000 := by rfl
  have sized : ∀ t ∈ smallTransfers, small.Sized t := by
    intro t mem b _
    simp only [smallTransfers, List.mem_cons, List.not_mem_nil, or_false] at mem
    obtain rfl | rfl | rfl | rfl := mem
    · exact List.length_replicate
    · exact (size b).le.trans List.length_replicate.ge
    · exact List.length_replicate
    · exact List.length_replicate.trans List.length_replicate.symm
  obtain ⟨nn', run, holds, reads, outputs, others⟩ := transfers_carry small_wellLaid sized
  have output : nn'.chans 4 = List.replicate 0x4000 1 := holds 4
  have input : nn'.chans 6 = (List.replicate 0x4000 9).take (small.tileSize 6).toNat := holds 6
  refine ⟨nn', run, holds 5, ?_, ?_, ?_, others 7 ?_⟩
  · rw [input, size, List.take_of_length_le List.length_replicate.le]
  · rw [reads 0 _ (by decide) ((size 4).le.trans List.length_replicate.ge)]
    change some (nn'.chans 4 ++ _) = _
    rw [output, size, List.drop_of_length_le List.length_replicate.le, List.append_nil]
  · exact outputs 0 _ _ _ (by decide) rfl (small_inPlace 1) List.length_replicate (by simp)
  · intro t mem fills
    simp only [smallTransfers, List.mem_cons, List.not_mem_nil, or_false] at mem
    obtain rfl | rfl | rfl | rfl := mem <;> exact absurd fills (by decide)

end Steps

section Binding
variable {nn nn' : Network} {xs ys : List (List UInt8)} {outs : Nat → List UInt8}

/-- The transfers `pyaneSend` makes. -/
def sends (nn : Network) (xs : List (List UInt8)) : List Transfer :=
  (List.range nn.srcCount.toNat).map fun i => .tileSend (xs.getD i []) (UInt32.ofNat i)

theorem argument_of_lt {i : Nat} (few : i < 32) : argument xs i = some (xs.getD i []) := if_pos few

theorem foldlM_congr {α σ : Type} {f g : σ → α → Option σ} {l : List α} {s : σ}
    (same : ∀ a ∈ l, ∀ s, f s a = g s a) : l.foldlM f s = l.foldlM g s := by
  induction l generalizing s with
  | nil => rfl
  | cons a l ih =>
    obtain ⟨first, others⟩ := List.forall_mem_cons.mp same
    rw [List.foldlM_cons, List.foldlM_cons, first]
    exact bind_congr fun s' => ih others

theorem pyaneSend_transfers (few : nn.srcCount.toNat ≤ 32) :
    nn.pyaneSend xs = nn.transferAll (nn.sends xs) := by
  rw [pyaneSend, transferAll, sends, List.foldlM_map]
  refine foldlM_congr fun i mem mid => ?_
  have below : i < nn.srcCount.toNat := List.mem_range.mp mem
  rw [argument_of_lt (by omega)]
  rfl

theorem channel_send {i : Nat} (below : i < nn.srcCount.toNat) (data : List UInt8) :
    nn.channel (.tileSend data (UInt32.ofNat i)) = some (4 + nn.dstCount.toNat + i) := by
  have word : (UInt32.ofNat i).toNat = i :=
    UInt32.toNat_ofNat_of_lt' (below.trans nn.srcCount.toNat_lt)
  have accepted : ¬ UInt32.ofNat i ≥ nn.srcCount := by
    rw [ge_iff_le, UInt32.le_iff_toNat_le, word]
    omega
  rw [channel, if_neg accepted, inputAt, word]

theorem last_sends {i : Nat} (below : i < nn.srcCount.toNat) :
    nn.last (nn.sends xs) (4 + nn.dstCount.toNat + i) =
      some (.tileSend (xs.getD i []) (UInt32.ofNat i)) := by
  refine last_of_only (List.mem_map.mpr ⟨i, List.mem_range.mpr below, rfl⟩)
    (channel_send below _) ?_
  intro t mem fills
  obtain ⟨k, inRange, rfl⟩ := List.mem_map.mp mem
  have here := Option.some.inj ((channel_send (List.mem_range.mp inRange) _).symm.trans fills)
  have same : k = i := by omega
  rw [same]

theorem sends_sized (sizes : ∀ i < nn.srcCount.toNat,
    (xs.getD i []).length = (nn.nchw (4 + nn.dstCount.toNat + i)).dataSize) :
    ∀ t ∈ nn.sends xs, nn.Sized t := by
  intro t mem b fills
  obtain ⟨i, inRange, rfl⟩ := List.mem_map.mp mem
  have below := List.mem_range.mp inRange
  have here := Option.some.inj ((channel_send below _).symm.trans fills)
  rw [← here]
  exact sizes i below

/-- The reads leave the tensors of the outputs in the first buffers, one after the other. -/
theorem pyaneRead_gives (laid : nn.WellLaid) (few : nn.dstCount.toNat ≤ 32)
    (room : nn.dstCount.toNat ≤ ys.length)
    (inPlace : ∀ i < nn.dstCount.toNat, (nn.nchw (4 + i)).InPlace (outs i) (nn.chans (4 + i)))
    (lengths : ∀ i < nn.dstCount.toNat, (outs i).length = (nn.nchw (4 + i)).dataSize)
    (sizes : ∀ i < nn.dstCount.toNat, (ys.getD i []).length = (nn.nchw (4 + i)).dataSize) :
    nn.pyaneRead ys = some ((List.range nn.dstCount.toNat).map outs ++
      ys.drop nn.dstCount.toNat) := by
  suffices steps : ∀ k ≤ nn.dstCount.toNat, (List.range k).foldlM nn.readArgument ys =
      some ((List.range k).map outs ++ ys.drop k) from steps _ (Nat.le_refl _)
  intro k
  induction k with
  | zero => intro; rfl
  | succ k ih =>
    intro below
    have word : (UInt32.ofNat k).toNat = k :=
      UInt32.toNat_ofNat_of_lt' (Nat.lt_trans below nn.dstCount.toNat_lt)
    have accepted : UInt32.ofNat k < nn.dstCount := by
      rw [UInt32.lt_iff_toNat_lt, word]
      exact below
    have rest : ys.drop k = ys[k] :: ys.drop (k + 1) := List.drop_eq_getElem_cons (by omega)
    have buffer : ((List.range k).map outs ++ ys.drop k).getD k [] = ys.getD k [] := by
      rw [rest]
      simp [List.getD, show k < ys.length by omega]
    have read : nn.aneTileRead (ys.getD k []) (UInt32.ofNat k) = some (outs k) := by
      apply aneTileRead_gives laid accepted
      · rw [word]
        exact inPlace k below
      · rw [word]
        exact lengths k below
      · rw [sizes k below, lengths k below]
    have step : nn.readArgument ((List.range k).map outs ++ ys.drop k) k =
        some ((List.range (k + 1)).map outs ++ ys.drop (k + 1)) := by
      rw [readArgument, argument_of_lt (by omega), buffer, Option.bind_eq_bind, Option.bind_some,
        read, Option.bind_some, rest, List.set_append_right _ _ (by simp)]
      simp only [List.length_map, List.length_range, Nat.sub_self, List.set_cons_zero,
        List.range_succ, List.map_append, List.map_singleton, List.append_assoc,
        List.singleton_append]
    rw [List.range_succ, List.foldlM_append, ih (by omega), Option.bind_eq_bind, Option.bind_some,
      List.foldlM_cons, step]
    simp [List.range_succ]

theorem channel_sends {t : Transfer} (mem : t ∈ nn.sends xs) {b : Nat} (fills : nn.channel t = some b) :
    4 + nn.dstCount.toNat ≤ b ∧ b < 4 + nn.dstCount.toNat + nn.srcCount.toNat := by
  obtain ⟨i, inRange, rfl⟩ := List.mem_map.mp mem
  have below := List.mem_range.mp inRange
  have here := Option.some.inj ((channel_send below _).symm.trans fills)
  omega

/-- The binding sends all inputs and nothing else, the device fills the outputs, the binding reads
them. It can name 32 of each. -/
theorem pyane_exchange (laid : nn.WellLaid) (few : nn.srcCount.toNat ≤ 32 ∧ nn.dstCount.toNat ≤ 32)
    (inputs : ∀ i < nn.srcCount.toNat,
      (xs.getD i []).length = (nn.nchw (4 + nn.dstCount.toNat + i)).dataSize)
    (room : nn.dstCount.toNat ≤ ys.length)
    (outputs : ∀ i < nn.dstCount.toNat, (ys.getD i []).length = (nn.nchw (4 + i)).dataSize) :
    ∃ sent, nn.pyaneSend xs = some sent ∧ Refilled nn sent ∧
      (∀ i < nn.srcCount.toNat, (nn.nchw (4 + nn.dstCount.toNat + i)).Packed (xs.getD i [])
        (sent.chans (4 + nn.dstCount.toNat + i))) ∧
      (∀ b, b < 4 + nn.dstCount.toNat ∨ 4 + nn.dstCount.toNat + nn.srcCount.toNat ≤ b →
        sent.chans b = nn.chans b) ∧
      ∀ done : Network, Refilled sent done →
        (∀ i < nn.dstCount.toNat, (outs i).length = (nn.nchw (4 + i)).dataSize ∧
          (nn.nchw (4 + i)).InPlace (outs i) (done.chans (4 + i))) →
        done.pyaneRead ys = some ((List.range nn.dstCount.toNat).map outs ++
          ys.drop nn.dstCount.toNat) := by
  obtain ⟨sent, run, same, holds⟩ := transferAll_holds laid (sends_sized inputs)
  refine ⟨sent, (pyaneSend_transfers few.1).trans run, same, ?_, ?_, ?_⟩
  · intro i below
    have held := holds (4 + nn.dstCount.toNat + i)
    rwa [last_sends below] at held
  · intro b outside
    have unfilled : ∀ t ∈ nn.sends xs, nn.channel t ≠ some b := by
      intro t mem fills
      have inside := channel_sends mem fills
      omega
    have held := holds b
    rwa [last_none unfilled] at held
  · intro done refilled filled
    have laid' := refilled.wellLaid (same.wellLaid laid)
    have counts : done.dstCount = nn.dstCount := by rw [refilled.tables, same.tables]
    have shapes : done.nchw = nn.nchw := by rw [refilled.tables, same.tables]
    rw [← counts, ← shapes] at filled outputs
    rw [← counts] at few room ⊢
    exact pyaneRead_gives laid' few.2 room (fun i below => (filled i below).2)
      (fun i below => (filled i below).1) outputs

theorem pyane_exchange_small : ∃ sent,
    small.pyaneSend [List.replicate 24 7, List.replicate 24 8] = some sent ∧
    (small.nchw 5).Packed (List.replicate 24 7) (sent.chans 5) ∧
    (small.nchw 6).Packed (List.replicate 24 8) (sent.chans 6) ∧
    sent.chans 4 = List.replicate 0x4000 0 ∧ sent.chans 7 = List.replicate 0x4000 0 ∧
    (sent.setChan 4 (List.replicate 0x4000 1)).pyaneRead [List.replicate 24 0] =
      some [List.replicate 24 1] := by
  obtain ⟨sent, run, same, inputs, others, outputs⟩ := @pyane_exchange small
    [List.replicate 24 7, List.replicate 24 8] [List.replicate 24 0] (fun _ => List.replicate 24 1)
    small_wellLaid (by decide) (fun | 0, _ => List.length_replicate | 1, _ => List.length_replicate)
    (by decide) (fun | 0, _ => List.length_replicate)
  have mapped : (sent.chans 4).length = 0x4000 := (same.lengths 4).trans List.length_replicate
  refine ⟨sent, run, inputs 0 (by decide), inputs 1 (by decide), others 4 (by decide),
    others 7 (by decide), outputs _ (setChan_refilled ?_) ?_⟩
  · rw [List.length_replicate, mapped]
  · intro i below
    have first : i = 0 := Nat.lt_one_iff.mp below
    subst first
    refine ⟨List.length_replicate, ?_⟩
    rw [setChan_self]
    exact small_inPlace 1

end Binding

end Network

end Ane.Libane
