import Ane.Bitfield
import Ane.Disasm
import Ane.Printing

/-! The task descriptors as the disassembler prints them. A line of the dump names the fields it
shows by their bits and the byte offset of their word; the words it does not print are left out. -/
namespace Ane.Disasm
open Memory Posix Hwx Libane Printing

/-- A `Bitfield<U32, N, S>` of a descriptor. -/
structure Place where
  offset : Nat
  bits : Bitfield U32

def bitfield (offset N S : Nat) (fits : 0 < S ∧ N + S ≤ 32 := by decide) : Place where
  offset := offset
  bits := ⟨N, S, Or.inl rfl, fits.2, fits.1, by omega⟩

/-- A plain `U32` is the field of all its bits. -/
def word (offset : Nat) : Place := bitfield offset 0 32

def Place.word (place : Place) (td : Mem) : U32.Word := (u32 td place.offset).toBitVec

def Place.value (td : Mem) (place : Place) : Nat := (place.bits.get (place.word td)).toNat

/-- Two fields of one word, or fields of words that do not overlap. -/
def Place.Apart (a b : Place) : Prop :=
  a.offset + 4 ≤ b.offset ∨ b.offset + 4 ≤ a.offset ∨ a.offset = b.offset ∧ a.bits.Disjoint b.bits

instance (a b : Place) : Decidable (a.Apart b) := inferInstanceAs (Decidable (_ ∨ _))

/-- A field of one bit. -/
abbrev Flag := { place : Place // place.bits.S = 1 }

def flag (offset N : Nat) (fits : N < 32 := by decide) : Flag :=
  ⟨bitfield offset N 1 ⟨Nat.one_pos, fits⟩, rfl⟩

inductive Line
  | plain (pieces : List (Piece Place))
  | switch (lead : String) (enable : Flag) (pieces : List (Piece Place))

namespace Line

def print (td : Mem) : Line → List Char
  | .plain pieces => pieces.flatMap (Piece.print (Place.value td))
  | .switch lead enable pieces =>
    lead.toList ++ if enable.val.value td ≠ 0 then
      "Enabled (base".toList ++ pieces.flatMap (Piece.print (Place.value td))
    else "Disabled\n".toList

/-- The fields a line can show. -/
def places : Line → List Place
  | .plain pieces => pieces.flatMap Piece.shown
  | .switch _ enable pieces => enable.val :: pieces.flatMap Piece.shown

/-- The fields a line shows. What it says of something disabled is that it is. -/
def shown (td : Mem) : Line → List Place
  | .plain pieces => pieces.flatMap Piece.shown
  | .switch _ enable pieces =>
    enable.val :: if enable.val.value td ≠ 0 then pieces.flatMap Piece.shown else []

end Line

/-- The formats `{:d}` and `0x{:X}`. -/
inductive FieldFormat
  | d
  | X

def printTdField (fieldName : String) (place : Place) : FieldFormat → Line
  | .d => .plain [.text "      ", .text fieldName, .text " = ",
      .number place .dec ⟨'\n', by decide⟩]
  | .X => .plain [.text "      ", .text fieldName, .text " = 0x",
      .number place .hex ⟨'\n', by decide⟩]

def printTdEnableField (fieldName : String) (base : Place) (enable : Flag) : Line :=
  .switch ("      " ++ fieldName ++ " = ") enable
    [.text "=", .number base .dec ⟨')', by decide⟩, .text "\n"]

def heading (s : String) : Line := .plain [.text "\n  ", .text s, .text "\n"]

section Fields

def dmaSrcFormat (off : Nat) : List Line := [
  printTdField "Fmt.FmtMode" (bitfield off 0 2) .d,
  printTdField "Fmt.Truncate" (bitfield off 4 2) .d,
  printTdField "Fmt.Shift" (bitfield off 8 1) .d,
  printTdField "Fmt.MemFmt" (bitfield off 12 2) .d,
  printTdField "Fmt.OffsetCh" (bitfield off 16 3) .d,
  printTdField "Fmt.Interleave" (bitfield off 24 4) .d,
  printTdField "Fmt.CmpVec" (bitfield off 28 4) .d]

def dmaDstFormat (off : Nat) : List Line := [
  printTdField "Fmt.FmtMode" (bitfield off 0 2) .d,
  printTdField "Fmt.Truncate" (bitfield off 4 2) .d,
  printTdField "Fmt.Shift" (bitfield off 8 1) .d,
  printTdField "Fmt.MemFmt" (bitfield off 12 2) .d,
  printTdField "Fmt.OffsetCh" (bitfield off 16 3) .d,
  printTdField "Fmt.ZeroPadLast" (bitfield off 20 1) .d,
  printTdField "Fmt.ZeroPadFirst" (bitfield off 21 1) .d,
  printTdField "Fmt.CmpVecFill" (bitfield off 22 1) .d,
  printTdField "Fmt.Interleave" (bitfield off 24 4) .d,
  printTdField "Fmt.CmpVec" (bitfield off 28 4) .d]

def sourceCfg (off : Nat) : List Line := [
  printTdField "SourceCfg_SourceType" (bitfield off 0 2) .d,
  printTdField "SourceCfg_Dependent" (bitfield off 2 2) .d,
  printTdField "SourceCfg_AliasConvSrc" (bitfield off 4 1) .d,
  printTdField "SourceCfg_AliasConvRslt" (bitfield off 5 1) .d,
  printTdField "SourceCfg_DMAFmt" (bitfield off 6 2) .d,
  printTdField "SourceCfg_DMAInterleave" (bitfield off 8 4) .d,
  printTdField "SourceCfg_DMACmpVec" (bitfield off 12 4) .d,
  printTdField "SourceCfg_DMAOffsetCh" (bitfield off 16 3) .d,
  printTdField "SourceCfg_AliasPlanarSrc" (bitfield off 20 1) .d,
  printTdField "SourceCfg_AliasPlanarRslt" (bitfield off 22 1) .d]

def resultCfg (off : Nat) : List Line := [
  printTdField "ResultCfg_ResultType" (bitfield off 0 2) .d,
  printTdField "ResultCfg_L2BfrMode" (bitfield off 3 1) .d,
  printTdField "ResultCfg_AliasConvSrc" (bitfield off 4 1) .d,
  printTdField "ResultCfg_AliasConvRslt" (bitfield off 5 1) .d,
  printTdField "ResultCfg_DMAFmt" (bitfield off 6 2) .d,
  printTdField "ResultCfg_DMAInterleave" (bitfield off 8 4) .d,
  printTdField "ResultCfg_DMACmpVec" (bitfield off 12 4) .d,
  printTdField "ResultCfg_DMAOffsetCh" (bitfield off 16 3) .d,
  printTdField "ResultCfg_AliasPlanarSrc" (bitfield off 20 1) .d,
  printTdField "ResultCfg_AliasPlanarRslt" (bitfield off 22 1) .d]

def kernelMacCfg (off : Nat) : List Line := [
  printTdField "KernelCfg_KernelFmt" (bitfield off 0 2) .d,
  printTdField "KernelCfg_PalettizedEn" (bitfield off 2 1) .d,
  printTdField "KernelCfg_PalettizedBits" (bitfield off 4 4) .d,
  printTdField "KernelCfg_SparseFmt" (bitfield off 8 1) .d,
  printTdField "KernelCfg_GroupKernelReuse" (bitfield off 10 1) .d,
  printTdField "MACCfg_OpMode" (bitfield (off + 4) 0 3) .d,
  printTdField "MACCfg_KernelMode" (bitfield (off + 4) 3 1) .d,
  printTdField "MACCfg_BiasMode" (bitfield (off + 4) 4 1) .d,
  printTdField "MACCfg_MatrixBiasEn" (bitfield (off + 4) 6 1) .d,
  printTdField "MACCfg_BinaryPoint" (bitfield (off + 4) 8 5) .d,
  printTdField "MACCfg_PostScaleMode" (bitfield (off + 4) 14 1) .d,
  printTdField "MACCfg_NonlinearMode" (bitfield (off + 4) 16 2) .d]

def postScale (off : Nat) : List Line := [
  printTdField "PostScale_PostScale" (bitfield off 0 16) .d,
  printTdField "PostScale_PostRightShift" (bitfield off 16 5) .d]

end Fields

section V5

def nid : Place := bitfield 0x00 16 8

def tdHeaderV5 : List Line := [
  printTdField "tid" (bitfield 0x00 0 16) .X,
  printTdField "nid" nid .X,
  printTdField "lnid" (bitfield 0x00 24 1) .d,
  printTdField "eon" (bitfield 0x00 25 1) .d,
  printTdField "exe_cycles" (bitfield 0x04 0 16) .d,
  printTdField "next_size" (bitfield 0x04 16 9) .d,
  printTdField "log_events" (bitfield 0x08 0 24) .X,
  printTdField "exceptions" (bitfield 0x0C 0 24) .X,
  printTdField "debug_log_events" (bitfield 0x10 0 24) .X,
  printTdField "debug_exceptions" (bitfield 0x14 0 24) .X,
  printTdField "disallow_abort" (bitfield 0x18 8 1) .d,
  printTdField "td_skip" (bitfield 0x18 9 1) .d,
  printTdField "kpc" (bitfield 0x18 10 1) .d,
  printTdField "spl" (bitfield 0x18 11 1) .d,
  printTdField "tsr" (bitfield 0x18 12 1) .d,
  printTdField "spc" (bitfield 0x18 13 1) .d,
  printTdField "dpc" (bitfield 0x18 14 1) .d,
  printTdField "tse" (bitfield 0x18 15 1) .d,
  printTdField "next_priority" (bitfield 0x18 16 6) .d,
  printTdField "tde" (bitfield 0x18 24 1) .d,
  printTdField "src_loc" (bitfield 0x18 28 1) .d,
  printTdField "dst_loc" (bitfield 0x18 29 1) .d,
  printTdField "tq_dis" (bitfield 0x18 31 1) .d,
  printTdField "next_pointer" (bitfield 0x1C 0 32) .X,
  printTdEnableField "r0" (bitfield 0x20 0 5) (flag 0x20 5),
  printTdEnableField "r1" (bitfield 0x20 6 5) (flag 0x20 11),
  printTdEnableField "w" (bitfield 0x20 12 5) (flag 0x20 17),
  printTdEnableField "t" (bitfield 0x20 18 5) (flag 0x20 23),
  printTdField "ene" (bitfield 0x20 24 3) .d,
  printTdEnableField "k0" (bitfield 0x24 0 5) (flag 0x24 5),
  printTdEnableField "k1" (bitfield 0x24 6 5) (flag 0x24 11),
  printTdEnableField "k2" (bitfield 0x24 12 5) (flag 0x24 17),
  printTdEnableField "k3" (bitfield 0x24 18 5) (flag 0x24 23)]

/-- One turn of the loop of `dump_kernel_dma`: an entry of each of the arrays
`coeff_dma_config`, `coeff_addr` and `coeff_size`. -/
def coeff (i : Nat) : Line :=
  let config := 0x34 + 4 * i
  .switch ("    coeff[" ++ i.repr ++ "]  = ") (flag config 0) [
    .text ": 0x", .number (word (0x74 + 4 * i)) .hex ⟨',', by decide⟩,
    .text " size: 0x", .number (word (0xB4 + 4 * i)) .hex ⟨')', by decide⟩,
    .text "\n      cr_h                  = ",
    .number (bitfield config 4 2) .dec ⟨'\n', by decide⟩,
    .text "      cache_hint            = ",
    .number (bitfield config 6 4) .dec ⟨'\n', by decide⟩,
    .text "      prefetch_participate  = ",
    .number (bitfield config 28 1) .dec ⟨'\n', by decide⟩]

def dumpKernelDma : List Line := heading "Kernel DMA Sources" :: (List.range 16).map coeff

def commonHeaderV5 : List Line := [
  printTdField "InDim_Win" (bitfield 0x128 0 15) .d,
  printTdField "InDim_Hin" (bitfield 0x128 16 15) .d,
  printTdField "unk004" (word 0x12C) .X,
  printTdField "ChCfg_InFmt" (bitfield 0x130 0 2) .d,
  printTdField "ChCfg_OutFmt" (bitfield 0x130 4 2) .d,
  printTdField "Cin_Cin" (bitfield 0x134 0 17) .d,
  printTdField "Cout_Cout" (bitfield 0x138 0 17) .d,
  printTdField "OutDim_Wout" (bitfield 0x13C 0 15) .d,
  printTdField "OutDim_Hout" (bitfield 0x13C 16 15) .d,
  printTdField "unk018" (word 0x140) .X,
  printTdField "ConvCfg_Kw" (bitfield 0x144 0 5) .d,
  printTdField "ConvCfg_Kh" (bitfield 0x144 5 5) .d,
  printTdField "ConvCfg_OCGSize" (bitfield 0x144 10 3) .d,
  printTdField "ConvCfg_Sx" (bitfield 0x144 13 2) .d,
  printTdField "ConvCfg_Sy" (bitfield 0x144 15 2) .d,
  printTdField "ConvCfg_Px" (bitfield 0x144 17 5) .d,
  printTdField "ConvCfg_Py" (bitfield 0x144 22 5) .d,
  printTdField "ConvCfg_Ox" (bitfield 0x144 28 2) .d,
  printTdField "ConvCfg_Oy" (bitfield 0x144 30 2) .d,
  printTdField "unk020" (word 0x148) .X,
  printTdField "GroupConvCfg_NumGroups" (bitfield 0x14C 0 13) .d,
  printTdField "GroupConvCfg_UnicastEn" (bitfield 0x14C 14 1) .d,
  printTdField "GroupConvCfg_ElemMultMode" (bitfield 0x14C 15 1) .d,
  printTdField "GroupConvCfg_UnicastCin" (bitfield 0x14C 16 16) .d,
  printTdField "TileCfg_TileHeight" (bitfield 0x150 0 15) .d,
  printTdField "unk02C" (word 0x154) .X,
  printTdField "unk030" (word 0x158) .X,
  printTdField "Cfg_SmallSourceMode" (bitfield 0x15C 2 1) .d,
  printTdField "Cfg_ShPref" (bitfield 0x15C 8 3) .d,
  printTdField "Cfg_ShMin" (bitfield 0x15C 12 3) .d,
  printTdField "Cfg_ShMax" (bitfield 0x15C 16 3) .d,
  printTdField "Cfg_ActiveNE" (bitfield 0x15C 19 3) .d,
  printTdField "Cfg_ContextSwitchIn" (bitfield 0x15C 22 1) .d,
  printTdField "Cfg_ContextSwitchOut" (bitfield 0x15C 24 1) .d,
  printTdField "Cfg_AccDoubleBufEn" (bitfield 0x15C 26 1) .d,
  printTdField "TaskInfo_TaskID" (bitfield 0x160 0 16) .d,
  printTdField "TaskInfo_TaskQ" (bitfield 0x160 16 4) .d,
  printTdField "TaskInfo_NID" (bitfield 0x160 20 8) .d,
  printTdField "DPE_Category" (bitfield 0x164 0 4) .d]

def tileDmaSrcV5 : List Line := [
  printTdField "DMAConfig.en" (bitfield 0x16C 0 1) .d,
  printTdField "DMAConfig.cr_h" (bitfield 0x16C 4 2) .d,
  printTdField "DMAConfig.cache_hint" (bitfield 0x16C 6 4) .d,
  printTdField "DMAConfig.cache_hint_reuse" (bitfield 0x16C 10 4) .d,
  printTdField "DMAConfig.cache_hint_noreuse" (bitfield 0x16C 14 4) .d,
  printTdField "DMAConfig.dependency_mode" (bitfield 0x16C 18 2) .d,
  printTdField "unk04" (word 0x170) .X,
  printTdField "BaseAddr" (word 0x174) .X,
  printTdField "RowStride" (word 0x178) .d,
  printTdField "PlaneStride" (word 0x17C) .d,
  printTdField "DepthStride" (word 0x180) .d,
  printTdField "GroupStride" (word 0x184) .d] ++ dmaSrcFormat 0x1A4

def l2ConfigV5 : List Line := [
  printTdField "L2Cfg_InputReLU" (bitfield 0x1E0 0 1) .d,
  printTdField "L2Cfg_PaddingMode" (bitfield 0x1E0 2 2) .d] ++ sourceCfg 0x1E4 ++ [
  printTdField "SourceBase_Addr" (bitfield 0x1E8 4 17) .X,
  printTdField "SourceChannelStride_Stride" (bitfield 0x1EC 4 17) .X,
  printTdField "SourceRowStride_Stride" (bitfield 0x1F0 4 17) .X,
  printTdField "unk_maybe_stride1" (word 0x1F4) .X,
  printTdField "unk_maybe_stride2" (word 0x1F8) .X,
  printTdField "unk01C" (word 0x1FC) .X,
  printTdField "unk020" (word 0x200) .X,
  printTdField "unk024" (word 0x204) .X,
  printTdField "unk028" (word 0x208) .X,
  printTdField "unk02C" (word 0x20C) .X] ++ resultCfg 0x210 ++ [
  printTdField "ResultBase_Addr" (bitfield 0x214 4 17) .X,
  printTdField "ConvResultChannelStride_Stride" (bitfield 0x218 4 17) .X,
  printTdField "ConvResultRowStride_Stride" (bitfield 0x21C 4 17) .X]

def neConfigV5 : List Line := kernelMacCfg 0x240 ++ [
  printTdField "MatrixVectorBias_MatrixVectorBias" (bitfield 0x248 0 16) .d,
  printTdField "AccBias_AccBias" (bitfield 0x24C 0 16) .d,
  printTdField "AccBias_AccBiasShift" (bitfield 0x24C 16 5) .d] ++ postScale 0x250

def tileDmaDstV5 : List Line := [
  printTdField "DMAConfig.en" (bitfield 0x258 0 1) .d,
  printTdField "DMAConfig.cr_h" (bitfield 0x258 4 2) .d,
  printTdField "DMAConfig.cache_hint" (bitfield 0x258 6 4) .d,
  printTdField "DMAConfig.l2_bfr_mode" (bitfield 0x258 26 1) .d,
  printTdField "DMAConfig.bypass_eow" (bitfield 0x258 27 1) .d,
  printTdField "BaseAddr" (word 0x25C) .X,
  printTdField "RowStride" (word 0x260) .d,
  printTdField "PlaneStride" (word 0x264) .d,
  printTdField "DepthStride" (word 0x268) .d,
  printTdField "GroupStride" (word 0x26C) .d] ++ dmaDstFormat 0x270

def tdV5Lines : List Line :=
  heading "Header" :: tdHeaderV5 ++ dumpKernelDma ++
  heading "Common Header" :: commonHeaderV5 ++
  heading "Tile DMA Source" :: tileDmaSrcV5 ++
  heading "L2 Config" :: l2ConfigV5 ++
  heading "NE Config" :: neConfigV5 ++
  heading "Tile DMA Dest" :: tileDmaDstV5

end V5

section V11

def tdHeaderV11 : List Line := [
  printTdField "unk_maybe_log_events" (bitfield 0x18 0 24) .X,
  printTdField "unk_maybe_exceptions" (bitfield 0x1C 0 24) .X,
  printTdField "unk_maybe_debug_log_events" (bitfield 0x20 0 24) .X,
  printTdField "unk_maybe_debug_exceptions" (bitfield 0x24 0 24) .X]

def tileDmaSrcV11 : List Line := [
  printTdField "unk00" (word 0x74) .X,
  printTdField "RowStride" (word 0x78) .d,
  printTdField "PlaneStride" (word 0x7C) .d,
  printTdField "DepthStride" (word 0x80) .d,
  printTdField "GroupStride" (word 0x84) .d,
  printTdField "unk14" (word 0x88) .X] ++ dmaSrcFormat 0x8C

def commonHeaderV11 : List Line := [
  printTdField "InDim_Win" (bitfield 0x4C 0 15) .d,
  printTdField "InDim_Hin" (bitfield 0x4C 16 15) .d,
  printTdField "Cin_Cin" (bitfield 0x50 0 17) .d,
  printTdField "Cout_Cout" (bitfield 0x54 0 17) .d,
  printTdField "OutDim_Wout" (bitfield 0x58 0 15) .d,
  printTdField "OutDim_Hout" (bitfield 0x58 16 15) .d,
  printTdField "unk010" (word 0x5C) .d,
  printTdField "unk014" (word 0x60) .d]

def l2ConfigV11 : List Line := sourceCfg 0x94 ++ [
  printTdField "SourceChannelStride_Stride" (bitfield 0x98 4 17) .X,
  printTdField "SourceRowStride_Stride" (bitfield 0x9C 4 17) .X,
  printTdField "unk_maybe_stride1" (word 0xA0) .X,
  printTdField "unk_maybe_stride2" (word 0xA4) .X] ++ resultCfg 0xA8 ++ [
  printTdField "ResultBase_Addr" (bitfield 0xAC 4 17) .X]

def neConfigV11 : List Line := kernelMacCfg 0xB4 ++ postScale 0xBC

def tileDmaDstV11 : List Line := [
  printTdField "unk00" (word 0xC4) .X,
  printTdField "RowStride" (word 0xC8) .d,
  printTdField "PlaneStride" (word 0xCC) .d,
  printTdField "DepthStride" (word 0xD0) .d,
  printTdField "GroupStride" (word 0xD4) .d] ++ dmaDstFormat 0xD8

def tdV11Lines : List Line :=
  heading "Header" :: tdHeaderV11 ++
  heading "Tile DMA Src" :: tileDmaSrcV11 ++
  heading "Common Header" :: commonHeaderV11 ++
  heading "L2 Config" :: l2ConfigV11 ++
  heading "NE Config" :: neConfigV11 ++
  heading "Tile DMA Dest" :: tileDmaDstV11

end V11

end Ane.Disasm
