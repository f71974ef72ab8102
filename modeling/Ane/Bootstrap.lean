import Ane.HwxReads
import Ane.LibaneModel

/-! The bootstrap buffer. Its size, that of the tasks and that of the section come from
different places; clearing, reading and clearing again leave the first bytes of the section
or nothing, and the header of the first task is patched over that. What memory held before
does not enter into it. -/
namespace Ane.Libane
open Memory Posix Hwx

variable {env : Env} {w w' : World} {file : HwxFile} {text : HwxSection} {btsp : Nat}
  {copy : UInt64} {n : Nat}

section Sizes

/-- Up to the next multiple of a tile. -/
theorem tileAlign_toNat {x : UInt64} (small : x.toNat < 2 ^ 63) :
    (tileAlign x).toNat = (x.toNat + 0x3fff) / 0x4000 * 0x4000 := by
  have sum : (x + 0x4000 - 1).toNat = x.toNat + 0x3fff := by
    rw [UInt64.toNat_sub, UInt64.toNat_add]
    simp only [UInt64.reduceToNat]
    omega
  have mask : (0 - 0x4000 : UInt64).toNat = (2 ^ 50 - 1) * 2 ^ 14 := by decide
  have tile : (0x4000 : Nat) = 2 ^ 14 := rfl
  rw [tileAlign, UInt64.toNat_and, sum, mask]
  apply Nat.eq_of_testBit_eq
  intro i
  rw [tile, Nat.testBit_and, Nat.testBit_mul_two_pow, Nat.testBit_mul_two_pow,
    Nat.testBit_div_two_pow, Nat.testBit_two_pow_sub_one]
  by_cases low : 14 ≤ i
  · have same : i - 14 + 14 = i := by omega
    by_cases high : i - 14 < 50
    · simp [low, high, same]
    · have zero : (x.toNat + 0x3fff).testBit i = false := by
        apply Nat.testBit_lt_two_pow
        apply Nat.lt_of_lt_of_le (m := 2 ^ 64) (by omega)
        exact Nat.pow_le_pow_right (by decide) (by omega)
      simp [same, zero]
  · simp [low]

/-- The buffer has room for the tasks, and a whole tile at least. -/
theorem tileAlign_room {tdSize : UInt32} (nonzero : tdSize ≠ 0) :
    tdSize.toNat ≤ (tileAlign tdSize.toUInt64).toNat ∧
      0x4000 ≤ (tileAlign tdSize.toUInt64).toNat := by
  have word := tdSize.toNat_lt
  have pos : tdSize.toNat ≠ 0 := fun zero => nonzero (UInt32.toNat_inj.mp zero)
  have aligned := tileAlign_toNat (x := tdSize.toUInt64) (by
    rw [UInt32.toNat_toUInt64]
    omega)
  rw [UInt32.toNat_toUInt64] at aligned
  omega

/-- With room for the tasks the copy is as long as the tasks or the section. -/
theorem copySize_toNat {tdSize : UInt32} {textSize btspSize : UInt64} (nonzero : tdSize ≠ 0)
    (room : tdSize.toNat ≤ btspSize.toNat) :
    (copySize tdSize textSize btspSize).toNat = min tdSize.toNat textSize.toNat := by
  have some : ¬ tdSize.toUInt64 = 0 := by
    intro zero
    apply nonzero
    apply UInt32.toNat_inj.mp
    rw [← UInt32.toNat_toUInt64, zero]
    rfl
  simp only [copySize, some, false_or, gt_iff_lt, UInt64.lt_iff_toNat_lt]
  by_cases short : textSize.toNat < tdSize.toUInt64.toNat
  · rw [if_pos short]
    rw [UInt32.toNat_toUInt64] at short
    rw [if_neg (by omega)]
    omega
  · rw [if_neg short]
    rw [UInt32.toNat_toUInt64] at short ⊢
    rw [if_neg (by omega), UInt32.toNat_toUInt64]
    omega

end Sizes

section Header

/-- The first word of a task descriptor: its fields before and after a patch. -/
structure HeaderPatched (before after : UInt32) : Prop where
  tid : after.toNat % 2 ^ 16 = before.toNat % 2 ^ 16
  nid : after.toNat / 2 ^ 16 % 2 ^ 8 = 0x40
  lnid : after.toNat / 2 ^ 24 % 2 ^ 1 = before.toNat / 2 ^ 24 % 2 ^ 1
  eon : after.toNat / 2 ^ 25 % 2 ^ 1 = before.toNat / 2 ^ 25 % 2 ^ 1
  unused : after.toNat / 2 ^ 26 % 2 ^ 2 = before.toNat / 2 ^ 26 % 2 ^ 2
  rest : after.toNat / 2 ^ 28 = 0

/-- There is one such word. -/
theorem HeaderPatched.unique {before after after' : UInt32} (patched : HeaderPatched before after)
    (patched' : HeaderPatched before after') : after = after' := by
  obtain ⟨tid, nid, lnid, eon, unused, rest⟩ := patched
  obtain ⟨tid', nid', lnid', eon', unused', rest'⟩ := patched'
  apply UInt32.toNat_inj.mp
  omega

def patchHeader (hdr0 : UInt32) : UInt32 :=
  (hdr0 &&& (0xf00ffff : UInt32)) ||| ((ANE_FIFO_NID &&& (0xff : UInt32)) <<< 16)

theorem setNid_eq (td : Addr) (w : World) : setNid td ANE_FIFO_NID w =
    { w with ram := store w.ram td (toBytes 4 (patchHeader (u32 w.ram td)).toNat) } := rfl

theorem patchHeader_testBit (hdr0 : UInt32) {i : Nat} (word : i < 32) :
    (patchHeader hdr0).toNat.testBit i =
      if i < 16 ∨ 24 ≤ i ∧ i < 28 then hdr0.toNat.testBit i else decide (i = 22) := by
  have nid : ((ANE_FIFO_NID &&& (0xff : UInt32)) <<< 16).toNat = 2 ^ 22 := by decide
  have mask : ∀ i < 32, (0xf00ffff : UInt32).toNat.testBit i =
      decide (i < 16 ∨ 24 ≤ i ∧ i < 28) := by decide
  rw [patchHeader, UInt32.toNat_or, UInt32.toNat_and, nid, Nat.testBit_or, Nat.testBit_and,
    Nat.testBit_two_pow, mask i word]
  by_cases kept : i < 16 ∨ 24 ≤ i ∧ i < 28
  · have other : 22 ≠ i := by omega
    simp [kept, other]
  · simp [kept, eq_comm]

/-- Bits that the patch keeps are a field that it keeps. -/
theorem patchHeader_field (hdr0 : UInt32) {k n : Nat} (word : k + n ≤ 32)
    (kept : ∀ i, k ≤ i → i < k + n → i < 16 ∨ 24 ≤ i ∧ i < 28) :
    (patchHeader hdr0).toNat / 2 ^ k % 2 ^ n = hdr0.toNat / 2 ^ k % 2 ^ n := by
  apply Nat.eq_of_testBit_eq
  intro i
  simp only [Nat.testBit_mod_two_pow, Nat.testBit_div_two_pow]
  by_cases inside : i < n
  · rw [patchHeader_testBit hdr0 (by omega), if_pos (kept (i + k) (by omega) (by omega))]
  · simp [inside]

theorem patchHeader_patched (hdr0 : UInt32) : HeaderPatched hdr0 (patchHeader hdr0) where
  tid := by
    have field := patchHeader_field hdr0 (by decide : 0 + 16 ≤ 32) (fun _ _ _ => by omega)
    rwa [Nat.pow_zero, Nat.div_one, Nat.div_one] at field
  nid := by
    have expected : (0x40 : Nat) = 2 ^ 6 := rfl
    apply Nat.eq_of_testBit_eq
    intro i
    rw [Nat.testBit_mod_two_pow, Nat.testBit_div_two_pow, expected, Nat.testBit_two_pow]
    by_cases low : i < 8
    · rw [patchHeader_testBit hdr0 (by omega), if_neg (by omega)]
      simp only [low, decide_true, Bool.true_and, decide_eq_decide]
      omega
    · have other : 6 ≠ i := by omega
      simp [low, other]
  lnid := patchHeader_field hdr0 (by decide) fun _ _ _ => by omega
  eon := patchHeader_field hdr0 (by decide) fun _ _ _ => by omega
  unused := patchHeader_field hdr0 (by decide) fun _ _ _ => by omega
  rest := by
    apply Nat.eq_of_testBit_eq
    intro i
    rw [Nat.testBit_div_two_pow, Nat.zero_testBit]
    by_cases word : i + 28 < 32
    · rw [patchHeader_testBit hdr0 word, if_neg (by omega)]
      simp
    · apply Nat.testBit_lt_two_pow
      apply Nat.lt_of_lt_of_le (patchHeader hdr0).toNat_lt
      exact Nat.pow_le_pow_right (by decide) (by omega)

end Header

section Copy

/-- Whether reading the first `copy` bytes of a section succeeds. -/
def readServed (env : Env) (file : HwxFile) (text : HwxSection) (copy : UInt64) (p : Process) :
    Bool :=
  (hwxSectionRead env.hwx (some file) (some text) 0 (some fun _ => 0) copy p).ok

/-- The bytes of the buffer before the patch: the first `copy` of the section and zeros, or
zeros only. -/
def taskBytes (content : List UInt8) (text : HwxSection) (copy size : Nat) (served : Bool) :
    List UInt8 :=
  if served then (content.drop text.offset.toNat).take copy ++ List.replicate (size - copy) 0
  else List.replicate size 0

theorem readSection_ram (env : Env) (file : HwxFile) (text : HwxSection) (btsp : Nat)
    (copy : UInt64) (w : World) :
    (readSection env file text btsp copy w).1 = readServed env file text copy w.proc ∧
    (∀ a : Nat, a < btsp ∨ btsp + copy.toNat ≤ a → (readSection env file text btsp copy w).2.ram a = w.ram a) ∧
    ((readSection env file text btsp copy w).1 = true → 0 < copy.toNat →
      slice (readSection env file text btsp copy w).2.ram btsp copy.toNat =
        (env.hwx.content.drop text.offset.toNat).take copy.toNat) := by
  obtain ⟨n, le, dst, read, filled, all⟩ := readRange_filled env.hwx file text.offset.toUInt64
    text.size 0 copy (fun i => w.ram (btsp + i)) w.proc
  simp only [readSection, hwxSectionRead, Option.map_some, read, readServed]
  refine ⟨readRange_ok_eq _ _ _ _ _ _ _ _, ?_, ?_⟩
  · intro a outside
    split
    · rename_i low
      have low : btsp ≤ a := low
      rw [filled.rest (a - btsp) (by omega), Nat.add_sub_cancel' low]
    · rfl
  · intro ok pos
    have whole := all ok
    rw [whole] at filled
    have inside := filled.inside pos
    have start : (text.offset.toUInt64 + 0).toNat = text.offset.toNat := by simp
    rw [start] at inside
    rw [← ofList_slice _ inside]
    apply List.map_congr_left
    intro i mem
    have below := List.mem_range.mp mem
    have same := filled.bytes i below
    rw [start, Nat.zero_add] at same
    simp only [Nat.le_add_right, if_true, Nat.add_sub_cancel_left, same]

theorem memset_inside {a size i : Nat} {value : UInt8} (h : i < size) :
    (w.memset a value size).ram (a + i) = value := by
  have inside : i < (List.replicate size value).length := by rwa [List.length_replicate]
  have written : (w.memset a value size).ram (a + i) = _ := store_inside inside
  rw [written]
  simp [h]

theorem memset_outside {a b size : Nat} {value : UInt8} (h : b < a ∨ a + size ≤ b) :
    (w.memset a value size).ram b = w.ram b := by
  apply store_outside
  rwa [List.length_replicate]

/-- A buffer that is zero behind some first bytes. -/
theorem slice_padded {m : Mem} {off len : Nat} {bytes : List UInt8} (le : len ≤ n)
    (first : slice m off len = bytes) (zero : ∀ i, len ≤ i → i < n → m (off + i) = 0) :
    slice m off n = bytes ++ List.replicate (n - len) 0 := by
  have tail : slice m (off + len) (n - len) = List.replicate (n - len) 0 := by
    apply slice_zeros
    intro i below
    rw [Nat.add_assoc]
    exact zero (len + i) (by omega) (by omega)
  rw [← first, ← tail, ← slice_append, Nat.add_sub_cancel' le]

/-- A cleared buffer after the tasks are copied to it. -/
theorem copyTasks_ram (env : Env) (file : HwxFile) (text : HwxSection)
    (cleared : ∀ i < n, w.ram (btsp + i) = 0) (fits : copy.toNat ≤ n) :
    slice (copyTasks env file text copy btsp w).ram btsp n =
        taskBytes env.hwx.content text copy.toNat n (readServed env file text copy w.proc) ∧
      ∀ a : Nat, a < btsp ∨ btsp + n ≤ a → (copyTasks env file text copy btsp w).ram a = w.ram a := by
  obtain ⟨served, others, bytes⟩ := readSection_ram env file text btsp copy w
  by_cases pos : copy > 0
  · have some : 0 < copy.toNat := UInt64.lt_iff_toNat_lt.mp pos
    simp only [copyTasks, if_pos pos, taskBytes, ← served]
    generalize readSection env file text btsp copy w = r at others bytes
    obtain ⟨ok, w'⟩ := r
    cases ok with
    | true =>
      refine ⟨?_, fun a outside => others a (by omega)⟩
      apply slice_padded fits (bytes rfl some)
      intro i beyond below
      rw [others (btsp + i) (by omega), cleared i below]
    | false =>
      refine ⟨slice_zeros fun i below => ?_, fun a outside => ?_⟩
      · by_cases inCopy : i < copy.toNat
        · exact memset_inside inCopy
        · rw [memset_outside (by omega), others (btsp + i) (by omega), cleared i below]
      · rw [memset_outside (by omega), others a (by omega)]
  · have none : copy.toNat = 0 := by
      rw [gt_iff_lt, UInt64.lt_iff_toNat_lt] at pos
      simpa using pos
    simp only [copyTasks, if_neg pos, none, taskBytes, List.take_zero, List.nil_append, Nat.sub_zero,
      ite_self]
    exact ⟨slice_zeros cleared, fun _ _ => trivial⟩

end Copy

section Buffer

/-- The bytes the buffer of `nn` is to have before the patch. -/
def AneNn.taskBytes (env : Env) (nn : AneNn) (file : HwxFile) (text : HwxSection) (p : Process) :
    List UInt8 :=
  let copy := min nn.model.tdSize.toNat text.size.toNat
  Libane.taskBytes env.hwx.content text copy nn.btspChan.size.toNat
    (readServed env file text (UInt64.ofNat copy) p)

/-- What a call of `setBtspAndCommand` is to leave in memory: the buffer has these bytes with
the header of the first task patched, and no other byte is changed. -/
structure Bootstrapped (nn : AneNn) (btsp : Nat) (bytes : List UInt8) (w w' : World) : Prop where
  length : bytes.length = nn.btspChan.size.toNat
  room : 4 ≤ bytes.length
  header : HeaderPatched (u32 (ofList bytes) 0) (u32 w'.ram btsp)
  tasks : slice w'.ram (btsp + 4) (bytes.length - 4) = bytes.drop 4
  outside : ∀ a : Nat, a < btsp ∨ btsp + bytes.length ≤ a → w'.ram a = w.ram a

/-- The bytes say what the buffer is to hold, to the last bit. -/
theorem Bootstrapped.slice_eq {nn : AneNn} {bytes : List UInt8} {w₁ w₁' : World}
    (done : Bootstrapped nn btsp bytes w w') (done' : Bootstrapped nn btsp bytes w₁ w₁') :
    slice w'.ram btsp nn.btspChan.size.toNat = slice w₁'.ram btsp nn.btspChan.size.toNat := by
  have header := done.header.unique done'.header
  have room := done.room
  have tasks := done.tasks.trans done'.tasks.symm
  have split : bytes.length = 4 + (bytes.length - 4) := by omega
  rw [← done.length, split, slice_append, slice_append, tasks, ← toBytes_u32, ← toBytes_u32, header]

/-- The patch of the first word of a buffer. -/
theorem setNid_buffer {bytes : List UInt8} (before : slice w.ram btsp bytes.length = bytes)
    (room : 4 ≤ bytes.length) :
    HeaderPatched (u32 (ofList bytes) 0) (u32 (setNid btsp ANE_FIFO_NID w).ram btsp) ∧
      slice (setNid btsp ANE_FIFO_NID w).ram (btsp + 4) (bytes.length - 4) = bytes.drop 4 ∧
      ∀ a : Nat, a < btsp ∨ btsp + 4 ≤ a → (setNid btsp ANE_FIFO_NID w).ram a = w.ram a := by
  have same : SameBytes bytes.length w.ram btsp (ofList bytes) 0 := by
    intro i below
    have cell : (slice w.ram btsp bytes.length)[i]? = bytes[i]? := by rw [before]
    simp only [slice, List.getElem?_map, List.getElem?_range below, Option.map_some] at cell
    rw [ofList, Nat.zero_add, List.getD_eq_getElem?_getD, ← cell, Option.getD_some]
  have word := same.u32 0 room
  rw [Nat.add_zero, Nat.add_zero] at word
  have others (a : Nat) (outside : a < btsp ∨ btsp + 4 ≤ a) :
      (setNid btsp ANE_FIFO_NID w).ram a = w.ram a := by
    rw [setNid_eq]
    apply store_outside
    rwa [toBytes_length]
  refine ⟨?_, ?_, others⟩
  · rw [setNid_eq, ← word, u32_store]
    exact patchHeader_patched _
  · have tail : slice w.ram (btsp + 4) (bytes.length - 4) = bytes.drop 4 := by
      rw [same.slice 4 _ (by omega), Nat.zero_add, ofList_slice _ (by omega), List.take_of_length_le]
      exact Nat.le_of_eq List.length_drop
    rw [← tail]
    apply List.map_congr_left
    intro i _
    exact others _ (by omega)

theorem setBtspAndCommand_bootstrapped {env₀ : Env} (env : Env) {path : Option String} {w₀ : World} {nn : AneNn}
    (accepted : (aneModelInit env₀ path w₀).1 = .ok ())
    (model : nn.model = (aneModelInit env₀ path w₀).2.1) (map : nn.btspChan.map = some btsp)
    (size : nn.btspChan.size = tileAlign nn.model.tdSize.toUInt64) :
    ∃ file text, nn.model.hwx = some file ∧ file.FirstNamed (some textSegment) textSection text ∧
      ∀ w, Bootstrapped nn btsp (nn.taskBytes env file text.target w.proc) w
        (setBtspAndCommand env nn w) := by
  have init := aneModelInit_cases env₀ path w₀
  generalize aneModelInit env₀ path w₀ = result at init accepted model
  cases init with
  | noFile | refused => cases accepted
  | @accepted file s tsk krn _ opened state nonzero text const =>
    have hwx : nn.model.hwx = some file := by rw [model, modelOf]
    have tdSize : nn.model.tdSize ≠ 0 := by rwa [model, modelOf]
    obtain ⟨fits, tile⟩ := tileAlign_room tdSize
    rw [← size] at fits tile
    refine ⟨file, tsk, hwx, firstNamed_of_search text, fun w => ?_⟩
    have copied : (copySize nn.model.tdSize tsk.target.size nn.btspChan.size).toNat =
        min nn.model.tdSize.toNat tsk.target.size.toNat := copySize_toNat tdSize fits
    have nonempty : ¬ nn.btspChan.size = 0 := by
      intro zero
      rw [zero] at tile
      cases tile
    have expected : nn.taskBytes env file tsk.target w.proc =
        taskBytes env.hwx.content tsk.target
          (copySize nn.model.tdSize tsk.target.size nn.btspChan.size).toNat nn.btspChan.size.toNat
          (readServed env file tsk.target
            (copySize nn.model.tdSize tsk.target.size nn.btspChan.size) w.proc) := by
      simp only [AneNn.taskBytes, ← copied, UInt64.ofNat_toNat]
    simp only [setBtspAndCommand, hwx, map, hwxGetTskSection, hwxSectionByName, text, if_neg nonempty]
    rw [expected]
    generalize copySize nn.model.tdSize tsk.target.size nn.btspChan.size = copy at copied
    have cleared (i : Nat) (below : i < nn.btspChan.size.toNat) :
        (w.memset btsp 0 nn.btspChan.size.toNat).ram (btsp + i) = 0 := memset_inside below
    have far (a : Nat) (outside : a < btsp ∨ btsp + nn.btspChan.size.toNat ≤ a) :
        (w.memset btsp 0 nn.btspChan.size.toNat).ram a = w.ram a := memset_outside outside
    have proc : (w.memset btsp 0 nn.btspChan.size.toNat).proc = w.proc := rfl
    rw [← proc]
    generalize w.memset btsp 0 nn.btspChan.size.toNat = w₁ at cleared far
    obtain ⟨before, others⟩ := copyTasks_ram env file tsk.target cleared
      (by omega : copy.toNat ≤ nn.btspChan.size.toNat)
    generalize taskBytes _ _ _ _ _ = bytes at before
    have length : bytes.length = nn.btspChan.size.toNat := by rw [← before, slice_length]
    have room : 4 ≤ bytes.length := by omega
    rw [← length] at before others far
    obtain ⟨header, rest, outside⟩ := setNid_buffer before room
    refine ⟨length, room, header, rest, fun a away => ?_⟩
    exact (outside a (by omega)).trans ((others a away).trans (far a away))

/-- Whatever the buffer held and however the read of the section ends; and nothing that memory
held, in the buffer or outside, has a part in it. -/
theorem setBtspAndCommand_buffer {env₀ env : Env} {path : Option String} {w₀ : World} {nn : AneNn}
    (accepted : (aneModelInit env₀ path w₀).1 = .ok ())
    (model : nn.model = (aneModelInit env₀ path w₀).2.1) (map : nn.btspChan.map = some btsp)
    (size : nn.btspChan.size = tileAlign nn.model.tdSize.toUInt64) (w : World) :
    (∃ file text, nn.model.hwx = some file ∧ file.FirstNamed (some textSegment) textSection text ∧
      Bootstrapped nn btsp (nn.taskBytes env file text.target w.proc) w
        (setBtspAndCommand env nn w)) ∧
    ∀ ram, slice (setBtspAndCommand env nn { w with ram := ram }).ram btsp nn.btspChan.size.toNat =
      slice (setBtspAndCommand env nn w).ram btsp nn.btspChan.size.toNat := by
  obtain ⟨file, text, hwx, named, done⟩ :=
    setBtspAndCommand_bootstrapped env accepted model map size
  refine ⟨⟨file, text, hwx, named, done w⟩, fun ram => ?_⟩
  exact (done { w with ram := ram }).slice_eq (done w)

/-- A network of this model with a bootstrap buffer. -/
def networkOf (model : AneModel) : AneNn :=
  { AneNn.zero 0 with
    model := model
    btspChan := ⟨some 0x10000, tileAlign model.tdSize.toUInt64, 1, 0⟩ }

theorem networkOf_fields (model : AneModel) : (networkOf model).model = model ∧
    (networkOf model).btspChan.map = some 0x10000 ∧
      (networkOf model).btspChan.size = tileAlign (networkOf model).model.tdSize.toUInt64 :=
  ⟨rfl, rfl, rfl⟩

theorem segModel_accepted : (aneModelInit fewNodes (some "a.hwx") .idle).1 = .ok () := by
  decide +kernel

theorem setBtspAndCommand_buffer_segModel :
    let nn := networkOf (aneModelInit fewNodes (some "a.hwx") .idle).2.1
    let w : World := { World.idle with ram := fun _ => 7 }
    ∃ file text, nn.model.hwx = some file ∧ file.FirstNamed (some textSegment) textSection text ∧
      Bootstrapped nn 0x10000 (nn.taskBytes fewNodes file text.target w.proc) w
        (setBtspAndCommand fewNodes nn w) :=
  have fields := networkOf_fields (aneModelInit fewNodes (some "a.hwx") .idle).2.1
  (setBtspAndCommand_buffer segModel_accepted fields.1 fields.2.1 fields.2.2 _).1

end Buffer

end Ane.Libane
