import Ane.TaskDump

/-! The fields of a task descriptor in memory. No two that are printed have a bit in common, so
one can be assigned without a change to another; and the patch that starts a task is one such
change. -/
namespace Ane.Disasm
open Memory Posix Hwx Libane Printing

variable {layout : TdLayout} {place other : Place} {td td' : Mem} {data : U32.Word}

/-- Store the word of a field. -/
def Place.setWord (place : Place) (td : Mem) (data : U32.Word) : Mem :=
  store td place.offset (toBytes 4 data.toNat)

/-- Assign to a field of a descriptor in memory. -/
def Place.assign (place : Place) (value : U32.Word) (td : Mem) : Option Mem :=
  (place.bits.assign value (place.word td)).map (place.setWord td)

section Words

theorem Place.word_setWord (place : Place) (td : Mem) (data : U32.Word) :
    place.word (place.setWord td data) = data :=
  congrArg UInt32.toBitVec (u32_store td place.offset (UInt32.ofBitVec data))

theorem Place.word_congr (same : ∀ i < 4, td (place.offset + i) = td' (place.offset + i)) :
    place.word td = place.word td' := by
  have bytes : SameBytes 4 td place.offset td' place.offset := same
  rw [Place.word, Place.word, u32, u32, bytes.littleEndian]

theorem Place.setWord_outside {i : Nat} (outside : i < place.offset ∨ place.offset + 4 ≤ i) :
    place.setWord td data i = td i := by
  apply store_outside
  rwa [toBytes_length]

theorem Place.word_other
    (apart : place.offset + 4 ≤ other.offset ∨ other.offset + 4 ≤ place.offset) :
    other.word (place.setWord td data) = other.word td := by
  refine Place.word_congr fun i below => Place.setWord_outside ?_
  omega

theorem Place.value_eq (place : Place) (td : Mem) :
    place.value td = (u32 td place.offset).toNat / 2 ^ place.bits.N % 2 ^ place.bits.S := by
  have inside := place.bits.inside
  have small : (place.bits.bits (place.word td)).toNat < 2 ^ U32.bits :=
    (place.bits.bits (place.word td)).isLt.trans_le
      (Nat.pow_le_pow_right Nat.two_pos (by omega))
  rw [Place.value, Bitfield.get_unsigned place.bits rfl, BitVec.toNat_setWidth,
    Nat.mod_eq_of_lt small, Bitfield.bits, BitVec.extractLsb'_toNat, Nat.shiftRight_eq_div_pow]
  rfl

instance : Std.Symm Place.Apart where
  symm a b apart := by
    obtain before | after | ⟨same, disjoint⟩ := apart
    · exact .inr (.inl before)
    · exact .inl after
    · exact .inr (.inr ⟨same.symm, Or.symm disjoint⟩)

theorem Place.Apart.value_put (apart : place.Apart other) (value : U32.Word) (td : Mem) :
    other.value (place.setWord td (place.bits.put value (place.word td))) = other.value td := by
  obtain before | after | ⟨same, disjoint⟩ := apart
  · rw [Place.value, Place.word_other (.inl before)]
    rfl
  · rw [Place.value, Place.word_other (.inr after)]
    rfl
  · have here (m : Mem) : other.word m = place.word m := by rw [Place.word, Place.word, same]
    rw [Place.value, Place.value, here, here, place.word_setWord,
      Bitfield.get_unsigned other.bits rfl, Bitfield.get_unsigned other.bits rfl,
      disjoint.bits_put]

theorem TdLayout.apart_of_ne (layout : TdLayout) (mem : place ∈ layout.places)
    (mem' : other ∈ layout.places) (ne : place ≠ other) : place.Apart other :=
  layout.apart.forall mem mem' ne

end Words

section Assignments

theorem Line.places_of_shown {line : Line} (shown : place ∈ line.shown td) :
    place ∈ line.places := by
  cases line with
  | plain pieces => exact shown
  | switch lead enable pieces =>
    rw [Line.shown] at shown
    rw [Line.places]
    split at shown
    · exact shown
    · exact List.mem_cons.mpr (.inl (List.mem_singleton.mp shown))

theorem TdLayout.places_of_shown (layout : TdLayout) (shown : place ∈ layout.shown td) :
    place ∈ layout.places := by
  obtain ⟨line, mem, inside⟩ := List.mem_flatMap.mp shown
  exact List.mem_flatMap.mpr ⟨line, mem, Line.places_of_shown inside⟩

/-- A value in range can be assigned to any field that is printed. It is then read there, every
other number stays as it is, and the text is another one exactly if the field is shown and had
another value. -/
theorem TdLayout.assign_place (layout : TdLayout) (mem : place ∈ layout.places) {value : U32.Word}
    (valid : place.bits.InRange value) (td : Mem) :
    ∃ td', place.assign value td = some td' ∧ place.value td' = value.toNat ∧
      (∀ other ∈ layout.places, other ≠ place → other.value td' = other.value td) ∧
      (∀ i : Nat, layout.size.toNat ≤ i → td' i = td i) ∧
      (layout.print td' = layout.print td ↔
        (place ∈ layout.shown td → place.value td = value.toNat)) := by
  have assigned : place.assign value td =
      some (place.setWord td (place.bits.put value (place.word td))) := by
    rw [Place.assign, Bitfield.assign, if_pos valid, Option.map_some]
  have written : place.value (place.setWord td (place.bits.put value (place.word td))) =
      value.toNat := by
    rw [Place.value, place.word_setWord, Bitfield.get_put place.bits rfl _ valid]
  have others : ∀ other ∈ layout.places, other ≠ place →
      other.value (place.setWord td (place.bits.put value (place.word td))) = other.value td :=
    fun other mem' ne => (layout.apart_of_ne mem mem' ne.symm).value_put value td
  refine ⟨_, assigned, written, others, ?_, ?_⟩
  · intro i beyond
    have inside := layout.inside place mem
    exact Place.setWord_outside (.inr (by omega))
  · rw [eq_comm, (layout.tells td _).eq_iff]
    constructor
    · intro same shown
      rw [same place shown, written]
    · intro hidden other shown
      by_cases here : other = place
      · subst here
        rw [written, hidden shown]
      · exact (others other (layout.places_of_shown shown) here).symm

theorem nid_mem : nid ∈ tdV5.places := List.mem_of_getElem? (i := 1) rfl

/-- The identifier of a task of zeros. -/
theorem TdLayout.assign_place_nid : ∃ td', nid.assign 0x40 (fun _ => 0) = some td' ∧
    nid.value td' = 0x40 := by
  obtain ⟨td', assigned, written, -⟩ :=
    tdV5.assign_place nid_mem (by decide : nid.bits.InRange 0x40) fun _ => 0
  exact ⟨td', assigned, written⟩

end Assignments

section Bootstrap
variable {nn : AneNn} {btsp : Nat} {bytes : List UInt8} {w w' : World}

/-- The bootstrap buffer, read as a descriptor. -/
def bufferAt (btsp : Nat) (w : World) : Mem := fun i => w.ram (btsp + i)

theorem TdLayout.print_congr (layout : TdLayout) (same : ∀ i < layout.size.toNat, td i = td' i) :
    layout.print td = layout.print td' := by
  refine (layout.tells td td').eq_iff.mpr fun place shown => ?_
  have inside := layout.inside place (layout.places_of_shown shown)
  have words : place.word td = place.word td' :=
    Place.word_congr fun i below => same _ (by omega)
  rw [Place.value, Place.value, words]

/-- Behind its first word the buffer has the bytes of the tasks. -/
theorem bootstrapped_bytes (done : Bootstrapped nn btsp bytes w w') {i : Nat} (behind : 4 ≤ i)
    (below : i < bytes.length) : bufferAt btsp w' i = ofList bytes i := by
  have cell : (slice w'.ram (btsp + 4) (bytes.length - 4))[i - 4]? = (bytes.drop 4)[i - 4]? := by
    rw [done.tasks]
  have place : btsp + 4 + (i - 4) = btsp + i := by omega
  have index : 4 + (i - 4) = i := by omega
  have inRange : i - 4 < bytes.length - 4 := by omega
  rw [slice, List.getElem?_map, List.getElem?_range inRange, Option.map_some, place,
    List.getElem?_drop, index] at cell
  rw [bufferAt, ofList, List.getD_eq_getElem?_getD, ← cell, Option.getD_some]

theorem bootstrapped_value (done : Bootstrapped nn btsp bytes w w') (behind : 4 ≤ place.offset)
    (inside : place.offset + 4 ≤ bytes.length) :
    place.value (bufferAt btsp w') = place.value (ofList bytes) := by
  have words : place.word (bufferAt btsp w') = place.word (ofList bytes) :=
    Place.word_congr fun i below => bootstrapped_bytes done (by omega) (by omega)
  rw [Place.value, Place.value, words]

theorem u32_bufferAt (btsp : Nat) (w : World) : u32 (bufferAt btsp w) 0 = u32 w.ram btsp := by
  have bytes : SameBytes 4 (bufferAt btsp w) 0 w.ram btsp := fun i _ => by
    rw [bufferAt, Nat.zero_add]
  rw [u32, u32, bytes.littleEndian]

/-- The fields in the first word: a task's own number and the three behind it. -/
theorem tdV5_firstWord : ∀ place ∈ tdV5.places, 4 ≤ place.offset ∨ place.offset = 0 ∧
    (place.bits.N, place.bits.S) ∈ [(0, 16), (16, 8), (24, 1), (25, 1)] := by
  decide +kernel

theorem tdV11_firstWord : ∀ place ∈ tdV11.places, 4 ≤ place.offset := by
  decide +kernel

theorem Place.eq_nid (word : place.offset = 0) (N : place.bits.N = 16) (S : place.bits.S = 8) :
    place = nid := by
  obtain ⟨offset, ⟨_, _, _, _, _, _⟩⟩ := place
  cases word
  cases N
  cases S
  rfl

/-- The patch of the first task is a change of `nid` and of nothing else that is printed. -/
theorem bootstrapped_v5 (done : Bootstrapped nn btsp bytes w w') (room : 0x274 ≤ bytes.length)
    (mem : place ∈ tdV5.places) (ne : place ≠ nid) :
    place.value (bufferAt btsp w') = place.value (ofList bytes) := by
  have inside := tdV5.inside place mem
  change place.offset + 4 ≤ 0x274 at inside
  obtain behind | ⟨first, field⟩ := tdV5_firstWord place mem
  · exact bootstrapped_value done behind (by omega)
  · have header := done.header
    rw [Place.value_eq, Place.value_eq, first, u32_bufferAt]
    simp only [List.mem_cons, Prod.mk.injEq, List.not_mem_nil, or_false] at field
    obtain ⟨N, S⟩ | ⟨N, S⟩ | ⟨N, S⟩ | ⟨N, S⟩ := field
    · rw [N, S, Nat.pow_zero, Nat.div_one, Nat.div_one]
      exact header.tid
    · exact absurd (Place.eq_nid first N S) ne
    · rw [N, S]
      exact header.lnid
    · rw [N, S]
      exact header.eon

theorem bootstrapped_nid (done : Bootstrapped nn btsp bytes w w') :
    nid.value (bufferAt btsp w') = 0x40 := by
  rw [Place.value_eq]
  change (u32 (bufferAt btsp w') 0).toNat / 2 ^ 16 % 2 ^ 8 = 0x40
  rw [u32_bufferAt]
  exact done.header.nid

theorem bootstrapped_v11 (done : Bootstrapped nn btsp bytes w w') (room : 0x100 ≤ bytes.length) :
    tdV11.print (bufferAt btsp w') = tdV11.print (ofList bytes) := by
  refine (tdV11.tells _ _).eq_iff.mpr fun place shown => ?_
  have mem := tdV11.places_of_shown shown
  have inside := tdV11.inside place mem
  change place.offset + 4 ≤ 0x100 at inside
  exact bootstrapped_value done (tdV11_firstWord place mem) (by omega)

/-- The bytes of the tasks start as the section does, as far as they are copied. -/
theorem taskBytes_front (content : List UInt8) (text : HwxSection) {copy n : Nat} (size : Nat)
    (whole : n ≤ copy) {i : Nat} (below : i < n) :
    ofList (taskBytes content text copy size true) i =
      ofList ((content.drop text.offset.toNat).take n) i := by
  have inCopy : i < copy := by omega
  rw [taskBytes, if_pos rfl, ofList, ofList, List.getD_eq_getElem?_getD,
    List.getD_eq_getElem?_getD, List.getElem?_append, List.getElem?_take, List.getElem?_take,
    if_pos inCopy, if_pos below]
  split
  · rfl
  next behind =>
    have none : (content.drop text.offset.toNat)[i]? = none := by
      apply List.getElem?_eq_none
      rw [List.length_take] at behind
      omega
    rw [none, List.getElem?_replicate]
    split <;> rfl

/-- What the disassembler would print of the bootstrap buffer is what it prints of the tasks
copied there, but for the `nid` of a version 5 descriptor, which is then that of the queue; and
those tasks print as the section of the file does, if a whole descriptor was copied. -/
theorem bootstrap_dump {env₀ : Libane.Env} (env : Libane.Env) {path : Option String} {w₀ : World}
    {nn : AneNn} (accepted : (aneModelInit env₀ path w₀).1 = .ok ())
    (model : nn.model = (aneModelInit env₀ path w₀).2.1) (map : nn.btspChan.map = some btsp)
    (size : nn.btspChan.size = tileAlign nn.model.tdSize.toUInt64) :
    ∃ file text, nn.model.hwx = some file ∧ file.FirstNamed (some textSegment) textSection text ∧
      ∀ w,
        let tasks := ofList (nn.taskBytes env file text.target w.proc)
        nid.value (bufferAt btsp (setBtspAndCommand env nn w)) = 0x40 ∧
        (∀ place ∈ tdV5.places, place ≠ nid →
          place.value (bufferAt btsp (setBtspAndCommand env nn w)) = place.value tasks) ∧
        tdV11.print (bufferAt btsp (setBtspAndCommand env nn w)) = tdV11.print tasks ∧
        ∀ layout : TdLayout,
          layout.size.toNat ≤ min nn.model.tdSize.toNat text.target.size.toNat →
          readServed env file text.target
            (UInt64.ofNat (min nn.model.tdSize.toNat text.target.size.toNat)) w.proc = true →
          layout.print tasks = layout.print (ofList
            ((env.hwx.content.drop text.target.offset.toNat).take layout.size.toNat)) := by
  have nonzero : nn.model.tdSize ≠ 0 := by
    have init := aneModelInit_cases env₀ path w₀
    generalize aneModelInit env₀ path w₀ = result at init accepted model
    cases init with
    | noFile | refused => cases accepted
    | accepted _ _ nonzero => rwa [model, modelOf]
  obtain ⟨file, text, hwx, named, done⟩ :=
    setBtspAndCommand_bootstrapped env accepted model map size
  refine ⟨file, text, hwx, named, fun w => ?_⟩
  have room : 0x4000 ≤ (nn.taskBytes env file text.target w.proc).length := by
    rw [(done w).length, size]
    exact (tileAlign_room nonzero).2
  refine ⟨bootstrapped_nid (done w), fun place mem ne => ?_, ?_, fun layout whole served => ?_⟩
  · exact bootstrapped_v5 (done w) (by omega) mem ne
  · exact bootstrapped_v11 (done w) (by omega)
  · refine layout.print_congr fun i below => ?_
    rw [AneNn.taskBytes, served]
    exact taskBytes_front _ _ _ whole below

theorem bootstrap_dump_segModel :
    let nn := networkOf (aneModelInit fewNodes (some "a.hwx") .idle).2.1
    let buffer := bufferAt 0x10000 (setBtspAndCommand fewNodes nn .idle)
    ∃ file text, nn.model.hwx = some file ∧ file.FirstNamed (some textSegment) textSection text ∧
      nid.value buffer = 0x40 ∧
      (∀ place ∈ tdV5.places, place ≠ nid → place.value buffer =
        place.value (ofList (nn.taskBytes fewNodes file text.target World.idle.proc))) ∧
      tdV11.print buffer =
        tdV11.print (ofList (nn.taskBytes fewNodes file text.target World.idle.proc)) := by
  have fields := networkOf_fields (aneModelInit fewNodes (some "a.hwx") .idle).2.1
  obtain ⟨file, text, hwx, named, dumped⟩ :=
    bootstrap_dump fewNodes segModel_accepted fields.1 fields.2.1 fields.2.2
  obtain ⟨number, others, newer, -⟩ := dumped .idle
  exact ⟨file, text, hwx, named, number, others, newer⟩

end Bootstrap

end Ane.Disasm
