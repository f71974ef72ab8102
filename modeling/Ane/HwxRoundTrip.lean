import Ane.HwxImage
import Ane.HwxStates

/-! The reader and the images. What `hwxOpen` accepts are the images written out, each file in
one way only, and the tables it returns are those of the image. -/
namespace Ane.Hwx
open Memory Posix

section Commands
variable {m : Mem} {off len n left : Nat} {c c' : CommandImage} {cmds cmds' : List CommandImage}
  {offs : List Nat}

/-- A command can be read in one way only. -/
theorem CommandImage.Valid.unique (valid : c.Valid len) (valid' : c'.Valid len)
    (at_ : At m off c.write) (at_' : At m off c'.write) : c = c' := by
  have kind := valid.typeOk.kind at_
  have kind' := valid'.typeOk.kind at_'
  have lengths : c.write.length = c'.write.length := by
    rw [← valid.cmdsizeAt at_, valid'.cmdsizeAt at_']
  have segments : c.segments ≠ [] ↔ c'.segments ≠ [] := kind.1.symm.trans kind'.1
  have states : c.states ≠ [] ↔ c'.states ≠ [] := kind.2.symm.trans kind'.2
  have same : c.write = c'.write := at_.unique at_' lengths
  have typeOk := valid.typeOk
  have typeOk' := valid'.typeOk
  cases c with
  | segment record sections tail =>
    cases c' with
    | segment record' sections' tail' =>
      obtain ⟨read, elems, ends⟩ := (at_segment typeOk).mp at_
      obtain ⟨read', elems', ends'⟩ := (at_segment typeOk').mp at_'
      obtain rfl : record = record' := read.symm.trans read'
      have count : sections.length = sections'.length := by
        rw [← typeOk.2.2.1, typeOk'.2.2.1]
      rw [count] at elems ends
      obtain rfl : sections = sections' := elems.symm.trans elems'
      rw [typeOk.write_length, typeOk'.write_length] at lengths
      rw [ends.unique ends' (Nat.add_left_cancel lengths)]
    | _ => simp [CommandImage.segments] at segments
  | thread record images tail =>
    cases c' with
    | thread record' images' tail' =>
      obtain rfl : record = record' :=
        (at_loadCommand.mp at_).1.symm.trans (at_loadCommand.mp at_').1
      obtain ⟨rfl, rfl⟩ := typeOk.2.2.unique typeOk'.2.2 (List.append_cancel_left same)
      rfl
    | segment => simp [CommandImage.segments] at segments
    | other => simp [CommandImage.states, typeOk.2.1] at states
  | other record body =>
    cases c' with
    | other record' body' =>
      obtain rfl : record = record' :=
        (at_loadCommand.mp at_).1.symm.trans (at_loadCommand.mp at_').1
      rw [List.append_cancel_left same]
    | segment => simp [CommandImage.segments] at segments
    | thread => simp [CommandImage.states, typeOk'.2.1] at states

/-- What meets the demands is a command. -/
theorem exists_command (ok : CommandOk m len off) (room : 8 ≤ cmdsizeAt m off) :
    ∃ c : CommandImage, c.Valid len ∧ c.write = slice m off (cmdsizeAt m off) := by
  have record := LoadCommand.record.at_read m off
  have write : (commandAt m off).write = slice m off 8 := record.symm
  by_cases segment : isSegment m off = true
  · have good := ok.segment segment
    have cmdsize := good.cmdsize
    let sections := (List.range (nsectsAt m off)).map (sectionAt m off)
    let used := 72 + 80 * nsectsAt m off
    let c : CommandImage := .segment (segmentAt m off) sections
      (slice m (off + used) (cmdsizeAt m off - used))
    have count : sections.length = nsectsAt m off := by simp [sections]
    have typeOk : c.TypeOk len := by
      have cmd : (commandAt m off).cmd = HWX_LOAD_COMMAND_SEGMENT_64 := of_decide_eq_true segment
      refine ⟨cmd, slice_length, count.symm, good.range, ?_⟩
      intro s mem
      obtain ⟨i, below, rfl⟩ := List.mem_map.mp mem
      exact ⟨Section64.record.good_read _ _, good.sections i (List.mem_range.mp below)⟩
    have here : At m off c.write := by
      refine (at_segment typeOk).mpr ⟨rfl, by rw [count], ?_⟩
      rw [count, Nat.add_assoc]
      exact at_slice _ _ _
    have length : c.write.length = cmdsizeAt m off := by
      rw [typeOk.write_length, count, slice_length]
      omega
    refine ⟨c, ⟨length.symm, typeOk⟩, ?_⟩
    rw [← length]
    exact here.symm
  · have split : slice m off (cmdsizeAt m off) =
        (commandAt m off).write ++ slice m (off + 8) (cmdsizeAt m off - 8) := by
      rw [write, ← slice_append]
      congr 1
      omega
    have length : (commandAt m off).cmdsize.toNat = (slice m off (cmdsizeAt m off)).length := by
      rw [slice_length, cmdsizeAt]
    by_cases thread : isThread m off = true
    · obtain ⟨images, tail, fit, written⟩ := exists_states (slice m (off + 8) (cmdsizeAt m off - 8))
      have some_ : images ≠ [] := by
        rintro rfl
        have short : tail.length < 8 := fit
        have large := ok.thread thread
        have lengths := congrArg List.length written
        rw [List.flatMap_nil, List.nil_append, slice_length] at lengths
        omega
      refine ⟨.thread (commandAt m off) images tail, ⟨?_, ?_, some_, fit⟩, ?_⟩
      · rw [CommandImage.start, CommandImage.write, written, ← split]
        exact length
      · simpa [isThread] using thread
      · rw [CommandImage.write, written, split]
    · refine ⟨.other (commandAt m off) (slice m (off + 8) (cmdsizeAt m off - 8)), ⟨?_, ?_⟩, ?_⟩
      · rw [CommandImage.start, CommandImage.write, ← split]
        exact length
      · simpa [CommandImage.TypeOk, isSegment, isThread] using And.intro segment thread
      · rw [CommandImage.write, split]

theorem CommandImage.TypeOk.room (typeOk : c.TypeOk len) : 8 ≤ c.write.length := by
  cases c with
  | segment record sections tail =>
    rw [typeOk.write_length]
    omega
  | _ =>
    rw [write, List.length_append, LoadCommand.write_length]
    exact Nat.le_add_right _ _

/-- Commands written one behind the other are walked through one by one. -/
theorem walk_of_at (valid : ∀ c ∈ cmds, c.Valid len)
    (at_ : At m off (cmds.flatMap CommandImage.write)) :
    ∃ offs, Walk m off cmds.length (cmds.flatMap CommandImage.write).length offs ∧
      List.Forall₂ (fun o c => At m o c.write) offs cmds ∧ ∀ o ∈ offs, CommandOk m len o := by
  induction cmds generalizing off with
  | nil => exact ⟨[], .done off, .nil, by simp⟩
  | cons c cmds ih =>
    obtain ⟨first, others⟩ := List.forall_mem_cons.mp valid
    rw [List.flatMap_cons, at_append] at at_
    obtain ⟨offs, walk, rel, good⟩ := ih others at_.2
    have size := first.cmdsizeAt at_.1
    have room := first.typeOk.room
    refine ⟨off :: offs, ?_, .cons at_.1 rel,
      List.forall_mem_cons.mpr ⟨first.commandOk at_.1, good⟩⟩
    rw [List.flatMap_cons, List.length_append]
    refine .next (by omega) (by omega) ?_
    rwa [size, Nat.add_sub_cancel_left]

/-- The bytes of a walk are commands written one behind the other. -/
theorem Walk.exists_commands (walk : Walk m off n left offs)
    (ok : ∀ o ∈ offs, CommandOk m len o) :
    ∃ cmds : List CommandImage, (∀ c ∈ cmds, c.Valid len) ∧ cmds.length = n ∧
      cmds.flatMap CommandImage.write = slice m off left := by
  induction walk with
  | done => exact ⟨[], by simp, rfl, rfl⟩
  | @next off n left offs header fits rest ih =>
    obtain ⟨first, others⟩ := List.forall_mem_cons.mp ok
    obtain ⟨cmds, valid, count, written⟩ := ih others
    obtain ⟨c, good, here⟩ := exists_command first header
    refine ⟨c :: cmds, List.forall_mem_cons.mpr ⟨good, valid⟩, by rw [List.length_cons, count], ?_⟩
    rw [List.flatMap_cons, written, here, ← slice_append]
    congr 1
    omega

theorem commands_unique (valid : ∀ c ∈ cmds, c.Valid len) (valid' : ∀ c ∈ cmds', c.Valid len)
    (count : cmds.length = cmds'.length) (at_ : At m off (cmds.flatMap CommandImage.write))
    (at_' : At m off (cmds'.flatMap CommandImage.write)) : cmds = cmds' := by
  induction cmds generalizing off cmds' with
  | nil => exact (List.length_eq_zero_iff.mp count.symm).symm
  | cons c cmds ih =>
    cases cmds' with
    | nil => cases count
    | cons c' cmds' =>
      obtain ⟨first, others⟩ := List.forall_mem_cons.mp valid
      obtain ⟨first', others'⟩ := List.forall_mem_cons.mp valid'
      rw [List.flatMap_cons, at_append] at at_ at_'
      obtain rfl := first.unique first' at_.1 at_'.1
      rw [ih others others' (Nat.succ.inj count) at_.2 at_'.2]

end Commands

section Image
variable {I I' : Image} {c : Mem} {len : Nat} {offs : List Nat} {cmds : List CommandImage}

/-- The three parts of an image and where they stand. -/
theorem Image.at_write {m : Mem} : At m 0 I.write ↔ Hwx.header m = I.header ∧
    At m 32 (I.commands.flatMap CommandImage.write) ∧
    At m (32 + (I.commands.flatMap CommandImage.write).length) I.rest := by
  rw [Image.write, at_append, at_append, I.header.write_length, Nat.zero_add]
  exact and_congr (MachHeader64.record.placed m 0 I.header trivial) Iff.rfl

theorem Image.write_length (I : Image) :
    I.write.length = 32 + (I.commands.flatMap CommandImage.write).length + I.rest.length := by
  rw [Image.write, List.length_append, List.length_append, I.header.write_length, Nat.add_assoc]

/-- The segments found at the offsets of a walk are those of the commands. -/
theorem segments_at (valid : ∀ c ∈ cmds, c.Valid len)
    (rel : List.Forall₂ (fun o (cmd : CommandImage) => At c o cmd.write) offs cmds) :
    List.Forall₂ (fun o p => segmentAt c o = p.1 ∧
        (List.range (nsectsAt c o)).map (sectionAt c o) = p.2)
      (offs.filter (isSegment c)) (cmds.flatMap CommandImage.segments) := by
  induction rel with
  | nil => exact .nil
  | @cons o cmd offs cmds here _ ih =>
    obtain ⟨first, others⟩ := List.forall_mem_cons.mp valid
    have typeOk := first.typeOk
    have kind := typeOk.kind here
    rw [List.flatMap_cons]
    cases cmd with
    | segment record sections tail =>
      obtain ⟨read, elems, -⟩ := (at_segment typeOk).mp here
      have count : nsectsAt c o = sections.length := by rw [nsectsAt, read, typeOk.2.2.1]
      have seen : isSegment c o = true := kind.1.mpr (by simp [CommandImage.segments])
      rw [List.filter_cons_of_pos seen]
      exact .cons ⟨read, by rw [count, elems]⟩ (ih others)
    | _ =>
      have unseen : ¬ isSegment c o = true := fun seen => kind.1.mp seen rfl
      rw [List.filter_cons_of_neg unseen]
      exact ih others

/-- The states read at the offsets of a walk are those of the commands. -/
theorem states_at (valid : ∀ c ∈ cmds, c.Valid len)
    (rel : List.Forall₂ (fun o (cmd : CommandImage) => At c o cmd.write) offs cmds)
    {parts : List (List HwxThreadState)}
    (decoded : List.Forall₂ (fun o => ThreadStates c (o + 8) (cmdsizeAt c o - 8))
      (offs.filter (isThread c)) parts) :
    parts.flatten.map StateImage.ofState = cmds.flatMap CommandImage.states ∧
      ∀ s ∈ parts.flatten, s.byteSize.toNat = s.data.elems.length := by
  induction rel generalizing parts with
  | nil =>
    cases decoded
    simp
  | @cons o cmd offs cmds here _ ih =>
    obtain ⟨first, others⟩ := List.forall_mem_cons.mp valid
    have typeOk := first.typeOk
    have kind := typeOk.kind here
    have size := first.cmdsizeAt here
    rw [List.flatMap_cons]
    cases cmd with
    | thread record images tail =>
      have seen : isThread c o = true := kind.2.mpr typeOk.2.1
      rw [List.filter_cons_of_pos seen] at decoded
      cases decoded with
      | @cons _ states _ parts head rest =>
        obtain ⟨same, sizes⟩ := ih others rest
        rw [size, CommandImage.write, List.length_append, record.write_length,
          Nat.add_sub_cancel_left] at head
        obtain ⟨this, these⟩ := head.image typeOk.2.2 (at_loadCommand.mp here).2 rfl
        rw [List.flatten_cons, List.map_append, this, same]
        refine ⟨rfl, fun s mem => ?_⟩
        exact (List.mem_append.mp mem).elim (these s) (sizes s)
    | _ =>
      have unseen : ¬ isThread c o = true := fun seen => kind.2.mp seen rfl
      rw [List.filter_cons_of_neg unseen] at decoded
      exact ih others decoded

theorem SectionDecoded.eq {src : Section64} {s : HwxSection} (same : SectionDecoded src s) :
    HwxSection.ofSection64 src = s := by
  cases s
  simp only [HwxSection.ofSection64, hwxTrimName_eq, HwxSection.mk.injEq]
  exact ⟨same.segmentName.symm, same.sectionName.symm, same.addr.symm, same.size.symm,
    same.offset.symm, same.align.symm, same.reloff.symm, same.nreloc.symm, same.flags.symm,
    same.reserved1.symm, same.reserved2.symm, same.reserved3.symm⟩

theorem SegmentDecoded.eq {off : Nat} {s : HwxSegment} (same : SegmentDecoded c off s) :
    s = HwxSegment.ofSegmentCommand64 (segmentAt c off) ⟨s.sections.block,
      ((List.range (nsectsAt c off)).map (sectionAt c off)).map HwxSection.ofSection64⟩ := by
  have each : List.Forall₂ (fun i s => HwxSection.ofSection64 (sectionAt c off i) = s)
      (List.range (nsectsAt c off)) s.sections.elems := same.sections.imp fun _ _ same => same.eq
  have sections := List.forall₂_map_left_iff.mpr each
  rw [List.forall₂_eq_eq_eq] at sections
  rw [List.map_map, HwxSegment.ofSegmentCommand64, hwxTrimName_eq]
  obtain ⟨name, vmaddr, vmsize, fileoff, filesize, maxprot, initprot, flags, block, elems⟩ := s
  simp only [HwxSegment.mk.injEq, HeapArray.mk.injEq, true_and]
  exact ⟨same.name, same.vmaddr, same.vmsize, same.fileoff, same.filesize, same.maxprot,
    same.initprot, same.flags, sections.symm⟩

/-- What both sides of a middle list have to do with one another. -/
theorem forall₂_join {α β γ : Type} {R : α → β → Prop} {S : α → γ → Prop} {T : β → γ → Prop}
    (join : ∀ a b c, R a b → S a c → T b c) {as : List α} {bs : List β} {cs : List γ}
    (left : List.Forall₂ R as bs) (right : List.Forall₂ S as cs) : List.Forall₂ T bs cs := by
  induction left generalizing cs with
  | nil =>
    cases right
    exact .nil
  | cons head _ ih =>
    cases right with
    | cons head' tail' => exact .cons (join _ _ _ head head') (ih tail')

/-- A section is found at the offsets of a walk exactly when a command has it. -/
theorem hasSection_iff (valid : ∀ c ∈ cmds, c.Valid len)
    (rel : List.Forall₂ (fun o (cmd : CommandImage) => At c o cmd.write) offs cmds) (name : Name) :
    HasSection c offs name ↔ ∃ p ∈ cmds.flatMap CommandImage.segments,
      cut p.1.segname = textSegment ∧ ∃ s ∈ p.2, cut s.sectname = name := by
  have same (o : Nat) (p : SegmentCommand64 × List Section64) (read : segmentAt c o = p.1 ∧
      (List.range (nsectsAt c o)).map (sectionAt c o) = p.2) :
      (cut (segmentAt c o).segname = textSegment ∧
        ∃ i < nsectsAt c o, cut (sectionAt c o i).sectname = name) ↔
      (cut p.1.segname = textSegment ∧ ∃ s ∈ p.2, cut s.sectname = name) := by
    rw [← read.1, ← read.2]
    simp
  rw [← exists_iff_of_forall₂ same (segments_at valid rel)]
  simp [HasSection, and_assoc]

/-- Written out, an image is a well-formed container. -/
theorem Image.Valid.wellFormed (valid : I.Valid) :
    ∃ offs, WellFormed (ofList I.write) I.write.length offs ∧
      List.Forall₂ (fun o (cmd : CommandImage) => At (ofList I.write) o cmd.write) offs
        I.commands := by
  obtain ⟨start, commands, -⟩ := Image.at_write.mp (at_ofList I.write)
  obtain ⟨offs, walk, rel, good⟩ := walk_of_at valid.commands commands
  have length := I.write_length
  refine ⟨offs, ⟨⟨by omega, ?_, ?_⟩, ?_, good, (hasSection_iff valid.commands rel _).mpr valid.text,
    (hasSection_iff valid.commands rel _).mpr valid.const⟩, rel⟩
  · rw [start, valid.magic]
  · rw [start, valid.sizeofcmds]
    omega
  · rw [start, valid.ncmds, valid.sizeofcmds]
    exact walk

/-- A file opened shows the image that it is. -/
theorem Image.Valid.shown (valid : I.Valid) {file : HwxFile}
    (opened : Opened (ofList I.write) I.write.length offs file)
    (rel : List.Forall₂ (fun o (cmd : CommandImage) => At (ofList I.write) o cmd.write) offs
      I.commands) : I.Shown file where
  header := by rw [opened.header, (Image.at_write.mp (at_ofList I.write)).1]
  fileSize := opened.fileSize
  segments := by
    refine forall₂_join ?_ (segments_at valid.commands rel) opened.tables.segments
    rintro o p s ⟨record, sections⟩ decoded
    refine ⟨s.sections.block, ?_⟩
    rw [← record, ← sections]
    exact decoded.eq
  states := by
    obtain ⟨parts, eq, decoded⟩ := opened.tables.threadStates
    rw [eq]
    exact (states_at valid.commands rel decoded).1
  byteSize := by
    obtain ⟨parts, eq, decoded⟩ := opened.tables.threadStates
    rw [eq]
    exact (states_at valid.commands rel decoded).2
  tdVersion := opened.tdVersion

/-- Every well-formed container is an image written out. -/
theorem WellFormed.exists_image {content : List UInt8}
    (wellFormed : WellFormed (ofList content) content.length offs) :
    ∃ I : Image, I.Valid ∧ I.write = content := by
  have start := wellFormed.start
  have room := start.commands
  obtain ⟨cmds, valid, count, written⟩ := wellFormed.walk.exists_commands wellFormed.commands
  have placed : At (ofList content) 32 (cmds.flatMap CommandImage.write) := by
    rw [written]
    exact at_slice _ _ _
  have length : (cmds.flatMap CommandImage.write).length =
      (header (ofList content)).sizeofcmds.toNat := by rw [written, slice_length]
  obtain ⟨offs', walk, rel, -⟩ := walk_of_at valid placed
  rw [count, length] at walk
  obtain rfl := wellFormed.walk.unique walk
  let I : Image := ⟨header (ofList content), cmds,
    content.drop (32 + (header (ofList content)).sizeofcmds.toNat)⟩
  have same : I.write = content := by
    have first : (header (ofList content)).write = slice (ofList content) 0 32 :=
      (MachHeader64.record.at_read (ofList content) 0).symm
    have front : slice (ofList content) 0 (32 + (header (ofList content)).sizeofcmds.toNat) =
        slice (ofList content) 0 32 ++ slice (ofList content) 32 _ := slice_append _ 0 32 _
    rw [Image.write, first, written, ← List.append_assoc, ← front, ofList_slice content (by omega),
      List.drop_zero, List.take_append_drop]
  refine ⟨I, ⟨start.magic, count.symm, length.symm, ?_,
    (hasSection_iff valid rel _).mp wellFormed.text,
    (hasSection_iff valid rel _).mp wellFormed.const⟩, same⟩
  rw [same]
  exact valid

/-- A file is an image in one way only. -/
theorem Image.Valid.unique (valid : I.Valid) (valid' : I'.Valid) (same : I.write = I'.write) :
    I = I' := by
  have here := at_ofList I.write
  have here' : At (ofList I.write) 0 I'.write := by
    rw [← same]
    exact here
  obtain ⟨start, commands, -⟩ := Image.at_write.mp here
  obtain ⟨start', commands', -⟩ := Image.at_write.mp here'
  have headers : I.header = I'.header := start.symm.trans start'
  have count : I.commands.length = I'.commands.length := by
    rw [← valid.ncmds, headers, valid'.ncmds]
  have good' : ∀ c ∈ I'.commands, c.Valid I.write.length := by
    rw [same]
    exact valid'.commands
  have cmds := commands_unique valid.commands good' count commands commands'
  rw [Image.write, Image.write, headers, cmds] at same
  have rest := List.append_cancel_left (List.append_cancel_left same)
  cases I
  cases I'
  rw [Image.mk.injEq]
  exact ⟨headers, cmds, rest⟩

end Image

section Open
variable {env : Env} {file : HwxFile} {p : Process}

/-- An image that is written out is opened, and the file shows it: writing and reading are
inverse. -/
theorem hwxOpen_write (favourable : env.Favourable) (path : String) (p : Process) {I : Image}
    (valid : I.Valid) (content : env.content = I.write) :
    ∃ file, (hwxOpen env (some path) p).1 = some file ∧ I.Shown file := by
  obtain ⟨offs, wellFormed, rel⟩ := valid.wellFormed
  rw [← content] at wellFormed
  have accepted : (hwxOpen env (some path) p).1.isSome = true :=
    hwxOpen_isSome favourable path wellFormed
  obtain ⟨file, opened⟩ := Option.isSome_iff_exists.mp accepted
  obtain ⟨offs', wellFormed', shown⟩ := hwxOpen_some opened
  obtain rfl := wellFormed.walk.unique wellFormed'.walk
  rw [content] at shown
  exact ⟨file, opened, valid.shown shown rel⟩

/-- A container with two sections of one segment, the first of them at the end of the file, a
thread state cut short, and a command of another type. -/
def smallImage : Image where
  header := ⟨HWX_MACHO_MAGIC_64, 0, 4, 0, 3, 262, 0, 0⟩
  commands :=
    [.segment ⟨HWX_LOAD_COMMAND_SEGMENT_64, 232, padded textSegment, 0, 0, 294, 8, 0, 0, 2, 0⟩
      [⟨padded textSection, padded textSegment, 0, 8, 294, 0, 0, 0, 0, 0, 0, 0⟩,
        ⟨padded constSection, padded textSegment, 0, 0, 0, 0, 0, 0, 0, 0, 0, 0⟩] [],
      .thread ⟨HWX_LOAD_COMMAND_THREAD, 21⟩ [⟨4, 2, [1, 2, 3, 4, 5]⟩] [],
      .other ⟨2, 9⟩ [6]]
  rest := [7, 8, 9, 10, 11, 12, 13, 14]
where
  padded (name : Name) : Name := name ++ List.replicate (16 - name.length) 0

theorem smallImage_valid : smallImage.Valid where
  magic := rfl
  ncmds := rfl
  sizeofcmds := by decide +kernel
  commands := by
    have length : smallImage.write.length = 302 := by decide +kernel
    rw [length]
    have first : SectionOk 302 ⟨smallImage.padded textSection, smallImage.padded textSegment, 0, 8,
        294, 0, 0, 0, 0, 0, 0, 0⟩ := ⟨fun _ => by decide⟩
    have second : SectionOk 302 ⟨smallImage.padded constSection, smallImage.padded textSegment, 0, 0,
        0, 0, 0, 0, 0, 0, 0, 0⟩ := ⟨fun some_ => absurd rfl some_⟩
    refine List.forall_mem_cons.mpr ⟨⟨by decide +kernel, rfl, rfl, rfl, by decide, ?_⟩,
      List.forall_mem_cons.mpr ⟨⟨by decide +kernel, rfl, by simp, ?_⟩,
        List.forall_mem_singleton.mpr ⟨by decide +kernel, by decide, by decide⟩⟩⟩
    · exact List.forall_mem_cons.mpr ⟨⟨⟨rfl, rfl⟩, first⟩,
        List.forall_mem_singleton.mpr ⟨⟨rfl, rfl⟩, second⟩⟩
    · exact ⟨.inr ⟨by decide, rfl, rfl⟩, Nat.succ_pos 7⟩
  text := by
    unfold Image.HasSection
    decide +kernel
  const := by
    unfold Image.HasSection
    decide +kernel

theorem smallImage_lt : smallImage.write.length < 2 ^ 63 := by
  decide +kernel

theorem hwxOpen_write_smallImage : ∃ file,
    (hwxOpen (Env.plain smallImage.write smallImage_lt) (some "a.hwx") .fresh).1 = some file ∧
      smallImage.Shown file :=
  hwxOpen_write (Env.plain_favourable _ _) "a.hwx" .fresh smallImage_valid rfl

/-- Whatever the environment answers, a file that is opened is an image written out, in one way
only, and shows that image. -/
theorem hwxOpen_image {path : Option String} (h : (hwxOpen env path p).1 = some file) :
    (∃! I : Image, I.Valid ∧ I.write = env.content) ∧
      ∀ I : Image, I.Valid → I.write = env.content → I.Shown file := by
  obtain ⟨offs, wellFormed, opened⟩ := hwxOpen_some h
  obtain ⟨I, valid, same⟩ := wellFormed.exists_image
  refine ⟨⟨I, ⟨valid, same⟩, ?_⟩, ?_⟩
  · rintro I' ⟨valid', same'⟩
    exact valid'.unique valid (same'.trans same.symm)
  · intro I' valid' same'
    obtain ⟨offs', wellFormed', rel⟩ := valid'.wellFormed
    rw [← same'] at opened wellFormed
    obtain rfl := wellFormed.walk.unique wellFormed'.walk
    exact valid'.shown opened rel

theorem hwxOpen_image_threadFile :
    (∃! I : Image, I.Valid ∧ I.write = threadContainer) ∧
      ∀ I : Image, I.Valid → I.write = threadContainer → I.Shown threadFile :=
  hwxOpen_image threadFile_opened

end Open

end Ane.Hwx
