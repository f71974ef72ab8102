import Ane.Bootstrap
import Ane.TaskDescriptor

/-! What the dump of a task descriptor tells: the fields it shows, each of them, and nothing
else. -/
namespace Ane.Disasm
open Memory Posix Hwx Libane Printing

/-- What goes to the two streams. -/
structure Console where
  out : List Char
  err : List Char

/-- The descriptors of one version. No bit is printed twice. -/
structure TdLayout where
  typeName : String
  size : UInt64
  lines : List Line
  positive : 0 < size
  headed : ∃ s rest, lines = heading s :: rest
  inside : ∀ place ∈ lines.flatMap Line.places, place.offset + 4 ≤ size.toNat
  apart : (lines.flatMap Line.places).Pairwise Place.Apart

def tdV5 : TdLayout where
  typeName := "TD_V5"
  size := 0x274
  lines := tdV5Lines
  positive := by decide
  headed := ⟨_, _, rfl⟩
  inside := by decide +kernel
  apart := by decide +kernel

def tdV11 : TdLayout where
  typeName := "TD_V11"
  size := 0x100
  lines := tdV11Lines
  positive := by decide
  headed := ⟨_, _, rfl⟩
  inside := by decide +kernel
  apart := by decide +kernel

namespace TdLayout
variable (layout : TdLayout)

def places : List Place := layout.lines.flatMap Line.places

def print (td : Mem) : List Char := layout.lines.flatMap (Line.print td)

def shown (td : Mem) : List Place := layout.lines.flatMap (Line.shown td)

def tooSmall : List Char :=
  "\n__TEXT/__text is smaller than a ".toList ++
    (layout.typeName.toList ++ "; skipping dump.\n".toList)

/-- The lines before the first descriptor, of a section of `size` bytes. -/
def preamble (size : UInt64) : List Char :=
  "\nTD (__TEXT/__text)\n  total entries : ".toList ++
    (Format.dec.text (size / layout.size).toNat ++ [' '] ++ ("(showing first)\n".toList ++
      if size % layout.size ≠ 0 then
        "  trailing bytes : ".toList ++ (Format.dec.text (size % layout.size).toNat ++ ['\n'])
      else []))

variable (env : Posix.Env) (strerror : Errno → String)

/-- The descriptor is read into a buffer of zeros. -/
def dump (file : Option HwxFile) (sec : Option HwxSection) (p : Process) : Console × Process :=
  match file, sec with
  | some file, some sec =>
    if sec.size < layout.size then (⟨layout.tooSmall, []⟩, p)
    else
      let r := hwxSectionRead env (some file) (some sec) 0 (some fun _ => 0) layout.size p
      match r.ok, r.dst with
      | true, some td => (⟨layout.preamble sec.size ++ layout.print td, []⟩, r.proc)
      | _, _ => (⟨layout.preamble sec.size,
          "Failed to read __TEXT/__text: ".toList ++ (strerror r.proc.errno).toList ++ ['\n']⟩,
          r.proc)
  | _, _ => (⟨[], []⟩, p)

end TdLayout

def dumpTdV5 := tdV5.dump
def dumpTdV11 := tdV11.dump

section Texts
variable {layout : TdLayout} {td td' : Mem}

theorem Place.value_lt (place : Place) (td : Mem) : place.value td < 2 ^ place.bits.S := by
  have small := (place.bits.bits (place.word td)).isLt
  rw [Place.value, Bitfield.get_unsigned place.bits rfl, BitVec.toNat_setWidth]
  exact (Nat.mod_le _ _).trans_lt small

/-- A field of one bit is told by whether it is set. -/
theorem Flag.value_eq_iff (enable : Flag) (td td' : Mem) :
    enable.val.value td = enable.val.value td' ↔
      (enable.val.value td ≠ 0 ↔ enable.val.value td' ≠ 0) := by
  have one := enable.property
  have bound := enable.val.value_lt td
  have bound' := enable.val.value_lt td'
  rw [one] at bound bound'
  omega

theorem Line.tells (line : Line) (td td' : Mem) : Tells (line.print td) (line.print td')
    (∀ place ∈ line.shown td, place.value td = place.value td') := by
  cases line with
  | plain pieces => exact Piece.tells_all pieces (Place.value td) (Place.value td')
  | switch lead enable pieces =>
    have apart (x : List Char) : Tells ("Enabled (base".toList ++ x) "Disabled\n".toList False :=
      Tells.differ (by decide : 'E' ≠ 'D')
    have apart' (x : List Char) : Tells "Disabled\n".toList ("Enabled (base".toList ++ x) False :=
      Tells.differ (by decide : 'D' ≠ 'E')
    refine ((Tells.fixed lead.toList).append fun _ => Tells.ite (fun _ _ =>
      (Tells.fixed "Enabled (base".toList).append fun _ =>
        Piece.tells_all pieces (Place.value td) (Place.value td'))
      (fun _ _ => Tells.fixed "Disabled\n".toList) (apart _) (apart' _)).congr ?_
    rw [Line.shown, List.forall_mem_cons, Flag.value_eq_iff enable td td']
    by_cases on : enable.val.value td ≠ 0 <;> simp [on]

theorem TdLayout.tells (layout : TdLayout) (td td' : Mem) :
    Tells (layout.print td) (layout.print td')
      (∀ place ∈ layout.shown td, place.value td = place.value td') := by
  refine (Tells.flatMap fun line _ => line.tells td td').congr ?_
  simp only [TdLayout.shown, List.mem_flatMap]
  exact ⟨fun each place ⟨line, mem, inside⟩ => each line mem place inside,
    fun all line mem place inside => all place ⟨line, mem, inside⟩⟩

theorem TdLayout.print_headed (layout : TdLayout) (td : Mem) :
    ∃ rest, layout.print td = '\n' :: rest := by
  obtain ⟨s, rest, lines⟩ := layout.headed
  exact ⟨_, by rw [print, lines]; rfl⟩

/-- The line about trailing bytes is told from the heading that follows without it. -/
theorem TdLayout.trailing_tells (layout : TdLayout) (n n' : UInt64) (td td' : Mem) :
    Tells ((if n ≠ 0 then
        "  trailing bytes : ".toList ++ (Format.dec.text n.toNat ++ ['\n']) else []) ++
          layout.print td)
      ((if n' ≠ 0 then
        "  trailing bytes : ".toList ++ (Format.dec.text n'.toNat ++ ['\n']) else []) ++
          layout.print td')
      (n = n' ∧ ∀ place ∈ layout.shown td, place.value td = place.value td') := by
  have optional (p : Prop) [Decidable p] (x y : List Char) :
      (if p then x else []) ++ y = if p then x ++ y else y := by
    split <;> rfl
  obtain ⟨rest, text⟩ := layout.print_headed td
  obtain ⟨rest', text'⟩ := layout.print_headed td'
  have fields := layout.tells td td'
  have bytes : Tells ("  trailing bytes : ".toList ++ (Format.dec.text n.toNat ++ ['\n']))
      ("  trailing bytes : ".toList ++ (Format.dec.text n'.toNat ++ ['\n']))
        (True ∧ n.toNat = n'.toNat) :=
    (Tells.fixed _).append fun _ => Format.dec.tells (by decide) _ _
  rw [optional, optional]
  refine (Tells.ite (fun _ _ => bytes.append fun _ => fields) (fun _ _ => fields) ?_ ?_).congr ?_
  · rw [text']
    exact Tells.differ (by decide : ' ' ≠ '\n')
  · rw [text]
    exact Tells.differ (by decide : '\n' ≠ ' ')
  · rw [UInt64.toNat_inj, true_and]
    constructor
    · rintro ⟨both, some_bytes, none⟩
      by_cases zero : n = 0
      · have zero' : n' = 0 := not_not.mp fun other => both.mpr other zero
        exact ⟨zero.trans zero'.symm, none (not_not.mpr zero)⟩
      · exact some_bytes zero
    · rintro ⟨rfl, same⟩
      exact ⟨Iff.rfl, fun _ => ⟨rfl, same⟩, fun _ => same⟩

theorem sizes_eq {n size size' : UInt64} (entries : (size / n).toNat = (size' / n).toNat)
    (trailing : size % n = size' % n) : size = size' := by
  have rest := congrArg UInt64.toNat trailing
  rw [UInt64.toNat_div, UInt64.toNat_div] at entries
  rw [UInt64.toNat_mod, UInt64.toNat_mod] at rest
  apply UInt64.toNat_inj.mp
  rw [← Nat.div_add_mod size.toNat n.toNat, entries, rest, Nat.div_add_mod]

/-- The text of `preamble` is not to be evaluated when it is unfolded. -/
theorem TdLayout.preamble_eq (layout : TdLayout) (size : UInt64) : layout.preamble size =
    "\nTD (__TEXT/__text)\n  total entries : ".toList ++
      (Format.dec.text (size / layout.size).toNat ++ [' '] ++ ("(showing first)\n".toList ++
        if size % layout.size ≠ 0 then
          "  trailing bytes : ".toList ++ (Format.dec.text (size % layout.size).toNat ++ ['\n'])
        else [])) := rfl

/-- The preamble tells the size of the section. -/
theorem TdLayout.preamble_tells (layout : TdLayout) (size size' : UInt64) (td td' : Mem) :
    Tells (layout.preamble size ++ layout.print td) (layout.preamble size' ++ layout.print td')
      (size = size' ∧ ∀ place ∈ layout.shown td, place.value td = place.value td') := by
  have trailing := layout.trailing_tells (size % layout.size) (size' % layout.size) td td'
  have entries := Format.dec.tells (by decide : Stop Format.dec.pad ' ')
    (size / layout.size).toNat (size' / layout.size).toNat
  have shown := (Tells.fixed "(showing first)\n".toList).append fun _ => trailing
  have counted := entries.append fun _ => shown
  have whole :=
    (Tells.fixed "\nTD (__TEXT/__text)\n  total entries : ".toList).append fun _ => counted
  rw [preamble_eq, preamble_eq]
  simp only [List.append_assoc] at whole ⊢
  refine whole.congr ?_
  constructor
  · rintro ⟨-, count, -, rest, same⟩
    exact ⟨sizes_eq count rest, same⟩
  · rintro ⟨rfl, same⟩
    exact ⟨trivial, rfl, trivial, rfl, same⟩

end Texts

section Files

theorem ofList_slice_zeros {m : Mem} {n : Nat} (zeros : ∀ i, n ≤ i → m i = 0) :
    ofList (slice m 0 n) = m := by
  funext i
  rw [ofList, List.getD_eq_getElem?_getD, slice, List.getElem?_map]
  by_cases inside : i < n
  · rw [List.getElem?_range inside, Option.map_some, Option.getD_some, Nat.zero_add]
  · rw [List.getElem?_eq_none (by simpa using inside), zeros i (Nat.not_lt.mp inside)]
    rfl

theorem TdLayout.tooSmall_ne (layout : TdLayout) (size : UInt64) (text : List Char) :
    layout.tooSmall ≠ layout.preamble size ++ text := by
  have apart : Tells layout.tooSmall (layout.preamble size ++ text) (True ∧ False) :=
    (Tells.fixed ['\n']).append fun _ => Tells.differ (by decide : '_' ≠ 'T')
  exact fun equal => (apart.eq_iff.mp equal).2

/-- A section of a file that `hwxOpen` gave back, to be read from its unchanged content under
some schedule of short reads and interruptions. -/
structure Loaded where
  atOpen : Posix.Env
  path : Option String
  before : Process
  file : HwxFile
  opened : (hwxOpen atOpen path before).1 = some file
  segment : HwxSegment
  segment_mem : segment ∈ file.segments.elems
  sec : HwxSection
  sec_mem : sec ∈ segment.sections.elems
  env : Posix.Env
  unchanged : env.content = atOpen.content
  reads : env.Reads
  proc : Process

namespace Loaded
variable (loaded : Loaded) (layout : TdLayout) (strerror : Errno → String)

/-- The first descriptor of the section. -/
def td : Mem :=
  ofList ((loaded.env.content.drop loaded.sec.offset.toNat).take layout.size.toNat)

def dump : Console :=
  (layout.dump loaded.env strerror (some loaded.file) (some loaded.sec) loaded.proc).1

theorem readsExactly : ReadsExactly loaded.env.content loaded.file
    loaded.sec.offset.toUInt64 loaded.sec.size 0 layout.size (fun _ => 0) loaded.proc
    (hwxSectionRead loaded.env (some loaded.file) (some loaded.sec) 0 (some fun _ => 0)
      layout.size loaded.proc) := by
  obtain ⟨offs, wellFormed, decoded⟩ := hwxOpen_some loaded.opened
  have ranges := decoded.rangesOk wellFormed
  rw [← loaded.unchanged] at ranges
  apply readRange_exact loaded.reads layout.positive ranges.fileSize
  simpa using ranges.sections loaded.segment loaded.segment_mem loaded.sec loaded.sec_mem

theorem dump_small (small : loaded.sec.size < layout.size) :
    loaded.dump layout strerror = ⟨layout.tooSmall, []⟩ :=
  congrArg Prod.fst (if_pos small)

theorem dump_read (room : ¬ loaded.sec.size < layout.size) :
    loaded.dump layout strerror =
      ⟨layout.preamble loaded.sec.size ++ layout.print (loaded.td layout), []⟩ := by
  have inside : layout.size.toNat ≤ loaded.sec.size.toNat := Nat.not_lt.mp room
  have exactly := loaded.readsExactly layout
  have ok := exactly.ok_iff.mpr (by simpa using inside)
  obtain ⟨whole, td, dst, bytes, rest⟩ := exactly.bytes ok
  have same : td = loaded.td layout := by
    have position : loaded.sec.offset.toUInt64.toNat + (0 : UInt64).toNat =
        loaded.sec.offset.toNat := by simp
    rw [Loaded.td, ← position, ← bytes]
    exact (ofList_slice_zeros rest).symm
  refine (congrArg Prod.fst (if_neg room)).trans ?_
  rw [ok, dst, same]

/-- Two sections are dumped the same exactly if both are too small, or they have the same size
and their first descriptors the same fields, of those that are shown. -/
theorem dump_iff (loaded loaded' : Loaded) :
    loaded.dump layout strerror = loaded'.dump layout strerror ↔
      (loaded.sec.size < layout.size ∧ loaded'.sec.size < layout.size) ∨
      (layout.size ≤ loaded.sec.size ∧ loaded.sec.size = loaded'.sec.size ∧
        ∀ place ∈ layout.shown (loaded.td layout),
          place.value (loaded.td layout) = place.value (loaded'.td layout)) := by
  by_cases small : loaded.sec.size < layout.size
  · have none : ¬ layout.size ≤ loaded.sec.size := UInt64.not_le.mpr small
    rw [loaded.dump_small layout strerror small]
    by_cases small' : loaded'.sec.size < layout.size
    · rw [loaded'.dump_small layout strerror small']
      simp [small, small']
    · rw [loaded'.dump_read layout strerror small']
      simp [small', none, layout.tooSmall_ne]
  · have room : layout.size ≤ loaded.sec.size := UInt64.not_lt.mp small
    rw [loaded.dump_read layout strerror small]
    by_cases small' : loaded'.sec.size < layout.size
    · rw [loaded'.dump_small layout strerror small']
      refine iff_of_false ?_ ?_
      · exact fun equal => layout.tooSmall_ne _ _ (congrArg Console.out equal).symm
      · rintro (⟨first, -⟩ | ⟨-, same, -⟩)
        · exact small first
        · exact small (same ▸ small')
    · rw [loaded'.dump_read layout strerror small']
      have tells := (layout.preamble_tells loaded.sec.size loaded'.sec.size (loaded.td layout)
        (loaded'.td layout)).eq_iff
      simp [small, room, tells]

end Loaded

/-- The section of the small container, read one byte at a time. -/
def smallLoaded : Loaded where
  atOpen := Env.plain smallContainer smallContainer_lt
  path := some "a.hwx"
  before := .fresh
  file := smallFile
  opened := smallFile_opened
  segment := smallSegment
  segment_mem := List.mem_singleton_self _
  sec := smallText
  sec_mem := List.mem_cons_self
  env := byteWise
  unchanged := rfl
  reads := byteWise_reads
  proc := .fresh

end Files

end Ane.Disasm
