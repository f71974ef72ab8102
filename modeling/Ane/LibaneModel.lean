import Ane.HwxCursor
import Ane.HwxLookup
import Ane.LibaneInit

/-! What `aneModelInit` reads from a file. The search with a cursor finds the first usable
segment state in file order; the size of its tasks goes through a product in 64 bits to a
field of 32. -/
namespace Ane.Libane
open Memory Posix Hwx

variable {env : Env} {file : HwxFile} {w w' : World} {p : Process} {s : HwxThreadState}
  {rest : List HwxThreadState} {start fuel : Nat} {cursor : Option Int}

/-- A segment state with all its fields. -/
def isSegState (s : HwxThreadState) : Bool :=
  s.flavor = HWX_ANE_SEG_STATE ∧ sizeofSegState ≤ s.byteSize.toNat

/-- The first of them in file order. -/
def segState (file : HwxFile) : Option HwxThreadState := file.threadStates.elems.find? isSegState

def segMeta (s : HwxThreadState) : HwxAneSegState := HwxAneSegState.read (ofList s.data.elems)

/-- `seg_size == seg_words * 4`, as the field `tdSize` keeps it. -/
def tdSizeOf (s : HwxThreadState) : UInt32 := ((segMeta s).segWords.toUInt64 * 4).toUInt32

theorem tdSizeOf_toNat (s : HwxThreadState) :
    (tdSizeOf s).toNat = 4 * (segMeta s).segWords.toNat % 2 ^ 32 := by
  have small := (segMeta s).segWords.toNat_lt
  simp only [tdSizeOf, UInt64.toNat_toUInt32, UInt64.toNat_mul, UInt32.toNat_toUInt64,
    UInt64.reduceToNat]
  omega

/-- The field keeps the size exactly for fewer than 2^30 words. -/
theorem tdSizeOf_exact_iff : (tdSizeOf s).toNat = 4 * (segMeta s).segWords.toNat ↔
    (segMeta s).segWords.toNat < 2 ^ 30 := by
  rw [tdSizeOf_toNat]
  omega

theorem tdSizeOf_eq_zero (zero : (segMeta s).segWords = 0) : tdSizeOf s = 0 := by
  simp [tdSizeOf, zero]

theorem segWords_eq_zero (few : (segMeta s).segWords.toNat < 2 ^ 30) (zero : tdSizeOf s = 0) :
    (segMeta s).segWords = 0 := by
  have exact := tdSizeOf_exact_iff.mpr few
  rw [zero, UInt32.toNat_zero] at exact
  apply UInt32.toNat_inj.mp
  rw [UInt32.toNat_zero]
  omega

section Search

/-- On a state of the flavor the test of the loop is for a segment state with all its fields. -/
theorem usable_iff (flavor : s.flavor = HWX_ANE_SEG_STATE)
    (data : s.data.block.isSome = true ↔ 0 < s.byteSize.toNat) :
    (s.data.block ≠ none ∧ s.byteSize.toNat ≥ sizeofSegState) ↔ isSegState s = true := by
  have some : sizeofSegState ≤ s.byteSize.toNat → s.data.block ≠ none := by
    intro size
    apply Option.isSome_iff_ne_none.mp
    apply data.mpr
    simp only [sizeofSegState] at size
    omega
  simp only [isSegState, flavor, true_and, decide_eq_true_eq]
  exact and_iff_right_of_imp some

/-- One turn of the search, by what the call for the next state returns. -/
theorem segStateLoop_succ {next : Option ThreadStatePtr}
    (call : (hwxThreadStateNext (some file) HWX_ANE_SEG_STATE cursor p).1 = next) :
    (next = none → (segStateLoop file (fuel + 1) cursor p).1 = none) ∧
    (∀ ptr, next = some ptr → ∃ q, (segStateLoop file (fuel + 1) cursor p).1 =
      if ptr.target.data.block ≠ none ∧ ptr.target.byteSize.toNat ≥ sizeofSegState then some ptr
      else (segStateLoop file fuel (some ptr.index) q).1) := by
  simp only [segStateLoop]
  generalize hwxThreadStateNext (some file) HWX_ANE_SEG_STATE cursor p = r at call
  obtain ⟨found, q⟩ := r
  cases call
  constructor
  · rintro rfl
    rfl
  · rintro ptr rfl
    refine ⟨q, ?_⟩
    simp only
    split <;> rfl

/-- The cursor passes over the states that are too short, and the calls over other flavors. -/
theorem segStateLoop_from
    (data : ∀ s ∈ rest, s.data.block.isSome = true ↔ 0 < s.byteSize.toNat)
    (left : file.threadStates.elems.drop start = rest) (enough : rest.length < fuel)
    (scans : ∀ q, (hwxThreadStateNext (some file) HWX_ANE_SEG_STATE cursor q).1 =
      threadStateFrom HWX_ANE_SEG_STATE start rest) :
    (segStateLoop file fuel cursor p).1.map (·.target) = rest.find? isSegState := by
  obtain ⟨fuel, rfl⟩ := Nat.exists_eq_succ_of_ne_zero (Nat.ne_zero_of_lt enough)
  induction rest generalizing start cursor fuel p with
  | nil =>
    rw [(segStateLoop_succ (scans p)).1 rfl]
    rfl
  | cons s rest ih =>
    obtain ⟨dataS, dataRest⟩ := List.forall_mem_cons.mp data
    obtain ⟨inside, behind⟩ := of_drop_eq_cons left
    rw [List.length_cons] at enough
    by_cases flavor : s.flavor = HWX_ANE_SEG_STATE
    · have found := scans p
      rw [threadStateFrom, if_pos flavor] at found
      obtain ⟨q, turn⟩ := (segStateLoop_succ found).2 _ rfl
      rw [turn]
      by_cases seg : isSegState s = true
      · rw [List.find?_cons_of_pos seg, if_pos ((usable_iff flavor dataS).mpr seg)]
        rfl
      · rw [List.find?_cons_of_neg seg, if_neg (mt (usable_iff flavor dataS).mp seg)]
        obtain ⟨fuel, rfl⟩ := Nat.exists_eq_succ_of_ne_zero (by omega : fuel ≠ 0)
        refine ih dataRest behind (fun q => ?_) fuel (by omega)
        rw [hwxThreadStateNext_state inside, behind]
    · have other : ¬ isSegState s = true := by simp [isSegState, flavor]
      rw [List.find?_cons_of_neg other]
      simp only [threadStateFrom, if_neg flavor] at scans
      exact ih dataRest behind scans fuel (by omega)

theorem segStateLoop_eq (sound : file.Sound) (p : Process) :
    (segStateLoop file (file.threadStates.elems.length + 1) none p).1.map (·.target) = segState file :=
  segStateLoop_from sound.data List.drop_zero (Nat.lt_succ_self _)
    (hwxThreadStateNext_null file HWX_ANE_SEG_STATE)

end Search

section Outcome

/-- The model of an accepted file. -/
def modelOf (file : HwxFile) (s : HwxThreadState) (tsk krn : SectionPtr) : AneModel :=
  { AneModel.zero with
    hwx := some file
    size := (tdSizeOf s).toUInt64
    tdSize := tdSizeOf s
    tdCount := (segMeta s).tdCount
    tskSize := tsk.target.size
    krnSize := krn.target.size }

theorem modelOfFile_cases (sound : file.Sound) {tsk krn : SectionPtr}
    (text : sectionInSegments (some textSegment) textSection 0 file.segments.elems = some tsk)
    (const : sectionInSegments (some textSegment) constSection 0 file.segments.elems = some krn) :
    (∃ e model w', modelOfFile file w = (.error e, model, w') ∧
      ∀ s, segState file = some s → tdSizeOf s = 0) ∨
    (∃ s w', modelOfFile file w = (.ok (), modelOf file s tsk krn, w') ∧
      segState file = some s ∧ tdSizeOf s ≠ 0) := by
  have searched := segStateLoop_eq sound w.proc
  simp only [modelOfFile, modelInitError, hwxGetTskSection, hwxGetKrnSection, hwxSectionByName,
    text, const]
  generalize segStateLoop file (file.threadStates.elems.length + 1) none w.proc = r at searched
  obtain ⟨state, q⟩ := r
  cases state with
  | none =>
    rw [Option.map_none] at searched
    rw [← searched]
    exact Or.inl ⟨_, _, _, rfl, by simp⟩
  | some state =>
    rw [Option.map_some] at searched
    simp only [← searched, Option.some.injEq]
    split
    · rename_i zero
      refine Or.inl ⟨_, _, _, rfl, ?_⟩
      rintro s rfl
      exact zero
    · rename_i nonzero
      exact Or.inr ⟨state.target, _, rfl, rfl, nonzero⟩

/-- The three ways a call ends: no file, a file refused, a file accepted. -/
inductive ModelInit (env : Env) (path : Option String) (w : World) : Status × AneModel × World → Prop
  | noFile {e : Errno} {model : AneModel} {w' : World}
      (closed : (hwxOpen env.hwx path w.proc).1 = none) : ModelInit env path w (.error e, model, w')
  | refused {file : HwxFile} {e : Errno} {model : AneModel} {w' : World}
      (opened : (hwxOpen env.hwx path w.proc).1 = some file)
      (zero : ∀ s, segState file = some s → tdSizeOf s = 0) :
      ModelInit env path w (.error e, model, w')
  | accepted {file : HwxFile} {s : HwxThreadState} {tsk krn : SectionPtr} {w' : World}
      (opened : (hwxOpen env.hwx path w.proc).1 = some file) (state : segState file = some s)
      (nonzero : tdSizeOf s ≠ 0)
      (text : sectionInSegments (some textSegment) textSection 0 file.segments.elems = some tsk)
      (const : sectionInSegments (some textSegment) constSection 0 file.segments.elems = some krn) :
      ModelInit env path w (.ok (), modelOf file s tsk krn, w')

theorem aneModelInit_cases (env : Env) (path : Option String) (w : World) :
    ModelInit env path w (aneModelInit env path w) := by
  have ledger := hwxOpen_holds env.hwx path (Process.Holds.refl w.proc)
  simp only [aneModelInit]
  generalize result : hwxOpen env.hwx path w.proc = r at ledger
  obtain ⟨opened, q⟩ := r
  have first : (hwxOpen env.hwx path w.proc).1 = opened := congrArg Prod.fst result
  cases opened with
  | none => exact .noFile first
  | some file =>
    obtain ⟨⟨tsk, text⟩, krn, const⟩ := hwxOpen_sections first
    rcases modelOfFile_cases (w := { w with proc := q }) (ledger.file file rfl).1 text const with
      ⟨e, model, w', failed, zero⟩ | ⟨s, w', made, state, nonzero⟩
    · simp only [failed]
      exact .refused first zero
    · simp only [made]
      exact .accepted first state nonzero text const

end Outcome

section Model

/-- What a call of `aneModelInit` is to do: it accepts the files with a usable segment state
that has words, and the model has the sizes the file gives. -/
structure ModelOfFile (env : Env) (path : Option String) (w : World)
    (result : Status × AneModel × World) : Prop where
  ok_iff : result.1 = .ok () ↔ ∃ file s, (hwxOpen env.hwx path w.proc).1 = some file ∧
    segState file = some s ∧ (segMeta s).segWords ≠ 0
  fields : result.1 = .ok () → ∃ file s tsk krn,
    (hwxOpen env.hwx path w.proc).1 = some file ∧ segState file = some s ∧
    file.FirstNamed (some textSegment) textSection tsk ∧
    file.FirstNamed (some textSegment) constSection krn ∧
    result.2.1.hwx = some file ∧
    result.2.1.tdSize.toNat = 4 * (segMeta s).segWords.toNat ∧
    result.2.1.tdCount = (segMeta s).tdCount ∧
    result.2.1.tskSize = tsk.target.size ∧ result.2.1.krnSize = krn.target.size

theorem firstNamed_of_search {name : Name} {ptr : SectionPtr}
    (found : sectionInSegments (some textSegment) name 0 file.segments.elems = some ptr) :
    file.FirstNamed (some textSegment) name ptr :=
  (hwxSectionByName_first file (some textSegment) name .fresh).1 ptr found

/-- For every file and whatever calls fail: the model is right exactly when the first usable
segment state, if the file has one, has fewer than 2^30 words. -/
theorem aneModelInit_iff (env : Env) (path : Option String) (w : World) :
    ModelOfFile env path w (aneModelInit env path w) ↔
      ∀ file s, (hwxOpen env.hwx path w.proc).1 = some file → segState file = some s →
        (segMeta s).segWords.toNat < 2 ^ 30 := by
  generalize called : aneModelInit env path w = result
  have init : ModelInit env path w result := called ▸ aneModelInit_cases env path w
  cases init with
  | noFile closed =>
    rw [closed]
    refine ⟨fun _ => nofun, fun _ => ⟨⟨nofun, ?_⟩, nofun⟩⟩
    rintro ⟨file, s, opened, -⟩
    rw [closed] at opened
    cases opened
  | @refused file e model w' opened zero =>
    constructor
    · intro right file' s opened' state
      obtain rfl : file = file' := Option.some.inj (opened.symm.trans opened')
      by_contra many
      have accepted := right.ok_iff.mpr ⟨file, s, opened, state, fun none => many (by simp [none])⟩
      cases accepted
    · intro few
      refine ⟨⟨nofun, ?_⟩, nofun⟩
      rintro ⟨file', s, opened', state, words⟩
      obtain rfl : file = file' := Option.some.inj (opened.symm.trans opened')
      exact absurd (segWords_eq_zero (few file s opened state) (zero s state)) words
  | @accepted file s tsk krn w' opened state nonzero text const =>
    have words : (segMeta s).segWords ≠ 0 := mt tdSizeOf_eq_zero nonzero
    constructor
    · intro right file' s' opened' state'
      obtain rfl : file = file' := Option.some.inj (opened.symm.trans opened')
      obtain rfl : s = s' := Option.some.inj (state.symm.trans state')
      obtain ⟨file₂, s₂, tsk₂, krn₂, opened₂, state₂, -, -, -, size, -⟩ := right.fields rfl
      obtain rfl : file = file₂ := Option.some.inj (opened.symm.trans opened₂)
      obtain rfl : s = s₂ := Option.some.inj (state.symm.trans state₂)
      exact tdSizeOf_exact_iff.mp size
    · intro few
      have size := tdSizeOf_exact_iff.mpr (few file s opened state)
      exact ⟨⟨fun _ => ⟨file, s, opened, state, words⟩, fun _ => rfl⟩,
        fun _ => ⟨file, s, tsk, krn, opened, state, firstNamed_of_search text,
          firstNamed_of_search const, rfl, size, rfl, rfl, rfl⟩⟩

/-- The container with 2^30 words in its segment state. -/
def hugeContainer : List UInt8 := (segContainer.set 2348 0).set 2351 0x40

theorem hugeContainer_lt : hugeContainer.length < 2 ^ 63 := by
  rw [hugeContainer, List.length_set, List.length_set]
  exact segContainer_lt

def hugeWords : Env := { fewNodes with hwx := Posix.Env.plain hugeContainer hugeContainer_lt }

/-- Its file opens, its size comes out as 0 and it is refused. -/
theorem not_modelOfFile_hugeWords :
    ¬ ModelOfFile hugeWords (some "a.hwx") .idle (aneModelInit hugeWords (some "a.hwx") .idle) := by
  intro right
  have opened : ((hwxOpen hugeWords.hwx (some "a.hwx") World.idle.proc).1.bind fun file =>
      (segState file).map fun s => (segMeta s).segWords) = some 0x40000000 := by decide +kernel
  rw [Option.bind_eq_some_iff] at opened
  obtain ⟨file, opened, words⟩ := opened
  rw [Option.map_eq_some_iff] at words
  obtain ⟨s, state, words⟩ := words
  have nonzero : (segMeta s).segWords ≠ 0 := by
    rw [words]
    decide
  have accepted := right.ok_iff.mpr ⟨file, s, opened, state, nonzero⟩
  have init := aneModelInit_cases hugeWords (some "a.hwx") .idle
  generalize aneModelInit hugeWords (some "a.hwx") .idle = result at init accepted
  cases init with
  | noFile | refused => cases accepted
  | @accepted file' s' _ _ _ opened' state' nonzero =>
    obtain rfl : file = file' := Option.some.inj (opened.symm.trans opened')
    obtain rfl : s = s' := Option.some.inj (state.symm.trans state')
    apply nonzero
    apply UInt32.toNat_inj.mp
    rw [tdSizeOf_toNat, words]
    rfl

end Model

end Ane.Libane
