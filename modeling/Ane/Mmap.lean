import Ane.DriverSteps

/-! User mappings of a buffer object. `aneDrmMmap` maps all pages at once; the kernel may
split the area, unmap parts of it and discard pages, and `aneGemVmFault` puts a discarded page
back when it is touched. It counts pages from the start of the area it is called for, so what
it puts back is what was there as long as no split lies between the start of the mapping and
the page. -/
namespace Ane.Driver
open PageTable Runs TaskManager

def ENXIO : Errno := .other 6

/-- A user mapping or a part of it: whole pages, at least one. `vmPgoff` is in pages. -/
structure VmArea where
  vmStart : Nat
  vmEnd : Nat
  vmPgoff : Nat
  startAligned : vmStart % 2 ^ 14 = 0
  endAligned : vmEnd % 2 ^ 14 = 0
  nonempty : vmStart < vmEnd

def vmaPages (v : VmArea) : Nat := (v.vmEnd - v.vmStart) >>> 14

def VmArea.Contains (v : VmArea) (address : Nat) : Prop :=
  v.vmStart ≤ address ∧ address < v.vmEnd

instance (v : VmArea) (address : Nat) : Decidable (v.Contains address) :=
  inferInstanceAs (Decidable (_ ∧ _))

/-- The areas that are left of a mapping of the object, and the page entered for each page
number of user addresses. -/
structure UserMapping where
  bo : AneBo
  areas : List VmArea
  ptes : Table Nat Page

section Driver

/-- What the services called by one `aneDrmMmap` answer: the object at the fake offset, and
for each page whether it can be entered, with the code of the one that fails. -/
structure MmapEnv where
  gem : Except Errno AneBo
  insertOk : Nat → Bool
  err : Errno

/-- The object must be as large as the area. -/
def drmGemMmap (v : VmArea) (env : MmapEnv) : Except Errno AneBo :=
  match env.gem with
  | .error err => .error err
  | .ok bo => if bo.gemSize.toNat < v.vmEnd - v.vmStart then .error .EINVAL else .ok bo

/-- Enter the pages from number `vmPgoff` on, one for each page of the area. -/
def vmMapPages (v : VmArea) (pages : List Page) (num : Nat) (env : MmapEnv) :
    Except Errno (Table Nat Page) :=
  if v.vmPgoff ≥ num then .error ENXIO
  else if vmaPages v > num - v.vmPgoff then .error ENXIO
  else
    match mapCells (fun i => (v.vmStart + i * 2 ^ 14) >>> 14) (fun i => pages.getD (v.vmPgoff + i) 0)
        env.insertOk (vmaPages v) 0 (fun _ => none) with
    | .ok ptes => .ok ptes
    | .error _ => .error env.err

/-- The flags and the protection of the area are left out. -/
def aneDrmMmap (v : VmArea) (env : MmapEnv) : Except Errno UserMapping :=
  match drmGemMmap v env with
  | .error err => .error err
  | .ok bo =>
    let v := { v with vmPgoff := 0 }
    if vmaPages v = 0 then .error ENXIO
    else (vmMapPages v bo.pages bo.npages.toNat env).map fun ptes => ⟨bo, [v], ptes⟩

inductive VmFault
  | sigbus
  | insertPage (page : Page)
deriving DecidableEq

def faultOffset (v : VmArea) (address : Nat) : Nat := (address - v.vmStart) >>> 14

/-- A null `pages` is the empty list. -/
def aneGemVmFault (bo : AneBo) (v : VmArea) (address : Nat) : VmFault :=
  if bo.pages = [] then .sigbus
  else .insertPage (bo.pages.getD (faultOffset v address) 0)

end Driver

section Kernel

/-- An area is split at page number `p` if that lies inside it. -/
def splitVma (p : Nat) (v : VmArea) : List VmArea :=
  if inside : v.vmStart < p * 2 ^ 14 ∧ p * 2 ^ 14 < v.vmEnd then
    [{ v with vmEnd := p * 2 ^ 14, endAligned := Nat.mul_mod_left p _, nonempty := inside.1 },
      { v with
        vmStart := p * 2 ^ 14
        vmPgoff := v.vmPgoff + (p * 2 ^ 14 - v.vmStart) >>> 14
        startAligned := Nat.mul_mod_left p _
        nonempty := inside.2 }]
  else [v]

def UserMapping.split (p : Nat) (m : UserMapping) : UserMapping :=
  { m with areas := m.areas.flatMap (splitVma p) }

/-- The pages from number `first` up to `last` are no longer entered. -/
def UserMapping.zap (first last : Nat) (m : UserMapping) : UserMapping :=
  { m with ptes := fun k => if first ≤ k ∧ k < last then none else m.ptes k }

/-- What lies between two page numbers goes, with its pages. -/
def UserMapping.munmap (first last : Nat) (m : UserMapping) : UserMapping :=
  let m := (m.split first).split last
  let m := m.zap first last
  { m with areas := m.areas.filter fun v => ¬ (first * 2 ^ 14 ≤ v.vmStart ∧ v.vmEnd ≤ last * 2 ^ 14) }

/-- An access to a page that is not entered is a fault in the area of the address. -/
def UserMapping.touch (address : Nat) (m : UserMapping) : UserMapping :=
  match m.areas.find? (·.Contains address), m.ptes (address >>> 14) with
  | some v, none =>
    match aneGemVmFault m.bo v address with
    | .sigbus => m
    | .insertPage page => { m with ptes := Function.update m.ptes (address >>> 14) (some page) }
  | _, _ => m

/-- One step in the life of a mapping. Both ends of an `mprotect` are splits, the places of
an `munmap` and of a `madvise` that discards are given by page numbers. -/
inductive VmOp
  | split (p : Nat)
  | munmap (first last : Nat)
  | discard (first last : Nat)
  | touch (address : Nat)

def VmOp.exec (m : UserMapping) : VmOp → UserMapping
  | .split p => m.split p
  | .munmap first last => if first < last then m.munmap first last else m
  | .discard first last => m.zap first last
  | .touch address => m.touch address

/-- The page numbers at which an operation splits. -/
def VmOp.boundaries : VmOp → List Nat
  | .split p => [p]
  | .munmap first last => if first < last then [first, last] else []
  | .discard _ _ => []
  | .touch _ => []

end Kernel

variable {v v₀ v' : VmArea} {env : MmapEnv} {m : UserMapping} {op : VmOp} {ops : List VmOp}
  {cut cut' : Nat → Prop} {p address i : Nat}

section Pieces

/-- A part of the mapping `v₀` that is split at the page numbers `cut`. It begins at the start
of the mapping or at one of them, has none inside, and knows how far it is from the start. -/
structure Piece (v₀ : VmArea) (cut : Nat → Prop) (v : VmArea) : Prop where
  start : v₀.vmStart ≤ v.vmStart
  stop : v.vmEnd ≤ v₀.vmEnd
  pgoff : v.vmPgoff = (v.vmStart - v₀.vmStart) >>> 14
  first : v.vmStart = v₀.vmStart ∨ ∃ p, cut p ∧ v.vmStart = p * 2 ^ 14
  whole : ∀ p, cut p → p * 2 ^ 14 ≤ v.vmStart ∨ v.vmEnd ≤ p * 2 ^ 14

/-- Between two page starts and an address further on, whole pages add up. -/
theorem shiftRight_sub_add {a b c : Nat} (first : a % 2 ^ 14 = 0) (second : b % 2 ^ 14 = 0)
    (ab : a ≤ b) (bc : b ≤ c) : (b - a) >>> 14 + (c - b) >>> 14 = (c - a) >>> 14 := by
  simp only [Nat.shiftRight_eq_div_pow, Nat.reducePow] at first second ⊢
  omega

theorem shiftRight_sub_eq_zero {a b : Nat} (first : a % 2 ^ 14 = 0) (second : b % 2 ^ 14 = 0)
    (ab : a ≤ b) : (b - a) >>> 14 = 0 ↔ b = a := by
  simp only [Nat.shiftRight_eq_div_pow, Nat.reducePow] at first second ⊢
  omega

theorem Piece.congr (piece : Piece v₀ cut v) (same : ∀ p, cut p ↔ cut' p) : Piece v₀ cut' v where
  __ := piece
  first := by simpa only [same] using piece.first
  whole := by simpa only [same] using piece.whole

theorem splitVma_piece (piece : Piece v₀ cut v) (mem : v' ∈ splitVma p v) :
    Piece v₀ (fun q => cut q ∨ q = p) v' := by
  have ⟨start, stop, pgoff, first, whole⟩ := piece
  have first' : v.vmStart = v₀.vmStart ∨ ∃ q, (cut q ∨ q = p) ∧ v.vmStart = q * 2 ^ 14 :=
    first.imp_right fun ⟨q, old, here⟩ => ⟨q, Or.inl old, here⟩
  rw [splitVma] at mem
  split at mem
  · rename_i inside
    rcases List.mem_pair.mp mem with rfl | rfl
    · refine ⟨start, Nat.le_trans (Nat.le_of_lt inside.2) stop, pgoff, first', ?_⟩
      rintro q (old | rfl)
      · rcases whole q old with low | high
        · exact Or.inl low
        · exact Or.inr (Nat.le_trans (Nat.le_of_lt inside.2) high)
      · exact Or.inr (Nat.le_refl _)
    · have pages := shiftRight_sub_add v₀.startAligned v.startAligned start (Nat.le_of_lt inside.1)
      refine ⟨Nat.le_trans start (Nat.le_of_lt inside.1), stop, ?_, Or.inr ⟨p, Or.inr rfl, rfl⟩, ?_⟩
      · simp only [pgoff, pages]
      rintro q (old | rfl)
      · rcases whole q old with low | high
        · exact Or.inl (Nat.le_trans low (Nat.le_of_lt inside.1))
        · exact Or.inr high
      · exact Or.inl (Nat.le_refl _)
  · rename_i outside
    obtain rfl := List.mem_singleton.mp mem
    refine ⟨start, stop, pgoff, first', ?_⟩
    rintro q (old | rfl)
    · exact whole q old
    · omega

theorem split_pieces (pieces : ∀ v ∈ m.areas, Piece v₀ cut v) (p : Nat) :
    ∀ v ∈ (m.split p).areas, Piece v₀ (fun q => cut q ∨ q = p) v := by
  intro v' mem
  obtain ⟨v, old, part⟩ := List.mem_flatMap.mp mem
  exact splitVma_piece (pieces v old) part

theorem touch_areas (address : Nat) (m : UserMapping) : (m.touch address).areas = m.areas := by
  rw [UserMapping.touch]
  split
  · split <;> rfl
  · rfl

theorem exec_pieces (pieces : ∀ v ∈ m.areas, Piece v₀ cut v) (op : VmOp) :
    ∀ v ∈ (op.exec m).areas, Piece v₀ (fun p => cut p ∨ p ∈ op.boundaries) v := by
  intro v mem
  cases op with
  | split p =>
    have piece := split_pieces pieces p v mem
    simpa only [VmOp.boundaries, List.mem_singleton] using piece
  | munmap first last =>
    simp only [VmOp.exec, VmOp.boundaries] at mem ⊢
    split at mem
    · rename_i some
      have parts := split_pieces (split_pieces pieces first) last v (List.mem_of_mem_filter mem)
      refine parts.congr fun p => ?_
      rw [if_pos some, List.mem_pair, or_assoc]
    · rename_i none
      simpa only [if_neg none, List.not_mem_nil, or_false] using pieces v mem
  | discard first last =>
    simpa only [VmOp.boundaries, List.not_mem_nil, or_false] using pieces v mem
  | touch address =>
    rw [VmOp.exec, touch_areas] at mem
    simpa only [VmOp.boundaries, List.not_mem_nil, or_false] using pieces v mem

theorem run_pieces (pieces : ∀ v ∈ m.areas, Piece v₀ cut v) (ops : List VmOp) :
    ∀ v ∈ (run VmOp.exec m ops).areas, Piece v₀ (fun p => cut p ∨ ∃ op ∈ ops, p ∈ op.boundaries) v := by
  induction ops generalizing m cut with
  | nil => simpa using pieces
  | cons op ops ih =>
    intro v mem
    refine (ih (exec_pieces pieces op) v mem).congr fun p => ?_
    rw [List.exists_mem_cons_iff, or_assoc]

theorem exec_bo (op : VmOp) (m : UserMapping) : (op.exec m).bo = m.bo := by
  cases op with
  | split p => rfl
  | munmap first last =>
    simp only [VmOp.exec]
    split <;> rfl
  | discard first last => rfl
  | touch address =>
    rw [VmOp.exec, UserMapping.touch]
    split
    · split <;> rfl
    · rfl

theorem run_bo (m : UserMapping) (ops : List VmOp) : (run VmOp.exec m ops).bo = m.bo := by
  induction ops generalizing m with
  | nil => rfl
  | cons op ops ih => rw [run_cons, ih, exec_bo]

end Pieces

section Faults

/-- What `drm_gem_get_pages` promises: a page of its own for each page of the object. -/
structure GemPages (bo : AneBo) : Prop where
  length : bo.pages.length = bo.npages.toNat
  distinct : bo.pages.Nodup

/-- What `aneBoInit` makes counts its pages right. -/
theorem BoOk.gemPages {mm : RangeAllocator.Allocator} {bo : AneBo} (ok : BoOk mm bo)
    (distinct : bo.pages.Nodup) : GemPages bo := ⟨ok.pages, distinct⟩

/-- The fault handler finds its page inside the object, and it is the page that was there
in the mapping `m`. -/
structure SamePage (m : UserMapping) (v : VmArea) (address : Nat) : Prop where
  index : faultOffset v address < m.bo.npages.toNat
  page : ∃ page, aneGemVmFault m.bo v address = .insertPage page ∧
    m.ptes (address >>> 14) = some page

/-- What a mapping call has done: a single area with every page entered, in order. -/
structure MappedAll (v₀ : VmArea) (m : UserMapping) : Prop where
  areas : m.areas = [{ v₀ with vmPgoff := 0 }]
  pages : vmaPages v₀ ≤ m.bo.npages.toNat
  ptes : ∀ i < vmaPages v₀, m.ptes ((v₀.vmStart + i * 2 ^ 14) >>> 14) = some (m.bo.pages.getD i 0)

theorem aneDrmMmap_ok (h : aneDrmMmap v₀ env = .ok m) : MappedAll v₀ m := by
  simp only [aneDrmMmap] at h
  split at h
  · cases h
  · split at h
    · cases h
    · simp only [vmMapPages] at h
      split at h
      · cases h
      split at h
      · cases h
      · rename_i fits
        split at h
        · rename_i ptes looped
          cases h
          have mapped := mapCells_ok looped
          refine ⟨rfl, Nat.le_of_not_lt fits, fun i below => ?_⟩
          have cell := mapped.cells i (Nat.zero_le i) (by rwa [Nat.zero_add])
          simpa using cell
        · cases h

theorem MappedAll.pieces (mapped : MappedAll v₀ m) :
    ∀ v ∈ m.areas, Piece v₀ (fun _ => False) v := by
  intro v mem
  rw [mapped.areas, List.mem_singleton] at mem
  subst mem
  refine ⟨Nat.le_refl _, Nat.le_refl _, by simp, Or.inl rfl, nofun⟩

/-- The page number of an address in the mapping, from the area it lies in now. -/
theorem Piece.offset (piece : Piece v₀ cut v) (inside : v.Contains address) :
    v.vmPgoff + faultOffset v address = faultOffset v₀ address := by
  rw [piece.pgoff]
  exact shiftRight_sub_add v₀.startAligned v.startAligned piece.start inside.1

theorem Piece.offset_lt (piece : Piece v₀ cut v) (inside : v.Contains address) :
    faultOffset v₀ address < vmaPages v₀ := by
  have first := v₀.startAligned
  have last := v₀.endAligned
  have low := piece.start
  have high := piece.stop
  obtain ⟨above, below⟩ := inside
  simp only [faultOffset, vmaPages, Nat.shiftRight_eq_div_pow, Nat.reducePow] at first last ⊢
  omega

/-- The area of an address knows no offset exactly when nothing was split between the start of
the mapping and the address. -/
theorem Piece.pgoff_eq_zero_iff (piece : Piece v₀ cut v) (inside : v.Contains address) :
    v.vmPgoff = 0 ↔ ∀ p, cut p → p * 2 ^ 14 ≤ v₀.vmStart ∨ address < p * 2 ^ 14 := by
  have ⟨start, stop, pgoff, first, whole⟩ := piece
  rw [pgoff, shiftRight_sub_eq_zero v₀.startAligned v.startAligned start]
  obtain ⟨above, below⟩ := inside
  constructor
  · intro same p cut
    rcases whole p cut with low | high
    · exact Or.inl (same ▸ low)
    · exact Or.inr (Nat.lt_of_lt_of_le below high)
  · intro uncut
    rcases first with same | ⟨p, cut, here⟩
    · exact same
    · rcases uncut p cut with low | high
      · exact Nat.le_antisymm (here ▸ low) start
      · rw [← here] at high
        exact absurd above (Nat.not_le_of_lt high)

/-- The page found by the fault handler in an area of the mapping is the one that was there
first if the area has no offset, and no other page is. -/
theorem Piece.samePage_iff (mapped : MappedAll v₀ m) (gem : GemPages m.bo)
    (piece : Piece v₀ cut v) (inside : v.Contains address) :
    SamePage m v address ↔ v.vmPgoff = 0 := by
  have offset := piece.offset inside
  have first := piece.offset_lt inside
  have pages := mapped.pages
  have index : faultOffset v address < m.bo.pages.length := by
    rw [gem.length]
    omega
  have index₀ : faultOffset v₀ address < m.bo.pages.length := by
    rw [gem.length]
    omega
  have nonempty : m.bo.pages ≠ [] := List.ne_nil_of_length_pos (Nat.zero_lt_of_lt index)
  have entered : m.ptes (address >>> 14) = some (m.bo.pages.getD (faultOffset v₀ address) 0) := by
    rw [← mapped.ptes _ first]
    apply congrArg
    have aligned := v₀.startAligned
    have low := Nat.le_trans piece.start inside.1
    simp only [faultOffset, Nat.shiftRight_eq_div_pow, Nat.reducePow] at aligned ⊢
    omega
  have same : m.bo.pages.getD (faultOffset v address) 0 =
      m.bo.pages.getD (faultOffset v₀ address) 0 ↔
        faultOffset v address = faultOffset v₀ address := by
    rw [List.getD_eq_getElem?_getD, List.getD_eq_getElem?_getD, List.getElem?_eq_getElem index,
      List.getElem?_eq_getElem index₀]
    exact gem.distinct.getElem_inj_iff
  constructor
  · rintro ⟨-, page, inserted, there⟩
    rw [aneGemVmFault, if_neg nonempty, VmFault.insertPage.injEq] at inserted
    rw [entered, Option.some.injEq] at there
    have := same.mp (inserted.trans there.symm)
    omega
  · intro zero
    refine ⟨gem.length ▸ index, _, if_neg nonempty, ?_⟩
    rw [entered, same.mpr (by omega)]

/-- The page of an address is as the mapping call entered it, or is not entered. -/
def SamePte (m : UserMapping) (address : Nat) (m' : UserMapping) : Prop :=
  m'.ptes (address >>> 14) = none ∨ m'.ptes (address >>> 14) = m.ptes (address >>> 14)

theorem touch_samePte {m' : UserMapping} (mapped : MappedAll v₀ m) (gem : GemPages m.bo)
    (bo : m'.bo = m.bo) (pieces : ∀ v ∈ m'.areas, Piece v₀ cut v)
    (uncut : ∀ p, cut p → p * 2 ^ 14 ≤ v₀.vmStart ∨ address < p * 2 ^ 14)
    (same : SamePte m address m') (other : Nat) : SamePte m address (m'.touch other) := by
  rw [UserMapping.touch]
  split
  · rename_i v found _
    split
    · exact same
    · rename_i page inserted
      by_cases here : address >>> 14 = other >>> 14
      · have inside : v.Contains other := by simpa using List.find?_some found
        have piece := pieces v (List.mem_of_find?_eq_some found)
        have uncut' : ∀ p, cut p → p * 2 ^ 14 ≤ v₀.vmStart ∨ other < p * 2 ^ 14 := by
          intro p boundary
          rcases uncut p boundary with low | high
          · exact Or.inl low
          · simp only [Nat.shiftRight_eq_div_pow] at here
            exact Or.inr (by omega)
        have zero := (piece.pgoff_eq_zero_iff inside).mpr uncut'
        obtain ⟨-, page', inserted', there⟩ := (piece.samePage_iff mapped gem inside).mpr zero
        rw [bo, inserted', VmFault.insertPage.injEq] at inserted
        right
        simp only [here, Function.update_self, there, inserted]
      · simpa only [SamePte, Function.update_of_ne here] using same
  · exact same

theorem exec_samePte {m' : UserMapping} (mapped : MappedAll v₀ m) (gem : GemPages m.bo)
    (bo : m'.bo = m.bo) (pieces : ∀ v ∈ m'.areas, Piece v₀ cut v)
    (uncut : ∀ p, cut p → p * 2 ^ 14 ≤ v₀.vmStart ∨ address < p * 2 ^ 14)
    (same : SamePte m address m') (op : VmOp) : SamePte m address (op.exec m') := by
  have zapped (first last : Nat) : SamePte m address (m'.zap first last) := by
    simp only [SamePte, UserMapping.zap]
    split
    · exact Or.inl rfl
    · exact same
  cases op with
  | split p => exact same
  | munmap first last =>
    simp only [VmOp.exec]
    split
    · exact zapped first last
    · exact same
  | discard first last => exact zapped first last
  | touch other => exact touch_samePte mapped gem bo pieces uncut same other

theorem run_samePte {m' : UserMapping} (mapped : MappedAll v₀ m) (gem : GemPages m.bo)
    (bo : m'.bo = m.bo) (pieces : ∀ v ∈ m'.areas, Piece v₀ cut v)
    (uncut : ∀ p, (cut p ∨ ∃ op ∈ ops, p ∈ op.boundaries) →
      p * 2 ^ 14 ≤ v₀.vmStart ∨ address < p * 2 ^ 14)
    (same : SamePte m address m') : SamePte m address (run VmOp.exec m' ops) := by
  induction ops generalizing m' cut with
  | nil => exact same
  | cons op ops ih =>
    have next : SamePte m address (op.exec m') :=
      exec_samePte mapped gem bo pieces (fun p old => uncut p (Or.inl old)) same op
    refine ih ((exec_bo op m').trans bo) (exec_pieces pieces op) (fun p boundary => ?_) next
    apply uncut
    rwa [List.exists_mem_cons_iff, ← or_assoc]

/-- As long as nothing is split between the start of the mapping and an address, the user
reads there the page that was mapped first, through every discard and fault. -/
theorem aneDrmMmap_samePte (mapped : aneDrmMmap v₀ env = .ok m) (gem : GemPages m.bo)
    (uncut : ∀ op ∈ ops, ∀ p ∈ op.boundaries, p * 2 ^ 14 ≤ v₀.vmStart ∨ address < p * 2 ^ 14) :
    (run VmOp.exec m ops).bo = m.bo ∧ SamePte m address (run VmOp.exec m ops) := by
  have all := aneDrmMmap_ok mapped
  refine ⟨run_bo m ops, run_samePte all gem rfl all.pieces (fun p boundary => ?_) (Or.inr rfl)⟩
  obtain ⟨op, mem, here⟩ := boundary.resolve_left not_false
  exact uncut op mem p here

/-- For every object, mapping and history of it: at an address that is left, the handler puts
back the page that was mapped there first, exactly when no split of the history lies between
the start of the mapping and the address. -/
theorem aneGemVmFault_samePage_iff (mapped : aneDrmMmap v₀ env = .ok m) (gem : GemPages m.bo)
    (ops : List VmOp) (left : v ∈ (run VmOp.exec m ops).areas) (inside : v.Contains address) :
    SamePage m v address ↔
      ∀ op ∈ ops, ∀ p ∈ op.boundaries, p * 2 ^ 14 ≤ v₀.vmStart ∨ address < p * 2 ^ 14 := by
  have all := aneDrmMmap_ok mapped
  have piece := run_pieces all.pieces ops v left
  rw [piece.samePage_iff all gem inside, piece.pgoff_eq_zero_iff inside]
  constructor
  · intro uncut op mem p boundary
    exact uncut p (Or.inr ⟨op, mem, boundary⟩)
  · rintro uncut p (impossible | ⟨op, mem, boundary⟩)
    · exact impossible.elim
    · exact uncut op mem p boundary

/-- Two pages are mapped and split from one another, and the second is discarded. -/
def twoPages : AneBo := ⟨0, 0x8000, none, 2, [0x100000, 0x200000], 0, 0x8000, 0⟩

def twoPageArea : VmArea := ⟨0x40000, 0x48000, 7, by decide, by decide, by decide⟩

def twoPageEnv : MmapEnv := ⟨.ok twoPages, fun _ => true, .ENOMEM⟩

theorem twoPages_gem : GemPages twoPages := ⟨rfl, by decide⟩

/-- The second page is put back as the first one. -/
theorem not_samePage_twoPages : ∃ m v, aneDrmMmap twoPageArea twoPageEnv = .ok m ∧
    v ∈ (run VmOp.exec m [.split 0x11, .discard 0x11 0x12]).areas ∧ v.Contains 0x44000 ∧
      ¬ SamePage m v 0x44000 := by
  refine ⟨_, ⟨0x44000, 0x48000, 1, by decide, by decide, by decide⟩, rfl, ?_, by decide, ?_⟩
  · simp [UserMapping.split, UserMapping.zap, VmOp.exec, splitVma, twoPageArea]
  · rintro ⟨-, page, inserted, there⟩
    obtain rfl : 0x100000 = page := VmFault.insertPage.inj inserted
    exact absurd there (by decide)

/-- When the second page is unmapped, the first is put back as it was. -/
theorem aneGemVmFault_samePage_twoPages : ∃ m v, aneDrmMmap twoPageArea twoPageEnv = .ok m ∧
    v ∈ (run VmOp.exec m [.munmap 0x11 0x12, .discard 0x10 0x11]).areas ∧
      SamePage m v 0x40123 := by
  refine ⟨_, ⟨0x40000, 0x44000, 0, by decide, by decide, by decide⟩, rfl, ?_, ?_⟩
  · simp [UserMapping.munmap, UserMapping.split, UserMapping.zap, VmOp.exec, splitVma, twoPageArea]
  · refine (aneGemVmFault_samePage_iff (rfl : aneDrmMmap twoPageArea twoPageEnv = _) twoPages_gem
      [.munmap 0x11 0x12, .discard 0x10 0x11] ?_ (by decide)).mpr (by decide)
    simp [UserMapping.munmap, UserMapping.split, UserMapping.zap, VmOp.exec, splitVma, twoPageArea]

end Faults

end Ane.Driver
