import Ane.Mapping
import Ane.Mmap

/-! One buffer seen from both sides. The user finds at each address of a mapping the page that
the engine finds as far into the range of the buffer, for as long as the buffer lives and
nothing is split off the mapping before the address. -/
namespace Ane.Driver
open PageTable Runs TaskManager

section SharedView
variable {hw : AneHw} {regs : RegFile} {history : List Op} {bo : AneBo} {v v₀ : VmArea}
  {env : MmapEnv} {m : UserMapping} {ops : List VmOp} {address : Nat}

/-- The user finds at `address` page number `i` of the buffer, and so does the device. -/
structure SamePageAs (m : UserMapping) (address : Nat) (dev : Device) (bo : AneBo) (i : Nat) :
    Prop where
  index : i < bo.npages.toNat
  page : ∃ page, m.ptes (address >>> 14) = some page ∧
    dev.iommu (bo.iova.toNat + i * 2 ^ 14) = some page

theorem aneDrmMmap_bo (mapped : aneDrmMmap v₀ env = .ok m) (found : env.gem = .ok bo) :
    m.bo = bo := by
  simp only [aneDrmMmap, drmGemMmap, found] at mapped
  split at mapped
  · cases mapped
  · next bo' eq =>
    split at eq
    · cases eq
    · cases eq
      split at mapped
      · cases mapped
      · rw [Except.map.eq_def] at mapped
        split at mapped
        · cases mapped
        · cases mapped
          rfl

/-- After a fault the page of an address is entered as the mapping call did. -/
theorem touch_ptes (mapped : aneDrmMmap v₀ env = .ok m) (gem : GemPages m.bo)
    (left : v ∈ (run VmOp.exec m ops).areas) (inside : v.Contains address)
    (uncut : ∀ op ∈ ops, ∀ p ∈ op.boundaries, p * 2 ^ 14 ≤ v₀.vmStart ∨ address < p * 2 ^ 14) :
    ((run VmOp.exec m ops).touch address).ptes (address >>> 14) = m.ptes (address >>> 14) := by
  obtain ⟨bo, same⟩ := aneDrmMmap_samePte mapped gem uncut
  have covered : ((run VmOp.exec m ops).areas.find? (·.Contains address)).isSome :=
    List.find?_isSome.mpr ⟨v, left, by simpa using inside⟩
  obtain ⟨w, found⟩ := Option.isSome_iff_exists.mp covered
  have there : w.Contains address := by simpa using List.find?_some found
  obtain ⟨-, page, inserted, entered⟩ :=
    (aneGemVmFault_samePage_iff mapped gem ops (List.mem_of_find?_eq_some found) there).mpr uncut
  cases pte : (run VmOp.exec m ops).ptes (address >>> 14) with
  | none =>
    simp only [UserMapping.touch, found, pte, bo, inserted, Function.update_self, entered]
  | some old =>
    simp only [UserMapping.touch, found, pte]
    rw [SamePte, pte] at same
    exact same.resolve_left (Option.some_ne_none old)

/-- What the user reads at an address that is left of a mapping is what the engine reads as far
into the buffer, after every history of the device in which the buffer lives and every history
of the mapping that splits nothing before the address. -/
theorem cpu_sees_device_page (alive : bo ∈ (run exec (probed hw regs) history).bos)
    (distinct : bo.pages.Nodup) (found : env.gem = .ok bo) (mapped : aneDrmMmap v₀ env = .ok m)
    (left : v ∈ (run VmOp.exec m ops).areas) (inside : v.Contains address)
    (uncut : ∀ op ∈ ops, ∀ p ∈ op.boundaries, p * 2 ^ 14 ≤ v₀.vmStart ∨ address < p * 2 ^ 14) :
    SamePageAs ((run VmOp.exec m ops).touch address) address (run exec (probed hw regs) history)
      bo ((address - v₀.vmStart) / 2 ^ 14) := by
  have bos := (inv_run hw regs history).bosOk
  obtain rfl := aneDrmMmap_bo mapped found
  have gem : GemPages m.bo := (bos.ok m.bo alive).gemPages distinct
  have all := aneDrmMmap_ok mapped
  have piece := run_pieces all.pieces ops v left
  have below := piece.offset_lt inside
  have pages := all.pages
  have above : v₀.vmStart ≤ address := Nat.le_trans piece.start inside.1
  have index : faultOffset v₀ address = (address - v₀.vmStart) / 2 ^ 14 :=
    Nat.shiftRight_eq_div_pow _ _
  rw [index] at below
  have here : (v₀.vmStart + (address - v₀.vmStart) / 2 ^ 14 * 2 ^ 14) >>> 14 = address >>> 14 := by
    have aligned := v₀.startAligned
    simp only [Nat.shiftRight_eq_div_pow, Nat.reducePow] at aligned ⊢
    omega
  refine ⟨by omega, m.bo.pages.getD ((address - v₀.vmStart) / 2 ^ 14) 0, ?_, ?_⟩
  · rw [touch_ptes mapped gem left inside uncut, ← here]
    exact all.ptes _ below
  · exact (bos.table _ _).mpr ⟨m.bo, alive, _, by omega, rfl, rfl⟩

/-- A buffer of two pages, both discarded by the user; then the second one is touched. -/
theorem cpu_sees_device_page_twoPages : ∃ m bo,
    aneDrmMmap twoPageArea ⟨.ok bo, fun _ => true, .ENOMEM⟩ = .ok m ∧
    SamePageAs ((run VmOp.exec m [.discard 0x10 0x12]).touch 0x44123) 0x44123
      (run exec (probed aneHwH13 fun _ => 0) (twoBuffers.take 2)) bo 1 := by
  let bo : AneBo := ⟨0, 0x8000, some ⟨0x4000, 0x8000⟩, 2, [7, 8], 0x4000, 0x4001, 0⟩
  refine ⟨_, bo, rfl, ?_⟩
  exact cpu_sees_device_page (v := { twoPageArea with vmPgoff := 0 }) (by decide) (by decide) rfl
    (rfl : aneDrmMmap twoPageArea ⟨.ok bo, fun _ => true, .ENOMEM⟩ = _)
    (List.mem_singleton.mpr rfl) (by decide) (by decide)

end SharedView

end Ane.Driver
