import Mathlib.Data.List.Basic
import Mathlib.Tactic.Common

/-! Bounded copies between buffers. A buffer is the list of its cells, and an
operation that would leave either buffer has no result. A batch of row copies is
described by what each destination cell receives. -/
namespace Ane.ByteBuffer

variable {α : Type*}

/-- Copy `n` cells from `src + s` to `dst + d`. -/
def memcpy (dst : List α) (d : Nat) (src : List α) (s n : Nat) : Option (List α) :=
  if d + n ≤ dst.length ∧ s + n ≤ src.length then
    some (dst.take d ++ (src.drop s).take n ++ dst.drop (d + n))
  else none

/-- Fill the first `n` cells of `dst`. -/
def memset (dst : List α) (x : α) (n : Nat) : Option (List α) :=
  if n ≤ dst.length then some (List.replicate n x ++ dst.drop n) else none

theorem memcpy_eq_some {dst src out : List α} {d s n : Nat} :
    memcpy dst d src s n = some out ↔
      d + n ≤ dst.length ∧ s + n ≤ src.length ∧
        dst.take d ++ (src.drop s).take n ++ dst.drop (d + n) = out := by
  unfold memcpy
  by_cases fits : d + n ≤ dst.length ∧ s + n ≤ src.length
  · simp [fits]
  · simp only [if_neg fits, reduceCtorEq, false_iff]
    exact fun h => fits ⟨h.1, h.2.1⟩

theorem memcpy_length {dst src out : List α} {d s n : Nat}
    (h : memcpy dst d src s n = some out) : out.length = dst.length := by
  obtain ⟨hd, hs, rfl⟩ := memcpy_eq_some.mp h
  simp only [List.length_append, List.length_take, List.length_drop]
  omega

theorem memcpy_getElem? {dst src out : List α} {d s n : Nat}
    (h : memcpy dst d src s n = some out) (j : Nat) :
    out[j]? = if d ≤ j ∧ j < d + n then src[s + (j - d)]? else dst[j]? := by
  obtain ⟨hd, hs, rfl⟩ := memcpy_eq_some.mp h
  simp only [List.getElem?_append, List.getElem?_take, List.getElem?_drop,
    List.length_append, List.length_take, List.length_drop]
  have htake : min d dst.length = d := by omega
  have hmid : min n (src.length - s) = n := by omega
  rw [htake, hmid]
  by_cases below : j < d
  · have hlt : j < d + n := by omega
    have hge : ¬ (d ≤ j ∧ j < d + n) := by omega
    rw [if_pos hlt, if_pos below, if_neg hge, if_pos below]
  · by_cases inside : j < d + n
    · have hin : d ≤ j ∧ j < d + n := by omega
      have hk : j - d < n := by omega
      rw [if_pos inside, if_neg below, if_pos hin, if_pos hk]
    · have hout : ¬ (d ≤ j ∧ j < d + n) := by omega
      have hj : d + n + (j - (d + n)) = j := by omega
      rw [if_neg inside, if_neg hout, hj]

/-- A copy of a whole buffer over one of the same size. -/
theorem memcpy_whole {dst src : List α} (h : dst.length = src.length) :
    memcpy dst 0 src 0 src.length = some src := by
  rw [memcpy_eq_some]
  refine ⟨by omega, by omega, ?_⟩
  simp only [List.take_zero, List.drop_zero, List.nil_append, Nat.zero_add, List.take_length,
    List.drop_of_length_le (Nat.le_of_eq h), List.append_nil]

theorem memset_whole (dst : List α) (x : α) :
    memset dst x dst.length = some (List.replicate dst.length x) := by
  simp [memset]

/-- One row copy: `len` cells from `src` to `dst`. -/
structure Row where
  dst : Nat
  src : Nat
  len : Nat

namespace Row

def Covers (r : Row) (j : Nat) : Prop := r.dst ≤ j ∧ j < r.dst + r.len

instance (r : Row) (j : Nat) : Decidable (r.Covers j) :=
  inferInstanceAs (Decidable (_ ∧ _))

/-- The cell that lands on destination cell `j`. -/
def source (r : Row) (j : Nat) : Nat := r.src + (j - r.dst)

/-- The copy back. -/
def swap (r : Row) : Row := ⟨r.src, r.dst, r.len⟩

theorem covers_iff {r : Row} {j : Nat} : r.Covers j ↔ ∃ i < r.len, j = r.dst + i := by
  constructor
  · rintro ⟨hl, hr⟩
    exact ⟨j - r.dst, by omega, by omega⟩
  · rintro ⟨i, hi, rfl⟩
    exact ⟨by omega, by omega⟩

/-- Both ends lie in buffers of the given sizes. -/
def Fits (r : Row) (dstSize srcSize : Nat) : Prop :=
  r.dst + r.len ≤ dstSize ∧ r.src + r.len ≤ srcSize

theorem Fits.swap {r : Row} {dstSize srcSize : Nat} (h : r.Fits dstSize srcSize) :
    r.swap.Fits srcSize dstSize := And.symm h

theorem swap_covers_source {r : Row} {j : Nat} (h : r.Covers j) :
    r.swap.Covers (r.source j) := by
  obtain ⟨hl, hr⟩ := h
  refine ⟨?_, ?_⟩ <;> simp only [swap, source] <;> omega

theorem swap_source_source {r : Row} {j : Nat} (h : r.Covers j) :
    r.swap.source (r.source j) = j := by
  obtain ⟨hl, hr⟩ := h
  simp only [swap, source]
  omega

end Row

def copyRow (src : List α) (dst : List α) (r : Row) : Option (List α) :=
  memcpy dst r.dst src r.src r.len

/-- The rows one after another. -/
def copyRows (src : List α) (rows : List Row) (dst : List α) : Option (List α) :=
  rows.foldlM (copyRow src) dst

@[simp] theorem copyRows_nil (src dst : List α) : copyRows src [] dst = some dst := rfl

theorem copyRows_cons (src : List α) (r : Row) (rows : List Row) (dst : List α) :
    copyRows src (r :: rows) dst = (copyRow src dst r).bind (copyRows src rows) := rfl

theorem copyRows_length {src : List α} {rows : List Row} {dst out : List α}
    (h : copyRows src rows dst = some out) : out.length = dst.length := by
  induction rows generalizing dst with
  | nil => simp_all
  | cons r rows ih =>
    rw [copyRows_cons] at h
    obtain ⟨mid, hr, hrows⟩ := Option.bind_eq_some_iff.mp h
    rw [ih hrows, memcpy_length hr]

/-- Rows that fit are copied: no step of the batch leaves a buffer. -/
theorem copyRows_isSome {src : List α} {rows : List Row} {dst : List α}
    (h : ∀ r ∈ rows, r.Fits dst.length src.length) : ∃ out, copyRows src rows dst = some out := by
  induction rows generalizing dst with
  | nil => exact ⟨dst, rfl⟩
  | cons r rows ih =>
    obtain ⟨hd, hs⟩ := h r List.mem_cons_self
    obtain ⟨mid, hmid⟩ : ∃ mid, copyRow src dst r = some mid :=
      ⟨_, memcpy_eq_some.mpr ⟨hd, hs, rfl⟩⟩
    have rest : ∀ q ∈ rows, q.Fits mid.length src.length := fun q hq => by
      rw [memcpy_length hmid]
      exact h q (List.mem_cons_of_mem r hq)
    obtain ⟨out, hout⟩ := ih rest
    exact ⟨out, by rw [copyRows_cons, hmid, Option.bind_some, hout]⟩

/-- Cells under no row keep their contents. -/
theorem copyRows_getElem?_outside {src : List α} {rows : List Row} {dst out : List α} {j : Nat}
    (h : copyRows src rows dst = some out) (free : ∀ r ∈ rows, ¬ r.Covers j) :
    out[j]? = dst[j]? := by
  induction rows generalizing dst with
  | nil => simp_all
  | cons r rows ih =>
    rw [copyRows_cons] at h
    obtain ⟨mid, hr, hrows⟩ := Option.bind_eq_some_iff.mp h
    rw [ih hrows fun q hq => free q (List.mem_cons_of_mem r hq), memcpy_getElem? hr]
    exact if_neg (free r List.mem_cons_self)

/-- Two rows that write one cell write it from one source cell. -/
def Agree (rows : List Row) : Prop :=
  ∀ r ∈ rows, ∀ q ∈ rows, ∀ j, r.Covers j → q.Covers j → r.source j = q.source j

/-- A cell under some row receives the source cell that row names. The induction
is on the batch; a later row that overwrites the cell agrees with the earlier one. -/
theorem copyRows_getElem?_inside {src : List α} {rows : List Row} {dst out : List α} {j : Nat}
    (h : copyRows src rows dst = some out) (agree : Agree rows)
    {r : Row} (hr : r ∈ rows) (hj : r.Covers j) : out[j]? = src[r.source j]? := by
  induction rows generalizing dst r with
  | nil => cases hr
  | cons q rows ih =>
    rw [copyRows_cons] at h
    obtain ⟨mid, hq, hrows⟩ := Option.bind_eq_some_iff.mp h
    have agreeTail : Agree rows := fun a ha b hb =>
      agree a (List.mem_cons_of_mem q ha) b (List.mem_cons_of_mem q hb)
    by_cases later : ∃ p ∈ rows, p.Covers j
    · obtain ⟨p, hp, hpj⟩ := later
      have same := agree r hr p (List.mem_cons_of_mem q hp) j hj hpj
      rw [same]
      exact ih hrows agreeTail hp hpj
    · have hrq : r = q := by
        obtain rfl | hrTail := List.mem_cons.mp hr
        · rfl
        · exact absurd ⟨r, hrTail, hj⟩ later
      subst hrq
      rw [copyRows_getElem?_outside hrows fun p hp hpj => later ⟨p, hp, hpj⟩,
        memcpy_getElem? hq]
      exact if_pos hj

/-- Copying rows out and back restores every cell that some row carried. -/
theorem copyRows_roundTrip {data tile tile' data' back : List α} {rows : List Row}
    (out : copyRows data rows tile = some tile')
    (home : copyRows tile' (rows.map Row.swap) data' = some back)
    (agree : Agree rows) (agreeSwap : Agree (rows.map Row.swap))
    {r : Row} (hr : r ∈ rows) {j : Nat} (hj : r.swap.Covers j) : back[j]? = data[j]? := by
  have landed : r.Covers (r.swap.source j) := Row.swap_covers_source hj
  have origin : r.source (r.swap.source j) = j := Row.swap_source_source hj
  rw [copyRows_getElem?_inside home agreeSwap (List.mem_map_of_mem hr) hj,
    copyRows_getElem?_inside out agree hr landed, origin]

end Ane.ByteBuffer
