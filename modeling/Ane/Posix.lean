import Ane.Memory
import Mathlib.Algebra.Group.Nat.Defs

/-! A process that reads one file and uses the heap. What the kernel and the allocator
answer is given by an environment, call by call; the process carries its `errno`, the
blocks and descriptors it holds and the reads of heap buffers it made. -/
namespace Ane.Posix
open Memory

abbrev Errno := Nat
abbrev BlockId := Nat
abbrev Fd := Nat

def ENOENT : Errno := 2
def EINTR : Errno := 4
def ENOMEM : Errno := 12
def EINVAL : Errno := 22

/-- An answer of `pread`: an error, or a transfer of at most `k + 1` bytes. -/
inductive PreadOutcome
  | error (e : Errno)
  | upTo (k : Nat)
deriving DecidableEq

/-- The file and the answers. `content_lt` is the range of `off_t`. The calls of `pread`
are interrupted finitely often, none from number `lastEintr` on. `heap b` is the memory
from block `b` on as the allocation finds it, `stack` that of a local variable. -/
structure Env where
  content : List UInt8
  content_lt : content.length < 2 ^ 63
  regular : Bool
  openError : Option Errno
  fstatError : Option Errno
  pread : Nat → PreadOutcome
  lastEintr : Nat
  eintr_lt : ∀ n, pread n = .error EINTR → n < lastEintr
  alloc : Nat → Bool
  heap : BlockId → Mem
  stack : Mem

/-- A read of `len` bytes at `off` of a heap buffer of `size` bytes. -/
structure BufferRead where
  size : Nat
  off : Nat
  len : Nat
deriving DecidableEq

def BufferRead.InBounds (r : BufferRead) : Prop := r.off + r.len ≤ r.size

instance (r : BufferRead) : Decidable r.InBounds := inferInstanceAs (Decidable (_ ≤ _))

/-- `preads` and `allocs` count the calls made, `live` and `fds` are the blocks and
descriptors held; `badFrees` and `badCloses` count those given back that were not held.
`reads` are the buffer reads, oldest first. -/
structure Process where
  errno : Errno
  preads : Nat
  allocs : Nat
  live : List BlockId
  badFrees : Nat
  opens : Nat
  fds : List Fd
  badCloses : Nat
  reads : List BufferRead
deriving DecidableEq

variable (env : Env)

namespace Process

def setErrno (e : Errno) (p : Process) : Process := { p with errno := e }

/-- The fields `fields`, given by offset and length, of a record at `base` are read. -/
def note (size base : Nat) (fields : List (Nat × Nat)) (p : Process) : Process :=
  { p with reads := p.reads ++ fields.map fun f => ⟨size, base + f.1, f.2⟩ }

def free : Option BlockId → Process → Process
  | none, p => p
  | some b, p =>
    if b ∈ p.live then { p with live := p.live.erase b }
    else { p with badFrees := p.badFrees + 1 }

def close (fd : Fd) (p : Process) : Process :=
  if fd ∈ p.fds then { p with fds := p.fds.erase fd }
  else { p with badCloses := p.badCloses + 1 }

end Process

/-- `malloc` and `calloc` of a positive size. -/
def malloc (p : Process) : Option BlockId × Process :=
  if env.alloc p.allocs then
    (some p.allocs, { p with allocs := p.allocs + 1, live := p.allocs :: p.live })
  else (none, { p with errno := ENOMEM, allocs := p.allocs + 1 })

/-- A `realloc` that fails leaves the old block as it was. -/
def realloc (old : Option BlockId) (p : Process) : Option BlockId × Process :=
  match malloc env p with
  | (none, p) => (none, p)
  | (some b, p) => (some b, p.free old)

def openFile (p : Process) : Option Fd × Process :=
  match env.openError with
  | some e => (none, p.setErrno e)
  | none => (some p.opens, { p with opens := p.opens + 1, fds := p.opens :: p.fds })

/-- One call for `count` bytes at `off`; an `off` beyond the range of `off_t` is negative.
No byte is transferred at the end of the file. -/
def pread (count : Nat) (off : UInt64) (p : Process) : Except Errno (List UInt8) × Process :=
  match env.pread p.preads with
  | .error e => (.error e, { p with errno := e, preads := p.preads + 1 })
  | .upTo k =>
    if 2 ^ 63 ≤ off.toNat then
      (.error EINVAL, { p with errno := EINVAL, preads := p.preads + 1 })
    else (.ok ((env.content.drop off.toNat).take (min (k + 1) count)),
      { p with preads := p.preads + 1 })

/-- Reading does not fail: a `pread` is interrupted or cut short at most. -/
def Env.Reads : Prop := ∀ n e, env.pread n = .error e → e = EINTR

/-- A regular file that can be opened and read, and memory enough. -/
structure Env.Favourable : Prop where
  opens : env.openError = none
  stats : env.fstatError = none
  regular : env.regular = true
  reads : env.Reads
  allocs : ∀ n, env.alloc n = true

/-- The plain environment of a file: every call is served at once and in full. -/
def Env.plain (content : List UInt8) (h : content.length < 2 ^ 63) : Env where
  content := content
  content_lt := h
  regular := true
  openError := none
  fstatError := none
  pread _ := .upTo content.length
  lastEintr := 0
  eintr_lt _ eintr := nomatch eintr
  alloc _ := true
  heap _ _ := 0
  stack _ := 0

theorem Env.plain_favourable (content : List UInt8) (h : content.length < 2 ^ 63) :
    (Env.plain content h).Favourable where
  opens := rfl
  stats := rfl
  regular := rfl
  reads _ _ error := nomatch error
  allocs _ := rfl

/-- A process that has not done anything yet. -/
def Process.fresh : Process := ⟨0, 0, 0, [], 0, 0, [], 0, []⟩

variable {env} {p p' : Process}

theorem Env.Favourable.malloc (favourable : env.Favourable) (p : Process) :
    ∃ b p', Posix.malloc env p = (some b, p') := by
  simp only [Posix.malloc, favourable.allocs, if_true]
  exact ⟨_, _, rfl⟩

theorem Env.Favourable.realloc (favourable : env.Favourable) (old : Option BlockId) (p : Process) :
    ∃ b p', Posix.realloc env old p = (some b, p') := by
  obtain ⟨b, p', granted⟩ := favourable.malloc p
  simp only [Posix.realloc, granted]
  exact ⟨_, _, rfl⟩

theorem pread_ok {count : Nat} {off : UInt64} {bytes : List UInt8}
    (h : pread env count off p = (.ok bytes, p')) :
    ∃ k, bytes = (env.content.drop off.toNat).take (min (k + 1) count) := by
  simp only [pread] at h
  cases answer : env.pread p.preads with
  | error e => simp [answer] at h
  | upTo k =>
    simp only [answer] at h
    split at h
    · simp at h
    · simp only [Prod.mk.injEq, Except.ok.injEq] at h
      exact ⟨k, h.1.symm⟩

/-- Inside the file a favourable `pread` transfers something or is interrupted. -/
theorem Env.Reads.pread_turn (reads : env.Reads) {count : Nat} {off : UInt64} (p : Process)
    (h : off.toNat + count ≤ env.content.length) (pos : 0 < count) :
    (p.preads < env.lastEintr ∧ Posix.pread env count off p = (.error EINTR,
        { p with errno := EINTR, preads := p.preads + 1 })) ∨
      ∃ bytes, bytes ≠ [] ∧ Posix.pread env count off p = (.ok bytes, { p with preads := p.preads + 1 }) := by
  simp only [Posix.pread]
  cases answer : env.pread p.preads with
  | error e =>
    have eintr := reads _ _ answer
    subst eintr
    exact Or.inl ⟨env.eintr_lt _ answer, rfl⟩
  | upTo k =>
    have small : ¬ 2 ^ 63 ≤ off.toNat := by
      have := env.content_lt
      omega
    refine Or.inr ⟨_, ?_, if_neg small⟩
    apply List.ne_nil_of_length_pos
    simp only [List.length_take, List.length_drop]
    omega

theorem pread_eintr {count : Nat} {off : UInt64} (h : pread env count off p = (.error EINTR, p')) :
    p.preads < env.lastEintr := by
  simp only [pread] at h
  cases answer : env.pread p.preads with
  | error e =>
    simp only [answer, Prod.mk.injEq, Except.error.injEq] at h
    rw [h.1] at answer
    exact env.eintr_lt _ answer
  | upTo k =>
    simp only [answer] at h
    split at h <;> simp [EINVAL, EINTR] at h

theorem pread_proc (env : Env) (count : Nat) (off : UInt64) (p : Process) :
    ∃ e, (pread env count off p).2 = { p with errno := e, preads := p.preads + 1 } := by
  simp only [pread]
  split
  · exact ⟨_, rfl⟩
  · split
    · exact ⟨_, rfl⟩
    · exact ⟨p.errno, rfl⟩

theorem Process.free_reads (b : Option BlockId) (p : Process) : (p.free b).reads = p.reads := by
  cases b with
  | none => rfl
  | some b =>
    simp only [Process.free]
    split <;> rfl

theorem Process.close_reads (fd : Fd) (p : Process) : (p.close fd).reads = p.reads := by
  simp only [Process.close]
  split <;> rfl

/-- All buffer reads so far were in bounds. -/
def Process.Bounded (p : Process) : Prop := ∀ r ∈ p.reads, r.InBounds

instance (p : Process) : Decidable p.Bounded :=
  inferInstanceAs (Decidable (∀ r ∈ p.reads, r.InBounds))

namespace Process.Bounded

variable (bounded : p.Bounded)
include bounded

theorem of_reads (same : p'.reads = p.reads) : p'.Bounded := by
  simpa only [Bounded, same] using bounded

theorem setErrno {e : Errno} : (p.setErrno e).Bounded := bounded.of_reads rfl

theorem free {b : Option BlockId} : (p.free b).Bounded := bounded.of_reads (free_reads b p)

theorem close {fd : Fd} : (p.close fd).Bounded := bounded.of_reads (close_reads fd p)

theorem note {size base : Nat} {fields : List (Nat × Nat)}
    (inside : ∀ f ∈ fields, base + f.1 + f.2 ≤ size) : (p.note size base fields).Bounded := by
  intro r mem
  simp only [Process.note, List.mem_append, List.mem_map] at mem
  rcases mem with old | ⟨f, mem, rfl⟩
  · exact bounded r old
  · exact inside f mem

theorem malloc {b : Option BlockId} (h : Posix.malloc env p = (b, p')) : p'.Bounded := by
  apply bounded.of_reads
  simp only [Posix.malloc] at h
  split at h <;> (simp only [Prod.mk.injEq] at h; rw [← h.2])

theorem realloc {old b : Option BlockId} (h : Posix.realloc env old p = (b, p')) :
    p'.Bounded := by
  simp only [Posix.realloc] at h
  split at h
  · rename_i granted
    simp only [Prod.mk.injEq] at h
    rw [← h.2]
    exact bounded.malloc granted
  · rename_i granted
    simp only [Prod.mk.injEq] at h
    rw [← h.2]
    exact (bounded.malloc granted).free

end Process.Bounded

end Ane.Posix
