import Mathlib.Algebra.Order.Ring.Int
import Mathlib.Logic.Relation
import Ndppd.Lib.Carving
import Ndppd.Lib.Intrusive

/-!
# Memory

The allocator of the daemon (`alloc.c`), on a memory of words. `malloc` provides chunks; a
chunk starts with a header, and objects are taken from what follows it. An object that is
freed goes to the list of its size, and is reused from there. The links of these lists are
in the objects themselves, and those of the chunks in their headers, so that all of them
are words of the memory that the objects are in.

The loops along the pointers are given a bound on their rounds. A call whose loops need more
is `stuck`.
-/

namespace Ndppd

namespace Alloc

open Carving Intrusive

/-! ## The heap -/

/-- `NDPPD_CHUNK_ALLOC_SIZE`. -/
def chunkAllocSize : ℕ := 16384

/-- `NDPPD_CHUNK_ALLOC_MAX`. -/
def chunkAllocMax : ℕ := 1048576

/-- `NDPPD_MAX_ALLOC`. -/
def maxAlloc : ℕ := 128

/-- The memory, by the addresses of its words of 8 bytes, and the variables of the
    allocator. A pointer is an address, and `NULL` is zero. -/
structure Heap where
  mem : ℕ → ℕ
  /-- `ndL_chunks`. -/
  chunks : ℕ
  /-- `ndL_alloc_size`. -/
  allocSize : ℕ
  /-- `ndL_free_objects`. -/
  freeObjects : ℕ → ℕ

/-- Writes the word at `a`. -/
def Heap.store (h : Heap) (a v : ℕ) : Heap := { h with mem := Function.update h.mem a v }

@[simp] theorem Heap.store_mem_self (h : Heap) (a v : ℕ) : (h.store a v).mem a = v :=
  Function.update_self ..

theorem Heap.store_mem_of_ne (h : Heap) {a p : ℕ} (v : ℕ) (hne : p ≠ a) :
    (h.store a v).mem p = h.mem p := Function.update_of_ne hne ..

/-! The fields of `ndL_chunk_t`; the only one of `ndL_obj_t`, `next`, is at its address. -/

def Heap.next (h : Heap) (p : ℕ) : ℕ := h.mem p

def Heap.free (h : Heap) (chunk : ℕ) : ℕ := h.mem (chunk + 8)

def Heap.size (h : Heap) (chunk : ℕ) : ℕ := h.mem (chunk + 16)

/-- `sizeof(ndL_chunk_t)`. -/
def sizeofChunk : ℕ := 24

/-- A difference of words of 64 bits. -/
def wordSub (a b : ℕ) : ℕ := (a + 2 ^ 64 - b) % 2 ^ 64

/-- `(size + 7U) & ~7U`. The mask has 32 bits. -/
def roundUp (size : ℕ) : ℕ := (size + 7) &&& 0xfffffff8

/-- `(size >> 3) - 1`. -/
def bucket (size : ℕ) : ℕ := (size >>> 3) - 1

/-- Why a call does not return: the process exits with a message, or a loop goes on. -/
inductive Fatal
  | invalid (what : String) (size : ℕ)
  | outOfMemory (size : ℕ)
  | stuck

/-! ## Freeing -/

def ndFree (ptr size : ℕ) (h : Heap) : Except Fatal Heap :=
  if size = 0 ∨ size > maxAlloc then .error (.invalid "free with invalid size" size)
  else
    let b := bucket (roundUp size)
    -- `ND_LL_PREPEND`
    let h := h.store ptr (h.freeObjects b)
    .ok { h with freeObjects := Function.update h.freeObjects b ptr }

/-! ## Allocating -/

/-- The loop of `ND_LL_DELETE`, from `last` on: the element that points to `el`. -/
def lastBefore (h : Heap) (el : ℕ) : ℕ → ℕ → Option ℕ
  | 0, _ => none
  | rounds + 1, last =>
    if last ≠ 0 ∧ h.next last ≠ el then lastBefore h el rounds (h.next last) else some last

/-- `ND_LL_DELETE`, for an element of the list `b` of free objects. -/
def deleteObject (rounds b el : ℕ) (h : Heap) : Option Heap :=
  (lastBefore h el rounds (h.freeObjects b)).map fun last =>
    let h := if last ≠ 0 then h.store last (h.next el) else h
    if h.freeObjects b = el then
      { h with freeObjects := Function.update h.freeObjects b (h.next el) }
    else h

/-- The loop over the chunks: the first one with enough space left, or `NULL`. -/
def findChunk (h : Heap) (size : ℕ) : ℕ → ℕ → Option ℕ
  | 0, _ => none
  | rounds + 1, chunk =>
    if chunk = 0 ∨ h.free chunk ≥ size then some chunk
    else findChunk h size rounds (h.next chunk)

/-- Takes an object from the unused tail of a chunk. -/
def carveObject (chunk size : ℕ) (h : Heap) : ℕ × Heap :=
  (wordSub (chunk + h.size chunk) (h.free chunk),
    h.store (chunk + 8) (wordSub (h.free chunk) size))

/-- Where an object has been taken from. -/
inductive Source
  | reused
  | tail
  /-- From a chunk that `malloc` has just provided, of this size. -/
  | chunk (size : ℕ)

/-- What `nd_alloc` returns. -/
structure Allocated where
  ptr : ℕ
  heap : Heap
  source : Source

/-- The growth of `ndL_alloc_size`. -/
def nextAllocSize (size : ℕ) : ℕ :=
  let size := if size < chunkAllocMax then size * 2 else size
  if size > chunkAllocMax then chunkAllocMax else size

/-- The header of a new chunk, which becomes the first one. -/
def addChunk (chunk : ℕ) (h : Heap) : Heap :=
  let size := h.allocSize
  let h' := (h.store chunk h.chunks).store (chunk + 16) size
  let h' := h'.store (chunk + 8) (wordSub size (roundUp sizeofChunk))
  { h' with chunks := chunk, allocSize := nextAllocSize size }

/-- `nd_alloc`, if `malloc` returns the address `malloc` when it is called. -/
def ndAlloc (rounds malloc size : ℕ) (h : Heap) : Except Fatal Allocated :=
  if size = 0 ∨ size > maxAlloc then .error (.invalid "alloc with invalid size" size)
  else
    let size := roundUp size
    let b := bucket size
    let obj := h.freeObjects b
    if obj ≠ 0 then
      match deleteObject rounds b obj h with
      | none => .error .stuck
      | some h => .ok ⟨obj, h, .reused⟩
    else
      match findChunk h size rounds h.chunks with
      | none => .error .stuck
      | some chunk =>
        if chunk ≠ 0 then
          let (ptr, h) := carveObject chunk size h
          .ok ⟨ptr, h, .tail⟩
        else if malloc = 0 then .error (.outOfMemory h.allocSize)
        else
          let (ptr, h') := carveObject malloc size (addChunk malloc h)
          .ok ⟨ptr, h', .chunk h.allocSize⟩

/-! ## Histories -/

/-- The heap, and what has been allocated: the chunks, the objects that have been taken from
    them, and those of these that are in use. -/
structure State where
  heap : Heap
  chunks : List Block
  carved : List Block
  live : List Block

namespace State

/-- Before the first call. The memory holds anything. -/
def init (mem : ℕ → ℕ) : State where
  heap := { mem, chunks := 0, allocSize := chunkAllocSize, freeObjects := fun _ => 0 }
  chunks := []
  carved := []
  live := []

/-- What `malloc` may return for a chunk of `ndL_alloc_size` bytes: an address that is aligned,
    of memory that is not in use. -/
structure Provides (s : State) (chunk : ℕ) : Prop where
  ne_zero : chunk ≠ 0
  aligned : 8 ∣ chunk
  le : chunk + s.heap.allocSize ≤ 2 ^ 64
  apart : ∀ c ∈ s.chunks, Block.Apart ⟨chunk, s.heap.allocSize⟩ c

/-- After `nd_alloc(size)`. -/
def allocated (s : State) (malloc size : ℕ) (a : Allocated) : State :=
  let x : Block := ⟨a.ptr, roundUp size⟩
  match a.source with
  | .reused => { s with heap := a.heap, live := x :: s.live }
  | .tail => { s with heap := a.heap, carved := x :: s.carved, live := x :: s.live }
  | .chunk n =>
    { heap := a.heap
      chunks := ⟨malloc, n⟩ :: s.chunks
      carved := x :: s.carved
      live := x :: s.live }

/-- After `nd_free(ptr, size)`. -/
def freed (s : State) (ptr size : ℕ) (h : Heap) : State :=
  { s with heap := h, live := s.live.erase ⟨ptr, roundUp size⟩ }

/-- The words the program may write: in objects in use, and elsewhere than in chunks. -/
def MayStore (s : State) (a : ℕ) : Prop :=
  (∃ x ∈ s.live, x.Has a) ∨ ∀ c ∈ s.chunks, ¬c.Has a

/-- A call of `nd_alloc`, a call of `nd_free`, for an object in use and with a size of its
    class, or the program writes its memory. -/
inductive Step : State → State → Prop
  | alloc {s : State} {rounds malloc size : ℕ} {a : Allocated}
      (hsize : 1 ≤ size ∧ size ≤ maxAlloc) (ha : ndAlloc rounds malloc size s.heap = .ok a)
      (hmalloc : ∀ n, a.source = .chunk n → s.Provides malloc) : Step s (s.allocated malloc size a)
  | free {s : State} {ptr size : ℕ} {h' : Heap} (hsize : 1 ≤ size ∧ size ≤ maxAlloc)
      (hlive : ⟨ptr, roundUp size⟩ ∈ s.live) (hf : ndFree ptr size s.heap = .ok h') :
      Step s (s.freed ptr size h')
  | store {s : State} {a : ℕ} (ha : s.MayStore a) (v : ℕ) :
      Step s { s with heap := s.heap.store a v }

/-- The states after any number of steps. -/
def Reachable (s : State) : Prop := ∃ mem, Relation.ReflTransGen Step (init mem) s

theorem reachable_init (mem : ℕ → ℕ) : (init mem).Reachable := ⟨mem, .refl⟩

theorem Reachable.step {s s' : State} (h : s.Reachable) (hs : Step s s') : s'.Reachable := by
  obtain ⟨mem, hsteps⟩ := h
  exact ⟨mem, hsteps.tail hs⟩

end State

end Alloc

end Ndppd
