import OperateSystem.Pages

/-!
# The kernel heap

`sys_malloc` and `sys_free` (`kernel/memory.c`) as a kernel thread calls them. A
page from `malloc_page` becomes an arena: a header and blocks of one size. The
free list of a size is the list of the free blocks' addresses; its links lie in
the free blocks, whose bytes nobody else reads. `malloc_page` itself is an
argument: the address it returned.
-/

namespace OperateSystem

open Function

def descCnt : Nat := 7

def arenaSize : Nat := 12

structure MemBlockDesc where
  blockSize : Nat
  blocksPerArena : Nat
  freeList : List Nat

structure Arena where
  desc : Option Nat
  cnt : Nat
  large : Nat

structure Heap where
  descs : Nat → MemBlockDesc
  arena : Nat → Arena
  mem : Mem
  poolSize : Nat
  /-- What was got from `malloc_page` and not given back. -/
  pages : List Nat
  /-- The size asked for with each block that is in use. -/
  live : Nat → Option Nat

def blockDescLoop : Nat → Nat → Nat → (Nat → MemBlockDesc) → Nat → MemBlockDesc
  | 0, _, _, descs => descs
  | n + 1, i, blockSize, descs =>
    blockDescLoop n (i + 1) (blockSize * 2 % 2 ^ 16)
      (update descs i ⟨blockSize, (pgSize - arenaSize) / blockSize, []⟩)

def blockDescInit (descs : Nat → MemBlockDesc) : Nat → MemBlockDesc := blockDescLoop descCnt 0 16 descs

def arena2block (blockSize a k : Nat) : Nat := a + arenaSize + k * blockSize

def block2arena (b : Nat) : Nat := b - b % pgSize

namespace Heap

def setFree (h : Heap) (i : Nat) (l : List Nat) : Heap :=
  { h with descs := update h.descs i { h.descs i with freeList := l } }

def setArena (h : Heap) (a : Nat) (A : Arena) : Heap := { h with arena := update h.arena a A }

def findDesc (h : Heap) (size : Nat) : Nat → Nat → Nat
  | 0, i => i
  | n + 1, i => if size ≤ (h.descs i).blockSize then i else h.findDesc size n (i + 1)

def addBlocks (i a : Nat) : Nat → Nat → Heap → Exec Heap
  | 0, _, h => .ok h
  | n + 1, k, h => do
    let b := arena2block (h.descs i).blockSize a k
    assert .debug (b ∉ (h.descs i).freeList) "!elem_find(&a->desc->free_list, &b->free_elem)"
    addBlocks i a n (k + 1) (h.setFree i ((h.descs i).freeList ++ [b]))

def newArena (h : Heap) (i a : Nat) : Exec Heap :=
  let h := { h with mem := fill h.mem a pgSize 0, pages := a :: h.pages }
  addBlocks i a (h.descs i).blocksPerArena 0 (h.setArena a ⟨some i, (h.descs i).blocksPerArena, 0⟩)

def takeBlock (h : Heap) (i : Nat) : Exec (Heap × Option Nat) :=
  match (h.descs i).freeList with
  | [] => .error .outOfBounds
  | b :: l =>
    let h := { h.setFree i l with mem := fill h.mem b (h.descs i).blockSize 0 }
    let A := h.arena (block2arena b)
    return (h.setArena (block2arena b) { A with cnt := A.cnt - 1 }, some b)

def mallocPages (h : Heap) (size : Nat) (page : Option Nat) : Heap × Option Nat :=
  match page with
  | none => (h, none)
  | some a =>
    let pageCnt := (size + arenaSize + pgSize - 1) / pgSize
    let h := { h with mem := fill h.mem a (pageCnt * pgSize) 0, pages := a :: h.pages }
    (h.setArena a ⟨none, pageCnt, 1⟩, some (a + arenaSize))

def mallocBlock (h : Heap) (i : Nat) (page : Option Nat) : Exec (Heap × Option Nat) :=
  if (h.descs i).freeList = [] then
    match page with
    | none => return (h, none)
    | some a => do
      let h ← h.newArena i a
      h.takeBlock i
  else h.takeBlock i

/-- `sys_malloc` with the descriptors from `base` on. -/
def mallocFrom (h : Heap) (base size : Nat) (page : Option Nat) : Exec (Heap × Option Nat) :=
  if ¬ (0 < size ∧ size < h.poolSize) then return (h, none)
  else if size > 1024 then return h.mallocPages size page
  else do
    let i := h.findDesc size descCnt base
    inBounds (i < base + descCnt)
    h.mallocBlock i page

def sysMalloc (h : Heap) (size : Nat) (page : Option Nat) : Exec (Heap × Option Nat) := h.mallocFrom 0 size page

def mfreePage (h : Heap) (a : Nat) : Heap := { h with pages := h.pages.erase a }

def removeBlocks (i a : Nat) : Nat → Nat → Heap → Exec Heap
  | 0, _, h => .ok h
  | n + 1, k, h => do
    let b := arena2block (h.descs i).blockSize a k
    assert .debug (b ∈ (h.descs i).freeList) "elem_find(&a->desc->free_list, &b->free_elem)"
    removeBlocks i a n (k + 1) (h.setFree i ((h.descs i).freeList.erase b))

def freeBlock (h : Heap) (i a b : Nat) : Exec Heap :=
  let A := h.arena a
  let h := (h.setFree i ((h.descs i).freeList ++ [b])).setArena a { A with cnt := A.cnt + 1 }
  if A.cnt + 1 = (h.descs i).blocksPerArena then do
    let h ← removeBlocks i a (h.descs i).blocksPerArena 0 h
    return h.mfreePage a
  else return h

/-- `sys_free` after the checks of `ptr`. -/
def freeFrom (h : Heap) (ptr : Nat) : Exec Heap := do
  let a := block2arena ptr
  assert .debug ((h.arena a).large = 0 ∨ (h.arena a).large = 1) "a->large == 0 || a->large == 1"
  match (h.arena a).desc with
  | none => if (h.arena a).large = 1 then return h.mfreePage a else .error .outOfBounds
  | some i => h.freeBlock i a ptr

def sysFree (h : Heap) (ptr : Nat) : Exec Heap := do
  assert .debug (ptr ≠ 0) "ptr != NULL"
  assert .debug (kHeapStart ≤ ptr) "(uint32_t)ptr >= K_HEAP_START"
  h.freeFrom ptr

/-! ## Runs -/

/-- What `malloc_page` promises: a page of the kernel heap that is not in use. -/
def Fresh (h : Heap) (page : Option Nat) : Prop :=
  ∀ a, page = some a → a % pgSize = 0 ∧ kHeapStart ≤ a ∧ a + pgSize ≤ 2 ^ 32 ∧ a ∉ h.pages

def mark (h : Heap) (p : Option Nat) (size : Nat) : Heap :=
  match p with
  | none => h
  | some b => { h with live := update h.live b (some size) }

def unmark (h : Heap) (p : Nat) : Heap := { h with live := update h.live p none }

structure Init (h : Heap) : Prop where
  descs : ∃ descs, h.descs = blockDescInit descs
  pages : h.pages = []
  live : ∀ p, h.live p = none

end Heap

/-- Kernel threads allocate up to 1024 bytes, free what they have, and write into
it. -/
inductive HeapStep : Heap → Heap → Prop
  | malloc {h h' : Heap} {p : Option Nat} (size : Nat) (page : Option Nat) (h0 : 0 < size) (h1 : size ≤ 1024)
    (hf : h.Fresh page) (hr : h.sysMalloc size page = .ok (h', p)) : HeapStep h (h'.mark p size)
  | free {h h' : Heap} (p : Nat) (hp : h.live p ≠ none) (hr : h.sysFree p = .ok h') : HeapStep h (h'.unmark p)
  | write {h : Heap} {n : Nat} (p j : Nat) (v : UInt8) (hp : h.live p = some n) (hj : j < n) :
    HeapStep h { h with mem := update h.mem (p + j) v }

end OperateSystem
