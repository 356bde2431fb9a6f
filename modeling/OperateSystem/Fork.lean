import OperateSystem.Pages
import OperateSystem.Scheduler

/-!
# The memory of processes

`sys_fork`, `sys_exit` and `sys_wait` with the pages they take and give back: the
page functions of `kernel/memory.c` and the calls of `userprog/fork.c` and
`userprog/wait_exit.c` over the scheduler. A process has its own page tables
below `0xc0000000`, and all share those above. What a page holds and the open
files are left out.
-/

namespace OperateSystem

def bitmapPgCnt : Nat := (userBitmapLen + pgSize - 1) / pgSize

/-- `bits` is the address of the bitmap; `pde` and `pte` are the words that `pde_ptr` and
`pte_ptr` reach when the directory of the process is active. -/
structure UserProg where
  vaddrStart : Nat
  vaddrBitmap : Bitmap
  bits : Nat
  pgdir : Nat
  pde : Nat → UInt32
  pte : Nat → UInt32

namespace PageState

def under (s : PageState) (g : UserProg) : PageState :=
  { s with
    pde := fun i => if i < 768 then g.pde i else s.pde i
    pte := fun i => if i < 768 * 1024 then g.pte i else s.pte i }

def mapUserPages : Nat → Nat → PageState → Exec (Bool × PageState)
  | 0, _, s => return (true, s)
  | n + 1, vaddr, s => do
    let (frame, pool) ← palloc .debug s.userPool
    match frame with
    | none => return (false, s)
    | some phyaddr => do
      let s ← { s with userPool := pool }.pageTableAdd vaddr phyaddr
      mapUserPages n (vaddr + pgSize) s

/-- For the user pool. `copy_body_stack3` ignores a `NULL` and writes to the page. -/
def getAPageWithoutOpvaddrbitmap (s : PageState) (vaddr : Nat) : Exec PageState := do
  let (frame, pool) ← palloc .debug s.userPool
  match frame with
  | none => .error .outOfBounds
  | some phyaddr => pageTableAdd { s with userPool := pool } vaddr phyaddr

/-! ## `copy_body_stack3` -/

/-- The inner loop: the pages of one byte of the parent's bitmap, with the number
of bits that are left. The tables of the child are active. -/
def copyByte (parent : UserProg) (idxByte : Nat) : Nat → Nat → PageState → Exec PageState
  | 0, _, s => return s
  | n + 1, idxBit, s => do
    let s ← (if bitMask idxBit &&& parent.vaddrBitmap.bits idxByte ≠ 0 then
        s.getAPageWithoutOpvaddrbitmap ((idxByte * 8 + idxBit) * pgSize + parent.vaddrStart)
      else pure s)
    copyByte parent idxByte n (idxBit + 1) s

def copyBytes (parent : UserProg) : Nat → Nat → PageState → Exec PageState
  | 0, _, s => return s
  | n + 1, idxByte, s => do
    let s ← (if parent.vaddrBitmap.bits idxByte ≠ 0 then copyByte parent idxByte 8 0 s else pure s)
    copyBytes parent n (idxByte + 1) s

def copyBodyStack3 (s : PageState) (parent : UserProg) : Exec PageState :=
  copyBytes parent parent.vaddrBitmap.btmpBytesLen 0 s

/-! ## `release_prog_resource` -/

/-- The inner loop: the frames of one page table. `free_a_phy_page` has the body of
`pfree`. -/
def freeTable : Nat → Nat → PageState → PageState
  | 0, _, s => s
  | n + 1, pteIdx, s =>
    freeTable n (pteIdx + 1) (if s.pte pteIdx &&& 1 ≠ 0 then s.pfree (pteAddr (s.pte pteIdx)) else s)

def freeTables : Nat → Nat → PageState → PageState
  | 0, _, s => s
  | n + 1, pdeIdx, s =>
    freeTables n (pdeIdx + 1)
      (if s.pde pdeIdx &&& 1 ≠ 0 then (freeTable 1024 (pdeIdx * 1024) s).pfree (pteAddr (s.pde pdeIdx)) else s)

def releaseProgResource (s : PageState) (g : UserProg) : Exec PageState :=
  (freeTables 768 0 (s.under g)).mfreePage g.bits (g.vaddrBitmap.btmpBytesLen / pgSize)

end PageState

structure Procs where
  sched : Sched
  pages : PageState
  prog : Nat → UserProg

namespace Procs

def setProg (s : Procs) (t : Nat) (g : UserProg) : Procs := { s with prog := Function.update s.prog t g }

/-! ## The calls -/

def forkPgdir (s : Procs) (child buf bits : Nat) : Exec (Sched.ForkPages × Procs) := do
  let (pgdir, pages) ← s.pages.mallocPage 1
  match pgdir with
  | none => return (⟨some child, true, true, false⟩, { s with pages := pages })
  | some pgdir => do
    let parent := s.prog s.sched.cur
    let g := { parent with bits := bits, pgdir := pgdir, pde := fun _ => 0, pte := fun _ => 0 }
    let body ← (pages.under g).copyBodyStack3 parent
    let pages ← body.mfreePage buf 1
    return (⟨some child, true, true, true⟩,
      { s with pages := pages }.setProg child { g with pde := body.pde, pte := body.pte })

def forkBitmap (s : Procs) (child buf : Nat) : Exec (Sched.ForkPages × Procs) := do
  let (bits, pages) ← s.pages.mallocPage bitmapPgCnt
  match bits with
  | none => return (⟨some child, true, false, false⟩, { s with pages := pages })
  | some bits => forkPgdir { s with pages := pages } child buf bits

def forkBuf (s : Procs) (child : Nat) : Exec (Sched.ForkPages × Procs) := do
  let (buf, pages) ← s.pages.mallocPage 1
  match buf with
  | none => return (⟨some child, false, false, false⟩, { s with pages := pages })
  | some buf => forkBitmap { s with pages := pages } child buf

/-- All that `sys_fork` does to the memory. Nothing is given back when a page is
missing. -/
def forkMemory (s : Procs) : Exec (Sched.ForkPages × Procs) := do
  let (child, pages) ← s.pages.mallocPage 1
  match child with
  | none => return (⟨none, false, false, false⟩, { s with pages := pages })
  | some child => forkBuf { s with pages := pages } child

/-- The scheduler knows nothing of the pages, so its part can follow. -/
def sysFork (s : Procs) : Exec (Procs × Option Nat) := do
  let (p, s') ← s.forkMemory
  let (sched, pid) ← s.sched.sysFork p
  return ({ s' with sched := sched }, pid)

def mallocPage (s : Procs) (pgCnt : Nat) : Exec (Option Nat × Procs) := do
  assert .debug (0 < pgCnt ∧ pgCnt < 3840) "pg_cnt > 0 && pg_cnt < 3840"
  let g := s.prog s.sched.cur
  match ← bitmapScan .debug g.vaddrBitmap pgCnt with
  | none => return (none, s)
  | some bitIdxStart => do
    let vaddr := g.vaddrStart + bitIdxStart * pgSize
    assert .debug (vaddr < userVaddrEnd - pgSize) "(uint32_t)vaddr_start < (0xc0000000 - PG_SIZE)"
    let (ok, pages) ← (s.pages.under g).mapUserPages pgCnt vaddr
    let bitmap := setBits bitIdxStart true pgCnt 0 g.vaddrBitmap
    return (if ok then some vaddr else none,
      { s with pages := pages }.setProg s.sched.cur { g with vaddrBitmap := bitmap, pde := pages.pde, pte := pages.pte })

def mfreePage (s : Procs) (vaddr pgCnt : Nat) : Exec Procs := do
  let g := s.prog s.sched.cur
  let pages ← (s.pages.under g).freePages vaddr pgCnt
  let bitmap := setBits ((vaddr - g.vaddrStart) / pgSize) false pgCnt 0 g.vaddrBitmap
  return { s with pages := pages }.setProg s.sched.cur { g with vaddrBitmap := bitmap, pde := pages.pde, pte := pages.pte }

def sysExit (s : Procs) (status : Int) : Exec Procs := do
  let pages ← s.pages.releaseProgResource (s.prog s.sched.cur)
  let sched ← s.sched.sysExit status
  return { s with pages := pages, sched := sched }

/-- What `thread_exit` does to the memory. The PCB of the main thread is not in the
heap. -/
def releasePcb (s : Procs) (t : Nat) : Exec PageState := do
  let pages ← (if (s.sched.pcb t).pgdir then s.pages.mfreePage (s.prog t).pgdir 1 else pure s.pages)
  if t ≠ s.sched.mainThread then pages.mfreePage t 1 else return pages

def reap (s : Procs) : Exec PageState :=
  match s.sched.findHangingChild s.sched.pcbCur.pid with
  | some child => s.releasePcb child
  | none => return s.pages

def sysWait (s : Procs) : Exec (Procs × Sched.Waited) := do
  let pages ← s.reap
  let (sched, res) ← s.sched.sysWait
  return ({ s with pages := pages, sched := sched }, res)

end Procs

/-! ## A child and its parent -/

def UserProg.Has (g : UserProg) (vaddr pgCnt : Nat) : Prop :=
  vaddr + pgCnt * pgSize ≤ userVaddrEnd ∧ ∀ i < pgCnt, g.pde ((vaddr / pgSize + i) / 1024) &&& 1 ≠ 0 ∧
    g.pte (vaddr / pgSize + i) &&& 1 ≠ 0

/-- The child takes pages, gives some back and exits, the parent only waits, and time slices end.
-/
inductive FamilyStep (parent child : Nat) : Procs → Procs → Prop
  | malloc {s s' : Procs} {r : Option Nat} (hc : s.sched.cur = child) (pgCnt : Nat)
    (hr : s.mallocPage pgCnt = .ok (r, s')) : FamilyStep parent child s s'
  | free {s s' : Procs} (hc : s.sched.cur = child) (vaddr pgCnt : Nat) (hv : (s.prog child).Has vaddr pgCnt)
    (hr : s.mfreePage vaddr pgCnt = .ok s') : FamilyStep parent child s s'
  | exit {s s' : Procs} (hc : s.sched.cur = child) (status : Int) (hr : s.sysExit status = .ok s') :
    FamilyStep parent child s s'
  | wait {s s' : Procs} (hc : s.sched.cur = parent) (hr : s.sysWait = .ok (s', .sleeps)) : FamilyStep parent child s s'
  | slice {s : Procs} {sched : Sched} (hr : s.sched.schedule = .ok sched) :
    FamilyStep parent child s { s with sched := sched }

def Sched.others (s : Sched) (parent child : Nat) : List Nat :=
  (s.cur :: s.readyList).filter fun t => t ≠ parent ∧ t ≠ child

structure Returned (s s' : Procs) (parent child : Nat) : Prop where
  userPool : s'.pages.userPool = s.pages.userPool
  pidBitmap : s'.sched.pidBitmap = s.sched.pidBitmap
  allList : s'.sched.allList = s.sched.allList
  readyList : s'.sched.others parent child ~r s.sched.others parent child

structure Conserved (s s' : Procs) (parent child : Nat) : Prop extends Returned s s' parent child where
  kernelPool : s'.pages.kernelPool = s.pages.kernelPool
  kernelVaddr : s'.pages.kernelVaddr = s.pages.kernelVaddr

/-- Of the bitmap's pages at `i` those from the `n`-th on are still marked, and nothing else is new. -/
def LeavesMarked (s s' : Procs) (i n : Nat) : Prop :=
  ∀ j, (s'.pages.kernelVaddr.bit j = true ↔ s.pages.kernelVaddr.bit j = true ∨ i + n ≤ j ∧ j < i + bitmapPgCnt) ∧
    (i + n ≤ j ∧ j < i + bitmapPgCnt → s.pages.kernelVaddr.bit j = false)

/-- What `mem_pool_init` and the boot loader have set up and nothing changes. -/
structure PageState.Since (b s : PageState) : Prop where
  boot : b.Boot
  /-- The first megabyte is mapped, and the 255 tables above it exist. -/
  low : s.pte (userVaddrEnd / pgSize) &&& 1 ≠ 0
  pde : ∀ i, 768 ≤ i → i ≤ 1022 → s.pde i &&& 1 ≠ 0
  kernelVaddr : s.kernelVaddr.btmpBytesLen = b.kernelVaddr.btmpBytesLen
  kernelPool : ∃ bits, s.kernelPool = { b.kernelPool with poolBitmap := { b.kernelPool.poolBitmap with bits := bits } }
  userPool : ∃ bits, s.userPool = { b.userPool with poolBitmap := { b.userPool.poolBitmap with bits := bits } }

structure UserProg.Valid (g : UserProg) : Prop where
  aligned : g.vaddrStart % pgSize = 0
  below : g.vaddrStart + 8 * g.vaddrBitmap.btmpBytesLen * pgSize ≤ userVaddrEnd
  fits : g.vaddrBitmap.btmpBytesLen ≤ bitmapPgCnt * pgSize

end OperateSystem
