import OperateSystem.Pages

/-!
# Page directories in memory

The memory of the machine as page frames of 1024 words, the walk of the MMU, and
the functions of `kernel/memory.c` and `userprog/process.c` that change page
tables. They reach the tables as the code does, through the last entry of the
active directory, which points to the directory itself. The TLB is left out.

Without its `ASSERT`s `palloc` returns `NULL` where a pool has no free frame, which
only some callers test.
-/

namespace OperateSystem

open Function

structure VirtualAddr where
  vaddrBitmap : Bitmap
  vaddrStart : Nat

/-- The difference is one of unsigned words. -/
def VirtualAddr.bitIdx (v : VirtualAddr) (vaddr : Nat) : Nat := (vaddr + 2 ^ 32 - v.vaddrStart) % 2 ^ 32 / pgSize

def VirtualAddr.set (v : VirtualAddr) (bitIdx : Nat) (value : Bool) : VirtualAddr :=
  { v with vaddrBitmap := bitmapSet v.vaddrBitmap bitIdx value }

def Present (w : UInt32) : Prop := w &&& 1 ≠ 0

instance (w : UInt32) : Decidable (Present w) := inferInstanceAs (Decidable (_ ≠ _))

def frameOf (w : UInt32) : Nat := pteAddr w / pgSize

/-- `mem f j` is word `j` of the page frame `f`, `cr3` the frame of the active
directory. `pgdir` is `none` for a kernel thread. -/
structure Vm (τ : Type) where
  mem : Nat → Nat → UInt32
  cr3 : Nat
  kernelVaddr : VirtualAddr
  kernelPool : Pool
  userPool : Pool
  pgdir : τ → Option Nat
  userprogVaddr : τ → VirtualAddr

def bootDir : Nat := 0x100000 / pgSize

def ptePtr (vaddr : Nat) : Nat := 0xffc00000 + vaddr / 2 ^ 22 * 4096 + vaddr / pgSize % 1024 * 4

def pdePtr (vaddr : Nat) : Nat := 0xfffff000 + vaddr / 2 ^ 22 * 4

namespace Vm

variable {τ : Type}

/-! ## The machine -/

/-- The frame behind an address, or `none` for a page fault. -/
def walk (s : Vm τ) (vaddr : Nat) : Option Nat :=
  let pde := s.mem s.cr3 (vaddr / 2 ^ 22)
  let pte := s.mem (frameOf pde) (vaddr / pgSize % 1024)
  if Present pde ∧ Present pte then some (frameOf pte) else none

def frame (s : Vm τ) (vaddr : Nat) : Exec Nat :=
  match s.walk vaddr with
  | none => .error .outOfBounds
  | some f => return f

def setWord (s : Vm τ) (f j : Nat) (w : UInt32) : Vm τ :=
  { s with mem := update s.mem f (update (s.mem f) j w) }

def load (s : Vm τ) (vaddr : Nat) : Exec UInt32 := do
  let f ← s.frame vaddr
  return s.mem f (vaddr % pgSize / 4)

def store (s : Vm τ) (vaddr : Nat) (w : UInt32) : Exec (Vm τ) := do
  let f ← s.frame vaddr
  return s.setWord f (vaddr % pgSize / 4) w

def clearPage (s : Vm τ) (vaddr : Nat) : Exec (Vm τ) := do
  let f ← s.frame vaddr
  return { s with mem := update s.mem f fun _ => 0 }

def clearPages : Nat → Nat → Vm τ → Exec (Vm τ)
  | 0, _, s => return s
  | n + 1, vaddr, s => do
    let s ← s.clearPage vaddr
    clearPages n (vaddr + pgSize) s

/-! ## `memory.c` -/

def pool (s : Vm τ) : PoolFlags → Pool
  | .pfKernel => s.kernelPool
  | .pfUser => s.userPool

def setPool (s : Vm τ) (pf : PoolFlags) (pool : Pool) : Vm τ :=
  match pf with
  | .pfKernel => { s with kernelPool := pool }
  | .pfUser => { s with userPool := pool }

/-- Without a page table a new one is made and cleared. The result of `palloc` is
used unchecked. -/
def pageTableNew (b : Build) (s : Vm τ) (vaddr : Nat) : Exec (Vm τ) := do
  let (pdePhyaddr, pool) ← palloc b s.kernelPool
  let s ← (s.setPool .pfKernel pool).store (pdePtr vaddr) (pteWord (pdePhyaddr.getD 0))
  s.clearPage (ptePtr vaddr)

def pageTableAdd (b : Build) (s : Vm τ) (vaddr phyaddr : Nat) : Exec (Vm τ) := do
  let pde ← s.load (pdePtr vaddr)
  if Present pde then do
    let pte ← s.load (ptePtr vaddr)
    assert b (¬ Present pte) "!(*pte & 0x00000001)"
    if ¬ Present pte then s.store (ptePtr vaddr) (pteWord phyaddr)
    else .error (.panic "pte repeat")
  else do
    let s ← s.pageTableNew b vaddr
    let pte ← s.load (ptePtr vaddr)
    assert b (¬ Present pte) "!(*pte & 0x00000001)"
    s.store (ptePtr vaddr) (pteWord phyaddr)

def mapPage (b : Build) (s : Vm τ) (pf : PoolFlags) (vaddr : Nat) : Exec (Bool × Vm τ) := do
  let (frame, pool) ← palloc b (s.pool pf)
  match frame with
  | none => return (false, s)
  | some phyaddr => do
    let s ← (s.setPool pf pool).pageTableAdd b vaddr phyaddr
    return (true, s)

def mapPages (b : Build) (pf : PoolFlags) : Nat → Nat → Vm τ → Exec (Bool × Vm τ)
  | 0, _, s => return (true, s)
  | n + 1, vaddr, s => do
    let (ok, s) ← s.mapPage b pf vaddr
    if ok then mapPages b pf n (vaddr + pgSize) s else return (false, s)

def getAPageWithoutOpvaddrbitmap (b : Build) (s : Vm τ) (pf : PoolFlags) (vaddr : Nat) : Exec (Option Nat × Vm τ) := do
  let (ok, s) ← s.mapPage b pf vaddr
  return (if ok then some vaddr else none, s)

def addrV2p (s : Vm τ) (vaddr : Nat) : Exec Nat := do
  let pte ← s.load (ptePtr vaddr)
  return pteAddr pte + vaddr % pgSize

def pfree (s : Vm τ) (phyaddr : Nat) : Vm τ :=
  if s.userPool.phyAddrStart ≤ phyaddr then
    s.setPool .pfUser (s.userPool.set ((phyaddr - s.userPool.phyAddrStart) / pgSize) false)
  else s.setPool .pfKernel (s.kernelPool.set ((phyaddr - s.kernelPool.phyAddrStart) / pgSize) false)

def pageTablePteRemove (s : Vm τ) (vaddr : Nat) : Exec (Vm τ) := do
  let pte ← s.load (ptePtr vaddr)
  s.store (ptePtr vaddr) (pte &&& ~~~1)

/-- The two loops of `mfree_page`, which differ in what they demand of a frame. -/
def unmapPages (b : Build) (own : Nat → Bool) (cond : String) : Nat → Nat → Vm τ → Exec (Vm τ)
  | 0, _, s => return s
  | n + 1, vaddr, s => do
    let phyaddr ← s.addrV2p vaddr
    assert b (own phyaddr = true) cond
    let s ← (s.pfree phyaddr).pageTablePteRemove vaddr
    unmapPages b own cond n (vaddr + pgSize) s

variable [DecidableEq τ]

def setUserprog (s : Vm τ) (t : τ) (v : VirtualAddr) : Vm τ :=
  { s with userprogVaddr := update s.userprogVaddr t v }

def vaddrGet (b : Build) (s : Vm τ) (cur : τ) (pf : PoolFlags) (pgCnt : Nat) : Exec (Option Nat × Vm τ) :=
  match pf with
  | .pfKernel => do
    match ← bitmapScan b s.kernelVaddr.vaddrBitmap pgCnt with
    | none => return (none, s)
    | some bitIdxStart =>
      return (some (s.kernelVaddr.vaddrStart + bitIdxStart * pgSize),
        { s with kernelVaddr :=
            { s.kernelVaddr with vaddrBitmap := setBits bitIdxStart true pgCnt 0 s.kernelVaddr.vaddrBitmap } })
  | .pfUser => do
    let v := s.userprogVaddr cur
    match ← bitmapScan b v.vaddrBitmap pgCnt with
    | none => return (none, s)
    | some bitIdxStart => do
      let vaddrStart := v.vaddrStart + bitIdxStart * pgSize
      assert b (vaddrStart < 0xc0000000 - pgSize) "(uint32_t)vaddr_start < (0xc0000000 - PG_SIZE)"
      return (some vaddrStart,
        s.setUserprog cur { v with vaddrBitmap := setBits bitIdxStart true pgCnt 0 v.vaddrBitmap })

def mallocPage (b : Build) (s : Vm τ) (cur : τ) (pf : PoolFlags) (pgCnt : Nat) : Exec (Option Nat × Vm τ) := do
  assert b (0 < pgCnt ∧ pgCnt < 3840) "pg_cnt > 0 && pg_cnt < 3840"
  let (start, s) ← s.vaddrGet b cur pf pgCnt
  match start with
  | none => return (none, s)
  | some vaddr => do
    let (ok, s) ← mapPages b pf pgCnt vaddr s
    return (if ok then some vaddr else none, s)

def getKernelPages (b : Build) (s : Vm τ) (cur : τ) (pgCnt : Nat) : Exec (Option Nat × Vm τ) := do
  let (page, s) ← s.mallocPage b cur .pfKernel pgCnt
  match page with
  | none => return (none, s)
  | some vaddr => do
    let s ← clearPages pgCnt vaddr s
    return (some vaddr, s)

def markPage (b : Build) (s : Vm τ) (cur : τ) (pf : PoolFlags) (vaddr : Nat) : Exec (Vm τ) :=
  if s.pgdir cur ≠ none ∧ pf = .pfUser then do
    let v := s.userprogVaddr cur
    inBounds (v.bitIdx vaddr < 8 * v.vaddrBitmap.btmpBytesLen)
    return s.setUserprog cur (v.set (v.bitIdx vaddr) true)
  else if s.pgdir cur = none ∧ pf = .pfKernel then do
    let v := s.kernelVaddr
    assert b (0 < v.bitIdx vaddr) "bit_idx > 0"
    inBounds (v.bitIdx vaddr < 8 * v.vaddrBitmap.btmpBytesLen)
    return { s with kernelVaddr := v.set (v.bitIdx vaddr) true }
  else .error (.panic "get_a_page:not allow kernel alloc userspace or user alloc kernelspace by get_a_page")

def getAPage (b : Build) (s : Vm τ) (cur : τ) (pf : PoolFlags) (vaddr : Nat) : Exec (Option Nat × Vm τ) := do
  let s ← s.markPage b cur pf vaddr
  s.getAPageWithoutOpvaddrbitmap b pf vaddr

def vaddrRemove (s : Vm τ) (cur : τ) (pf : PoolFlags) (vaddr pgCnt : Nat) : Exec (Vm τ) :=
  match pf with
  | .pfKernel => do
    let v := s.kernelVaddr
    inBounds (v.bitIdx vaddr + pgCnt ≤ 8 * v.vaddrBitmap.btmpBytesLen)
    return { s with kernelVaddr := { v with vaddrBitmap := setBits (v.bitIdx vaddr) false pgCnt 0 v.vaddrBitmap } }
  | .pfUser => do
    let v := s.userprogVaddr cur
    inBounds (v.bitIdx vaddr + pgCnt ≤ 8 * v.vaddrBitmap.btmpBytesLen)
    return s.setUserprog cur { v with vaddrBitmap := setBits (v.bitIdx vaddr) false pgCnt 0 v.vaddrBitmap }

def mfreePage (b : Build) (s : Vm τ) (cur : τ) (pf : PoolFlags) (vaddr pgCnt : Nat) : Exec (Vm τ) := do
  assert b (1 ≤ pgCnt ∧ vaddr % pgSize = 0) "pg_cnt >= 1 && vaddr % PG_SIZE == 0"
  let phyaddr ← s.addrV2p vaddr
  assert b (phyaddr % pgSize = 0 ∧ 0x102000 ≤ phyaddr) "(pg_phy_addr % PG_SIZE) == 0 && pg_phy_addr >= 0x102000"
  let userStart := s.userPool.phyAddrStart
  let kernelStart := s.kernelPool.phyAddrStart
  let s ← (if userStart ≤ phyaddr then
      unmapPages b (fun p => p % pgSize = 0 ∧ userStart ≤ p) userFrameCond pgCnt vaddr s
    else unmapPages b (fun p => p % pgSize = 0 ∧ kernelStart ≤ p ∧ p < userStart) kernelFrameCond pgCnt vaddr s)
  s.vaddrRemove cur pf vaddr pgCnt

/-! ## `process.c` -/

def copyEntries (s : Vm τ) (pageDir : Nat) : Exec (Vm τ) := do
  let dst ← s.frame (pageDir + 0x300 * 4)
  let src ← s.frame (0xfffff000 + 0x300 * 4)
  return { s with mem := update s.mem dst fun j => if 0x300 ≤ j then s.mem src j else s.mem dst j }

def createPageDir (b : Build) (s : Vm τ) (cur : τ) : Exec (Option Nat × Vm τ) := do
  let (page, s) ← s.getKernelPages b cur 1
  match page with
  | none => return (none, s)
  | some pageDir => do
    let s ← s.copyEntries pageDir
    let phyaddr ← s.addrV2p pageDir
    let s ← s.store (pageDir + 1023 * 4) (pteWord phyaddr)
    return (some pageDir, s)

def pageDirActivate (s : Vm τ) (t : τ) : Exec (Vm τ) :=
  match s.pgdir t with
  | none => return { s with cr3 := bootDir }
  | some pageDir => do
    let phyaddr ← s.addrV2p pageDir
    return { s with cr3 := phyaddr / pgSize }

end Vm

/-! ## The start -/

def bootEntry (i : Nat) : UInt32 :=
  if i = 0 then pteWord 0x101000
  else if 768 ≤ i ∧ i ≤ 1022 then pteWord (0x101000 + (i - 768) * 0x1000)
  else if i = 1023 then pteWord 0x100000
  else 0

/-- The memory after `setup_page`; the tables of the kernel keep what was there. -/
def setupPage (mem : Nat → Nat → UInt32) (f j : Nat) : UInt32 :=
  if f = bootDir then bootEntry j
  else if f = 0x101 ∧ j < 256 then pteWord (j * pgSize)
  else mem f j

/-! ## Runs -/

/-- `cur` is the running task; `t` gets the new directory and the pool `v` of user
addresses. -/
inductive VmOp (τ : Type) where
  | createPageDir (cur t : τ) (v : VirtualAddr)
  | pageDirActivate (t : τ)
  | mallocPage (cur : τ) (pf : PoolFlags) (pgCnt : Nat)
  | getAPage (cur : τ) (pf : PoolFlags) (vaddr : Nat)
  | getAPageWithoutOpvaddrbitmap (pf : PoolFlags) (vaddr : Nat)
  | mfreePage (cur : τ) (pf : PoolFlags) (vaddr pgCnt : Nat)

namespace Vm

variable {τ : Type}

/-- A process whose directory is no longer mapped is gone. -/
def dropDirs (s : Vm τ) : Vm τ := { s with pgdir := fun t => (s.pgdir t).filter fun v => (s.walk v).isSome }

variable [DecidableEq τ]

def run (s : Vm τ) : VmOp τ → Exec (Vm τ)
  | .createPageDir cur t v => do
    let (pageDir, s) ← s.createPageDir .debug cur
    return { s.setUserprog t v with pgdir := update s.pgdir t pageDir }
  | .pageDirActivate t => s.pageDirActivate t
  | .mallocPage cur pf pgCnt => Prod.snd <$> s.mallocPage .debug cur pf pgCnt
  | .getAPage cur pf vaddr => Prod.snd <$> s.getAPage .debug cur pf vaddr
  | .getAPageWithoutOpvaddrbitmap pf vaddr => Prod.snd <$> s.getAPageWithoutOpvaddrbitmap .debug pf vaddr
  | .mfreePage cur pf vaddr pgCnt => dropDirs <$> s.mfreePage .debug cur pf vaddr pgCnt

/-- Addresses are below those of the page tables, and what is freed is mapped, is on one side of
`0xc0000000` and is not the active directory. -/
def Fits (s : Vm τ) : VmOp τ → Prop
  | .createPageDir _ t _ => s.pgdir t = none
  | .getAPage _ _ vaddr | .getAPageWithoutOpvaddrbitmap _ vaddr => vaddr < 0xffc00000
  | .mfreePage _ _ vaddr pgCnt =>
    (vaddr + pgCnt * pgSize ≤ 0xc0000000 ∨ 0xc0000000 ≤ vaddr ∧ vaddr + pgCnt * pgSize ≤ 0xffc00000) ∧
      ∀ k < pgCnt, ∃ f, s.walk (vaddr + k * pgSize) = some f ∧ f ≠ s.cr3
  | _ => True

end Vm

/-- The boot loader does not clear the tables of the kernel, so they have to start without a
mapping. -/
structure Vm.Booted {τ : Type} (s : Vm τ) : Prop where
  mem : ∃ mem, s.mem = setupPage mem ∧ ∀ f j, 0x101 ≤ f → f ≤ 0x1ff → ¬ Present (mem f j)
  pools : ∃ p allMem, s.kernelPool = (PageState.memPoolInit p allMem).kernelPool ∧
    s.userPool = (PageState.memPoolInit p allMem).userPool ∧
    s.kernelVaddr = ⟨(PageState.memPoolInit p allMem).kernelVaddr, kHeapStart⟩
  cr3 : s.cr3 = bootDir
  pgdir : ∀ t, s.pgdir t = none

def VmCall {τ : Type} [DecidableEq τ] (s s' : Vm τ) : Prop := ∃ op, s.run op = .ok s'

def VmStep {τ : Type} [DecidableEq τ] (s s' : Vm τ) : Prop := ∃ op, s.Fits op ∧ s.run op = .ok s'

end OperateSystem
