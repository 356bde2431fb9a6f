import OperateSystem.Bitmap
import OperateSystem.Transition

/-!
# Kernel pages

`malloc_page` and `mfree_page` of `kernel/memory.c` for the kernel pool. A page
directory entry and a page table entry are the words that `pde_ptr` and `pte_ptr`
reach for an address, so they are indexed by its high 10 and 20 bits.
-/

namespace OperateSystem

def pgSize : Nat := 4096
def kHeapStart : Nat := 0xc0100000
def userVaddrStart : Nat := 0x8048000
def userVaddrEnd : Nat := 0xc0000000

def userBitmapLen : Nat := (userVaddrEnd - userVaddrStart) / pgSize / 8

inductive PoolFlags where
  | pfKernel
  | pfUser
  deriving DecidableEq

structure Pool where
  poolBitmap : Bitmap
  phyAddrStart : Nat
  poolSize : Nat

def Pool.set (pool : Pool) (bitIdx : Nat) (value : Bool) : Pool :=
  { pool with poolBitmap := bitmapSet pool.poolBitmap bitIdx value }

structure PageState where
  kernelVaddr : Bitmap
  kernelPool : Pool
  userPool : Pool
  pde : Nat → UInt32
  pte : Nat → UInt32

def pteWord (phyaddr : Nat) : UInt32 := .ofNat phyaddr ||| 4 ||| 2 ||| 1

def pteAddr (pte : UInt32) : Nat := (pte &&& 0xfffff000).toNat

def setBits (start : Nat) (value : Bool) : Nat → Nat → Bitmap → Bitmap
  | 0, _, btmp => btmp
  | n + 1, cnt, btmp => setBits start value n (cnt + 1) (bitmapSet btmp (start + cnt) value)

def palloc (b : Build) (pool : Pool) : Exec (Option Nat × Pool) := do
  match ← bitmapScan b pool.poolBitmap 1 with
  | none => return (none, pool)
  | some bitIdx => return (some (bitIdx * pgSize + pool.phyAddrStart), pool.set bitIdx true)

def userFrameCond : String := "(pg_phy_addr % PG_SIZE) == 0 && pg_phy_addr >= user_pool.phy_addr_start"

def kernelFrameCond : String :=
  "(pg_phy_addr % PG_SIZE) == 0 && pg_phy_addr >= kernel_pool.phy_addr_start && pg_phy_addr < user_pool.phy_addr_start"

namespace PageState

def setPte (s : PageState) (vaddr : Nat) (w : UInt32) : PageState :=
  { s with pte := Function.update s.pte (vaddr / pgSize) w }

def pteAt (s : PageState) (vaddr : Nat) : UInt32 := s.pte (vaddr / pgSize)

def addrV2p (s : PageState) (vaddr : Nat) : Nat := pteAddr (s.pteAt vaddr) + vaddr % pgSize

def vaddrGet (s : PageState) (pgCnt : Nat) : Exec (Option Nat × PageState) := do
  match ← bitmapScan .debug s.kernelVaddr pgCnt with
  | none => return (none, s)
  | some bitIdxStart =>
    return (some (kHeapStart + bitIdxStart * pgSize),
      { s with kernelVaddr := setBits bitIdxStart true pgCnt 0 s.kernelVaddr })

/-- Without a page table a new one is made. The result of `palloc` is used
unchecked, and the new table is cleared. -/
def pageTableNew (s : PageState) (vaddr : Nat) : Exec PageState := do
  let (frame, pool) ← palloc .debug s.kernelPool
  return { s with
    kernelPool := pool
    pde := Function.update s.pde (vaddr / 2 ^ 22) (pteWord (frame.getD 0))
    pte := fun i => if i / 1024 = vaddr / 2 ^ 22 then 0 else s.pte i }

def pageTableAdd (s : PageState) (vaddr phyaddr : Nat) : Exec PageState :=
  if s.pde (vaddr / 2 ^ 22) &&& 1 ≠ 0 then do
    assert .debug (s.pteAt vaddr &&& 1 = 0) "!(*pte & 0x00000001)"
    if s.pteAt vaddr &&& 1 = 0 then return s.setPte vaddr (pteWord phyaddr)
    else .error (.panic "pte repeat")
  else do
    let s ← s.pageTableNew vaddr
    assert .debug (s.pteAt vaddr &&& 1 = 0) "!(*pte & 0x00000001)"
    return s.setPte vaddr (pteWord phyaddr)

/-- The loop of `malloc_page`, with the number of pages that are left. Nothing is
undone when a frame is missing. -/
def mapPages : Nat → Nat → PageState → Exec (Bool × PageState)
  | 0, _, s => return (true, s)
  | n + 1, vaddr, s => do
    let (frame, pool) ← palloc .debug s.kernelPool
    match frame with
    | none => return (false, s)
    | some phyaddr => do
      let s ← { s with kernelPool := pool }.pageTableAdd vaddr phyaddr
      mapPages n (vaddr + pgSize) s

def mallocPage (s : PageState) (pgCnt : Nat) : Exec (Option Nat × PageState) := do
  assert .debug (0 < pgCnt ∧ pgCnt < 3840) "pg_cnt > 0 && pg_cnt < 3840"
  let (start, s) ← s.vaddrGet pgCnt
  match start with
  | none => return (none, s)
  | some vaddr => do
    let (ok, s) ← mapPages pgCnt vaddr s
    return (if ok then some vaddr else none, s)

def pfree (s : PageState) (phyaddr : Nat) : PageState :=
  if s.userPool.phyAddrStart ≤ phyaddr then
    { s with userPool := s.userPool.set ((phyaddr - s.userPool.phyAddrStart) / pgSize) false }
  else
    { s with kernelPool := s.kernelPool.set ((phyaddr - s.kernelPool.phyAddrStart) / pgSize) false }

/-- `page_table_pte_remove`, without the TLB. -/
def pageTablePteRemove (s : PageState) (vaddr : Nat) : PageState := s.setPte vaddr (s.pteAt vaddr &&& ~~~1)

def vaddrRemove (s : PageState) (vaddr pgCnt : Nat) : PageState :=
  { s with kernelVaddr := setBits ((vaddr - kHeapStart) / pgSize) false pgCnt 0 s.kernelVaddr }

/-- The two loops of `mfree_page`, which differ in what they demand of a frame. -/
def unmapPages (own : Nat → Bool) (cond : String) : Nat → Nat → PageState → Exec PageState
  | 0, _, s => return s
  | n + 1, vaddr, s => do
    let phyaddr := s.addrV2p vaddr
    assert .debug (own phyaddr = true) cond
    unmapPages own cond n (vaddr + pgSize) ((s.pfree phyaddr).pageTablePteRemove vaddr)

/-- `mfree_page` without the addresses. -/
def freePages (s : PageState) (vaddr pgCnt : Nat) : Exec PageState := do
  assert .debug (1 ≤ pgCnt ∧ vaddr % pgSize = 0) "pg_cnt >= 1 && vaddr % PG_SIZE == 0"
  let phyaddr := s.addrV2p vaddr
  assert .debug (phyaddr % pgSize = 0 ∧ 0x102000 ≤ phyaddr) "(pg_phy_addr % PG_SIZE) == 0 && pg_phy_addr >= 0x102000"
  if s.userPool.phyAddrStart ≤ phyaddr then
    unmapPages (fun p => p % pgSize = 0 ∧ s.userPool.phyAddrStart ≤ p) userFrameCond pgCnt vaddr s
  else
    unmapPages (fun p => p % pgSize = 0 ∧ s.kernelPool.phyAddrStart ≤ p ∧ p < s.userPool.phyAddrStart) kernelFrameCond
      pgCnt vaddr s

def mfreePage (s : PageState) (vaddr pgCnt : Nat) : Exec PageState := do
  let s ← s.freePages vaddr pgCnt
  return s.vaddrRemove vaddr pgCnt

/-! ## `mem_pool_init` -/

def pageBitmap (n : Nat) (h : n < 2 ^ 16) (bits : Mem) : Bitmap := bitmapInit ⟨n / 8, bits, by omega⟩

def allFreePages (allMem : UInt32) : Nat := (allMem - 0x200000).toNat / pgSize % 2 ^ 16

def kernelFreePages (allMem : UInt32) : Nat := allFreePages allMem / 2

def userFreePages (allMem : UInt32) : Nat := allFreePages allMem - kernelFreePages allMem

theorem allFreePages_lt (allMem : UInt32) : allFreePages allMem < 2 ^ 16 := Nat.mod_lt _ (by decide)

/-- The pools and bitmaps over the memory they find; page tables are left alone. -/
def memPoolInit (s : PageState) (allMem : UInt32) : PageState :=
  have h := allFreePages_lt allMem
  { s with
    kernelPool := ⟨pageBitmap (kernelFreePages allMem) (by unfold kernelFreePages; omega) s.kernelPool.poolBitmap.bits,
      0x200000, kernelFreePages allMem * pgSize⟩
    userPool := ⟨pageBitmap (userFreePages allMem) (by unfold userFreePages; omega) s.userPool.poolBitmap.bits,
      0x200000 + kernelFreePages allMem * pgSize, userFreePages allMem * pgSize⟩
    kernelVaddr := pageBitmap (kernelFreePages allMem) (by unfold kernelFreePages; omega) s.kernelVaddr.bits }

def Boot (s : PageState) : Prop :=
  ∃ s0 allMem, s = memPoolInit s0 allMem ∧ ∀ i, 768 ≤ i → i ≤ 1022 → s.pde i &&& 1 ≠ 0

/-- The boot loader does not clear the tables. -/
def TablesClear (s : PageState) : Prop := ∀ i, kHeapStart / pgSize ≤ i → s.pte i &&& 1 = 0

/-- A run of `pgCnt` pages that `bitmap_scan` finds does not leave the bitmap. -/
def RunInside (s : PageState) (pgCnt : Nat) : Prop :=
  ∀ i, bitmapScan .debug s.kernelVaddr pgCnt = .ok (some i) → i + pgCnt ≤ 8 * s.kernelVaddr.btmpBytesLen

end PageState

def LivePage (live : List (Nat × Nat)) (vaddr : Nat) : Prop :=
  vaddr % pgSize = 0 ∧ ∃ r ∈ live, r.1 ≤ vaddr ∧ vaddr < r.1 + r.2 * pgSize

def RangesApart (r r' : Nat × Nat) : Prop := r.1 + r.2 * pgSize ≤ r'.1 ∨ r'.1 + r'.2 * pgSize ≤ r.1

/-- The second component holds the ranges that are not yet freed. -/
inductive PageStep : PageState × List (Nat × Nat) → PageState × List (Nat × Nat) → Prop
  | malloc {s s' : PageState} {live : List (Nat × Nat)} {vaddr : Nat} (pgCnt : Nat) (hin : s.RunInside pgCnt)
    (hr : s.mallocPage pgCnt = .ok (some vaddr, s')) : PageStep (s, live) (s', (vaddr, pgCnt) :: live)
  | free {s s' : PageState} {live : List (Nat × Nat)} (vaddr pgCnt : Nat) (hl : (vaddr, pgCnt) ∈ live)
    (hr : s.mfreePage vaddr pgCnt = .ok s') : PageStep (s, live) (s', live.erase (vaddr, pgCnt))

/-- The faults of `page_table_add` on a page that is mapped already. -/
def PteRepeat (e : Fault) : Prop := e = .assertion "!(*pte & 0x00000001)" ∨ e = .panic "pte repeat"

end OperateSystem
