import OperateSystem.File
import OperateSystem.Pages
import OperateSystem.Pipes

/-!
# Loading programs

`load` and `segment_load` of `userprog/exec.c`, with the calls of `sys_lseek`,
`sys_read` and `get_a_page` that they make. The file is given by its inode and
the disk. Every address in the program headers comes from the file.
-/

namespace OperateSystem

/-- A program header as `load` hands it to `segment_load`, with the number of bytes
that `sys_read` delivered. -/
structure Segment where
  offset : UInt32
  filesz : UInt32
  vaddr : UInt32
  bytes : Nat
  deriving DecidableEq

/-- `frames` is what is left in the user pool. `heap` tells the pages with arenas of the
process's heap, and `spare` whether one of them has a free block of 1024 bytes. The last three
fields record the stores into memory, the bits set in the address bitmap, and the segments. -/
structure Loading where
  mem : Mem
  mapped : Nat → Bool
  vaddrBitmap : Bitmap
  frames : Nat
  heap : Nat → Bool
  spare : Bool
  fdPos : UInt32
  reads : Nat
  stores : List (UInt32 × Nat)
  bits : List Nat
  segs : List Segment
  bitmap_len : vaddrBitmap.btmpBytesLen = userBitmapLen

def pageOf (vaddr : UInt32) : Nat := vaddr.toNat / pgSize

/-- The index of `get_a_page`, whose assertion that it is not negative always holds. -/
def vaddrBit (vaddr : UInt32) : Nat := ((vaddr - .ofNat userVaddrStart) / 4096).toNat

/-- `n` bytes of `buf` are stored from address `vaddr` on; addresses wrap around. -/
def storeBytes (mem : Mem) (vaddr : UInt32) (buf : Mem) (n : Nat) : Mem := fun v =>
  let k := (v + 2 ^ 32 - vaddr.toNat) % 2 ^ 32
  if v < 2 ^ 32 ∧ k < n then buf k else mem v

namespace Loading

def setBit (st : Loading) (bitIdx : Nat) : Loading :=
  { st with vaddrBitmap := bitmapSet st.vaddrBitmap bitIdx true, bits := bitIdx :: st.bits, bitmap_len := st.bitmap_len }

/-- `get_a_page(PF_USER, vaddr)`; `false` is the return value `NULL`. The bit stays
set when there is no frame. -/
def getAPage (st : Loading) (vaddr : UInt32) : Loading × Bool :=
  let st := st.setBit (vaddrBit vaddr)
  if st.frames = 0 then (st, false)
  else ({ st with mapped := Function.update st.mapped (pageOf vaddr) true, frames := st.frames - 1 }, true)

def mapPages : Nat → UInt32 → Loading → Loading × Bool
  | 0, _, st => (st, true)
  | n + 1, vaddrPage, st =>
    if st.mapped (pageOf vaddrPage) then mapPages n (vaddrPage + 4096) st
    else
      let (st, ok) := st.getAPage vaddrPage
      if ok then mapPages n (vaddrPage + 4096) st else (st, false)

def lseek (st : Loading) (inode : Inode) (offset : UInt32) : Loading :=
  match PipeState.seekPos ⟨st.fdPos, 0, none⟩ offset.toInt32 1 inode.iSize with
  | none => st
  | some pos => { st with fdPos := pos }

def readLocal (b : Build) (disk : Mem) (inode : Inode) (bufs : Nat → Buffers) (count : UInt32) (st : Loading) :
    Exec (Loading × Mem × Option Nat) := do
  let r ← fileRead b disk inode st.fdPos (fun _ => 0) count (bufs st.reads)
  return ({ st with fdPos := r.fdPos, reads := st.reads + 1 }, r.buf, r.ret)

/-- `sys_read` to address `vaddr`. The pages it stores to must be mapped. `file_read` has its
buffers from the heap of the process: they lie in the arenas of `heap`, or in pages that are
free before the call and after it and that no segment meets. -/
def readTo (b : Build) (disk : Mem) (inode : Inode) (bufs : Nat → Buffers) (vaddr count : UInt32) (st : Loading) :
    Exec (Loading × Nat) := do
  assert b (vaddr ≠ 0) "buf != NULL"
  let r ← fileRead b disk inode st.fdPos (fun k => st.mem ((vaddr.toNat + k) % 2 ^ 32)) count (bufs st.reads)
  let n := r.ret.getD 0
  inBounds (∀ k < n, st.mapped (pageOf (vaddr + .ofNat k)) = true)
  return ({ st with
    mem := storeBytes st.mem vaddr r.buf n
    fdPos := r.fdPos
    reads := st.reads + 1
    stores := (vaddr, n) :: st.stores }, n)

end Loading

def occupyPages (filesz vaddr : UInt32) : UInt32 :=
  let sizeInFirstPage := 4096 - (vaddr &&& 0xfff)
  if filesz > sizeInFirstPage then (filesz - sizeInFirstPage + 4096 - 1) / 4096 + 1 else 1

section
variable (b : Build) (disk : Mem) (inode : Inode) (bufs : Nat → Buffers)

def segmentLoad (offset filesz vaddr : UInt32) (st : Loading) : Exec (Loading × Bool) :=
  let (st, ok) := Loading.mapPages (occupyPages filesz vaddr).toNat (vaddr &&& 0xfffff000) st
  if ok = false then return ({ st with segs := ⟨offset, filesz, vaddr, 0⟩ :: st.segs }, false)
  else do
    let (st, n) ← (st.lseek inode offset).readTo b disk inode bufs vaddr filesz
    return ({ st with segs := ⟨offset, filesz, vaddr, n⟩ :: st.segs }, true)

structure Phdr where
  pType : UInt32
  pOffset : UInt32
  pVaddr : UInt32
  pFilesz : UInt32

def Phdr.ofMem (m : Mem) : Phdr := ⟨word m 0, word m 4, word m 8, word m 16⟩

structure Ehdr where
  eIdent : List UInt8
  eType : Nat
  eMachine : Nat
  eVersion : UInt32
  eEntry : UInt32
  ePhoff : UInt32
  ePhentsize : Nat
  ePhnum : Nat

def half (m : Mem) (a : Nat) : Nat := (m a).toNat + 256 * (m (a + 1)).toNat

def Ehdr.ofMem (m : Mem) : Ehdr :=
  ⟨(List.range 16).map m, half m 16, half m 18, word m 20, word m 24, word m 28, half m 42, half m 44⟩

def Ehdr.Valid (e : Ehdr) : Prop :=
  e.eIdent.take 7 = [0x7f, 0x45, 0x4c, 0x46, 1, 1, 1] ∧ e.eType = 2 ∧ e.eMachine = 3 ∧ e.eVersion = 1 ∧
    e.ePhnum ≤ 1024 ∧ e.ePhentsize = 32

instance (e : Ehdr) : Decidable e.Valid := inferInstanceAs (Decidable (_ ∧ _))

/-- The loop over the program headers, with the number that are left; `false` means
that `load` returns `-1`. `PT_LOAD` is 1. -/
def loadSegments : Nat → UInt32 → Loading → Exec (Loading × Bool)
  | 0, _, st => .ok (st, true)
  | n + 1, progHeaderOffset, st => do
    let (st, buf, ret) ← (st.lseek inode progHeaderOffset).readLocal b disk inode bufs 32
    if ret ≠ some 32 then return (st, false)
    else if (Phdr.ofMem buf).pType = 1 then do
      let ph := Phdr.ofMem buf
      let (st, ok) ← segmentLoad b disk inode bufs ph.pOffset ph.pFilesz ph.pVaddr st
      if ok then loadSegments n (progHeaderOffset + 32) st else return (st, false)
    else loadSegments n (progHeaderOffset + 32) st

/-- `load` after `sys_open`; `none` is the return value `-1`. -/
def load (st : Loading) : Exec (Loading × Option UInt32) := do
  let (st, buf, ret) ← st.readLocal b disk inode bufs 52
  if ret ≠ some 52 then return (st, none)
  else
    let e := Ehdr.ofMem buf
    if e.Valid then do
      let (st, ok) ← loadSegments b disk inode bufs e.ePhnum e.ePhoff st
      return (st, if ok then some e.eEntry else none)
    else return (st, none)

end

def UserAddr (v : UInt32) : Prop := userVaddrStart ≤ v.toNat ∧ v.toNat < userVaddrEnd

/-- Every `sys_malloc` of `file_read` succeeds. -/
abbrev granted : Nat → Buffers := fun _ => ⟨true, true⟩

def Segment.InUser (g : Segment) : Prop :=
  userVaddrStart ≤ g.vaddr.toNat ∧ g.vaddr.toNat < userVaddrEnd ∧ g.vaddr.toNat + g.filesz.toNat ≤ userVaddrEnd

def Loading.Fresh (st : Loading) : Prop := st.fdPos = 0 ∧ st.stores = [] ∧ st.bits = [] ∧ st.segs = []

end OperateSystem
