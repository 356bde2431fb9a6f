import OperateSystem.File

/-!
# Open inodes, releasing files, and runs

`part->open_inodes` caches the inodes in use. `inode_release` gives the blocks
of a file back. A run is a sequence of calls of `file_write` and
`inode_release` on files that have not been released before: `sys_unlink`
refuses a file that is still in the file table, and afterwards no directory
entry leads to its inode.
-/

namespace OperateSystem

structure FsState (part : Partition) where
  vol : Volume part
  openInodes : List Inode

def findOpen (l : List Inode) (inodeNo : UInt32) : Option Inode := l.find? (·.iNo == inodeNo)

def storeOpen (l : List Inode) (i : Inode) : List Inode := l.map fun x => if x.iNo = i.iNo then i else x

section
variable {part : Partition}

def inodeOpen (b : Build) (s : FsState part) (inodeNo : UInt32) : Exec (Inode × FsState part) :=
  match findOpen s.openInodes inodeNo with
  | some i =>
    let i := { i with iOpenCnts := i.iOpenCnts + 1 }
    .ok (i, { s with openInodes := storeOpen s.openInodes i })
  | none => do
    let i ← inodeRead b part s.vol.disk inodeNo.toNat
    let i := { i with iOpenCnts := 1 }
    return (i, { s with openInodes := i :: s.openInodes })

def inodeClose (l : List Inode) (i : Inode) : List Inode :=
  let i := { i with iOpenCnts := i.iOpenCnts - 1 }
  if i.iOpenCnts = 0 then l.eraseP (·.iNo == i.iNo) else storeOpen l i

def freeBlock (b : Build) (vol : Volume part) (addr : UInt32) : Exec (Volume part) := do
  let blockBitmapIdx := (addr - .ofNat part.dataStartLba).toNat
  assert b (0 < blockBitmapIdx) "block_bitmap_idx > 0"
  bitmapSync b { vol with blockBitmap := bitmapSet vol.blockBitmap blockBitmapIdx false } blockBitmapIdx .blockBitmap

/-- The table of a file, if there is one, is read and its block freed. Also
returns `block_cnt`. -/
def freeTable (b : Build) (vol : Volume part) (i : Inode) (all : Blocks) : Exec (Blocks × Nat × Volume part) :=
  if i.sec 12 ≠ 0 then do
    let all ← loadTable b vol.disk (i.sec 12) all
    let vol ← freeBlock b vol (i.sec 12)
    return (all, 140, vol)
  else
    return (all, 12, vol)

def freeBlocks (b : Build) (all : Blocks) : Nat → Nat → Volume part → Exec (Volume part)
  | 0, _, vol => .ok vol
  | n + 1, blockIdx, vol =>
    if all blockIdx ≠ 0 then do
      let vol ← freeBlock b vol (all blockIdx)
      freeBlocks b all n (blockIdx + 1) vol
    else freeBlocks b all n (blockIdx + 1) vol

/-- `inode_release` between `inode_open` and `inode_close`. -/
def releaseVolVia (io : InodeIo) (b : Build) (vol : Volume part) (i : Inode) (inodeNo : UInt32) :
    Exec (Volume part) := do
  let (all, blockCnt, vol) ← freeTable b vol i (copySectors i 12 0 fun _ => 0)
  let vol ← freeBlocks b all blockCnt 0 vol
  let vol ← bitmapSync b { vol with inodeBitmap := bitmapSet vol.inodeBitmap inodeNo.toNat false } inodeNo.toNat
    .inodeBitmap
  let disk ← io.delete b part vol.disk inodeNo.toNat
  return { vol with disk }

abbrev releaseVol (b : Build) (vol : Volume part) (i : Inode) (inodeNo : UInt32) : Exec (Volume part) :=
  releaseVolVia .unbounded b vol i inodeNo

def inodeRelease (b : Build) (s : FsState part) (inodeNo : UInt32) : Exec (FsState part) := do
  let (i, s) ← inodeOpen b s inodeNo
  assert b (i.iNo = inodeNo) "inode_to_del->i_no == inode_no"
  let vol ← releaseVol b s.vol i inodeNo
  return { vol, openInodes := inodeClose s.openInodes i }

def writeFile (b : Build) (s : FsState part) (inodeNo fdPos : UInt32) (buf : Mem) (count : UInt32) (mem : Buffers) :
    Exec (FsState part × Option Nat) :=
  match findOpen s.openInodes inodeNo with
  | none => .error .outOfBounds
  | some i => do
    let (st, ret) ← fileWrite b s.vol i fdPos buf count mem
    return ({ vol := st.vol, openInodes := storeOpen s.openInodes st.inode }, ret)

end

/-! ## Runs -/

inductive FsOp where
  | write (inodeNo : UInt32) (buf : Mem) (count : UInt32)
  | release (inodeNo : UInt32)

def FsOp.bytes (no : UInt32) : FsOp → List UInt8
  | .write n buf count => if n = no then (List.range count.toNat).map buf else []
  | .release _ => []

def contents (no : UInt32) (ops : List FsOp) : List UInt8 := ops.flatMap (FsOp.bytes no)

/-- The file was in the cache at the start and has not been released. -/
def Live {part : Partition} (s0 : FsState part) (ops : List FsOp) (no : UInt32) : Prop :=
  (findOpen s0.openInodes no).isSome ∧ FsOp.release no ∉ ops

/-- Every `file_write` of a run returns its count. -/
inductive FsRun {part : Partition} (s0 : FsState part) : List FsOp → FsState part → Prop
  | start : FsRun s0 [] s0
  | write {ops : List FsOp} {s s' : FsState part} {no pos count : UInt32} {buf : Mem} {mem : Buffers}
    (hrun : FsRun s0 ops s) (hlive : Live s0 ops no)
    (hret : writeFile .debug s no pos buf count mem = .ok (s', some count.toNat)) :
    FsRun s0 (ops ++ [.write no buf count]) s'
  | release {ops : List FsOp} {s s' : FsState part} {no : UInt32} (hrun : FsRun s0 ops s) (hlive : Live s0 ops no)
    (hret : inodeRelease .debug s no = .ok s') : FsRun s0 (ops ++ [.release no]) s'

def Inode.Empty (i : Inode) : Prop := i.iSize = 0 ∧ ∀ k, i.iSectors k = 0

def FsState.Fresh {part : Partition} (s : FsState part) : Prop := ∀ i ∈ s.openInodes, i.Empty

end OperateSystem
