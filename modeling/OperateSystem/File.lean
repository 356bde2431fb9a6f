import OperateSystem.Inode

/-!
# Reading and writing files

`fs/file.c`. A file has up to 12 direct blocks, whose addresses lie in the
inode, and 128 more whose addresses lie in the single-indirect table on disk.
Both `file_write` and `file_read` first collect the addresses they need in the
array `all_blocks` and then go through the data block by block.
-/

namespace OperateSystem

structure Volume (part : Partition) where
  disk : Mem
  blockBitmap : Bitmap
  inodeBitmap : Bitmap
  block_len : blockBitmap.btmpBytesLen = 512 * part.blockBitmapSects

inductive BitmapKind where
  | inodeBitmap
  | blockBitmap

section
variable {part : Partition}

def blockBitmapAlloc (b : Build) (vol : Volume part) : Exec (Option Nat × Volume part) := do
  match ← bitmapScan b vol.blockBitmap 1 with
  | none => return (none, vol)
  | some bitIdx =>
    return (some (part.dataStartLba + bitIdx), { vol with blockBitmap := bitmapSet vol.blockBitmap bitIdx true })

def bitmapSync (b : Build) (vol : Volume part) (bitIdx : Nat) (btmp : BitmapKind) : Exec (Volume part) := do
  let offSec := bitIdx / 4096
  let offSize := offSec * 512
  let (secLba, bits) := match btmp with
    | .inodeBitmap => (part.inodeBitmapLba + offSec, vol.inodeBitmap.bits)
    | .blockBitmap => (part.blockBitmapLba + offSec, vol.blockBitmap.bits)
  let disk ← ideWrite b vol.disk secLba (fun k => bits (offSize + k)) 1
  return { vol with disk }

end

/-- `i_sectors[k]`; accesses are preceded by a bounds check. -/
def Inode.sec (i : Inode) (k : Nat) : UInt32 := if h : k < 13 then i.iSectors ⟨k, h⟩ else 0

def Inode.setSec (i : Inode) (k : Nat) (a : UInt32) : Inode :=
  { i with iSectors := fun j => if j.val = k then a else i.iSectors j }

abbrev Blocks := Nat → UInt32

def Blocks.set (all : Blocks) (k : Nat) (a : UInt32) : Blocks := Function.update all k a

def loadTable (b : Build) (disk : Mem) (lba : UInt32) (all : Blocks) : Exec Blocks := do
  let buf ← ideRead b disk lba.toNat (fun _ => 0) 1
  return fun j => if 12 ≤ j ∧ j < 140 then word buf (4 * (j - 12)) else all j

def storeTable (b : Build) (disk : Mem) (lba : UInt32) (all : Blocks) : Exec Mem :=
  ideWrite b disk lba.toNat (wordBytes fun j => all (j + 12)) 1

def copySectors (i : Inode) : Nat → Nat → Blocks → Blocks
  | 0, _, all => all
  | n + 1, k, all => copySectors i n (k + 1) (all.set k (i.sec k))

/-- Which of the two `sys_malloc` calls of `file_write` and `file_read` succeed. -/
structure Buffers where
  ioBuf : Bool
  allBlocks : Bool

/-! ## `file_write` -/

structure Writing (part : Partition) where
  vol : Volume part
  inode : Inode
  fdPos : UInt32
  all : Blocks

section
variable {part : Partition}

def Writing.setDisk (st : Writing part) (disk : Mem) : Writing part := { st with vol := { st.vol with disk } }

/-- The first write allocates block 0. Here and below, `false` means that
`file_write` returns `-1` from this point. -/
def firstBlock (b : Build) (st : Writing part) : Exec (Writing part × Bool) := do
  if st.inode.sec 0 = 0 then
    match ← blockBitmapAlloc b st.vol with
    | (none, vol) => return ({ st with vol }, false)
    | (some blockLba, vol) =>
      let inode := st.inode.setSec 0 (.ofNat blockLba)
      let blockBitmapIdx := blockLba - part.dataStartLba
      assert b (blockBitmapIdx ≠ 0) "block_bitmap_idx != 0"
      let vol ← bitmapSync b vol blockBitmapIdx .blockBitmap
      return ({ st with vol, inode }, true)
  else
    return (st, true)

def setDirect (b : Build) (inode : Inode) (blockIdx : Nat) (a : UInt32) : Exec Inode :=
  if blockIdx < 12 then do
    assert b (inode.sec blockIdx = 0) "file->fd_inode->i_sectors[block_idx] == 0"
    return inode.setSec blockIdx a
  else
    return inode

/-- The loop as situation 2 has it. Situation 1 stays below index 12 and situation 3 starts above
it, and their loops are the two branches of this one. -/
def growBlocks (b : Build) : Nat → Nat → Writing part → Exec (Writing part × Bool)
  | 0, _, st => .ok (st, true)
  | n + 1, blockIdx, st => do
    match ← blockBitmapAlloc b st.vol with
    | (none, vol) => return ({ st with vol }, false)
    | (some blockLba, vol) =>
      let inode ← setDirect b st.inode blockIdx (.ofNat blockLba)
      inBounds (blockIdx < 140)
      let vol ← bitmapSync b vol (blockLba - part.dataStartLba) .blockBitmap
      growBlocks b n (blockIdx + 1) { st with vol, inode, all := st.all.set blockIdx (.ofNat blockLba) }

def keepBlock (st : Writing part) (blockIdx : Nat) : Exec (Writing part) := do
  inBounds (blockIdx < 13)
  return { st with all := st.all.set blockIdx (st.inode.sec blockIdx) }

def collectBlocks (b : Build) (st : Writing part) (has will : Nat) : Exec (Writing part × Bool) := do
  if will = has then
    if will ≤ 12 then
      let st ← keepBlock st (has - 1)
      return (st, true)
    else
      assert b (st.inode.sec 12 ≠ 0) "file->fd_inode->i_sectors[12] != 0"
      let all ← loadTable b st.vol.disk (st.inode.sec 12) st.all
      return ({ st with all }, true)
  else if will ≤ 12 then
    inBounds (has - 1 < 13)
    assert b (st.inode.sec (has - 1) ≠ 0) "file->fd_inode->i_sectors[block_idx] != 0"
    let st ← keepBlock st (has - 1)
    growBlocks b (will - has) has st
  else if has ≤ 12 then
    let st ← keepBlock st (has - 1)
    match ← blockBitmapAlloc b st.vol with
    | (none, vol) => return ({ st with vol }, false)
    | (some blockLba, vol) =>
      assert b (st.inode.sec 12 = 0) "file->fd_inode->i_sectors[12] == 0"
      let (st, ok) ← growBlocks b (will - has) has { st with vol, inode := st.inode.setSec 12 (.ofNat blockLba) }
      if ok then
        let disk ← storeTable b st.vol.disk (st.inode.sec 12) st.all
        return (st.setDisk disk, true)
      else
        return (st, false)
  else
    assert b (st.inode.sec 12 ≠ 0) "file->fd_inode->i_sectors[12] != 0"
    let all ← loadTable b st.vol.disk (st.inode.sec 12) st.all
    let (st, ok) ← growBlocks b (will - has) has { st with all }
    if ok then
      let disk ← storeTable b st.vol.disk (st.inode.sec 12) st.all
      return (st.setDisk disk, true)
    else
      return (st, false)

/-- The buffer of a round of the data loop: cleared, and filled from the disk
for the block that may already hold data. -/
def roundBuf (b : Build) (disk : Mem) (secLba : Nat) (firstWriteBlock : Bool) : Exec Mem :=
  if firstWriteBlock then ideRead b disk secLba (fun _ => 0) 1 else .ok fun _ => 0

/-- The loop over the data. Every round writes at least one byte, so `count`
rounds are enough. -/
def writeData (b : Build) (buf : Mem) (count : Nat) : Nat → Nat → Bool → Writing part → Exec (Writing part)
  | 0, _, _, st => .ok st
  | fuel + 1, bytesWritten, firstWriteBlock, st =>
    if bytesWritten < count then do
      let secIdx := st.inode.iSize.toNat / 512
      inBounds (secIdx < 140)
      let secLba := (st.all secIdx).toNat
      let secOffBytes := st.inode.iSize.toNat % 512
      let chunkSize := min (count - bytesWritten) (512 - secOffBytes)
      let ioBuf ← roundBuf b st.vol.disk secLba firstWriteBlock
      let disk ← ideWrite b st.vol.disk secLba (blit ioBuf secOffBytes buf bytesWritten chunkSize) 1
      writeData b buf count fuel (bytesWritten + chunkSize) false
        { st.setDisk disk with
          inode := { st.inode with iSize := st.inode.iSize + .ofNat chunkSize }
          fdPos := st.fdPos + .ofNat chunkSize }
    else .ok st

/-- `file_write` up to the call of `inode_sync`; `false` means that it has returned `-1`. -/
def writeBlocks (b : Build) (vol : Volume part) (inode : Inode) (fdPos : UInt32) (buf : Mem) (count : UInt32)
    (mem : Buffers) : Exec (Writing part × Bool) := do
  let st : Writing part := ⟨vol, inode, fdPos, fun _ => 0⟩
  if (inode.iSize + count).toNat > 512 * 140 then
    return (st, false)
  if mem.ioBuf = false ∨ mem.allBlocks = false then
    return (st, false)
  let (st, ok) ← firstBlock b st
  if ok = false then
    return (st, false)
  let fileHasUsedBlocks := inode.iSize.toNat / 512 + 1
  let fileWillUseBlocks := (inode.iSize + count).toNat / 512 + 1
  assert b (fileWillUseBlocks ≤ 140) "file_will_use_blocks <= 140"
  let (st, ok) ← collectBlocks b st fileHasUsedBlocks fileWillUseBlocks
  if ok = false then
    return (st, false)
  let st ← writeData b buf count.toNat count.toNat 0 true { st with fdPos := st.inode.iSize - 1 }
  return (st, true)

def fileWriteVia (io : InodeIo) (b : Build) (vol : Volume part) (inode : Inode) (fdPos : UInt32) (buf : Mem)
    (count : UInt32) (mem : Buffers) : Exec (Writing part × Option Nat) := do
  let (st, ok) ← writeBlocks b vol inode fdPos buf count mem
  if ok then
    let disk ← io.sync b part st.vol.disk st.inode
    return (st.setDisk disk, some count.toNat)
  else
    return (st, none)

/-- Its buffer holds one sector. -/
def fileWrite (b : Build) (vol : Volume part) (inode : Inode) (fdPos : UInt32) (buf : Mem) (count : UInt32)
    (mem : Buffers) : Exec (Writing part × Option Nat) :=
  fileWriteVia IoBufOwner.fileWrite.io b vol inode fdPos buf count mem

end

/-! ## `file_read` -/

def collectRead (b : Build) (disk : Mem) (inode : Inode) (startIdx endIdx : Nat) : Exec Blocks := do
  let all : Blocks := fun _ => 0
  if startIdx = endIdx then
    assert b (endIdx = startIdx) "block_read_end_idx == block_read_start_idx"
    if endIdx < 12 then
      return all.set endIdx (inode.sec endIdx)
    else
      loadTable b disk (inode.sec 12) all
  else if endIdx < 12 then
    return copySectors inode (endIdx + 1 - startIdx) startIdx all
  else if startIdx < 12 then
    let all := copySectors inode (12 - startIdx) startIdx all
    assert b (inode.sec 12 ≠ 0) "file->fd_inode->i_sectors[12] != 0"
    loadTable b disk (inode.sec 12) all
  else
    assert b (inode.sec 12 ≠ 0) "file->fd_inode->i_sectors[12] != 0"
    loadTable b disk (inode.sec 12) all

def readData (b : Build) (disk : Mem) (all : Blocks) (size : Nat) :
    Nat → Nat → UInt32 → Mem → Exec (Mem × UInt32)
  | 0, _, fdPos, buf => .ok (buf, fdPos)
  | fuel + 1, bytesRead, fdPos, buf =>
    if bytesRead < size then do
      let secIdx := fdPos.toNat / 512
      inBounds (secIdx < 140)
      let secLba := (all secIdx).toNat
      let secOffBytes := fdPos.toNat % 512
      let chunkSize := min (size - bytesRead) (512 - secOffBytes)
      let ioBuf ← ideRead b disk secLba (fun _ => 0) 1
      readData b disk all size fuel (bytesRead + chunkSize) (fdPos + .ofNat chunkSize)
        (blit buf bytesRead ioBuf secOffBytes chunkSize)
    else .ok (buf, fdPos)

structure ReadResult where
  ret : Option Nat
  buf : Mem
  fdPos : UInt32

def fileRead (b : Build) (disk : Mem) (inode : Inode) (fdPos : UInt32) (buf : Mem) (count : UInt32)
    (mem : Buffers) : Exec ReadResult := do
  let size := if fdPos + count > inode.iSize then inode.iSize - fdPos else count
  if fdPos + count > inode.iSize ∧ size = 0 then
    return ⟨none, buf, fdPos⟩
  if mem.ioBuf = false ∨ mem.allBlocks = false then
    return ⟨none, buf, fdPos⟩
  let startIdx := fdPos.toNat / 512
  let endIdx := (fdPos + size).toNat / 512
  assert b (startIdx < 139 ∧ endIdx < 139) "block_read_start_idx < 139 && block_read_end_idx < 139"
  let all ← collectRead b disk inode startIdx endIdx
  let (buf, fdPos) ← readData b disk all size.toNat size.toNat 0 fdPos buf
  return ⟨some size.toNat, buf, fdPos⟩

end OperateSystem
