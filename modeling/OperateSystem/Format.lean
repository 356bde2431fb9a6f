import OperateSystem.FsCalls

/-!
# Formatting a partition

`partition_format` of `fs/fs.c`. All sector counts and addresses are words, so a
partition that is too small makes them wrap around.
-/

namespace OperateSystem

open Function

/-! ## Long transfers -/

/-- The loop of `ide_write`, which transfers up to 256 sectors at a time; `select_sector` checks the
address of each transfer. -/
def ideWriteLoop (b : Build) (lba : UInt32) (buf : Mem) (secCnt : UInt32) : Nat → UInt32 → Mem → Exec Mem
  | 0, _, disk => .ok disk
  | n + 1, secsDone, disk =>
    if secsDone < secCnt then do
      let secsOp := if secsDone + 256 ≤ secCnt then 256 else secCnt - secsDone
      let disk ← ideWrite b disk (lba + secsDone).toNat (fun k => buf (512 * secsDone.toNat + k)) secsOp.toNat
      ideWriteLoop b lba buf secCnt n (secsDone + secsOp) disk
    else .ok disk

def ideWriteAll (b : Build) (disk : Mem) (lba : UInt32) (buf : Mem) (secCnt : UInt32) : Exec Mem := do
  assert b (lba.toNat ≤ maxLba) "lba <= max_lba"
  assert b (0 < secCnt) "sec_cnt > 0"
  ideWriteLoop b lba buf secCnt secCnt.toNat 0 disk

/-! ## The layout -/

def divRoundUp (x step : UInt32) : UInt32 := (x + step - 1) / step

def bitsPerSector : UInt32 := 4096

def maxFilesPerPart : UInt32 := 4096

def inodeBitmapSects : UInt32 := divRoundUp maxFilesPerPart bitsPerSector

def inodeTableSects : UInt32 := divRoundUp (.ofNat inodeSize * maxFilesPerPart) 512

def usedSects : UInt32 := 1 + 1 + inodeBitmapSects + inodeTableSects

def freeSects (secCnt : UInt32) : UInt32 := secCnt - usedSects

def blockBitmapBitLen (secCnt : UInt32) : UInt32 := freeSects secCnt - divRoundUp (freeSects secCnt) bitsPerSector

def blockBitmapSects (secCnt : UInt32) : UInt32 := divRoundUp (blockBitmapBitLen secCnt) bitsPerSector

structure SuperBlock where
  magic : UInt32
  secCnt : UInt32
  inodeCnt : UInt32
  partLbaBase : UInt32
  blockBitmapLba : UInt32
  blockBitmapSects : UInt32
  inodeBitmapLba : UInt32
  inodeBitmapSects : UInt32
  inodeTableLba : UInt32
  inodeTableSects : UInt32
  dataStartLba : UInt32
  rootInodeNo : UInt32
  dirEntrySize : UInt32

namespace SuperBlock

def words (sb : SuperBlock) : List UInt32 :=
  [sb.magic, sb.secCnt, sb.inodeCnt, sb.partLbaBase, sb.blockBitmapLba, sb.blockBitmapSects, sb.inodeBitmapLba, sb.inodeBitmapSects,
    sb.inodeTableLba, sb.inodeTableSects, sb.dataStartLba, sb.rootInodeNo, sb.dirEntrySize]

def toMem (sb : SuperBlock) (pad : Mem) : Mem := blit pad 0 (wordBytes fun j => sb.words.getD j 0) 0 52

end SuperBlock

def superBlock (startLba secCnt : UInt32) : SuperBlock :=
  let blockBitmapLba := startLba + 2
  let inodeBitmapLba := blockBitmapLba + blockBitmapSects secCnt
  let inodeTableLba := inodeBitmapLba + inodeBitmapSects
  { magic := 0x19590318
    secCnt := secCnt
    inodeCnt := maxFilesPerPart
    partLbaBase := startLba
    blockBitmapLba := blockBitmapLba
    blockBitmapSects := blockBitmapSects secCnt
    inodeBitmapLba := inodeBitmapLba
    inodeBitmapSects := inodeBitmapSects
    inodeTableLba := inodeTableLba
    inodeTableSects := inodeTableSects
    dataStartLba := inodeTableLba + inodeTableSects
    rootInodeNo := 0
    dirEntrySize := .ofNat dirEntrySize }

/-! ## The contents -/

def formatBufSize (sb : SuperBlock) : UInt32 :=
  let bufSize := if sb.blockBitmapSects ≥ sb.inodeBitmapSects then sb.blockBitmapSects else sb.inodeBitmapSects
  (if bufSize ≥ sb.inodeTableSects then bufSize else sb.inodeTableSects) * 512

def clearBits : Nat → Nat → UInt8 → UInt8
  | 0, _, byte => byte
  | n + 1, bitIdx, byte => clearBits n (bitIdx + 1) (byte &&& ~~~bitMask bitIdx)

/-- That `sys_malloc` finds memory is taken for granted. -/
def blockBitmapBuf (bitLen : UInt32) (bufSize : Nat) : Exec Mem := do
  let buf : Mem := update (fun _ => 0) 0 1
  let lastByte := bitLen.toNat / 8
  let lastBit := bitLen.toNat % 8
  let lastSize := 512 - lastByte % 512
  inBounds (lastByte + lastSize ≤ bufSize)
  let buf := fill buf lastByte lastSize 0xff
  return update buf lastByte (clearBits (lastBit + 1) 0 (buf lastByte))

def rootInode (sb : SuperBlock) : Inode :=
  ⟨0, sb.dirEntrySize * 2, 0, 0, fun j => if j.val = 0 then sb.dataStartLba else 0, 0, 0⟩

def partitionFormat (b : Build) (disk : Mem) (startLba secCnt : UInt32) (pad : Mem) : Exec Mem := do
  let sb := superBlock startLba secCnt
  let disk ← ideWriteAll b disk (startLba + 1) (sb.toMem pad) 1
  let buf ← blockBitmapBuf (blockBitmapBitLen secCnt) (formatBufSize sb).toNat
  let disk ← ideWriteAll b disk sb.blockBitmapLba buf sb.blockBitmapSects
  let disk ← ideWriteAll b disk sb.inodeBitmapLba (update (fun _ => 0) 0 1) sb.inodeBitmapSects
  let disk ← ideWriteAll b disk sb.inodeTableLba (blit (fun _ => 0) 0 (rootInode sb).toMem 0 inodeSize) sb.inodeTableSects
  ideWriteAll b disk sb.dataStartLba (dotEntries 0 0) 1

end OperateSystem
