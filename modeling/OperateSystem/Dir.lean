import OperateSystem.File

/-!
# Directories

`fs/dir.c`. A directory's blocks hold 21 entries of 24 bytes each; an entry of
type `FT_UNKNOWN` is a free slot. A name on disk is a NUL-terminated string in
16 bytes, and a name in a call is the list of its characters without the NUL.
-/

namespace OperateSystem

structure DirEntry where
  filename : Fin 16 → UInt8
  iNo : UInt32
  /-- `FT_UNKNOWN` is 0, `FT_REGULAR` 1 and `FT_DIRECTORY` 2. -/
  fType : UInt32

/-- `sizeof(struct dir_entry)` -/
def dirEntrySize : Nat := 24

namespace DirEntry

def ofMem (m : Mem) (a : Nat) : DirEntry := ⟨fun j => m (a + j), word m (a + 16), word m (a + 20)⟩

def toMem (e : DirEntry) : Mem := fun k =>
  if h : k < 16 then e.filename ⟨k, h⟩
  else if k < 20 then wordByte e.iNo (k - 16)
  else wordByte e.fType (k - 20)

def name (e : DirEntry) : List UInt8 := (List.ofFn e.filename).takeWhile (· ≠ 0)

end DirEntry

/-- `*a < *b ? -1 : *a > *b`, where `char` is signed. -/
def charCmp (a b : UInt8) : Int :=
  if a.toBitVec.toInt < b.toBitVec.toInt then -1 else if b.toBitVec.toInt < a.toBitVec.toInt then 1 else 0

def strcmp (m : Mem) (a : Nat) : List UInt8 → Int
  | [] => charCmp (m a) 0
  | c :: cs => if m a ≠ 0 ∧ m a = c then strcmp m (a + 1) cs else charCmp (m a) c

/-! ## `search_dir_entry` -/

def searchSector (buf : Mem) (name : List UInt8) : Nat → Nat → Option DirEntry
  | 0, _ => none
  | n + 1, dirEntryIdx =>
    if strcmp buf (dirEntrySize * dirEntryIdx) name = 0 then some (.ofMem buf (dirEntrySize * dirEntryIdx))
    else searchSector buf name n (dirEntryIdx + 1)

def searchBlocks (b : Build) (disk : Mem) (all : Blocks) (name : List UInt8) : Nat → Nat → Mem → Exec (Option DirEntry)
  | 0, _, _ => .ok none
  | n + 1, blockIdx, buf =>
    if all blockIdx = 0 then searchBlocks b disk all name n (blockIdx + 1) buf
    else do
      let buf ← ideRead b disk (all blockIdx).toNat buf 1
      match searchSector buf name (512 / dirEntrySize) 0 with
      | some e => return some e
      | none => searchBlocks b disk all name n (blockIdx + 1) (fill buf 0 512 0)

def allBlocks (b : Build) (disk : Mem) (inode : Inode) : Exec Blocks :=
  let all := copySectors inode 12 0 fun _ => 0
  if inode.sec 12 ≠ 0 then loadTable b disk (inode.sec 12) all else .ok all

/-- The entry is what `search_dir_entry` stores in `dir_e`. `mem` tells whether `sys_malloc` finds
room for `all_blocks`; that it does for `buf` is taken for granted. -/
def searchDirEntry (b : Build) (disk : Mem) (inode : Inode) (name : List UInt8) (mem : Bool) (buf : Mem) :
    Exec (Option DirEntry) := do
  if mem = false then
    return none
  let all ← allBlocks b disk inode
  searchBlocks b disk all name 140 0 buf

/-! ## `dir_read` -/

structure DirHandle where
  dirPos : UInt32
  dirBuf : Mem

inductive SectorEnd where
  | entry (dirEntryIdx : Nat)
  | past (curDirEntryPos : UInt32)

def readSector (b : Build) (buf : Mem) (dirPos : UInt32) : Nat → Nat → UInt32 → Exec SectorEnd
  | 0, _, curDirEntryPos => .ok (.past curDirEntryPos)
  | n + 1, dirEntryIdx, curDirEntryPos =>
    if (DirEntry.ofMem buf (dirEntrySize * dirEntryIdx)).fType ≠ 0 then
      if curDirEntryPos < dirPos then readSector b buf dirPos n (dirEntryIdx + 1) (curDirEntryPos + .ofNat dirEntrySize)
      else do
        assert b (curDirEntryPos = dirPos) "cur_dir_entry_pos == dir->dir_pos"
        return .entry dirEntryIdx
    else readSector b buf dirPos n (dirEntryIdx + 1) curDirEntryPos

/-- Nothing bounds `block_idx`: behind the last address the loop reads outside `all_blocks`. -/
def readBlocks (b : Build) (disk : Mem) (all : Blocks) (iSize : UInt32) :
    Nat → Nat → UInt32 → DirHandle → Exec (DirHandle × Option DirEntry)
  | 0, _, _, d => if d.dirPos < iSize then throw .outOfBounds else return (d, none)
  | n + 1, blockIdx, curDirEntryPos, d =>
    if d.dirPos < iSize then
      if all blockIdx = 0 then readBlocks b disk all iSize n (blockIdx + 1) curDirEntryPos d
      else do
        let buf ← ideRead b disk (all blockIdx).toNat (fill d.dirBuf 0 512 0) 1
        match ← readSector b buf d.dirPos (512 / dirEntrySize) 0 curDirEntryPos with
        | .entry i => return (⟨d.dirPos + .ofNat dirEntrySize, buf⟩, some (.ofMem buf (dirEntrySize * i)))
        | .past curDirEntryPos => readBlocks b disk all iSize n (blockIdx + 1) curDirEntryPos { d with dirBuf := buf }
    else return (d, none)

/-- `dir_read` returns the entry in `dir_buf` that its result points to, or `none` for
`NULL`. -/
def dirRead (b : Build) (disk : Mem) (inode : Inode) (d : DirHandle) : Exec (DirHandle × Option DirEntry) := do
  let all ← allBlocks b disk inode
  readBlocks b disk all inode.iSize 140 0 0 d

def sysReaddir (b : Build) (disk : Mem) (inode : Inode) (d : DirHandle) : Exec (DirHandle × Option DirEntry) :=
  dirRead b disk inode d

def sysRewinddir (d : DirHandle) : DirHandle := { d with dirPos := 0 }

def readdirs (b : Build) (disk : Mem) (inode : Inode) : Nat → DirHandle → Exec (DirHandle × List (Option DirEntry))
  | 0, d => .ok (d, [])
  | m + 1, d => do
    let (d, e) ← sysReaddir b disk inode d
    let (d, es) ← readdirs b disk inode m d
    return (d, e :: es)

/-! ## `sync_dir_entry` -/

/-- A directory between two calls. -/
structure DirState (part : Partition) where
  vol : Volume part
  inode : Inode

structure DirWriting (part : Partition) where
  vol : Volume part
  inode : Inode
  all : Blocks
  ioBuf : Mem

section
variable {part : Partition}

def putEntry (b : Build) (blockIdx : Nat) (ioBuf : Mem) (st : DirWriting part) : Exec (DirWriting part × Bool) := do
  let disk ← ideWrite b st.vol.disk (st.all blockIdx).toNat ioBuf 1
  return ({ st with
    vol := { st.vol with disk }
    ioBuf := ioBuf
    inode := { st.inode with iSize := st.inode.iSize + .ofNat dirEntrySize } }, true)

def freeEntry (ioBuf : Mem) : Nat → Nat → Option Nat
  | 0, _ => none
  | n + 1, dirEntryIdx =>
    if (DirEntry.ofMem ioBuf (dirEntrySize * dirEntryIdx)).fType = 0 then some dirEntryIdx
    else freeEntry ioBuf n (dirEntryIdx + 1)

/-- `ide_write(…, i_sectors[12], all_blocks + 12, 1)` after a new indirect block. -/
def linkTable (b : Build) (blockIdx blockLba : Nat) (st : DirWriting part) : Exec (DirWriting part × Bool) := do
  let all := st.all.set blockIdx (.ofNat blockLba)
  let disk ← storeTable b st.vol.disk (st.inode.sec 12) all
  return ({ st with all, vol := { st.vol with disk } }, true)

/-- At index 12 the allocated block becomes the table, and another one the first indirect block.
-/
def newTable (b : Build) (blockLba : Nat) (st : DirWriting part) : Exec (DirWriting part × Bool) := do
  let inode := st.inode.setSec 12 (.ofNat blockLba)
  match ← blockBitmapAlloc b st.vol with
  | (none, vol) =>
    let blockBitmapIdx := (inode.sec 12).toNat - part.dataStartLba
    return ({ st with
      vol := { vol with blockBitmap := bitmapSet vol.blockBitmap blockBitmapIdx false, block_len := vol.block_len }
      inode := inode.setSec 12 0 }, false)
  | (some blockLba, vol) => do
    let vol ← bitmapSync b vol (blockLba - part.dataStartLba) .blockBitmap
    linkTable b 12 blockLba { st with vol, inode }

def linkBlock (b : Build) (blockIdx blockLba : Nat) (st : DirWriting part) : Exec (DirWriting part × Bool) :=
  if blockIdx < 12 then
    return ({ st with
      inode := st.inode.setSec blockIdx (.ofNat blockLba)
      all := st.all.set blockIdx (.ofNat blockLba) }, true)
  else if blockIdx = 12 then newTable b blockLba st
  else linkTable b blockIdx blockLba st

def addBlock (b : Build) (e : DirEntry) (blockIdx : Nat) (st : DirWriting part) : Exec (DirWriting part × Bool) := do
  match ← blockBitmapAlloc b st.vol with
  | (none, vol) => return ({ st with vol }, false)
  | (some blockLba, vol) => do
    let vol ← bitmapSync b vol (blockLba - part.dataStartLba) .blockBitmap
    let (st, ok) ← linkBlock b blockIdx blockLba { st with vol }
    if ok then putEntry b blockIdx (blit (fill st.ioBuf 0 512 0) 0 e.toMem 0 dirEntrySize) st
    else return (st, false)

def syncBlocks (b : Build) (e : DirEntry) : Nat → Nat → DirWriting part → Exec (DirWriting part × Bool)
  | 0, _, st => .ok (st, false)
  | n + 1, blockIdx, st =>
    if st.all blockIdx = 0 then addBlock b e blockIdx st
    else do
      let ioBuf ← ideRead b st.vol.disk (st.all blockIdx).toNat st.ioBuf 1
      match freeEntry ioBuf (512 / dirEntrySize) 0 with
      | some i => putEntry b blockIdx (blit ioBuf (dirEntrySize * i) e.toMem 0 dirEntrySize) st
      | none => syncBlocks b e n (blockIdx + 1) { st with ioBuf }

/-- `sync_dir_entry`. Unlike the other functions it does not read the indirect
table, so all indirect blocks look unallocated. -/
def syncDirEntry (b : Build) (vol : Volume part) (inode : Inode) (e : DirEntry) (ioBuf : Mem) :
    Exec (DirWriting part × Bool) := do
  assert b (inode.iSize.toNat % dirEntrySize = 0) "dir_size % dir_entry_size == 0"
  syncBlocks b e 140 0 ⟨vol, inode, copySectors inode 12 0 fun _ => 0, ioBuf⟩

end

/-! ## `create_dir_entry` and `delete_dir_entry` -/

/-- The name is copied without its NUL. -/
def createDirEntry (b : Build) (filename : List UInt8) (inodeNo fileType : UInt32) : Exec DirEntry := do
  assert b (filename.length ≤ 16) "strlen(filename) <= MAX_FILE_NAME_LEN"
  inBounds (filename.length ≤ 16)
  return ⟨fun j => filename.getD j 0, inodeNo, fileType⟩

def dot : List UInt8 := [46]

def dotDot : List UInt8 := [46, 46]

/-- What the loop over the entries of a sector finds out. -/
structure SectorScan where
  dirEntryFound : Option Nat
  dirEntryCnt : Nat
  isDirFirstBlock : Bool

def scanSector (b : Build) (buf : Mem) (inodeNo : UInt32) : Nat → Nat → SectorScan → Exec SectorScan
  | 0, _, sc => .ok sc
  | n + 1, i, sc =>
    let e := DirEntry.ofMem buf (dirEntrySize * i)
    if e.fType = 0 then scanSector b buf inodeNo n (i + 1) sc
    else if strcmp buf (dirEntrySize * i) dot = 0 then scanSector b buf inodeNo n (i + 1) { sc with isDirFirstBlock := true }
    else if strcmp buf (dirEntrySize * i) dotDot = 0 then scanSector b buf inodeNo n (i + 1) sc
    else if e.iNo = inodeNo then do
      assert b (sc.dirEntryFound = none) "dir_entry_found == NULL"
      scanSector b buf inodeNo n (i + 1) { sc with dirEntryFound := some i, dirEntryCnt := sc.dirEntryCnt + 1 }
    else scanSector b buf inodeNo n (i + 1) { sc with dirEntryCnt := sc.dirEntryCnt + 1 }

/-- The loop that counts the indirect blocks. It never moves on to the next one; `none` says that
it has not ended in the given rounds. -/
def countIndirect (all : Blocks) : Nat → Nat → Nat → Option Nat
  | 0, _, _ => none
  | rounds + 1, indirectBlockIdx, indirectBlocks =>
    if indirectBlockIdx < 140 then
      countIndirect all rounds indirectBlockIdx (if all indirectBlockIdx ≠ 0 then indirectBlocks + 1 else indirectBlocks)
    else some indirectBlocks

section
variable {part : Partition}

def clearBlock (b : Build) (vol : Volume part) (addr : UInt32) : Exec (Volume part) :=
  let blockBitmapIdx := (addr - .ofNat part.dataStartLba).toNat
  bitmapSync b { vol with blockBitmap := bitmapSet vol.blockBitmap blockBitmapIdx false } blockBitmapIdx .blockBitmap

def dropBlock (b : Build) (rounds blockIdx : Nat) (st : DirWriting part) : Exec (Option (DirWriting part)) := do
  let vol ← clearBlock b st.vol (st.all blockIdx)
  if blockIdx < 12 then
    return some { st with vol, inode := st.inode.setSec blockIdx 0 }
  else
    match countIndirect st.all rounds 12 0 with
    | none => return none
    | some indirectBlocks =>
      assert b (1 ≤ indirectBlocks) "indirect_blocks >= 1"
      if 1 < indirectBlocks then
        let all := st.all.set blockIdx 0
        let disk ← storeTable b vol.disk (st.inode.sec 12) all
        return some { st with all, vol := { vol with disk } }
      else
        let vol ← clearBlock b vol (st.inode.sec 12)
        return some { st with vol, inode := st.inode.setSec 12 0 }

def clearEntry (b : Build) (blockIdx i : Nat) (st : DirWriting part) : Exec (Option (DirWriting part)) := do
  let ioBuf := fill st.ioBuf (dirEntrySize * i) dirEntrySize 0
  let disk ← ideWrite b st.vol.disk (st.all blockIdx).toNat ioBuf 1
  return some { st with ioBuf, vol := { st.vol with disk } }

def shrinkDirVia (io : InodeIo) (b : Build) (st : DirWriting part) : Exec (DirWriting part) := do
  assert b (dirEntrySize ≤ st.inode.iSize.toNat) "dir_inode->i_size >= dir_entry_size"
  let inode := { st.inode with iSize := st.inode.iSize - .ofNat dirEntrySize }
  let ioBuf := fill st.ioBuf 0 1024 0
  let disk ← io.sync b part st.vol.disk inode
  return { st with inode, ioBuf, vol := { st.vol with disk } }

def deleteBlocksVia (io : InodeIo) (b : Build) (rounds : Nat) (inodeNo : UInt32) :
    Nat → Nat → DirWriting part → Exec (Option (DirWriting part × Bool))
  | 0, _, st => .ok (some (st, false))
  | n + 1, blockIdx, st =>
    if st.all blockIdx = 0 then deleteBlocksVia io b rounds inodeNo n (blockIdx + 1) st
    else do
      let ioBuf ← ideRead b st.vol.disk (st.all blockIdx).toNat (fill st.ioBuf 0 512 0) 1
      let sc ← scanSector b ioBuf inodeNo (512 / dirEntrySize) 0 ⟨none, 0, false⟩
      match sc.dirEntryFound with
      | none => deleteBlocksVia io b rounds inodeNo n (blockIdx + 1) { st with ioBuf }
      | some i => do
        assert b (1 ≤ sc.dirEntryCnt) "dir_entry_cnt >= 1"
        let r ← (if sc.dirEntryCnt = 1 ∧ sc.isDirFirstBlock = false then dropBlock b rounds blockIdx { st with ioBuf }
          else clearEntry b blockIdx i { st with ioBuf })
        match r with
        | none => return none
        | some st => do
          let st ← shrinkDirVia io b st
          return some (st, true)

/-- `none` says that it is still counting the indirect blocks. -/
def deleteDirEntryVia (io : InodeIo) (b : Build) (rounds : Nat) (vol : Volume part) (inode : Inode)
    (inodeNo : UInt32) (ioBuf : Mem) : Exec (Option (DirWriting part × Bool)) := do
  let all ← allBlocks b vol.disk inode
  deleteBlocksVia io b rounds inodeNo 140 0 ⟨vol, inode, all, ioBuf⟩

abbrev shrinkDir (b : Build) (st : DirWriting part) : Exec (DirWriting part) := shrinkDirVia .unbounded b st

abbrev deleteBlocks (b : Build) (rounds : Nat) (inodeNo : UInt32) (n blockIdx : Nat) (st : DirWriting part) :
    Exec (Option (DirWriting part × Bool)) :=
  deleteBlocksVia .unbounded b rounds inodeNo n blockIdx st

abbrev deleteDirEntry (b : Build) (rounds : Nat) (vol : Volume part) (inode : Inode) (inodeNo : UInt32)
    (ioBuf : Mem) : Exec (Option (DirWriting part × Bool)) :=
  deleteDirEntryVia .unbounded b rounds vol inode inodeNo ioBuf

end

end OperateSystem
