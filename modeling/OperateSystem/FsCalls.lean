import OperateSystem.Fs

/-!
# System calls on paths

The second half of `fs/fs.c`, with `file_create`, `file_open` and `file_close` of
`fs/file.c` and `dir_remove` of `fs/dir.c`.
-/

namespace OperateSystem

open Function

/-- What a call finds in memory and on the stack. `rounds` bounds the loop of `delete_dir_entry`
that does not end. -/
structure CallEnv where
  lookups : Nat → Bool
  ioBuf : Bool
  newInode : Bool
  oldNo : UInt32
  oldChar : UInt8
  oldChar' : UInt8
  rounds : Nat

section
variable {part : Partition}

def inodeBitmapAlloc (b : Build) (vol : Volume part) : Exec (Option Nat × Volume part) := do
  match ← bitmapScan b vol.inodeBitmap 1 with
  | none => return (none, vol)
  | some bitIdx => return (some bitIdx, { vol with inodeBitmap := bitmapSet vol.inodeBitmap bitIdx true })

def inodeInit (inodeNo : UInt32) : Inode := ⟨inodeNo, 0, 0, 0, fun _ => 0, 0, 0⟩

def dotEntries (inodeNo parentNo : UInt32) : Mem :=
  blit (blit (fun _ => 0) 0 (DirEntry.mk (fun j => dot.getD j 0) inodeNo ftDirectory).toMem 0 dirEntrySize) dirEntrySize
    (DirEntry.mk (fun j => dotDot.getD j 0) parentNo ftDirectory).toMem 0 dirEntrySize

namespace Fs

/-! ## Files -/

def setFile (s : Fs part) (g : Fin 32) (f : File) : Fs part := { s with fileTable := update s.fileTable g f }

def setProc (s : Fs part) (p : Nat) (P : FsProc) : Fs part := { s with procs := update s.procs p (some P) }

def getFreeSlotInGlobal (s : Fs part) : Option (Fin 32) :=
  (List.finRange 32).find? fun g => 3 ≤ g.val && (s.fileTable g).fdInode.isNone

def pcbFdInstall (s : Fs part) (p : Nat) (g : Fin 32) : Exec (Fs part × Option (Fin 8)) := do
  let P ← deref (s.procs p)
  match (List.finRange 8).find? fun d => 3 ≤ d.val && (P.fdTable d).isNone with
  | none => return (s, none)
  | some d => return (s.setProc p { P with fdTable := update P.fdTable d (some g) }, some d)

def clearInodeBit (s : Fs part) (inodeNo : Nat) : Fs part :=
  s.setVol { s.vol with inodeBitmap := bitmapSet s.vol.inodeBitmap inodeNo false }

def syncDirEntry (b : Build) (s : Fs part) (a : Nat) (e : DirEntry) : Exec (Fs part × Bool) := do
  let c ← s.cached a
  let (st, ok) ← OperateSystem.syncDirEntry b s.vol c.inode e fun _ => 0
  return ((s.setVol st.vol).store { c with inode := st.inode }, ok)

def inodeSync (io : InodeIo) (b : Build) (s : Fs part) (i : Inode) : Exec (Fs part) := do
  let disk ← io.sync b part s.vol.disk i
  return s.setVol { s.vol with disk }

def bitmapSync (b : Build) (s : Fs part) (bitIdx : Nat) (btmp : BitmapKind) : Exec (Fs part) := do
  let vol ← OperateSystem.bitmapSync b s.vol bitIdx btmp
  return s.setVol vol

/-- The end of `file_create` and `sys_mkdir`: the entry `e` for the new inode goes into the
parent, and the inodes go to disk. -/
def linkVia (io : InodeIo) (b : Build) (s : Fs part) (parent : Nat) (e : DirEntry) (new : Inode) :
    Exec (Fs part × Bool) := do
  let (s, ok) ← s.syncDirEntry b parent e
  if ok then
    let c ← s.cached parent
    let s ← s.inodeSync io b c.inode
    let s ← s.inodeSync io b new
    let s ← s.bitmapSync b new.iNo.toNat .inodeBitmap
    return (s, true)
  else
    return (s, false)

abbrev link (b : Build) (s : Fs part) (parent : Nat) (e : DirEntry) (new : Inode) : Exec (Fs part × Bool) :=
  s.linkVia .unbounded b parent e new

def callerPool (s : Fs part) (p : Nat) : PoolFlags :=
  if (s.procs p).all (·.kernelThread) then .pfKernel else .pfUser

def fileCreateVia (io : InodeIo) (b : Build) (s : Fs part) (env : CallEnv) (p parent : Nat) (filename : List UInt8)
    (flag : UInt8) : Exec (Fs part × Option (Fin 8)) := do
  if env.ioBuf = false then
    return (s, none)
  match ← inodeBitmapAlloc b s.vol with
  | (none, vol) => return (s.setVol vol, none)
  | (some inodeNo, vol) =>
    let s := s.setVol vol
    if env.newInode = false then
      return (s.clearInodeBit inodeNo, none)
    match s.getFreeSlotInGlobal with
    | none => return (s.clearInodeBit inodeNo, none)
    | some g =>
      let new := inodeInit (.ofNat inodeNo)
      let a := s.newAddr
      let pool := s.callerPool p
      let s := s.setFile g ⟨0, flag.toUInt32, some a⟩
      let e ← createDirEntry b filename (.ofNat inodeNo) ftRegular
      let (s, ok) ← s.linkVia io b parent e new
      if ok then (s.push ⟨a, new, 1, pool⟩).pcbFdInstall p g
      else return ((s.setFile g ⟨0, 0, none⟩).clearInodeBit inodeNo, none)

abbrev fileCreate (b : Build) (s : Fs part) (env : CallEnv) (p parent : Nat) (filename : List UInt8) (flag : UInt8) :
    Exec (Fs part × Option (Fin 8)) :=
  s.fileCreateVia .unbounded b env p parent filename flag

def fileOpen (b : Build) (s : Fs part) (p : Nat) (inodeNo : UInt32) (flag : UInt8) : Exec (Fs part × Option (Fin 8)) := do
  match s.getFreeSlotInGlobal with
  | none => return (s, none)
  | some g =>
    let (s, a) ← s.inodeOpen b inodeNo
    let s := s.setFile g ⟨0, flag.toUInt32, some a⟩
    if flag &&& oWronly ≠ 0 ∨ flag &&& oRdwr ≠ 0 then
      let c ← s.cached a
      if c.inode.writeDeny ≠ 0 then return (s, none)
      else (s.store { c with inode := { c.inode with writeDeny := 1 } }).pcbFdInstall p g
    else s.pcbFdInstall p g

def fileClose (b : Build) (s : Fs part) (g : Fin 32) : Exec (Fs part) := do
  let f := s.fileTable g
  let a ← deref f.fdInode
  let c ← s.cached a
  let s ← (s.store { c with inode := { c.inode with writeDeny := 0 } }).inodeClose b a
  return s.setFile g { f with fdInode := none }

def fileWrite (b : Build) (s : Fs part) (g : Fin 32) (buf : Mem) (count : UInt32) (mem : Buffers) :
    Exec (Fs part × Option Nat) := do
  let f := s.fileTable g
  let a ← deref f.fdInode
  let c ← s.cached a
  let (st, ret) ← OperateSystem.fileWrite b s.vol c.inode f.fdPos buf count mem
  return (((s.setVol st.vol).store { c with inode := st.inode }).setFile g { f with fdPos := st.fdPos }, ret)

/-- `sys_open` up to its `switch`; `none` says that it has returned `-1`. -/
def openChecks (b : Build) (s : Fs part) (env : CallEnv) (pathname : List UInt8) (flags : UInt8) :
    Exec (Fs part × Option (PathSearchRecord × UInt32)) := do
  if pathname.getLast? = some slash then
    return (s, none)
  assert b (flags ≤ 7) "flags <= 7"
  let pathnameDepth ← pathDepthCnt pathname env.oldChar
  let (s, record, inodeNo) ← searchFile b s pathname env.lookups env.oldNo
  if record.fileType = ftDirectory then
    let s ← s.dirClose b record.parentDir
    return (s, none)
  let pathSearchedDepth ← pathDepthCnt record.searchedPath env.oldChar'
  if pathnameDepth ≠ pathSearchedDepth then
    let s ← s.dirClose b record.parentDir
    return (s, none)
  if inodeNo = -1 ∧ flags &&& oCreat = 0 then
    let s ← s.dirClose b record.parentDir
    return (s, none)
  if inodeNo ≠ -1 ∧ flags &&& oCreat ≠ 0 then
    let s ← s.dirClose b record.parentDir
    return (s, none)
  return (s, some (record, inodeNo))

/-- The parent's `struct dir` is not closed when the file is only opened. -/
def sysOpen (b : Build) (s : Fs part) (env : CallEnv) (p : Nat) (pathname : List UInt8) (flags : UInt8) :
    Exec (Fs part × Option (Fin 8)) := do
  match ← s.openChecks b env pathname flags with
  | (s, none) => return (s, none)
  | (s, some (record, inodeNo)) =>
    if flags &&& oCreat ≠ 0 then
      let filename ← afterSlash pathname
      let (s, fd) ← s.fileCreate b env p record.parentDir.inode filename flags
      let s ← s.dirClose b record.parentDir
      return (s, fd)
    else s.fileOpen b p inodeNo flags

def sysClose (b : Build) (s : Fs part) (p : Nat) (fd : Fin 8) : Exec (Fs part) := do
  let P ← deref (s.procs p)
  match P.fdTable fd with
  | none => throw (.assertion "global_fd >= 0 && global_fd < MAX_FILE_OPEN")
  | some g =>
    let f := s.fileTable g
    let s ← (if f.fdFlag = pipeFlag then
        .ok (s.setFile g { f with fdPos := f.fdPos - 1, fdInode := if f.fdPos - 1 = 0 then none else f.fdInode })
      else s.fileClose b g)
    return s.setProc p { P with fdTable := update P.fdTable fd none }

/-! ## Deleting -/

/-- A loop that does not end has no result. The machine hangs, which counts as a stop. -/
def returned {α : Type} : Option α → Exec α
  | some x => .ok x
  | none => .error (.panic "no return")

/-- `delete_dir_entry`, whose `pdir->inode` is the cached inode `a`. All callers ignore
what it returns. -/
def deleteDirEntry (b : Build) (s : Fs part) (env : CallEnv) (a : Nat) (inodeNo : UInt32) : Exec (Fs part) := do
  let c ← s.cached a
  let (st, _) ← returned (← OperateSystem.deleteDirEntry b env.rounds s.vol c.inode inodeNo fun _ => 0)
  return (s.setVol st.vol).store { c with inode := st.inode }

def inFileTable (s : Fs part) (inodeNo : UInt32) : Exec Bool :=
  (List.finRange 32).anyM fun g =>
    match (s.fileTable g).fdInode with
    | none => .ok false
    | some a => do
      let c ← s.cached a
      return c.inode.iNo = inodeNo

def sysUnlink (b : Build) (s : Fs part) (env : CallEnv) (pathname : List UInt8) : Exec (Fs part × Bool) := do
  assert b (pathname.length < 512) "strlen(pathname) < MAX_PATH_LEN"
  let (s, record, inodeNo) ← searchFile b s pathname env.lookups env.oldNo
  assert b (inodeNo ≠ 0) "inode_no != 0"
  let inUse ← (if inodeNo = -1 ∨ record.fileType = ftDirectory then .ok true else s.inFileTable inodeNo)
  if inUse ∨ env.ioBuf = false then
    let s ← s.dirClose b record.parentDir
    return (s, false)
  else
    let s ← s.deleteDirEntry b env record.parentDir.inode inodeNo
    let s ← s.inodeRelease b inodeNo
    let s ← s.dirClose b record.parentDir
    return (s, true)

def noOtherSectors (b : Build) (i : Inode) : Nat → Nat → Exec Unit
  | 0, _ => .ok ()
  | n + 1, blockIdx => do
    assert b (i.sec blockIdx = 0) "child_dir_inode->i_sectors[block_idx] == 0"
    noOtherSectors b i n (blockIdx + 1)

def dirRemove (b : Build) (s : Fs part) (env : CallEnv) (parent child : Nat) : Exec (Fs part × Bool) := do
  let c ← s.cached child
  noOtherSectors b c.inode 12 1
  if env.ioBuf = false then
    return (s, false)
  let s ← s.deleteDirEntry b env parent c.inode.iNo
  let c ← s.cached child
  let s ← s.inodeRelease b c.inode.iNo
  return (s, true)

def dirIsEmpty (c : CachedInode) : Bool := c.inode.iSize = .ofNat dirEntrySize * 2

def sysRmdir (b : Build) (s : Fs part) (env : CallEnv) (pathname : List UInt8) : Exec (Fs part × Bool) := do
  let (s, record, inodeNo) ← searchFile b s pathname env.lookups env.oldNo
  assert b (inodeNo ≠ 0) "inode_no != 0"
  if inodeNo = -1 ∨ record.fileType = ftRegular then
    let s ← s.dirClose b record.parentDir
    return (s, false)
  else
    let (s, dir) ← s.dirOpen b inodeNo
    let c ← s.cached dir.inode
    let (s, ok) ← (if dirIsEmpty c then s.dirRemove b env record.parentDir.inode dir.inode else .ok (s, false))
    let s ← s.dirClose b dir
    let s ← s.dirClose b record.parentDir
    return (s, ok)

/-! ## Directories -/

def mkdirRollback (b : Build) (s : Fs part) (parentDir : DirPtr) (inodeNo : Option Nat) : Exec (Fs part × Bool) := do
  let s := match inodeNo with
    | some n => s.clearInodeBit n
    | none => s
  let s ← s.dirClose b parentDir
  return (s, false)

/-- `sys_mkdir` from the allocation of the inode on; `false` is the return value `-1`. -/
def makeDirVia (io : InodeIo) (b : Build) (s : Fs part) (parentDir : DirPtr) (dirname : List UInt8) :
    Exec (Fs part × Bool) := do
  match ← inodeBitmapAlloc b s.vol with
  | (none, vol) => (s.setVol vol).mkdirRollback b parentDir none
  | (some inodeNo, vol) => do
    let new := inodeInit (.ofNat inodeNo)
    match ← blockBitmapAlloc b vol with
    | (none, vol) => (s.setVol vol).mkdirRollback b parentDir (some inodeNo)
    | (some blockLba, vol) => do
      let new := new.setSec 0 (.ofNat blockLba)
      let blockBitmapIdx := blockLba - part.dataStartLba
      assert b (blockBitmapIdx ≠ 0) "block_bitmap_idx != 0"
      let vol ← OperateSystem.bitmapSync b vol blockBitmapIdx .blockBitmap
      let c ← s.cached parentDir.inode
      let disk ← ideWrite b vol.disk (new.sec 0).toNat (dotEntries (.ofNat inodeNo) c.inode.iNo) 1
      let new := { new with iSize := 2 * .ofNat dirEntrySize }
      let e ← createDirEntry b dirname (.ofNat inodeNo) ftDirectory
      let (s, ok) ← (s.setVol { vol with disk }).linkVia io b parentDir.inode e new
      if ok then
        let s ← s.dirClose b parentDir
        return (s, true)
      else s.mkdirRollback b parentDir (some inodeNo)

abbrev makeDir (b : Build) (s : Fs part) (parentDir : DirPtr) (dirname : List UInt8) : Exec (Fs part × Bool) :=
  s.makeDirVia .unbounded b parentDir dirname

def sysMkdir (b : Build) (s : Fs part) (env : CallEnv) (pathname : List UInt8) : Exec (Fs part × Bool) := do
  if env.ioBuf = false then
    return (s, false)
  let (s, record, inodeNo) ← searchFile b s pathname env.lookups env.oldNo
  if inodeNo ≠ -1 then s.mkdirRollback b record.parentDir none
  else
    let pathnameDepth ← pathDepthCnt pathname env.oldChar
    let pathSearchedDepth ← pathDepthCnt record.searchedPath env.oldChar'
    if pathnameDepth ≠ pathSearchedDepth then s.mkdirRollback b record.parentDir none
    else
      let dirname ← afterSlash record.searchedPath
      s.makeDir b record.parentDir dirname

def sysOpendir (b : Build) (s : Fs part) (env : CallEnv) (name : List UInt8) : Exec (Fs part × Option DirPtr) := do
  assert b (name.length < 512) "strlen(name) < MAX_PATH_LEN"
  if name = [slash] then
    return (s, some s.rootPtr)
  let (s, record, inodeNo) ← searchFile b s name env.lookups env.oldNo
  if inodeNo ≠ -1 ∧ record.fileType = ftDirectory then
    let (s, dir) ← s.dirOpen b inodeNo
    let s ← { s with dirs := dir.inode :: s.dirs }.dirClose b record.parentDir
    return (s, some dir)
  else
    let s ← s.dirClose b record.parentDir
    return (s, none)

def sysClosedir (b : Build) (s : Fs part) (dir : DirPtr) : Exec (Fs part) :=
  if dir.isRootDir then s.dirClose b dir
  else do
    inBounds (dir.inode ∈ s.dirs)
    { s with dirs := s.dirs.erase dir.inode }.dirClose b dir

structure Stat where
  stIno : UInt32
  stSize : UInt32
  stFiletype : UInt32

def sysStat (b : Build) (s : Fs part) (env : CallEnv) (path : List UInt8) : Exec (Fs part × Option Stat) := do
  if path ∈ rootPaths then
    let c ← s.cached s.rootDir
    return (s, some ⟨0, c.inode.iSize, ftDirectory⟩)
  let (s, record, inodeNo) ← searchFile b s path env.lookups env.oldNo
  if inodeNo ≠ -1 then
    let (s, a) ← s.inodeOpen b inodeNo
    let c ← s.cached a
    let s ← s.inodeClose b a
    let s ← s.dirClose b record.parentDir
    return (s, some ⟨inodeNo, c.inode.iSize, record.fileType⟩)
  else
    let s ← s.dirClose b record.parentDir
    return (s, none)

def sysChdir (b : Build) (s : Fs part) (env : CallEnv) (p : Nat) (path : List UInt8) : Exec (Fs part × Bool) := do
  let P ← deref (s.procs p)
  let (s, record, inodeNo) ← searchFile b s path env.lookups env.oldNo
  if inodeNo ≠ -1 ∧ record.fileType = ftDirectory then
    let s ← (s.setProc p { P with cwdInodeNr := inodeNo }).dirClose b record.parentDir
    return (s, true)
  else
    let s ← s.dirClose b record.parentDir
    return (s, false)

/-! ## `sys_fork` -/

def updateInodeOpenCnts (P : FsProc) : List (Fin 8) → Fs part → Exec (Fs part)
  | [], s => .ok s
  | d :: ds, s =>
    match P.fdTable d with
    | none => updateInodeOpenCnts P ds s
    | some g =>
      let f := s.fileTable g
      if f.fdFlag = pipeFlag then updateInodeOpenCnts P ds (s.setFile g { f with fdPos := f.fdPos + 1 })
      else do
        let a ← deref f.fdInode
        let c ← s.cached a
        updateInodeOpenCnts P ds (s.store { c with iOpenCnts := c.iOpenCnts + 1 })

/-- `sys_fork` with enough memory; `child` is a pid that is not in use. -/
def sysFork (s : Fs part) (p child : Nat) : Exec (Fs part) := do
  let P ← deref (s.procs p)
  let s ← updateInodeOpenCnts P fds s
  return s.setProc child P

end Fs

end

end OperateSystem
