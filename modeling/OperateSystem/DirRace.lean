import OperateSystem.DirSound
import OperateSystem.Interleave

/-!
# Two insertions into one directory

`sync_dir_entry` cut at its disk requests, where the driver blocks the caller.
Control may switch before a request and after it, and the other caller works on
the same partition and the same inode in memory.
-/

namespace OperateSystem

inductive SyncRequest where
  | readBlock (blockIdx : Nat)
  | syncBlock (blockIdx blockLba : Nat)
  | syncIndirect (blockLba : Nat)
  | writeTable (blockIdx : Nat)
  | writeEntry (blockIdx : Nat)

inductive SyncPc where
  | start
  | before (r : SyncRequest)
  | after (r : SyncRequest)
  | returned (ok : Bool)

structure SyncCall where
  e : DirEntry
  all : Blocks
  ioBuf : Mem
  pc : SyncPc

section
variable {part : Partition}

def atBlock (b : Build) (blockIdx : Nat) (s : DirState part) (c : SyncCall) : Exec (DirState part × SyncCall) :=
  if 140 ≤ blockIdx then return (s, { c with pc := .returned false })
  else if c.all blockIdx = 0 then do
    match ← blockBitmapAlloc b s.vol with
    | (none, vol) => return ({ s with vol }, { c with pc := .returned false })
    | (some blockLba, vol) => return ({ s with vol }, { c with pc := .before (.syncBlock blockIdx blockLba) })
  else return (s, { c with pc := .before (.readBlock blockIdx) })

def newSector (blockIdx : Nat) (c : SyncCall) : SyncCall :=
  { c with ioBuf := blit (fill c.ioBuf 0 512 0) 0 c.e.toMem 0 dirEntrySize, pc := .before (.writeEntry blockIdx) }

def syncRequest (b : Build) (s : DirState part) (c : SyncCall) : SyncRequest → Exec (DirState part × SyncCall)
  | .readBlock blockIdx => do
    let ioBuf ← ideRead b s.vol.disk (c.all blockIdx).toNat c.ioBuf 1
    return (s, { c with ioBuf, pc := .after (.readBlock blockIdx) })
  | .syncBlock blockIdx blockLba => do
    let vol ← bitmapSync b s.vol (blockLba - part.dataStartLba) .blockBitmap
    return ({ s with vol }, { c with pc := .after (.syncBlock blockIdx blockLba) })
  | .syncIndirect blockLba => do
    let vol ← bitmapSync b s.vol (blockLba - part.dataStartLba) .blockBitmap
    return ({ s with vol }, { c with pc := .after (.syncIndirect blockLba) })
  | .writeTable blockIdx => do
    let disk ← storeTable b s.vol.disk (s.inode.sec 12) c.all
    return ({ s with vol := { s.vol with disk } }, { c with pc := .after (.writeTable blockIdx) })
  | .writeEntry blockIdx => do
    let disk ← ideWrite b s.vol.disk (c.all blockIdx).toNat c.ioBuf 1
    return ({ s with vol := { s.vol with disk } }, { c with pc := .after (.writeEntry blockIdx) })

def afterRequest (b : Build) (s : DirState part) (c : SyncCall) : SyncRequest → Exec (DirState part × SyncCall)
  | .readBlock blockIdx =>
    match freeEntry c.ioBuf (512 / dirEntrySize) 0 with
    | some i => return (s, { c with
        ioBuf := blit c.ioBuf (dirEntrySize * i) c.e.toMem 0 dirEntrySize
        pc := .before (.writeEntry blockIdx) })
    | none => atBlock b (blockIdx + 1) s c
  | .syncBlock blockIdx blockLba =>
    if blockIdx < 12 then
      return ({ s with inode := s.inode.setSec blockIdx (.ofNat blockLba) },
        newSector blockIdx { c with all := c.all.set blockIdx (.ofNat blockLba) })
    else if blockIdx = 12 then do
      let inode := s.inode.setSec 12 (.ofNat blockLba)
      match ← blockBitmapAlloc b s.vol with
      | (none, vol) =>
        let blockBitmapIdx := (inode.sec 12).toNat - part.dataStartLba
        return (⟨{ vol with blockBitmap := bitmapSet vol.blockBitmap blockBitmapIdx false, block_len := vol.block_len },
          inode.setSec 12 0⟩, { c with pc := .returned false })
      | (some blockLba, vol) => return (⟨vol, inode⟩, { c with pc := .before (.syncIndirect blockLba) })
    else
      return (s, { c with all := c.all.set blockIdx (.ofNat blockLba), pc := .before (.writeTable blockIdx) })
  | .syncIndirect blockLba =>
    return (s, { c with all := c.all.set 12 (.ofNat blockLba), pc := .before (.writeTable 12) })
  | .writeTable blockIdx => return (s, newSector blockIdx c)
  | .writeEntry _ =>
    return ({ s with inode := { s.inode with iSize := s.inode.iSize + .ofNat dirEntrySize } },
      { c with pc := .returned true })

def syncStep (b : Build) (s : DirState part) (c : SyncCall) : Exec (DirState part × SyncCall) :=
  match c.pc with
  | .start => do
    assert b (s.inode.iSize.toNat % dirEntrySize = 0) "dir_size % dir_entry_size == 0"
    atBlock b 0 s { c with all := copySectors s.inode 12 0 fun _ => 0 }
  | .before r => syncRequest b s c r
  | .after r => afterRequest b s c r
  | .returned _ => .ok (s, c)

end

def SyncPc.ended : SyncPc → Bool
  | .returned _ => true
  | _ => false

def SyncPc.started : SyncPc → Bool
  | .start => false
  | _ => true

def syncMachine (b : Build) (part : Partition) : Machine (DirState part) SyncCall Fault where
  step := syncStep b
  started c := c.pc.started
  ended c := c.pc.ended

end OperateSystem
