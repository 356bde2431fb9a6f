import OperateSystem.FsCalls

/-!
# The working directory

`sys_getcwd` of `fs/fs.c` with its two helpers, and `wash_path` of
`shell/buildin_cmd.c`. The call climbs from the working directory to the root: a
directory's number of the one above is in its second slot, and its name is in the
slot of the one above that has its number.
-/

namespace OperateSystem

section
variable {part : Partition}

/-! ## `get_child_dir_name` -/

/-- The loop over the entries of a sector, with the number that are left. Their type is not
looked at. -/
def childInSector (buf : Mem) (cInodeNr : UInt32) : Nat → Nat → Option DirEntry
  | 0, _ => none
  | n + 1, dirEIdx =>
    if (DirEntry.ofMem buf (dirEntrySize * dirEIdx)).iNo = cInodeNr then some (.ofMem buf (dirEntrySize * dirEIdx))
    else childInSector buf cInodeNr n (dirEIdx + 1)

def childInBlocks (b : Build) (disk : Mem) (all : Blocks) (cInodeNr : UInt32) : Nat → Nat → Mem → Exec (Option DirEntry)
  | 0, _, _ => .ok none
  | n + 1, blockIdx, ioBuf =>
    if all blockIdx = 0 then childInBlocks b disk all cInodeNr n (blockIdx + 1) ioBuf
    else do
      let ioBuf ← ideRead b disk (all blockIdx).toNat ioBuf 1
      match childInSector ioBuf cInodeNr (512 / dirEntrySize) 0 with
      | some e => return some e
      | none => childInBlocks b disk all cInodeNr n (blockIdx + 1) ioBuf

namespace Fs

/-- `get_parent_dir_inode_nr`. The read overwrites all of `io_buf`. -/
def getParentDirInodeNr (b : Build) (s : Fs part) (childInodeNr : UInt32) : Exec (Fs part × UInt32) := do
  let (s, a) ← s.inodeOpen b childInodeNr
  let c ← s.cached a
  let blockLba := (c.inode.sec 0).toNat
  assert b (part.dataStartLba ≤ blockLba) "block_lba >= cur_part->sb->data_start_lba"
  let s ← s.inodeClose b a
  let ioBuf ← ideRead b s.vol.disk blockLba (fun _ => 0) 1
  let dirE := DirEntry.ofMem ioBuf dirEntrySize
  assert b (dirE.iNo < 4096 ∧ dirE.fType = ftDirectory) "dir_e[1].i_no < 4096 && dir_e[1].f_type == FT_DIRECTORY"
  return (s, dirE.iNo)

/-- `path` is an array of 512 characters; `none` is the return value `-1`. -/
def getChildDirName (b : Build) (s : Fs part) (pInodeNr cInodeNr : UInt32) (path : List UInt8) :
    Exec (Fs part × Option (List UInt8)) := do
  let (s, a) ← s.inodeOpen b pInodeNr
  let c ← s.cached a
  let all ← allBlocks b s.vol.disk c.inode
  let blockCnt := if c.inode.sec 12 ≠ 0 then 140 else 12
  let s ← s.inodeClose b a
  match ← childInBlocks b s.vol.disk all cInodeNr blockCnt 0 fun _ => 0 with
  | none => return (s, none)
  | some e =>
    -- `strcat` stops at a NUL
    inBounds (∃ j, e.filename j = 0)
    inBounds ((path ++ slash :: e.name).length < 512)
    return (s, some (path ++ slash :: e.name))

/-! ## `sys_getcwd` -/

/-- The loop up to the root, whose result is what `full_path_reverse` holds, or `none` if a name
is not found. -/
def climb (b : Build) : Nat → Fs part → UInt32 → List UInt8 → Exec (Option (Fs part × Option (List UInt8)))
  | 0, _, _, _ => .ok none
  | n + 1, s, childInodeNr, fullPathReverse =>
    if childInodeNr = 0 then .ok (some (s, some fullPathReverse))
    else do
      let (s, parentInodeNr) ← s.getParentDirInodeNr b childInodeNr
      match ← s.getChildDirName b parentInodeNr childInodeNr fullPathReverse with
      | (s, none) => return some (s, none)
      | (s, some fullPathReverse) => climb b n s parentInodeNr fullPathReverse

end Fs

def beforeSlash (path : List UInt8) : List UInt8 := (path.reverse.dropWhile (· ≠ slash)).tail.reverse

/-- The loop that moves the names into `buf`, the last one first. -/
def moveNames (size : Nat) : Nat → List UInt8 → List UInt8 → Exec (List UInt8)
  | 0, buf, _ => .ok buf
  | n + 1, buf, fullPathReverse =>
    if slash ∈ fullPathReverse then do
      let name ← afterSlash fullPathReverse
      inBounds ((buf ++ slash :: name).length < size)
      moveNames size n (buf ++ slash :: name) (beforeSlash fullPathReverse)
    else .ok buf

/-- `ioBuf` tells whether `sys_malloc` finds memory, and `rounds` bounds the loop up to the root.
-/
def Fs.sysGetcwd (b : Build) (s : Fs part) (ioBuf : Bool) (rounds p size : Nat) : Exec (Fs part × Option (List UInt8)) := do
  if ioBuf = false then
    return (s, none)
  let P ← deref (s.procs p)
  assert b (P.cwdInodeNr < 4096) "child_inode_nr >= 0 && child_inode_nr < 4096"
  if P.cwdInodeNr = 0 then
    inBounds (2 ≤ size)
    return (s, some [slash])
  match ← Fs.returned (← s.climb b rounds P.cwdInodeNr []) with
  | (s, none) => return (s, none)
  | (s, some fullPathReverse) =>
    assert b (fullPathReverse.length ≤ size) "strlen(full_path_reverse) <= size"
    let buf ← moveNames size fullPathReverse.length [] fullPathReverse
    return (s, some buf)

end

/-! ## `wash_path` -/

def washStep (newAbsPath name : List UInt8) : List UInt8 :=
  if name = dotDot then
    -- the last slash is cut off with what follows, unless it is the first character
    if beforeSlash newAbsPath ≠ [] then beforeSlash newAbsPath else newAbsPath.take 1
  else if name ≠ dot then (if newAbsPath ≠ [slash] then newAbsPath ++ [slash] else newAbsPath) ++ name
  else newAbsPath

def washPath (b : Build) (oldAbsPath : List UInt8) : Exec (List UInt8) := do
  assert b (oldAbsPath.head? = some slash) "old_abs_path[0] == '/'"
  inBounds (∀ name ∈ names oldAbsPath, name.length < 16)
  return if names oldAbsPath = [] then [slash] else (names oldAbsPath).foldl washStep [slash]

end OperateSystem
