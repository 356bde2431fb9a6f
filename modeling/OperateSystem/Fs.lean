import OperateSystem.Descriptors
import OperateSystem.Dir
import OperateSystem.FileRun
import OperateSystem.Pages

/-!
# Paths, cached inodes and the path search

`fs/inode.c` and the first half of `fs/fs.c`. A path is the list of its
characters without the NUL. A pointer to a cached inode is its address, and a
pointer to a directory is the address of its inode together with whether it is
`&root_dir`; the memory of the `struct dir` itself is left out.
-/

namespace OperateSystem

/-! ## Paths -/

def slash : UInt8 := 47

def pathParse (pathname : List UInt8) : List UInt8 × Option (List UInt8) :=
  let p := pathname.dropWhile (· = slash)
  let rest := p.dropWhile (· ≠ slash)
  (p.takeWhile (· ≠ slash), if rest = [] then none else some rest)

/-- The names that repeated calls of `path_parse` store, until one is empty. A call
leaves a shorter path, so the length of the path is enough rounds. -/
def pathNames : Nat → List UInt8 → List (List UInt8)
  | 0, _ => []
  | n + 1, pathname =>
    match pathParse pathname with
    | ([], _) => []
    | (name, none) => [name]
    | (name, some rest) => name :: pathNames n rest

def names (pathname : List UInt8) : List (List UInt8) := pathNames pathname.length pathname

/-- `path_depth_cnt`. The array `name` is not cleared at first, so its first
character `old` counts if the path has no name of its own. -/
def pathDepthCnt (pathname : List UInt8) (old : UInt8) : Exec Nat := do
  inBounds (∀ name ∈ names pathname, name.length ≤ 16)
  return if names pathname = [] then (if old = 0 then 0 else 1) else (names pathname).length

def afterSlash (path : List UInt8) : Exec (List UInt8) := do
  inBounds (slash ∈ path)
  return (path.reverse.takeWhile (· ≠ slash)).reverse

/-! ## Cached inodes -/

/-- An inode in `part->open_inodes`; `pool` is where `sys_malloc` took it from. -/
structure CachedInode where
  addr : Nat
  inode : Inode
  iOpenCnts : Nat
  pool : PoolFlags

structure DirPtr where
  inode : Nat
  isRootDir : Bool

structure FsProc where
  fdTable : Fin 8 → Option (Fin 32)
  cwdInodeNr : UInt32
  /-- Whether `pgdir` is `NULL`, as it is for kernel threads. -/
  kernelThread : Bool

structure Fs (part : Partition) where
  vol : Volume part
  openInodes : List CachedInode
  fileTable : Fin 32 → File
  rootDir : Nat
  /-- The inodes of the directories that `sys_opendir` returned, other than
  `&root_dir`, and that are not closed. -/
  dirs : List Nat
  procs : Nat → Option FsProc
  /-- For every inode that `inode_close` freed, the pool it came from and the one it went to. -/
  freed : List (PoolFlags × PoolFlags)

namespace Fs

variable {part : Partition}

def setVol (s : Fs part) (vol : Volume part) : Fs part := { s with vol }

def cached (s : Fs part) (a : Nat) : Exec CachedInode := deref (s.openInodes.find? (·.addr = a))

def store (s : Fs part) (c : CachedInode) : Fs part :=
  { s with openInodes := s.openInodes.map fun x => if x.addr = c.addr then c else x }

def newAddr (s : Fs part) : Nat := (s.openInodes.map (·.addr)).foldr max s.rootDir + 1

def push (s : Fs part) (c : CachedInode) : Fs part := { s with openInodes := c :: s.openInodes }

/-- That there is memory for the inode is taken for granted. -/
def inodeOpen (b : Build) (s : Fs part) (inodeNo : UInt32) : Exec (Fs part × Nat) :=
  match s.openInodes.find? (·.inode.iNo = inodeNo) with
  | some c => .ok (s.store { c with iOpenCnts := c.iOpenCnts + 1 }, c.addr)
  | none => do
    let inode ← inodeRead b part s.vol.disk inodeNo.toNat
    return (s.push ⟨s.newAddr, inode, 1, .pfKernel⟩, s.newAddr)

/-- `inode_close`. The inode is freed as kernel memory, for which `sys_free` checks its
address. -/
def inodeClose (b : Build) (s : Fs part) (a : Nat) : Exec (Fs part) := do
  let c ← s.cached a
  if c.iOpenCnts = 1 then
    assert b (c.pool = .pfKernel) "(uint32_t)ptr >= K_HEAP_START"
    return { s with
      openInodes := s.openInodes.filter fun x => x.addr ≠ a
      freed := (c.pool, .pfKernel) :: s.freed }
  else
    return s.store { c with iOpenCnts := c.iOpenCnts - 1 }

def inodeReleaseVia (io : InodeIo) (b : Build) (s : Fs part) (inodeNo : UInt32) : Exec (Fs part) := do
  let (s, a) ← s.inodeOpen b inodeNo
  let c ← s.cached a
  assert b (c.inode.iNo = inodeNo) "inode_to_del->i_no == inode_no"
  let vol ← releaseVolVia io b s.vol c.inode inodeNo
  (s.setVol vol).inodeClose b a

abbrev inodeRelease (b : Build) (s : Fs part) (inodeNo : UInt32) : Exec (Fs part) :=
  s.inodeReleaseVia .unbounded b inodeNo

/-! ## Directories -/

def rootPtr (s : Fs part) : DirPtr := ⟨s.rootDir, true⟩

def dirOpen (b : Build) (s : Fs part) (inodeNo : UInt32) : Exec (Fs part × DirPtr) := do
  let (s, a) ← s.inodeOpen b inodeNo
  return (s, ⟨a, false⟩)

def dirClose (b : Build) (s : Fs part) (dir : DirPtr) : Exec (Fs part) :=
  if dir.isRootDir then .ok s else s.inodeClose b dir.inode

end Fs

/-! ## `search_file` -/

def ftRegular : UInt32 := 1

def ftDirectory : UInt32 := 2

structure PathSearchRecord where
  searchedPath : List UInt8
  parentDir : DirPtr
  fileType : UInt32

structure Searching (part : Partition) where
  fs : Fs part
  parentDir : DirPtr
  parentInodeNo : UInt32
  searchedPath : List UInt8
  iNo : UInt32

section
variable {part : Partition}

/-- The loop over the names. `mem` tells for each lookup, counted from the last name,
whether `search_dir_entry` finds memory. -/
def searchLoop (b : Build) (mem : Nat → Bool) :
    List (List UInt8) → Searching part → Exec (Fs part × PathSearchRecord × UInt32)
  | [], st => do
    -- all names are found and the last one is a directory
    let fs ← st.fs.dirClose b st.parentDir
    let (fs, parentDir) ← fs.dirOpen b st.parentInodeNo
    return (fs, ⟨st.searchedPath, parentDir, ftDirectory⟩, st.iNo)
  | name :: rest, st => do
    assert b (st.searchedPath.length < 512) "strlen(searched_record->searched_path) < 512"
    let searchedPath := st.searchedPath ++ slash :: name
    let c ← st.fs.cached st.parentDir.inode
    match ← searchDirEntry b st.fs.vol.disk c.inode name (mem rest.length) fun _ => 0 with
    | none => return (st.fs, ⟨searchedPath, st.parentDir, 0⟩, -1)
    | some e =>
      inBounds (∀ next ∈ rest.head?, next.length < 16)
      if e.fType = ftDirectory then
        let fs ← st.fs.dirClose b st.parentDir
        let (fs, parentDir) ← fs.dirOpen b e.iNo
        searchLoop b mem rest ⟨fs, parentDir, c.inode.iNo, searchedPath, e.iNo⟩
      else if e.fType = ftRegular then
        return (st.fs, ⟨searchedPath, st.parentDir, ftRegular⟩, e.iNo)
      else searchLoop b mem rest { st with searchedPath, iNo := e.iNo }

def rootPaths : List (List UInt8) := [[slash], slash :: dot, slash :: dotDot]

instance instLawfulBEqPath : LawfulBEq (List UInt8) := inferInstance

/-- A path without a name leaves `dir_e.i_no` as it was on the stack, `old`. -/
def searchFile (b : Build) (s : Fs part) (pathname : List UInt8) (mem : Nat → Bool) (old : UInt32) :
    Exec (Fs part × PathSearchRecord × UInt32) :=
  if pathname ∈ rootPaths then return (s, ⟨[], s.rootPtr, ftDirectory⟩, 0)
  else do
    assert b (pathname.head? = some slash ∧ 1 < pathname.length ∧ pathname.length < 512)
      "pathname[0] == '/' && path_len > 1 && path_len < MAX_PATH_LEN"
    inBounds (∀ name ∈ (names pathname).head?, name.length < 16)
    searchLoop b mem (names pathname) ⟨s, s.rootPtr, 0, [], old⟩

end

end OperateSystem
