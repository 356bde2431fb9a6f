import OperateSystem.FileRunSound
import OperateSystem.FsRun
import OperateSystem.FsEnds
import OperateSystem.LoadHeaders
import OperateSystem.TaskName

/-!
# `sys_execv`

`load` with its `sys_open` and `sys_close`, and what `sys_execv` does with its
result. The old image is overwritten while the program headers are still being
read, so a call that fails may already have replaced some of it. A file outside the
root directory costs the caller the `struct dir` that `sys_open` does not close.
-/

namespace OperateSystem

open Function

def oRdonly : UInt8 := 0

structure IntrStack where
  ebx : UInt32
  ecx : UInt32
  eip : UInt32
  esp : UInt32

/-- `sys_malloc` for a `struct dir`, of 520 bytes: a free block, or the first of a new arena at the
first free address. `dir_open` does not test for `NULL`. -/
def Loading.mallocDir (b : Build) (st : Loading) : Exec Loading := do
  if st.spare then return st
  match ← bitmapScan b st.vaddrBitmap 1 with
  | none => throw .outOfBounds
  | some bitIdx =>
    assert b (userVaddrStart + bitIdx * pgSize < 0xc0000000 - pgSize)
      "(uint32_t)vaddr_start < (0xc0000000 - PG_SIZE)"
    inBounds (st.frames ≠ 0)
    let page := userVaddrStart / pgSize + bitIdx
    return { st with
      vaddrBitmap := bitmapSet st.vaddrBitmap bitIdx true
      mapped := update st.mapped page true
      heap := update st.heap page true
      spare := true
      frames := st.frames - 1
      bitmap_len := st.bitmap_len }

structure Execv (part : Partition) where
  fs : Fs part
  image : Loading
  name : Mem

namespace Execv

variable {part : Partition}

/-- `load`; `none` is the return value `-1`. The position is that of the slot in
`file_table`. Of `sys_open` it needs the two halves. -/
def load (b : Build) (s : Execv part) (env : CallEnv) (bufs : Nat → Buffers) (p : Nat) (pathname : List UInt8) :
    Exec (Execv part × Option UInt32) := do
  match ← s.fs.openChecks b env pathname oRdonly with
  | (fs, none) => return ({ s with fs }, none)
  | (fs, some (record, inodeNo)) =>
    let image ← (if record.parentDir.isRootDir then .ok s.image else s.image.mallocDir b)
    match ← fs.fileOpen b p inodeNo oRdonly with
    | (fs, none) => return ({ s with fs, image }, none)
    | (fs, some fd) =>
      let P ← deref (fs.procs p)
      let g ← deref (P.fdTable fd)
      let f := fs.fileTable g
      let a ← deref f.fdInode
      let c ← fs.cached a
      let (image, ret) ← OperateSystem.load b fs.vol.disk c.inode bufs { image with fdPos := f.fdPos }
      let fs ← (fs.setFile g { f with fdPos := image.fdPos }).sysClose b p fd
      return ({ s with fs, image }, ret)

/-- `pathname` is the string at `path` when the call is made, and `argc` the number of pointers at
`argv`. An entry point of `-1` is a failure too. -/
def sysExecv (b : Build) (s : Execv part) (env : CallEnv) (bufs : Nat → Buffers) (p : Nat) (path : UInt32)
    (pathname : List UInt8) (argv argc : UInt32) : Exec (Execv part × Option IntrStack) := do
  let (s, entryPoint) ← s.load b env bufs p pathname
  match entryPoint with
  | none => return (s, none)
  | some entryPoint =>
    if entryPoint = 0xffffffff then return (s, none)
    else
      let name := execName (fun k => s.image.mem ((path.toNat + k) % 2 ^ 32)) s.name
      return ({ s with name := name }, some ⟨argv, argc, entryPoint, 0xc0000000⟩)

end Execv

/-! ## Descriptors -/

namespace Fs

variable {part : Partition} {b : Build} {s s' : Fs part} {p : Nat} {pathname : List UInt8}

end Fs

/-! ## The call -/

namespace Execv

variable {part : Partition} {s s' : Execv part} {env : CallEnv} {p : Nat} {pathname : List UInt8}

end Execv

end OperateSystem
