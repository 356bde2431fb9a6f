import OperateSystem.FsRun
import OperateSystem.IoQueue
import OperateSystem.Pipes

/-!
# System calls on descriptors

`sys_read`, `sys_write`, `sys_lseek` and `sys_close` of `fs/fs.c`. On a pipe the
call goes on in the queue that the slot of `file_table` points to, and a call on
a standard descriptor may go on at the keyboard or the console.
-/

namespace OperateSystem

/-- A call returns, `none` for `-1`, returns with the caller's buffer filled, or goes on
elsewhere. -/
inductive IoEnd (part : Partition) where
  | ret (s : Fs part) (v : Option Nat)
  | filled (s : Fs part) (v : Option Nat) (buf : Mem)
  | pipe (ioq : Nat) (c : IoCall)
  | keyboard (count : UInt32)
  | console (count : UInt32)

namespace Fs

variable {part : Partition}

/-- `fd_local2global`; the descriptor is an index into `fd_table`, unchecked. -/
def fdLocal2Global (s : Fs part) (p : Nat) (fd : Int32) : Exec (Fin 32) := do
  let P ← deref (s.procs p)
  inBounds (0 ≤ fd ∧ fd < 8)
  match P.fdTable (Fin.ofNat 8 fd.toInt.toNat) with
  | none => throw (.assertion "global_fd >= 0 && global_fd < MAX_FILE_OPEN")
  | some g => return g

def isPipe (s : Fs part) (p : Nat) (fd : Int32) : Exec Bool := do
  let g ← s.fdLocal2Global p fd
  return (s.fileTable g).fdFlag = pipeFlag

def pipeCall (s : Fs part) (p : Nat) (fd : Int32) (c : IoCall) : Exec (IoEnd part) := do
  let g ← s.fdLocal2Global p fd
  let ioq ← deref (s.fileTable g).fdInode
  return .pipe ioq c

def fileRead (b : Build) (s : Fs part) (g : Fin 32) (buf : Mem) (count : UInt32) (mem : Buffers) : Exec (IoEnd part) := do
  let f := s.fileTable g
  let a ← deref f.fdInode
  let c ← s.cached a
  let r ← OperateSystem.fileRead b s.vol.disk c.inode f.fdPos buf count mem
  return .filled (s.setFile g { f with fdPos := r.fdPos }) r.ret r.buf

/-- Before the console prints the bytes they are copied to an array of 1024. -/
def sysWrite (b : Build) (s : Fs part) (p : Nat) (fd : Int32) (buf : Mem) (count : UInt32) (mem : Buffers) :
    Exec (IoEnd part) := do
  if fd < 0 then
    return .ret s none
  if fd = 1 then
    if ← s.isPipe p fd then s.pipeCall p fd (.pipeWrite buf count)
    else
      inBounds (count ≤ 1024)
      return .console count
  else if ← s.isPipe p fd then s.pipeCall p fd (.pipeWrite buf count)
  else
    let g ← s.fdLocal2Global p fd
    let flag := (s.fileTable g).fdFlag
    if flag &&& oWronly.toUInt32 ≠ 0 ∨ flag &&& oRdwr.toUInt32 ≠ 0 then
      let (s, ret) ← s.fileWrite b g buf count mem
      return .ret s ret
    else
      return .ret s none

def sysRead (b : Build) (s : Fs part) (p : Nat) (fd : Int32) (buf : Option Mem) (count : UInt32) (mem : Buffers) :
    Exec (IoEnd part) := do
  assert b (buf.isSome = true) "buf != NULL"
  if fd < 0 ∨ fd = 1 ∨ fd = 2 then
    return .ret s none
  else if fd = 0 then
    if ← s.isPipe p fd then s.pipeCall p fd (.pipeRead count)
    else return .keyboard count
  else if ← s.isPipe p fd then s.pipeCall p fd (.pipeRead count)
  else
    let g ← s.fdLocal2Global p fd
    s.fileRead b g (buf.getD fun _ => 0) count mem

def sysLseek (b : Build) (s : Fs part) (p : Nat) (fd offset : Int32) (whence : UInt8) : Exec (IoEnd part) := do
  if fd < 0 then
    return .ret s none
  assert b (whence > 0 ∧ whence < 4) "whence > 0 && whence < 4"
  let g ← s.fdLocal2Global p fd
  let f := s.fileTable g
  let a ← deref f.fdInode
  let c ← s.cached a
  match PipeState.seekPos f offset whence.toNat c.inode.iSize with
  | none => return .ret s none
  | some pos => return .ret (s.setFile g { f with fdPos := pos }) (some pos.toNat)

def sysCloseFd (b : Build) (s : Fs part) (p : Nat) (fd : Int32) : Exec (IoEnd part) := do
  if fd > 2 then
    let _ ← s.fdLocal2Global p fd
    let s ← s.sysClose b p (Fin.ofNat 8 fd.toInt.toNat)
    return .ret s (some 0)
  else
    return .ret s none

def Refused (s : Fs part) : Exec (IoEnd part) → Prop
  | .ok (.ret s' none) => s'.fileTable = s.fileTable ∧ s'.procs = s.procs ∧ s'.openInodes = s.openInodes ∧ s'.vol = s.vol
  | _ => False

end Fs

def FsProc.NotOpen (P : FsProc) (fd : Int32) : Prop :=
  fd < 0 ∨ 8 ≤ fd ∨ (3 ≤ fd ∧ P.fdTable (Fin.ofNat 8 fd.toInt.toNat) = none)

/-! ## Runs -/

inductive FileCall where
  | sysOpen (env : CallEnv) (p : Nat) (pathname : List UInt8) (flags : UInt8)
  | sysWrite (p : Nat) (fd : Int32) (buf : Mem) (count : UInt32) (mem : Buffers)
  | sysRead (p : Nat) (fd : Int32) (buf : Option Mem) (count : UInt32) (mem : Buffers)
  | sysLseek (p : Nat) (fd offset : Int32) (whence : UInt8)
  | sysClose (p : Nat) (fd : Int32)

section
variable {part : Partition}

def FileCall.run (b : Build) (s : Fs part) : FileCall → Exec (IoEnd part)
  | .sysOpen env p pathname flags => do
    let (s, fd) ← s.sysOpen b env p pathname flags
    return .ret s (fd.map (·.val))
  | .sysWrite p fd buf count mem => s.sysWrite b p fd buf count mem
  | .sysRead p fd buf count mem => s.sysRead b p fd buf count mem
  | .sysLseek p fd offset whence => s.sysLseek b p fd offset whence
  | .sysClose p fd => s.sysCloseFd b p fd

def IoEnd.fs : IoEnd part → Option (Fs part)
  | .ret s _ => some s
  | .filled s _ _ => some s
  | _ => none

def FileStep (b : Build) (call : FileCall) (s s' : Fs part) : Prop := ∃ r, call.run b s = .ok r ∧ r.fs = some s'

/-- No file is read or written behind its end: every position is at most the size. -/
def Fs.PosOk (s : Fs part) : Prop := ∀ g a, (s.fileTable g).fdInode = some a → (s.fileTable g).fdFlag ≠ pipeFlag →
  ∀ c ∈ s.openInodes, c.addr = a → (s.fileTable g).fdPos ≤ c.inode.iSize

def Fs.Leads (s : Fs part) (p : Nat) (fd : Int32) (g : Fin 32) (c : CachedInode) : Prop :=
  s.fdLocal2Global p fd = .ok g ∧ (s.fileTable g).fdInode = some c.addr ∧ s.cached c.addr = .ok c

/-- No `sys_write` of nothing to an empty file, and no new entry in a directory whose size would
wrap around. No directory comes near that: it has 140 blocks of 21 entries at most. -/
def FileCall.Sized (b : Build) (s : Fs part) : FileCall → Prop
  | .sysOpen env _ pathname _ => ∀ s1 record inodeNo c,
    searchFile b s pathname env.lookups env.oldNo = .ok (s1, record, inodeNo) →
    s1.cached record.parentDir.inode = .ok c → c.inode.iSize.toNat + dirEntrySize < 2 ^ 32
  | .sysWrite p fd _ count _ => count = 0 → ∀ g c, s.Leads p fd g c → c.inode.iSize ≠ 0
  | _ => True

end

end OperateSystem
