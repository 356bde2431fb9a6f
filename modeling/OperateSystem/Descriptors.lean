import OperateSystem.Exec
import OperateSystem.Transition

/-!
# Open files across processes

`file_table` is shared by all processes; a process's `fd_table` maps its
descriptors to slots of it, and a slot points to a cached inode, which counts
its users. `sys_fork` copies the `fd_table` and raises the counts of the inodes,
`sys_close` and `sys_exit` clear the slot.

Only what these calls do to regular files is kept: the result of the path search
is an argument of `sysOpen`, and cached directory inodes, to which no slot ever
points, are left out.
-/

namespace OperateSystem

open Function

instance instNeZeroFds : NeZero 8 := ⟨by decide⟩

instance instNeZeroFiles : NeZero 32 := ⟨by decide⟩

/-- A cached inode. `i_open_cnts` counts at most 32 slots and the descriptors of
1024 processes, so it does not wrap around. -/
structure MemInode where
  iNo : UInt32
  iOpenCnts : Nat
  writeDeny : Bool

structure File where
  fdPos : UInt32
  fdFlag : UInt32
  fdInode : Option Nat

/-- `fd_table` with `none` for `-1`, and the inode (address and number) that each
descriptor was opened on or inherited with. -/
structure Proc where
  fdTable : Fin 8 → Option (Fin 32)
  opened : Fin 8 → Option (Nat × UInt32)

structure FdState where
  fileTable : Fin 32 → File
  inodes : Nat → Option MemInode
  openInodes : List Nat
  procs : Nat → Option Proc

def oWronly : UInt8 := 1
def oRdwr : UInt8 := 2
def oCreat : UInt8 := 4
def pipeFlag : UInt32 := 0xffff

/-- What the path search of `sys_open` finds. -/
inductive Searched where
  | refused
  | missing (newNo : UInt32)
  | regular (inodeNo : UInt32)

def fds : List (Fin 8) := [3, 4, 5, 6, 7]

namespace FdState

def setFile (s : FdState) (g : Fin 32) (f : File) : FdState := { s with fileTable := update s.fileTable g f }

def setInode (s : FdState) (a : Nat) (i : Option MemInode) : FdState := { s with inodes := update s.inodes a i }

def setProc (s : FdState) (p : Nat) (P : Option Proc) : FdState := { s with procs := update s.procs p P }

def getFreeSlotInGlobal (s : FdState) : Option (Fin 32) :=
  (List.finRange 32).find? fun g => 3 ≤ g.val && (s.fileTable g).fdInode.isNone

def target (s : FdState) (g : Fin 32) : Option (Nat × UInt32) :=
  (s.fileTable g).fdInode.bind fun a => (s.inodes a).map fun i => (a, i.iNo)

def pcbFdInstall (s : FdState) (p : Nat) (g : Fin 32) : Exec (FdState × Option (Fin 8)) := do
  let P ← deref (s.procs p)
  match (List.finRange 8).find? fun d => 3 ≤ d.val && (P.fdTable d).isNone with
  | none => return (s, none)
  | some d =>
    return (s.setProc p (some ⟨update P.fdTable d (some g), update P.opened d (s.target g)⟩), some d)

def pushInode (s : FdState) (addr : Nat) (i : MemInode) : FdState :=
  { s.setInode addr (some i) with openInodes := addr :: s.openInodes }

def inodeOpen (s : FdState) (inodeNo : UInt32) (addr : Nat) : FdState × Nat :=
  match s.openInodes.find? fun a => (s.inodes a).any (·.iNo == inodeNo) with
  | some a => (s.setInode a ((s.inodes a).map fun i => { i with iOpenCnts := i.iOpenCnts + 1 }), a)
  | none => (s.pushInode addr ⟨inodeNo, 1, false⟩, addr)

def inodeClose (s : FdState) (a : Nat) (i : MemInode) : FdState :=
  if i.iOpenCnts - 1 = 0 then { s.setInode a none with openInodes := s.openInodes.erase a }
  else s.setInode a (some { i with iOpenCnts := i.iOpenCnts - 1 })

def fileOpen (s : FdState) (p : Nat) (inodeNo : UInt32) (flag : UInt8) (addr : Nat) :
    Exec (FdState × Option (Fin 8)) := do
  match s.getFreeSlotInGlobal with
  | none => return (s, none)
  | some g =>
    let (s, a) := s.inodeOpen inodeNo addr
    let s := s.setFile g ⟨0, flag.toUInt32, some a⟩
    if flag &&& oWronly ≠ 0 ∨ flag &&& oRdwr ≠ 0 then
      let i ← deref (s.inodes a)
      -- the slot stays taken when the file is being written
      if i.writeDeny then return (s, none)
      (s.setInode a (some { i with writeDeny := true })).pcbFdInstall p g
    else s.pcbFdInstall p g

/-- `mem` tells whether an inode and the memory for it could be allocated,
`dirOk` is what `sync_dir_entry` returns. -/
def fileCreate (s : FdState) (p : Nat) (inodeNo : UInt32) (flag : UInt8) (addr : Nat) (mem dirOk : Bool) :
    Exec (FdState × Option (Fin 8)) := do
  if mem = false then return (s, none)
  match s.getFreeSlotInGlobal with
  | none => return (s, none)
  | some g =>
    if dirOk then ((s.setFile g ⟨0, flag.toUInt32, some addr⟩).pushInode addr ⟨inodeNo, 1, false⟩).pcbFdInstall p g
    else return (s.setFile g ⟨0, 0, none⟩, none)

def sysOpen (s : FdState) (p : Nat) (found : Searched) (flags : UInt8) (addr : Nat) (mem dirOk : Bool) :
    Exec (FdState × Option (Fin 8)) := do
  assert .debug (flags ≤ 7) "flags <= 7"
  match found with
  | .refused => return (s, none)
  | .missing newNo => if flags &&& oCreat = 0 then return (s, none) else s.fileCreate p newNo flags addr mem dirOk
  | .regular inodeNo => if flags &&& oCreat ≠ 0 then return (s, none) else s.fileOpen p inodeNo flags addr

def isPipe (s : FdState) (g : Fin 32) : Bool := (s.fileTable g).fdFlag = pipeFlag

def closePipe (s : FdState) (g : Fin 32) : FdState :=
  let f := s.fileTable g
  s.setFile g { f with fdPos := f.fdPos - 1, fdInode := if f.fdPos - 1 = 0 then none else f.fdInode }

def fileClose (s : FdState) (g : Fin 32) : Exec FdState := do
  let f := s.fileTable g
  let a ← deref f.fdInode
  let i ← deref (s.inodes a)
  return (s.inodeClose a { i with writeDeny := false }).setFile g { f with fdInode := none }

def closeSlot (s : FdState) (g : Fin 32) : Exec FdState := if s.isPipe g then .ok (s.closePipe g) else s.fileClose g

/-- `sys_close` of a descriptor above 2; a descriptor that is not open fails the
assertion in `fd_local2global`. -/
def sysClose (s : FdState) (p : Nat) (fd : Fin 8) : Exec FdState := do
  let P ← deref (s.procs p)
  match P.fdTable fd with
  | none => throw (.assertion "global_fd >= 0 && global_fd < MAX_FILE_OPEN")
  | some g =>
    let s ← s.closeSlot g
    return s.setProc p (some ⟨update P.fdTable fd none, update P.opened fd none⟩)

def updateInodeOpenCnts (P : Proc) : List (Fin 8) → FdState → Exec FdState
  | [], s => .ok s
  | d :: ds, s =>
    match P.fdTable d with
    | none => updateInodeOpenCnts P ds s
    | some g =>
      let f := s.fileTable g
      if s.isPipe g then updateInodeOpenCnts P ds (s.setFile g { f with fdPos := f.fdPos + 1 })
      else do
        let a ← deref f.fdInode
        let i ← deref (s.inodes a)
        updateInodeOpenCnts P ds (s.setInode a (some { i with iOpenCnts := i.iOpenCnts + 1 }))

/-- `sys_fork` with enough memory; `child` is a pid that is not in use. -/
def sysFork (s : FdState) (p child : Nat) : Exec FdState := do
  let P ← deref (s.procs p)
  let s ← updateInodeOpenCnts P fds s
  return s.setProc child (some P)

def closeAll (p : Nat) : List (Fin 8) → FdState → Exec FdState
  | [], s => .ok s
  | d :: ds, s => do
    let P ← deref (s.procs p)
    match P.fdTable d with
    | none => closeAll p ds s
    | some g =>
      if s.isPipe g then closeAll p ds (s.closePipe g)
      else do
        let s ← s.sysClose p d
        closeAll p ds s

def sysExit (s : FdState) (p : Nat) : Exec FdState := do
  let s ← closeAll p fds s
  return s.setProc p none

end FdState

/-! ## Runs -/

inductive FdOp where
  | sysOpen (p : Nat) (found : Searched) (flags : UInt8) (addr : Nat) (mem dirOk : Bool)
  | sysFork (p child : Nat)
  | sysClose (p : Nat) (fd : Fin 8)
  | sysExit (p : Nat)

/-- The effect of a system call. `sys_malloc` returns free memory, a new pid is
not in use, and `sys_close` refuses the standard descriptors. -/
inductive FdStep : FdOp → FdState → FdState → Prop
  | sysOpen {s s' : FdState} {p : Nat} {found : Searched} {flags : UInt8} {addr : Nat} {mem dirOk : Bool}
    {ret : Option (Fin 8)} (hfree : s.inodes addr = none)
    (h : s.sysOpen p found flags addr mem dirOk = .ok (s', ret)) : FdStep (.sysOpen p found flags addr mem dirOk) s s'
  | sysFork {s s' : FdState} {p child : Nat} (hpid : s.procs child = none) (h : s.sysFork p child = .ok s') :
    FdStep (.sysFork p child) s s'
  | sysClose {s s' : FdState} {p : Nat} {fd : Fin 8} (hfd : 3 ≤ fd.val) (h : s.sysClose p fd = .ok s') :
    FdStep (.sysClose p fd) s s'
  | sysExit {s s' : FdState} {p : Nat} (h : s.sysExit p = .ok s') : FdStep (.sysExit p) s s'

def FdState.Start (s : FdState) : Prop :=
  (∀ g, s.fileTable g = ⟨0, 0, none⟩) ∧ (∀ a, s.inodes a = none) ∧ s.openInodes = [] ∧
    ∀ p P, s.procs p = some P → ∀ d : Fin 8, 3 ≤ d.val → P.fdTable d = none

/-- Every descriptor leads to the inode it was opened on or inherited with. -/
def FdState.Kept (s : FdState) : Prop :=
  ∀ p P d g, s.procs p = some P → 3 ≤ d.val → P.fdTable d = some g → ∃ x, s.target g = some x ∧ P.opened d = some x

def FdState.Alone (s : FdState) (p : Nat) (g : Fin 32) : Prop :=
  ∀ q Q d, q ≠ p → s.procs q = some Q → 3 ≤ d.val → Q.fdTable d ≠ some g

/-- The calls that close no slot another process uses. -/
def FdOp.Unshared (s : FdState) : FdOp → Prop
  | .sysClose p fd => ∀ P g, s.procs p = some P → P.fdTable fd = some g → s.Alone p g
  | .sysExit p => ∀ P d g, s.procs p = some P → 3 ≤ d.val → P.fdTable d = some g → s.Alone p g
  | _ => True

end OperateSystem
