import OperateSystem.Descriptors
import OperateSystem.Mem

/-!
# Pipes

`shell/pipe.c`, with what `sys_close`, `sys_fork`, `sys_exit` and `sys_lseek` do
to the slot of a pipe. The slot's `fd_inode` points to the ring buffer, a page of
its own, and its `fd_pos` counts descriptors. Descriptors 3 to 7 are counted;
`sys_fd_redirect` may also lead the standard descriptors 0, 1 and 2 to a pipe.
-/

namespace OperateSystem

open Function

/-- Buffers are named by the call that made them. `pipeOf` is the pipe that a descriptor was made
for, and `freed` how often `mfree_page` was called for a buffer. -/
structure PipeState extends FdState where
  pipeOf : Nat → Fin 8 → Option Nat
  made : List Nat
  freed : Nat → Nat

namespace PipeState

def setPipe (s : PipeState) (p : Nat) (d : Fin 8) (b : Option Nat) : PipeState :=
  { s with pipeOf := update s.pipeOf p (update (s.pipeOf p) d b) }

def label (s : PipeState) (p : Nat) (fd : Option (Fin 8)) (b : Nat) : PipeState :=
  match fd with
  | none => s
  | some d => s.setPipe p d (some b)

/-- `page` is the result of `get_kernel_pages`: `ioqueue_init` uses it before it
is tested. Without a free slot the code stores to `file_table[-1]`. -/
def sysPipe (s : PipeState) (p : Nat) (page : Option Nat) : Exec (PipeState × Option (Fin 8) × Option (Fin 8)) :=
  match s.getFreeSlotInGlobal with
  | none => .error .outOfBounds
  | some g => do
    let b ← deref page
    let (fs, fd0) ← (s.setFile g ⟨2, pipeFlag, some b⟩).pcbFdInstall p g
    let (fs, fd1) ← fs.pcbFdInstall p g
    return ((({ s with toFdState := fs, made := b :: s.made }.label p fd0 b).label p fd1 b), fd0, fd1)

def setFd (s : PipeState) (p : Nat) (P : Proc) (d : Fin 8) (slot : Option (Fin 32)) (b : Option Nat) : PipeState :=
  let P := { P with fdTable := update P.fdTable d slot }
  { s with toFdState := s.setProc p (some P) }.setPipe p d b

/-- The descriptors are indices into `fd_table`, unchecked. -/
def sysFdRedirect (s : PipeState) (p oldLocalFd newLocalFd : Nat) : Exec PipeState := do
  let P ← deref (s.procs p)
  inBounds (oldLocalFd < 8)
  let old := Fin.ofNat 8 oldLocalFd
  if newLocalFd < 3 then return s.setFd p P old (some (Fin.ofNat 32 newLocalFd)) none
  else do
    inBounds (newLocalFd < 8)
    let new := Fin.ofNat 8 newLocalFd
    return s.setFd p P old (P.fdTable new) (s.pipeOf p new)

def seekPos (f : File) (offset : Int32) (whence : Nat) (iSize : UInt32) : Option UInt32 :=
  let newPos := match whence with
    | 1 => offset
    | 2 => f.fdPos.toInt32 + offset
    | _ => iSize.toInt32 + offset
  if newPos < 0 ∨ newPos > iSize.toInt32 - 1 then none else some newPos.toUInt32

theorem seekPos_le {f : File} {offset : Int32} {whence : Nat} {iSize pos : UInt32}
    (h : seekPos f offset whence iSize = some pos) : pos ≤ iSize := by
  have key : ∀ newPos : Int32, (if newPos < 0 ∨ newPos > iSize.toInt32 - 1 then none else some newPos.toUInt32) = some pos → pos ≤ iSize := by
    intro newPos h
    split at h
    · cases h
    · rename_i hin
      cases h
      exact toUInt32_le_of_lt_size hin
  exact key _ h

/-- `i_size` is whatever the memory at `fd_inode` holds there. -/
def sysLseek (s : PipeState) (p : Nat) (fd : Fin 8) (offset : Int32) (whence : Nat) (iSize : UInt32) :
    Exec PipeState := do
  assert .debug (0 < whence ∧ whence < 4) "whence > 0 && whence < 4"
  let P ← deref (s.procs p)
  match P.fdTable fd with
  | none => throw (.assertion "global_fd >= 0 && global_fd < MAX_FILE_OPEN")
  | some g => do
    let f := s.fileTable g
    let _ ← deref f.fdInode
    match seekPos f offset whence iSize with
    | none => return s
    | some pos => return { s with toFdState := s.setFile g { f with fdPos := pos } }

def closePipe (s : PipeState) (g : Fin 32) : Exec PipeState :=
  let f := s.fileTable g
  if f.fdPos - 1 = 0 then do
    let b ← deref f.fdInode
    return { s with toFdState := s.toFdState.closePipe g, freed := update s.freed b (s.freed b + 1) }
  else return { s with toFdState := s.toFdState.closePipe g }

def closeSlot (s : PipeState) (g : Fin 32) : Exec PipeState :=
  if s.isPipe g then s.closePipe g
  else do
    let fs ← s.fileClose g
    return { s with toFdState := fs }

/-- For the standard descriptors `sys_close` returns `-1` at once. -/
def sysClose (s : PipeState) (p : Nat) (fd : Fin 8) : Exec PipeState :=
  if fd.val ≤ 2 then return s
  else do
    let P ← deref (s.procs p)
    match P.fdTable fd with
    | none => throw (.assertion "global_fd >= 0 && global_fd < MAX_FILE_OPEN")
    | some g => do
      let s ← s.closeSlot g
      return s.setFd p P fd none none

def sysFork (s : PipeState) (p child : Nat) : Exec PipeState := do
  let fs ← s.toFdState.sysFork p child
  return { s with toFdState := fs, pipeOf := update s.pipeOf child (s.pipeOf p) }

def releaseFds (p : Nat) : List (Fin 8) → PipeState → Exec PipeState
  | [], s => .ok s
  | d :: ds, s => do
    let P ← deref (s.procs p)
    match P.fdTable d with
    | none => releaseFds p ds s
    | some g =>
      if s.isPipe g then do
        let s ← s.closePipe g
        releaseFds p ds s
      else do
        let s ← s.sysClose p d
        releaseFds p ds s

def sysExit (s : PipeState) (p : Nat) : Exec PipeState := do
  let s ← releaseFds p fds s
  return { s with toFdState := s.setProc p none, pipeOf := update s.pipeOf p fun _ => none }

end PipeState

/-! ## Runs -/

inductive PipeOp where
  | sysPipe (p : Nat) (page : Option Nat)
  | sysFork (p child : Nat)
  | sysFdRedirect (p oldLocalFd newLocalFd : Nat)
  | sysLseek (p : Nat) (fd : Fin 8) (offset : Int32) (whence : Nat) (iSize : UInt32)
  | sysClose (p : Nat) (fd : Fin 8)
  | sysExit (p : Nat)

/-- The effect of a call. A new page has a new name, and `allocate_pid` returns a
pid up to 1024 that is not in use. -/
inductive PipeStep : PipeOp → PipeState → PipeState → Prop
  | sysPipe {s s' : PipeState} {p b : Nat} {ret : Option (Fin 8) × Option (Fin 8)} (hnew : b ∉ s.made)
    (h : s.sysPipe p (some b) = .ok (s', ret)) : PipeStep (.sysPipe p (some b)) s s'
  | sysFork {s s' : PipeState} {p child : Nat} (hpid : s.procs child = none) (hle : child ≤ 1024)
    (h : s.sysFork p child = .ok s') : PipeStep (.sysFork p child) s s'
  | sysFdRedirect {s s' : PipeState} {p old new : Nat} (h : s.sysFdRedirect p old new = .ok s') :
    PipeStep (.sysFdRedirect p old new) s s'
  | sysLseek {s s' : PipeState} {p : Nat} {fd : Fin 8} {offset : Int32} {whence : Nat} {iSize : UInt32}
    (h : s.sysLseek p fd offset whence iSize = .ok s') : PipeStep (.sysLseek p fd offset whence iSize) s s'
  | sysClose {s s' : PipeState} {p : Nat} {fd : Fin 8} (h : s.sysClose p fd = .ok s') : PipeStep (.sysClose p fd) s s'
  | sysExit {s s' : PipeState} {p : Nat} (h : s.sysExit p = .ok s') : PipeStep (.sysExit p) s s'

namespace PipeState

structure Start (s : PipeState) : Prop where
  files : ∀ g, s.fileTable g = ⟨0, 0, none⟩
  procs : ∀ p P, s.procs p = some P → p ≤ 1024 ∧ ∀ d : Fin 8,
    P.fdTable d = if d.val < 3 then some (Fin.ofNat 32 d.val) else none
  pipeOf : ∀ p d, s.pipeOf p d = none
  made : s.made = []
  freed : ∀ b, s.freed b = 0

def Refers (s : PipeState) (p : Nat) (d : Fin 8) (g : Fin 32) : Prop :=
  ∃ P, s.procs p = some P ∧ P.fdTable d = some g

/-- As long as a descriptor leads to a pipe, its slot points to the pipe's
buffer; once none does, the buffer has been freed, once. -/
structure Lifetime (s : PipeState) : Prop where
  kept : ∀ p d g b, s.Refers p d g → s.pipeOf p d = some b → (s.fileTable g).fdInode = some b ∧ s.freed b = 0
  freed : ∀ b ∈ s.made, (∀ p d g, s.Refers p d g → s.pipeOf p d ≠ some b) → s.freed b = 1

/-- No standard descriptor leads to slot `g`, except for those of process `p`. -/
def NoStandard (s : PipeState) (p : Option Nat) (g : Fin 32) : Prop :=
  ∀ q d, some q ≠ p → d.val < 3 → ¬ s.Refers q d g

def uses (fdTable : Fin 8 → Option (Fin 32)) (ds : List (Fin 8)) (g : Fin 32) : Nat :=
  (ds.map fun d => if fdTable d = some g then 1 else 0).sum

end PipeState

/-- A pipe is made by a process with two free descriptors, only standard descriptors are
redirected, a `sys_lseek` on a pipe is refused or goes nowhere, and the last counted descriptor of
a pipe goes when no standard one is left. -/
def PipeOp.Counted (s : PipeState) : PipeOp → Prop
  | .sysPipe p _ => ∀ P, s.procs p = some P → ∃ d e : Fin 8, 3 ≤ d.val ∧ d < e ∧ P.fdTable d = none ∧ P.fdTable e = none
  | .sysFork _ _ => True
  | .sysFdRedirect _ old _ => old < 3
  | .sysLseek p fd offset whence iSize => ∀ g, s.Refers p fd g → s.isPipe g = true →
    PipeState.seekPos (s.fileTable g) offset whence iSize = none ∨
      PipeState.seekPos (s.fileTable g) offset whence iSize = some (s.fileTable g).fdPos
  | .sysClose p fd => ∀ g, 3 ≤ fd.val → s.Refers p fd g → (s.fileTable g).fdPos = 1 → s.NoStandard none g
  | .sysExit p => ∀ P g, s.procs p = some P → 0 < PipeState.uses P.fdTable fds g →
    (s.fileTable g).fdPos = .ofNat (PipeState.uses P.fdTable fds g) → s.NoStandard (some p) g

end OperateSystem
