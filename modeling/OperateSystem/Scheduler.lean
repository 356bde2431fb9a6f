import OperateSystem.Bitmap
import OperateSystem.Sync
import OperateSystem.Transition

/-!
# Tasks and the scheduler

`thread/thread.c`, the semaphores of `thread/sync.c`, and `sys_fork`, `sys_wait`
and `sys_exit` as far as they create, block, wake and remove tasks. A task is
named by the page of its PCB, and a list of tags is the list of the tasks.

The memory and the files of a task are left out: where a function allocates,
what it gets is an argument.
-/

namespace OperateSystem

open Function

inductive TaskStatus where
  | running
  | ready
  | blocked
  | waiting
  | hanging
  | died
  deriving DecidableEq

/-- The states in which a task is not scheduled and can be woken. -/
def TaskStatus.Asleep (st : TaskStatus) : Prop := st = .blocked ∨ st = .waiting ∨ st = .hanging

instance (st : TaskStatus) : Decidable st.Asleep := inferInstanceAs (Decidable (_ ∨ _))

/-- The other fields of a PCB; `parentPid` is `none` for `-1`, `pgdir` tells
whether the task is a process, and `name` is the text before the NUL. -/
structure Pcb where
  pid : Nat
  parentPid : Option Nat
  exitStatus : Int8
  pgdir : Bool
  name : List Char

/-- Where a task goes on when it is switched to: in its own code, or inside the
loop of a function that has called `thread_block`. -/
inductive Cont where
  | own
  | semaDown (k : Nat)
  | sysWait
  deriving DecidableEq

structure Sched where
  status : Nat → TaskStatus
  pcb : Nat → Pcb
  cont : Nat → Cont
  cur : Nat
  readyList : List Nat
  allList : List Nat
  value : Nat → UInt8
  waiters : Nat → List Nat
  pidBitmap : Bitmap
  mainThread : Nat
  idleThread : Nat

def pidStart : Nat := 1

namespace Sched

def setStatus (s : Sched) (t : Nat) (st : TaskStatus) : Sched := { s with status := update s.status t st }

def setPcb (s : Sched) (t : Nat) (p : Pcb) : Sched := { s with pcb := update s.pcb t p }

def setCont (s : Sched) (t : Nat) (c : Cont) : Sched := { s with cont := update s.cont t c }

def setValue (s : Sched) (k : Nat) (v : UInt8) : Sched := { s with value := update s.value k v }

def setWaiters (s : Sched) (k : Nat) (l : List Nat) : Sched := { s with waiters := update s.waiters k l }

def pcbCur (s : Sched) : Pcb := s.pcb s.cur

/-! ## `thread.c` -/

/-- Given the assertion, the second test of the status is always true. -/
def threadUnblock (s : Sched) (t : Nat) : Exec Sched := do
  assert .debug (s.status t).Asleep unblockCond
  assert .debug (t ∉ s.readyList) "!elem_find(&thread_ready_list, &pthread->general_tag)"
  if t ∈ s.readyList then .error (.panic "thread_unblock: blocked thread in ready_list\n")
  else return { s with readyList := t :: s.readyList }.setStatus t .ready

def requeue (s : Sched) : Exec Sched :=
  if s.status s.cur = .running then do
    assert .debug (s.cur ∉ s.readyList) "!elem_find(&thread_ready_list, &cur->general_tag)"
    return { s with readyList := s.readyList ++ [s.cur] }.setStatus s.cur .ready
  else return s

def wakeIdle (s : Sched) : Exec Sched := if s.readyList = [] then s.threadUnblock s.idleThread else return s

def switch (s : Sched) : Exec Sched :=
  match s.readyList with
  | [] => .error (.assertion "!list_empty(&thread_ready_list)")
  | next :: rest => return { s with readyList := rest, cur := next }.setStatus next .running

def schedule (s : Sched) : Exec Sched := do
  let s ← s.requeue
  let s ← s.wakeIdle
  s.switch

/-- The call stands where the task goes on with `c` after it. -/
def threadBlock (s : Sched) (stat : TaskStatus) (c : Cont) : Exec Sched := do
  assert .debug stat.Asleep "((stat == TASK_BLOCKED) || (stat == TASK_WAITING) || (stat == TASK_HANGING))"
  ((s.setStatus s.cur stat).setCont s.cur c).schedule

def threadYield (s : Sched) : Exec Sched := do
  assert .debug (s.cur ∉ s.readyList) "!elem_find(&thread_ready_list, &cur->general_tag)"
  ({ s with readyList := s.readyList ++ [s.cur] }.setStatus s.cur .ready).schedule

/-- Without a clear bit `bitmap_set` would write at index `-1`. -/
def allocatePid (b : Build) (s : Sched) : Exec (Nat × Sched) := do
  match ← bitmapScan b s.pidBitmap 1 with
  | none => .error .outOfBounds
  | some bitIdx => return (bitIdx + pidStart, { s with pidBitmap := bitmapSet s.pidBitmap bitIdx true })

def releasePid (s : Sched) (pid : Nat) : Sched := { s with pidBitmap := bitmapSet s.pidBitmap (pid - pidStart) false }

def publish (b : Build) (s : Sched) (t : Nat) (ptr : String) : Exec Sched := do
  assert b (t ∉ s.readyList) ("!elem_find(&thread_ready_list, &" ++ ptr ++ "->general_tag)")
  assert b (t ∉ s.allList) ("!elem_find(&thread_all_list, &" ++ ptr ++ "->all_list_tag)")
  return { s with readyList := s.readyList ++ [t], allList := s.allList ++ [t] }.setCont t .own

def initThread (s : Sched) (t pid : Nat) (pgdir : Bool) (name : List Char) : Sched :=
  (s.setPcb t ⟨pid, none, 0, pgdir, name⟩).setStatus t (if t = s.mainThread then .running else .ready)

/-- `thread_start` and `process_execute`, which differ in the page directory.
The result of `get_kernel_pages` is used unchecked. -/
def start (s : Sched) (page : Option Nat) (pgdir : Bool) (name : List Char) : Exec Sched :=
  match page with
  | none => .error .outOfBounds
  | some t => do
    let (pid, s) ← s.allocatePid .debug
    (s.initThread t pid pgdir name).publish .debug t "thread"

def threadStart (s : Sched) (page : Option Nat) (name : List Char) : Exec Sched := s.start page false name

def processExecute (s : Sched) (page : Option Nat) (name : List Char) : Exec Sched := s.start page true name

/-- `thread_exit` up to its last statement; `List.erase` of a task that is not in
the ready list does nothing. -/
def remove (s : Sched) (t : Nat) : Sched :=
  let s := s.setStatus t .died
  { s with readyList := s.readyList.erase t, allList := s.allList.erase t }.releasePid (s.pcb t).pid

def threadExit (s : Sched) (t : Nat) (needSchedule : Bool) : Exec Sched :=
  if needSchedule then (s.remove t).schedule else return s.remove t

def pid2thread (s : Sched) (pid : Option Nat) : Option Nat := s.allList.find? fun t => some (s.pcb t).pid = pid

/-! ## `sync.c` -/

def semaDown (s : Sched) (k : Nat) : Exec Sched :=
  OperateSystem.semaDown (s.value k) (s.waiters k) s.cur
    (fun waiters => (s.setWaiters k waiters).threadBlock .blocked (.semaDown k))
    fun value => return (s.setValue k value).setCont s.cur .own

def semaUp (s : Sched) (k : Nat) : Exec Sched :=
  OperateSystem.semaUp (s.value k) (s.waiters k) s (fun t waiters => (s.setWaiters k waiters).threadUnblock t)
    fun s value => s.setValue k value

/-! ## `fork.c`, `exec.c` and `wait_exit.c` -/

/-- What the allocations of `sys_fork` return: the page of the PCB, the buffer,
the bitmap and the page directory. -/
structure ForkPages where
  pcb : Option Nat
  buf : Bool
  bitmap : Bool
  pgdir : Bool

def forkEnd (s : Sched) (t : Nat) (p : ForkPages) : Exec (Sched × Option Nat) :=
  if p.pgdir then do
    let s ← s.publish .debug t "child_thread"
    return (s, some (s.pcb t).pid)
  else return (s, none)

def forkName (s : Sched) (t : Nat) (p : ForkPages) : Exec (Sched × Option Nat) :=
  if p.bitmap then do
    let name := (s.pcb t).name
    assert .debug (name.length < 11) "strlen(child_thread->name) < 11"
    (s.setPcb t { s.pcb t with name := name ++ ['_', 'f', 'o', 'r', 'k'] }).forkEnd t p
  else return (s, none)

def forkCopy (s : Sched) (t : Nat) (p : ForkPages) : Exec (Sched × Option Nat) :=
  if p.buf then do
    let (pid, s) ← s.allocatePid .debug
    let parent := s.pcbCur
    ((s.setPcb t { parent with pid := pid, parentPid := some parent.pid }).setStatus t .ready).forkName t p
  else return (s, none)

def sysFork (s : Sched) (p : ForkPages) : Exec (Sched × Option Nat) :=
  match p.pcb with
  | none => return (s, none)
  | some t => do
    assert .debug (s.pcbCur.pgdir = true) "INTR_OFF == intr_get_status() && parent_thread->pgdir != NULL"
    s.forkCopy t p

def sysExecv (s : Sched) (path : List Char) : Sched :=
  s.setPcb s.cur { s.pcbCur with name := path.take 15 }

def initAdopt (s : Sched) (pid : Nat) : Sched :=
  { s with pcb := fun t =>
      if t ∈ s.allList ∧ (s.pcb t).parentPid = some pid then { s.pcb t with parentPid := some 1 } else s.pcb t }

def wakeParent (s : Sched) (parent : Nat) : Exec Sched :=
  if s.status parent = .waiting then s.threadUnblock parent else return s

def sysExit (s : Sched) (status : Int) : Exec Sched := do
  let s := s.setPcb s.cur { s.pcbCur with exitStatus := Int8.ofInt status }
  if s.pcbCur.parentPid = none then .error (.panic "sys_exit: child_thread->parent_pid is -1\n")
  else do
    let s := s.initAdopt s.pcbCur.pid
    match s.pid2thread s.pcbCur.parentPid with
    | none => .error .outOfBounds
    | some parent => do
      let s ← s.wakeParent parent
      s.threadBlock .hanging .own

def findHangingChild (s : Sched) (ppid : Nat) : Option Nat :=
  s.allList.find? fun t => (s.pcb t).parentPid = some ppid ∧ s.status t = .hanging

def findChild (s : Sched) (ppid : Nat) : Option Nat := s.allList.find? fun t => (s.pcb t).parentPid = some ppid

inductive Waited where
  | reaped (pid : Nat) (status : Int)
  | noChild
  | sleeps

def sysWait (s : Sched) : Exec (Sched × Waited) :=
  match s.findHangingChild s.pcbCur.pid with
  | some child => do
    let res := Waited.reaped (s.pcb child).pid (s.pcb child).exitStatus.toInt
    let s ← s.threadExit child false
    return (s.setCont s.cur .own, res)
  | none =>
    match s.findChild s.pcbCur.pid with
    | none => return (s.setCont s.cur .own, .noChild)
    | some _ => do
      let s ← s.threadBlock .waiting .sysWait
      return (s, .sleeps)

end Sched

/-! ## Runs -/

inductive SchedOp where
  | threadStart (page : Option Nat) (name : List Char)
  | processExecute (page : Option Nat) (name : List Char)
  | schedule
  | threadYield
  | threadBlock (stat : TaskStatus)
  | threadUnblock (t : Nat)
  | threadExit (t : Nat)
  | semaDown (k : Nat)
  | semaUp (k : Nat)
  | sysFork (p : Sched.ForkPages)
  | sysExecv (path : List Char)
  | sysExit (status : Int)
  | sysWait
  /-- The current task is back from a `thread_block` inside a loop. -/
  | resume

/-- The idle thread only blocks itself; what else happens while it runs is done
by interrupt handlers. -/
def SchedOp.OfIdle : SchedOp → Prop
  | .threadBlock stat => stat = .blocked
  | .schedule | .semaUp _ | .threadUnblock _ => True
  | _ => False

namespace Sched

def resume (s : Sched) : Exec Sched :=
  match s.cont s.cur with
  | .own => return s
  | .semaDown k => s.semaDown k
  | .sysWait => Prod.fst <$> s.sysWait

/-- A task that ends itself asks `thread_exit` for a new one. -/
def run (s : Sched) : SchedOp → Exec Sched
  | .threadStart page name => s.threadStart page name
  | .processExecute page name => s.processExecute page name
  | .schedule => s.schedule
  | .threadYield => s.threadYield
  | .threadBlock stat => s.threadBlock stat .own
  | .threadUnblock t => s.threadUnblock t
  | .threadExit t => s.threadExit t (t = s.cur)
  | .semaDown k => s.semaDown k
  | .semaUp k => s.semaUp k
  | .sysFork p => Prod.fst <$> s.sysFork p
  | .sysExecv path => .ok (s.sysExecv path)
  | .sysExit status => s.sysExit status
  | .sysWait => Prod.fst <$> s.sysWait
  | .resume => s.resume

/-- A page that `get_kernel_pages` may return: no PCB in use. The PCB of the main
thread is not in the heap. -/
def Fresh (s : Sched) (page : Option Nat) : Prop := ∀ t, page = some t → t ∉ s.allList ∧ t ≠ s.mainThread

def Args (s : Sched) : SchedOp → Prop
  | .threadStart page _ | .processExecute page _ => s.Fresh page
  | .sysFork p => s.Fresh p.pcb
  | .threadUnblock t => t ∈ s.allList ∧ (s.status t).Asleep
  | .threadExit t => t ∈ s.allList
  | _ => True

/-- The current task may do `op`: it is in its own code, or inside a loop that it
goes on with. -/
def May (s : Sched) (op : SchedOp) : Prop :=
  s.Args op ∧ match op with
    | .resume => s.cont s.cur ≠ .own
    | _ => s.cont s.cur = .own ∧ (s.cur = s.idleThread → op.OfIdle)

def Unqueued (s : Sched) (t : Nat) : Prop := ∀ k, t ∉ s.waiters k

/-- `thread_unblock` and `thread_exit` are called for tasks that wait for no
semaphore, `thread_exit` never for the idle thread. -/
def Proper (s : Sched) : SchedOp → Prop
  | .threadUnblock t => s.Unqueued t
  | .threadExit t => s.Unqueued t ∧ t ≠ s.idleThread
  | _ => True

/-- The state `thread_init` leaves, with the pages of the three tasks. -/
structure Started (s : Sched) (init : Nat) : Prop where
  cur : s.cur = s.mainThread
  all : s.allList = [init, s.mainThread, s.idleThread]
  distinct : s.allList.Nodup
  ready : s.readyList = [init, s.idleThread]
  status : ∀ t ∈ s.allList, s.status t = if t = s.mainThread then .running else .ready
  cont : ∀ t, s.cont t = .own
  waiters : ∀ k, s.waiters k = []
  pcbInit : s.pcb init = ⟨1, none, 0, true, ['i', 'n', 'i', 't']⟩
  pcbMain : s.pcb s.mainThread = ⟨2, none, 0, false, ['m', 'a', 'i', 'n']⟩
  pcbIdle : s.pcb s.idleThread = ⟨3, none, 0, false, ['i', 'd', 'l', 'e']⟩
  pids : s.pidBitmap.btmpBytesLen = 128 ∧ ∀ i < 1024, s.pidBitmap.bit i = decide (i < 3)

def Start (s : Sched) : Prop := ∃ init, s.Started init

end Sched

/-- A failed test of a task's status or of a list of tasks. -/
def QueueFault : Fault → Prop
  | .assertion cond => cond ∈ [unblockCond,
      "!elem_find(&thread_ready_list, &pthread->general_tag)",
      "!elem_find(&thread_ready_list, &cur->general_tag)",
      "!list_empty(&thread_ready_list)",
      "!elem_find(&psema->waiters, &running_thread()->general_tag)",
      "!elem_find(&thread_ready_list, &thread->general_tag)",
      "!elem_find(&thread_all_list, &thread->all_list_tag)",
      "!elem_find(&thread_ready_list, &child_thread->general_tag)",
      "!elem_find(&thread_all_list, &child_thread->all_list_tag)"]
  | .panic msg => msg ∈ ["thread_unblock: blocked thread in ready_list\n",
      "sema_down: thread blocked has been in waiters_lsit\n"]
  | .outOfBounds => False

instance : DecidablePred QueueFault
  | .assertion _ => inferInstanceAs (Decidable (_ ∈ _))
  | .panic _ => inferInstanceAs (Decidable (_ ∈ _))
  | .outOfBounds => inferInstanceAs (Decidable False)

/-- Any task in its turn, whatever it asks for. -/
def LooseStep (s s' : Sched) : Prop := ∃ op, s.May op ∧ s.run op = .ok s'

def SchedStep (s s' : Sched) : Prop := ∃ op, s.May op ∧ s.Proper op ∧ s.run op = .ok s'

end OperateSystem
