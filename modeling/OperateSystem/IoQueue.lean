import OperateSystem.Sync
import OperateSystem.Transition

/-!
# The ring queue between threads

`device/ioqueue.c`, with `lock_acquire` and `lock_release` of `thread/sync.c` and
the loops of `pipe_read` and `pipe_write` in `shell/pipe.c`. All of it runs with
interrupts off, so a thread runs until it blocks: in `sema_down`, waiting for the
lock of the queue, or in `ioq_wait`, asleep while it holds that lock.
-/

namespace OperateSystem

open Function

inductive IoOp where
  | ioqGetchar
  | ioqPutchar (byte : UInt8)
  deriving DecidableEq

/-- At the test of the loop, in `waiters` of the lock, taken from there but not yet back at the
test of `value`, asleep in `ioq_wait`, or taken from there but not yet running again. -/
inductive IoPc where
  | test
  | blocked
  | woken
  | asleep
  | awake
  deriving DecidableEq

structure IoQueue (τ : Type) where
  value : UInt8
  waiters : List τ
  holder : Option τ
  holderRepeatNr : UInt32
  producer : Option τ
  consumer : Option τ
  buf : Nat → UInt8
  head : Int32
  tail : Int32

/-- The calls a thread still has to make, and where it is in the first of them. `stored` and
`taken` record the bytes of completed puts and gets. -/
structure IoState (τ : Type) extends IoQueue τ where
  todo : τ → List IoOp
  pc : τ → IoPc
  stored : List UInt8
  taken : List UInt8

def bufsize : Int32 := 2048

def nextPos (pos : Int32) : Int32 := (pos + 1) % bufsize

namespace IoQueue

variable {τ : Type}

def ioqFull (q : IoQueue τ) : Bool := nextPos q.head = q.tail

def ioqEmpty (q : IoQueue τ) : Bool := q.head = q.tail

def ioqLength (q : IoQueue τ) : UInt32 :=
  if q.head ≥ q.tail then (q.head - q.tail).toUInt32 else (bufsize - (q.tail - q.head)).toUInt32

def Init (q : IoQueue τ) : Prop :=
  q.value = 1 ∧ q.waiters = [] ∧ q.holder = none ∧ q.holderRepeatNr = 0 ∧ q.producer = none ∧ q.consumer = none ∧
    q.head = 0 ∧ q.tail = 0

end IoQueue

namespace IoState

variable {τ : Type} [DecidableEq τ]

def goto (s : IoState τ) (t : τ) (pc : IoPc) : IoState τ := { s with pc := update s.pc t pc }

def threadUnblock (s : IoState τ) (t : τ) : Exec (IoState τ) := do
  assert .debug (s.pc t = .blocked ∨ s.pc t = .asleep) unblockCond
  return s.goto t (if s.pc t = .blocked then .woken else .awake)

/-! ## The lock -/

def semaDown (s : IoState τ) (t : τ) : Exec (IoState τ × Bool) :=
  OperateSystem.semaDown s.value s.waiters t (fun waiters => return ({ s with waiters }.goto t .blocked, false))
    fun value => return ({ s with value }, true)

def semaUp (s : IoState τ) : Exec (IoState τ) :=
  OperateSystem.semaUp s.value s.waiters s (fun w waiters => { s with waiters }.threadUnblock w) fun s value => { s with value }

def lockRelease (s : IoState τ) (t : τ) : Exec (IoState τ) := do
  assert .debug (s.holder = some t) "plock->holder == running_thread()"
  if s.holderRepeatNr > 1 then return { s with holderRepeatNr := s.holderRepeatNr - 1 }
  else
    assert .debug (s.holderRepeatNr = 1) "plock->holder_repeat_nr == 1"
    { s with holder := none, holderRepeatNr := 0 }.semaUp

/-! ## The calls -/

def ioqWait (s : IoState τ) (t : τ) : IoOp → Exec (IoState τ)
  | .ioqGetchar => do
    assert .debug (s.consumer = none) "*waiter == NULL && waiter != NULL"
    return { s with consumer := some t }.goto t .asleep
  | .ioqPutchar _ => do
    assert .debug (s.producer = none) "*waiter == NULL && waiter != NULL"
    return { s with producer := some t }.goto t .asleep

def downAndWait (s : IoState τ) (t : τ) (op : IoOp) : Exec (IoState τ) := do
  let (s, down) ← s.semaDown t
  if down then
    assert .debug (s.holderRepeatNr = 0) "plock->holder_repeat_nr == 0"
    { s with holder := some t, holderRepeatNr := 1 }.ioqWait t op
  else return s

def acquireAndWait (s : IoState τ) (t : τ) (op : IoOp) : Exec (IoState τ) :=
  if s.holder ≠ some t then s.downAndWait t op
  else { s with holderRepeatNr := s.holderRepeatNr + 1 }.ioqWait t op

def finish (s : IoState τ) (t : τ) : IoState τ := { s with todo := update s.todo t (s.todo t).tail }.goto t .test

def takeByte (s : IoState τ) (t : τ) : Exec (IoState τ) := do
  inBounds (0 ≤ s.tail ∧ s.tail < bufsize)
  let byte := s.buf s.tail.toInt.toNat
  let s := { s with tail := nextPos s.tail, taken := s.taken ++ [byte] }.finish t
  match s.producer with
  | none => return s
  | some w =>
    let s ← s.threadUnblock w
    return { s with producer := none }

def putByte (s : IoState τ) (t : τ) (byte : UInt8) : Exec (IoState τ) := do
  inBounds (0 ≤ s.head ∧ s.head < bufsize)
  let s := { s with
    buf := update s.buf s.head.toInt.toNat byte
    head := nextPos s.head
    stored := s.stored ++ [byte] }.finish t
  match s.consumer with
  | none => return s
  | some w =>
    let s ← s.threadUnblock w
    return { s with consumer := none }

def loop (s : IoState τ) (t : τ) : IoOp → Exec (IoState τ)
  | .ioqGetchar => if s.ioqEmpty then s.acquireAndWait t .ioqGetchar else s.takeByte t
  | .ioqPutchar byte => if s.ioqFull then s.acquireAndWait t (.ioqPutchar byte) else s.putByte t byte

def exec (s : IoState τ) (t : τ) (op : IoOp) : Exec (IoState τ) :=
  match s.pc t with
  | .test => s.loop t op
  | .woken => s.downAndWait t op
  | .awake => do
    let s ← s.lockRelease t
    (s.goto t .test).loop t op
  | .blocked | .asleep => .ok s

end IoState

/-! ## Runs -/

inductive IoCall where
  | ioqGetchar
  | ioqPutchar (byte : UInt8)
  | pipeRead (count : UInt32)
  | pipeWrite (buf : Nat → UInt8) (count : UInt32)

namespace IoState

variable {τ : Type}

def readSize (s : IoState τ) (count : UInt32) : UInt32 := if s.ioqLength > count then count else s.ioqLength

def writeSize (s : IoState τ) (count : UInt32) : UInt32 :=
  let ioqLeft := bufsize.toUInt32 - s.ioqLength
  if ioqLeft > count then count else ioqLeft

def ops (s : IoState τ) : IoCall → List IoOp
  | .ioqGetchar => [.ioqGetchar]
  | .ioqPutchar byte => [.ioqPutchar byte]
  | .pipeRead count => List.replicate (s.readSize count).toNat .ioqGetchar
  | .pipeWrite buf count => (List.range (s.writeSize count).toNat).map fun i => .ioqPutchar (buf i)

def Start (s : IoState τ) : Prop :=
  s.Init ∧ (∀ t, s.todo t = []) ∧ (∀ t, s.pc t = .test) ∧ s.stored = [] ∧ s.taken = []

def Runnable (s : IoState τ) (t : τ) : Prop := s.pc t ≠ .blocked ∧ s.pc t ≠ .asleep

end IoState

inductive IoEvent (τ : Type) where
  | call (t : τ) (c : IoCall)
  | exec (t : τ)

inductive IoStep {τ : Type} [DecidableEq τ] : IoEvent τ → IoState τ → IoState τ → Prop
  | call {s : IoState τ} (t : τ) (c : IoCall) (hout : s.todo t = []) :
    IoStep (.call t c) s { s with todo := update s.todo t (s.ops c) }
  | exec {s s' : IoState τ} {t : τ} {op : IoOp} (hop : (s.todo t).head? = some op) (hrun : s.Runnable t)
    (h : s.exec t op = .ok s') : IoStep (.exec t) s s'

namespace IoState

/-- A thread sleeps in `ioq_getchar` only if the queue is empty, and in `ioq_putchar` only
if it is full. -/
def Justified {τ : Type} (s : IoState τ) : Prop :=
  (s.consumer ≠ none → s.ioqEmpty = true) ∧ (s.producer ≠ none → s.ioqFull = true)

end IoState

/-- A thread that gets the lock after it was blocked in `lock_acquire` finds the queue as
it was when it tested it. -/
def IoEvent.Current {τ : Type} (s : IoState τ) : IoEvent τ → Prop
  | .call _ _ => True
  | .exec t => s.pc t = .woken → s.value ≠ 0 →
    match (s.todo t).head? with
    | some .ioqGetchar => s.ioqEmpty = true
    | some (.ioqPutchar _) => s.ioqFull = true
    | none => True

end OperateSystem
