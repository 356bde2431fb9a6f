import OperateSystem.Sync
import OperateSystem.Transition

/-!
# The lock

`thread/sync.c`: one lock and the threads that use it, statement by statement.
`sema_down` and `sema_up` run with interrupts off, so each is one step, except
that `sema_down` stops in the middle where it blocks; between any other two
statements another thread may run.
-/

namespace OperateSystem

inductive Pc where
  | out
  /-- `lock_acquire` -/
  | acqTest
  | acqDown
  | acqHolder
  | acqAssert
  | acqSet
  | acqInc
  | blocked
  | woken
  | relAssert
  | relTest
  | relDec
  | relAssertOne
  | relClear
  | relZero
  | relUp
  deriving DecidableEq

structure LockState (τ : Type) where
  value : UInt8
  waiters : List τ
  holder : Option τ
  holderRepeatNr : UInt32
  pc : τ → Pc
  /-- How many acquires a thread has completed, minus its completed releases. -/
  depth : τ → Nat

namespace LockState

variable {τ : Type} [DecidableEq τ]

def goto (s : LockState τ) (t : τ) (q : Pc) : LockState τ := { s with pc := Function.update s.pc t q }

def setDepth (s : LockState τ) (t : τ) (n : Nat) : LockState τ := { s with depth := Function.update s.depth t n }

def semaDown (s : LockState τ) (t : τ) : Exec (LockState τ) :=
  OperateSystem.semaDown s.value s.waiters t (fun waiters => return { s with waiters }.goto t .blocked)
    fun value => return { s with value }.goto t .acqHolder

/-- A thread's status is `TASK_BLOCKED` exactly at `blocked`. -/
def threadUnblock (s : LockState τ) (t : τ) : Exec (LockState τ) := do
  assert .debug (s.pc t = .blocked) unblockCond
  return s.goto t .woken

def semaUp (s : LockState τ) : Exec (LockState τ) :=
  OperateSystem.semaUp s.value s.waiters s (fun w waiters => { s with waiters }.threadUnblock w) fun s value => { s with value }

/-- One statement of thread `t`. A blocked thread has none. -/
def exec (s : LockState τ) (t : τ) : Exec (LockState τ) :=
  match s.pc t with
  | .out | .blocked => .ok s
  | .acqTest => .ok (if s.holder ≠ some t then s.goto t .acqDown else s.goto t .acqInc)
  | .acqDown | .woken => s.semaDown t
  | .acqHolder => .ok ({ s with holder := some t }.goto t .acqAssert)
  | .acqAssert => do
    assert .debug (s.holderRepeatNr = 0) "plock->holder_repeat_nr == 0"
    return s.goto t .acqSet
  | .acqSet => .ok (({ s with holderRepeatNr := 1 }.setDepth t (s.depth t + 1)).goto t .out)
  | .acqInc => .ok (({ s with holderRepeatNr := s.holderRepeatNr + 1 }.setDepth t (s.depth t + 1)).goto t .out)
  | .relAssert => do
    assert .debug (s.holder = some t) "plock->holder == running_thread()"
    return s.goto t .relTest
  | .relTest => .ok (if s.holderRepeatNr > 1 then s.goto t .relDec else s.goto t .relAssertOne)
  | .relDec => .ok (({ s with holderRepeatNr := s.holderRepeatNr - 1 }.setDepth t (s.depth t - 1)).goto t .out)
  | .relAssertOne => do
    assert .debug (s.holderRepeatNr = 1) "plock->holder_repeat_nr == 1"
    return s.goto t .relClear
  | .relClear => .ok ({ s with holder := none }.goto t .relZero)
  | .relZero => .ok ({ s with holderRepeatNr := 0 }.goto t .relUp)
  | .relUp => do
    let s ← s.semaUp
    return (s.setDepth t (s.depth t - 1)).goto t .out

def Init (s : LockState τ) : Prop :=
  s.value = 1 ∧ s.waiters = [] ∧ s.holder = none ∧ s.holderRepeatNr = 0 ∧ (∀ t, s.pc t = .out) ∧ ∀ t, s.depth t = 0

end LockState

/-- Only the holder calls `lock_release`. -/
inductive LockStep {τ : Type} [DecidableEq τ] : LockState τ → LockState τ → Prop
  | acquire {s : LockState τ} (t : τ) (hout : s.pc t = .out) : LockStep s (s.goto t .acqTest)
  | release {s : LockState τ} (t : τ) (hout : s.pc t = .out) (hheld : s.holder = some t) :
    LockStep s (s.goto t .relAssert)
  | exec {s s' : LockState τ} (t : τ) (hin : s.pc t ≠ .out) (hrun : s.pc t ≠ .blocked) (h : s.exec t = .ok s') :
    LockStep s s'

/-- Steps of runs in which no thread nests `2 ^ 32` acquires. -/
def ShallowStep {τ : Type} [DecidableEq τ] (s s' : LockState τ) : Prop := LockStep s s' ∧ ∀ t, s'.depth t < 2 ^ 32

end OperateSystem
