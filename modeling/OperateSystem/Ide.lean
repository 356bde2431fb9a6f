import OperateSystem.Lock
import OperateSystem.Disk

/-!
# Disk requests and interrupts

`ide_read`, `ide_write` and `intr_hd_handler` of `device/ide.c` on one channel,
statement by statement. A request takes the lock of the channel, and for up to
256 sectors at a time it issues a command and waits for `disk_done`, which the
interrupt of the channel raises. Interrupts come between any two statements;
`sema_down` and the handler run with interrupts off.
-/

namespace OperateSystem

open Function

inductive IdePc where
  | out
  | acquire
  | release
  | loop
  | select
  | expect
  | command
  | busyWait
  | transfer
  /-- `sema_down`: at its test, in `waiters`, and taken from there but not yet back at
  the test. -/
  | down
  | blocked
  | woken
  deriving DecidableEq

structure IdeRequest where
  write : Bool
  lba : UInt32
  secCnt : UInt32
  secsDone : UInt32

/-- `issued` counts the calls of `cmd_out`, and `consumed` the calls of `sema_down` that came
through. -/
structure IdeState (τ : Type) where
  lock : LockState τ
  expectingIntr : Bool
  value : UInt8
  waiters : List τ
  pc : τ → IdePc
  request : τ → IdeRequest
  issued : Nat
  consumed : Nat

namespace IdeState

variable {τ : Type} [DecidableEq τ]

def goto (s : IdeState τ) (t : τ) (q : IdePc) : IdeState τ := { s with pc := update s.pc t q }

def advance (s : IdeState τ) (t : τ) : IdeState τ :=
  let r := s.request t
  let secsOp := if r.secsDone + 256 ≤ r.secCnt then 256 else r.secCnt - r.secsDone
  { s with request := update s.request t { r with secsDone := r.secsDone + secsOp } }

def begin (s : IdeState τ) (t : τ) (write : Bool) (lba secCnt : UInt32) : Exec (IdeState τ) := do
  assert .debug (lba.toNat ≤ maxLba) "lba <= max_lba"
  assert .debug (secCnt > 0) "sec_cnt > 0"
  return { s with
    lock := s.lock.goto t .acqTest
    request := update s.request t ⟨write, lba, secCnt, 0⟩ }.goto t .acquire

/-- What comes next is the end of a round for `ide_write`, and the data for `ide_read`. -/
def semaDown (s : IdeState τ) (t : τ) : Exec (IdeState τ) :=
  OperateSystem.semaDown s.value s.waiters t (fun waiters => return { s with waiters }.goto t .blocked) fun value =>
    let s := { s with value, consumed := s.consumed + 1 }
    if (s.request t).write then return (s.advance t).goto t .loop
    else return s.goto t .busyWait

/-- One statement of thread `t`. `ready` is what `busy_wait` finds in the status register. -/
def exec (s : IdeState τ) (t : τ) (ready : Bool) : Exec (IdeState τ) :=
  match s.pc t with
  | .out | .blocked => .ok s
  | .acquire =>
    if s.lock.pc t = .out then .ok (s.goto t .loop)
    else do
      let lock ← s.lock.exec t
      return { s with lock }
  | .loop =>
    if (s.request t).secsDone < (s.request t).secCnt then .ok (s.goto t .select)
    else .ok ({ s with lock := s.lock.goto t .relAssert }.goto t .release)
  | .select => do
    assert .debug (((s.request t).lba + (s.request t).secsDone).toNat ≤ maxLba) "lba <= max_lba"
    return s.goto t .expect
  | .expect => .ok ({ s with expectingIntr := true, issued := s.issued + 1 }.goto t .command)
  | .command => .ok (s.goto t (if (s.request t).write then .busyWait else .down))
  | .busyWait =>
    if ready then .ok (s.goto t .transfer)
    else .error (.panic (if (s.request t).write then "%s write sector %d failed!\n" else "%s read sector %d failed!\n"))
  | .transfer => .ok (if (s.request t).write then s.goto t .down else (s.advance t).goto t .loop)
  | .down | .woken => s.semaDown t
  | .release =>
    if s.lock.pc t = .out then .ok (s.goto t .out)
    else do
      let lock ← s.lock.exec t
      return { s with lock }

def threadUnblock (s : IdeState τ) (t : τ) : Exec (IdeState τ) := do
  assert .debug (s.pc t = .blocked) unblockCond
  return s.goto t .woken

def semaUp (s : IdeState τ) : Exec (IdeState τ) :=
  OperateSystem.semaUp s.value s.waiters s (fun w waiters => { s with waiters }.threadUnblock w) fun s value => { s with value }

def intrHdHandler (s : IdeState τ) : Exec (IdeState τ) :=
  if s.expectingIntr then { s with expectingIntr := false }.semaUp else .ok s

def Start (s : IdeState τ) : Prop :=
  s.lock.Init ∧ s.expectingIntr = false ∧ s.value = 0 ∧ s.waiters = [] ∧ (∀ t, s.pc t = .out) ∧ s.issued = 0 ∧ s.consumed = 0

end IdeState

inductive IdeStep {τ : Type} [DecidableEq τ] : IdeState τ → IdeState τ → Prop
  | call {s s' : IdeState τ} {t : τ} {write : Bool} {lba secCnt : UInt32} (hout : s.pc t = .out)
    (h : s.begin t write lba secCnt = .ok s') : IdeStep s s'
  | exec {s s' : IdeState τ} {t : τ} {ready : Bool} (h : s.exec t ready = .ok s') : IdeStep s s'
  | intr {s s' : IdeState τ} (h : s.intrHdHandler = .ok s') : IdeStep s s'

end OperateSystem
