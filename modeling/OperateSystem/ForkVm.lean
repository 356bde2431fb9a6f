import OperateSystem.Descriptors
import OperateSystem.Fork
import OperateSystem.Mmu

/-!
# `sys_fork` over the page directories

`userprog/fork.c` in either build, with the memory of the machine behind it: the
pages it takes, the copy of the parent's user pages through a buffer of the
kernel, the pid, the lists of threads and the counts of open files. What the PCB
and the kernel stack of the child hold besides is left out.
-/

namespace OperateSystem

open Function

/-! ## `copy_body_stack3` -/

namespace Vm

variable {τ : Type}

def copyPage (s : Vm τ) (dst src : Nat) : Exec (Vm τ) := do
  let f ← s.frame src
  let g ← s.frame dst
  return { s with mem := update s.mem g (s.mem f) }

/-- One page of the parent. The result of `get_a_page_without_opvaddrbitmap` is not
tested. -/
def copyUserPage (b : Build) (s : Vm τ) (child parent : τ) (bufPage progVaddr : Nat) : Exec (Vm τ) := do
  let s ← s.copyPage bufPage progVaddr
  let s ← s.pageDirActivate child
  let (_, s) ← s.getAPageWithoutOpvaddrbitmap b .pfUser progVaddr
  let s ← s.copyPage progVaddr bufPage
  s.pageDirActivate parent

def copyByte (b : Build) (child parent : τ) (bufPage : Nat) (v : VirtualAddr) (idxByte : Nat) : Nat → Nat → Vm τ → Exec (Vm τ)
  | 0, _, s => return s
  | n + 1, idxBit, s => do
    let s ← (if bitMask idxBit &&& v.vaddrBitmap.bits idxByte ≠ 0 then
        s.copyUserPage b child parent bufPage ((idxByte * 8 + idxBit) * pgSize + v.vaddrStart)
      else pure s)
    copyByte b child parent bufPage v idxByte n (idxBit + 1) s

def copyBytes (b : Build) (child parent : τ) (bufPage : Nat) (v : VirtualAddr) : Nat → Nat → Vm τ → Exec (Vm τ)
  | 0, _, s => return s
  | n + 1, idxByte, s => do
    let s ← (if v.vaddrBitmap.bits idxByte ≠ 0 then copyByte b child parent bufPage v idxByte 8 0 s else pure s)
    copyBytes b child parent bufPage v n (idxByte + 1) s

def copyBodyStack3 (b : Build) (s : Vm τ) (child parent : τ) (bufPage : Nat) : Exec (Vm τ) :=
  let v := s.userprogVaddr parent
  copyBytes b child parent bufPage v v.vaddrBitmap.btmpBytesLen 0 s

end Vm

/-! ## `sys_fork` -/

/-- The parts of the kernel that `sys_fork` works on. A task is the address of its
PCB. -/
structure Forking where
  vm : Vm Nat
  sched : Sched
  files : FdState

namespace Forking

/-- `copy_pcb_vaddrbitmap_stack0`; `false` is the return value `-1`. The name may
run into the fields behind it, which nothing here reads. -/
def copyPcb (b : Build) (s : Forking) (child : Nat) : Exec (Bool × Forking) := do
  let cur := s.sched.cur
  let (pid, sched) ← s.sched.allocatePid b
  let parent := sched.pcbCur
  let sched := (sched.setPcb child { parent with pid := pid, parentPid := some parent.pid }).setStatus child .ready
  let vm := { s.vm with pgdir := update s.vm.pgdir child (s.vm.pgdir cur) }.setUserprog child (s.vm.userprogVaddr cur)
  let (vaddrBtmp, vm) ← vm.getKernelPages b cur bitmapPgCnt
  match vaddrBtmp with
  | none => return (false, ⟨vm, sched, s.files⟩)
  | some _ => do
    let name := (sched.pcb child).name
    assert b (name.length < 11) "strlen(child_thread->name) < 11"
    return (true, ⟨vm, sched.setPcb child { sched.pcb child with name := name ++ ['_', 'f', 'o', 'r', 'k'] }, s.files⟩)

def copyBody (b : Build) (s : Forking) (child bufPage : Nat) : Exec (Bool × Forking) := do
  let cur := s.sched.cur
  let (pgdir, vm) ← s.vm.createPageDir b cur
  let vm := { vm with pgdir := update vm.pgdir child pgdir }
  match pgdir with
  | none => return (false, { s with vm := vm })
  | some _ => do
    let vm ← vm.copyBodyStack3 b child cur bufPage
    let files ← s.files.sysFork cur child
    let vm ← vm.mfreePage b cur .pfKernel bufPage 1
    return (true, { s with vm := vm, files := files })

def copyProcess (b : Build) (s : Forking) (child : Nat) : Exec (Bool × Forking) := do
  let (bufPage, vm) ← s.vm.getKernelPages b s.sched.cur 1
  match bufPage with
  | none => return (false, { s with vm := vm })
  | some bufPage => do
    let (ok, s) ← copyPcb b { s with vm := vm } child
    if ok then s.copyBody b child bufPage else return (false, s)

def sysFork (b : Build) (s : Forking) : Exec (Option Nat × Forking) := do
  let (childThread, vm) ← s.vm.getKernelPages b s.sched.cur 1
  match childThread with
  | none => return (none, { s with vm := vm })
  | some child => do
    assert b (s.sched.pcbCur.pgdir = true) "INTR_OFF == intr_get_status() && parent_thread->pgdir != NULL"
    let (ok, s) ← copyProcess b { s with vm := vm } child
    if ok then do
      let sched ← s.sched.publish b child "child_thread"
      return (some (sched.pcb child).pid, { s with sched := sched })
    else return (none, s)

/-! ## The scheduler's part -/

section
variable {s s' : Forking} {child : Nat}

theorem copyBody_sched {b : Build} {bufPage : Nat} {ok : Bool} (h : s.copyBody b child bufPage = .ok (ok, s')) :
    s'.sched = s.sched := by
  obtain ⟨⟨pgdir, vm⟩, -, h⟩ := bind_ok.mp h
  cases pgdir with
  | none =>
    cases h
    rfl
  | some v =>
    obtain ⟨vm1, -, h⟩ := bind_ok.mp h
    obtain ⟨files, -, h⟩ := bind_ok.mp h
    obtain ⟨vm2, -, h⟩ := bind_ok.mp h
    cases h
    rfl

theorem copyProcess_sched {ok : Bool} (h : s.copyProcess .debug child = .ok (ok, s')) :
    ∃ p : Sched.ForkPages, p.pgdir = ok ∧
      s.sched.forkCopy child p = if ok then s'.sched.forkEnd child p else .ok (s'.sched, none) := by
  obtain ⟨⟨buf, vm⟩, -, h⟩ := bind_ok.mp h
  cases buf with
  | none =>
    cases h
    exact ⟨⟨some child, false, false, false⟩, rfl, rfl⟩
  | some buf =>
    obtain ⟨⟨ok1, s1⟩, hpcb, h⟩ := bind_ok.mp h
    obtain ⟨⟨pid, sched⟩, hpid, hpcb⟩ := bind_ok.mp hpcb
    have hpid : s.sched.allocatePid .debug = .ok (pid, sched) := hpid
    obtain ⟨⟨btmp, vm1⟩, -, hpcb⟩ := bind_ok.mp hpcb
    cases btmp with
    | none =>
      cases hpcb
      cases h
      refine ⟨⟨some child, true, false, false⟩, rfl, ?_⟩
      unfold Sched.forkCopy
      rw [if_pos rfl, hpid]
      rfl
    | some btmp =>
      obtain ⟨_, hn, hpcb⟩ := bind_ok.mp hpcb
      cases hpcb
      have hs := copyBody_sched h
      refine ⟨⟨some child, true, true, ok⟩, rfl, ?_⟩
      unfold Sched.forkCopy
      rw [if_pos rfl, hpid, ok_bind, hs]
      refine (congrArg (· >>= _) hn).trans ?_
      cases ok <;> rfl

/-- With the `ASSERT`s the scheduler's part is the `sys_fork` of `Scheduler`, which
is told which pages there are. -/
theorem sysFork_sched {r : Option Nat} (h : s.sysFork .debug = .ok (r, s')) :
    ∃ p : Sched.ForkPages, s.sched.sysFork p = .ok (s'.sched, r) := by
  obtain ⟨⟨child, vm⟩, -, h⟩ := bind_ok.mp h
  cases child with
  | none =>
    cases h
    exact ⟨⟨none, false, false, false⟩, rfl⟩
  | some child =>
    obtain ⟨_, ha, h⟩ := bind_ok.mp h
    obtain ⟨⟨ok, s1⟩, hc, h⟩ := bind_ok.mp h
    obtain ⟨p, hok, hp⟩ := copyProcess_sched hc
    refine ⟨{ p with pcb := some child }, ?_⟩
    have hs : s.sched.sysFork { p with pcb := some child } = s.sched.forkCopy child p := by
      show (assert .debug (s.sched.pcbCur.pgdir = true) _ >>= fun _ => s.sched.forkCopy child { p with pcb := some child }) = _
      rw [ha]
      rfl
    rw [hs]
    have hp : s.sched.forkCopy child p = _ := hp
    rw [hp]
    cases ok with
    | false =>
      cases h
      rfl
    | true =>
      obtain ⟨sched, hpub, h⟩ := bind_ok.mp h
      cases h
      have hpub : s1.sched.publish .debug child "child_thread" = .ok sched := hpub
      show s1.sched.forkEnd child p = _
      unfold Sched.forkEnd
      rw [if_pos hok, hpub]
      rfl

end

end Forking

end OperateSystem
