import OperateSystem.FsSearch

/-!
# Runs of file-system calls

The calls that processes make, successful or not, and the state of a partition
that was just mounted.
-/

namespace OperateSystem

inductive FsCall where
  | sysOpen (env : CallEnv) (p : Nat) (pathname : List UInt8) (flags : UInt8)
  | sysClose (p : Nat) (fd : Fin 8)
  | sysOpendir (env : CallEnv) (name : List UInt8)
  | sysClosedir (dir : DirPtr)
  | sysMkdir (env : CallEnv) (pathname : List UInt8)
  | sysRmdir (env : CallEnv) (pathname : List UInt8)
  | sysUnlink (env : CallEnv) (pathname : List UInt8)
  | sysStat (env : CallEnv) (path : List UInt8)
  | sysChdir (env : CallEnv) (p : Nat) (path : List UInt8)
  | sysFork (p child : Nat)

/-- The effect of a call. A path has no NUL in it, `sys_close` refuses the standard
descriptors, and a new pid is not in use. -/
inductive FsCallStep (b : Build) {part : Partition} : FsCall → Fs part → Fs part → Prop
  | sysOpen {s s' : Fs part} {env : CallEnv} {p : Nat} {pathname : List UInt8} {flags : UInt8} {fd : Option (Fin 8)}
    (hpath : 0 ∉ pathname) (h : s.sysOpen b env p pathname flags = .ok (s', fd)) : FsCallStep b (.sysOpen env p pathname flags) s s'
  | sysClose {s s' : Fs part} {p : Nat} {fd : Fin 8} (hfd : 3 ≤ fd.val) (h : s.sysClose b p fd = .ok s') :
    FsCallStep b (.sysClose p fd) s s'
  | sysOpendir {s s' : Fs part} {env : CallEnv} {name : List UInt8} {dir : Option DirPtr}
    (hpath : 0 ∉ name) (h : s.sysOpendir b env name = .ok (s', dir)) : FsCallStep b (.sysOpendir env name) s s'
  | sysClosedir {s s' : Fs part} {dir : DirPtr} (h : s.sysClosedir b dir = .ok s') : FsCallStep b (.sysClosedir dir) s s'
  | sysMkdir {s s' : Fs part} {env : CallEnv} {pathname : List UInt8} {ok : Bool}
    (hpath : 0 ∉ pathname) (h : s.sysMkdir b env pathname = .ok (s', ok)) : FsCallStep b (.sysMkdir env pathname) s s'
  | sysRmdir {s s' : Fs part} {env : CallEnv} {pathname : List UInt8} {ok : Bool}
    (hpath : 0 ∉ pathname) (h : s.sysRmdir b env pathname = .ok (s', ok)) : FsCallStep b (.sysRmdir env pathname) s s'
  | sysUnlink {s s' : Fs part} {env : CallEnv} {pathname : List UInt8} {ok : Bool}
    (hpath : 0 ∉ pathname) (h : s.sysUnlink b env pathname = .ok (s', ok)) : FsCallStep b (.sysUnlink env pathname) s s'
  | sysStat {s s' : Fs part} {env : CallEnv} {path : List UInt8} {buf : Option Fs.Stat}
    (hpath : 0 ∉ path) (h : s.sysStat b env path = .ok (s', buf)) : FsCallStep b (.sysStat env path) s s'
  | sysChdir {s s' : Fs part} {env : CallEnv} {p : Nat} {path : List UInt8} {ok : Bool}
    (hpath : 0 ∉ path) (h : s.sysChdir b env p path = .ok (s', ok)) : FsCallStep b (.sysChdir env p path) s s'
  | sysFork {s s' : Fs part} {p child : Nat} (hpid : s.procs child = none) (h : s.sysFork p child = .ok s') :
    FsCallStep b (.sysFork p child) s s'

structure Fs.Mounted {part : Partition} (s : Fs part) : Prop where
  root : ∃ i, s.openInodes = [⟨s.rootDir, i, 1, .pfKernel⟩] ∧ i.iNo = 0
  fileTable : ∀ g, (s.fileTable g).fdInode = none
  dirs : s.dirs = []
  fds : ∀ p P, s.procs p = some P → ∀ d : Fin 8, 3 ≤ d.val → P.fdTable d = none
  freed : s.freed = []

/-! ## The directory `/a` with the file `/a/f` -/

def homeInode (n : Nat) : Inode :=
  ⟨.ofNat n, if n < 2 then 72 else 0, 0, 0, fun j => if n < 2 ∧ j.val = 0 then .ofNat (612 + n) else 0, 0, 0⟩

def homeEntry (n i : Nat) : DirEntry :=
  if i = 0 then ⟨fun j => dot.getD j 0, .ofNat n, ftDirectory⟩
  else if i = 1 then ⟨fun j => dotDot.getD j 0, 0, ftDirectory⟩
  else if i = 2 then ⟨fun j => if j.val = 0 then (if n = 0 then 97 else 102) else 0, .ofNat (n + 1), if n = 0 then ftDirectory else ftRegular⟩
  else ⟨fun _ => 0, 0, 0⟩

def homeDisk : Mem := fun a =>
  if 2048 ≤ a ∧ a < 2048 + 76 * 3 then (homeInode ((a - 2048) / 76)).toMem ((a - 2048) % 76)
  else if a / 512 = 612 ∨ a / 512 = 613 then (homeEntry (a / 512 - 612) (a % 512 / 24)).toMem (a % 512 % 24)
  else 0

def homeVol : Volume samplePart where
  disk := homeDisk
  blockBitmap := ⟨512, fun a => if a = 0 then 3 else 0, sector_lt⟩
  inodeBitmap := ⟨512, fun a => if a = 0 then 7 else 0, sector_lt⟩
  block_len := rfl

def homeFs : Fs samplePart where
  vol := homeVol
  openInodes := [⟨0, homeInode 0, 1, .pfKernel⟩]
  fileTable _ := ⟨0, 0, none⟩
  rootDir := 0
  dirs := []
  procs p := if p < 2 then some ⟨fun _ => none, 0, p = 0⟩ else none
  freed := []

theorem homeFs_mounted : homeFs.Mounted := by
  refine ⟨⟨homeInode 0, rfl, rfl⟩, fun _ => rfl, rfl, fun p P hP d _ => ?_, rfl⟩
  have hP : (if p < 2 then some (FsProc.mk (fun _ => none) 0 (p = 0)) else none) = some P := hP
  split at hP <;> cases hP
  rfl

def homeEnv : CallEnv := ⟨fun _ => true, true, true, 0, 0, 0, 0⟩

end OperateSystem
