import OperateSystem.AllocFail
import OperateSystem.ForkVm

/-!
# What a failed fork leaves behind

No early return of `sys_fork`, `copy_process` or `copy_pcb_vaddrbitmap_stack0`
gives anything back. On these paths the bitmap of the kernel's addresses only
grows, so the mark of the PCB's page is still there at the end.
-/

namespace OperateSystem

/-! ## The kernel's addresses -/

namespace Vm

variable {τ : Type} [DecidableEq τ] {s s' : Vm τ} {b : Build}
variable {o : Option Nat} {cur : τ}

def Grows (s s' : Vm τ) : Prop := ∀ j, s.kernelVaddr.vaddrBitmap.bit j = true → s'.kernelVaddr.vaddrBitmap.bit j = true

omit [DecidableEq τ] in
theorem Grows.trans {s1 : Vm τ} (h : Grows s s1) (h' : Grows s1 s') : Grows s s' := fun j hj => h' j (h j hj)

omit [DecidableEq τ] in
theorem SameVaddr.grows (h : SameVaddr s s') : Grows s s' := fun j hj => by rwa [h.kernel]

theorem getKernelPages_cases {n : Nat} (hn : 1 ≤ n) (h : s.getKernelPages b cur n = .ok (o, s')) :
    bitmapScan b s.kernelVaddr.vaddrBitmap n = .ok none ∧ o = none ∧ s' = s ∨
    ∃ i, bitmapScan b s.kernelVaddr.vaddrBitmap n = .ok (some i) ∧ s.kernelVaddr.vaddrBitmap.bit i = false ∧
      s'.kernelVaddr.vaddrBitmap.bit i = true ∧ Grows s s' := by
  unfold Vm.getKernelPages at h
  obtain ⟨⟨o1, s1⟩, hm, hr⟩ := bind_ok.mp h
  rcases mallocPage_cases hm with ⟨hs, rfl, rfl⟩ | ⟨i, hs, -, hma, hg⟩
  · cases hr
    exact .inl ⟨hs, rfl, rfl⟩
  · obtain ⟨hc, hset⟩ := hma hn
    cases o1 with
    | none =>
      cases hr
      exact .inr ⟨i, hs, hc, hset, hg⟩
    | some v =>
      obtain ⟨s2, hpa, hend⟩ := bind_ok.mp hr
      cases hend
      have hsa := (sameVaddr_clearPages hpa).grows
      exact .inr ⟨i, hs, hc, hsa i hset, Grows.trans hg hsa⟩

theorem grows_getKernelPages {n : Nat} (hn : 1 ≤ n) (h : s.getKernelPages b cur n = .ok (o, s')) :
    Grows s s' := by
  rcases getKernelPages_cases hn h with ⟨-, -, rfl⟩ | ⟨i, -, -, -, hg⟩
  · exact fun _ hj => hj
  · exact hg

theorem grows_createPageDir (h : s.createPageDir b cur = .ok (o, s')) : Grows s s' := by
  unfold Vm.createPageDir at h
  obtain ⟨⟨o1, s1⟩, hpa, hr⟩ := bind_ok.mp h
  refine (grows_getKernelPages le_rfl hpa).trans ?_
  cases o1 with
  | none =>
    cases hr
    exact fun _ hj => hj
  | some v =>
    obtain ⟨s2, hc, hr⟩ := bind_ok.mp hr
    obtain ⟨phyaddr, -, hr⟩ := bind_ok.mp hr
    obtain ⟨s3, hs, hend⟩ := bind_ok.mp hr
    cases hend
    unfold Vm.copyEntries at hc
    obtain ⟨dst, -, hc⟩ := bind_ok.mp hc
    obtain ⟨src, -, hc⟩ := bind_ok.mp hc
    cases hc
    exact (sameVaddr_store hs).grows

end Vm

namespace Forking

variable {s s' : Forking} {b : Build} {child : Nat}

/-! ## The early returns -/

structure SameSystem (s s' : Forking) : Prop where
  pidBitmap : s'.sched.pidBitmap = s.sched.pidBitmap
  kernelPool : s'.vm.kernelPool = s.vm.kernelPool
  userPool : s'.vm.userPool = s.vm.userPool
  kernelVaddr : s'.vm.kernelVaddr = s.vm.kernelVaddr
  readyList : s'.sched.readyList = s.sched.readyList
  allList : s'.sched.allList = s.sched.allList
  fileTable : s'.files.fileTable = s.files.fileTable
  inodes : s'.files.inodes = s.files.inodes

theorem grows_copyPcb {ok : Bool} (h : s.copyPcb b child = .ok (ok, s')) : Vm.Grows s.vm s'.vm := by
  unfold copyPcb at h
  obtain ⟨⟨pid, sched⟩, -, h⟩ := bind_ok.mp h
  obtain ⟨⟨btmp, vm⟩, hpa, h⟩ := bind_ok.mp h
  have hg := Vm.grows_getKernelPages (by decide) hpa
  cases btmp with
  | none =>
    cases h
    exact hg
  | some btmp =>
    obtain ⟨_, -, h⟩ := bind_ok.mp h
    cases h
    exact hg

theorem grows_copyBody {bufPage : Nat} (h : s.copyBody b child bufPage = .ok (false, s')) : Vm.Grows s.vm s'.vm := by
  unfold copyBody at h
  obtain ⟨⟨pgdir, vm⟩, hdir, h⟩ := bind_ok.mp h
  have hg := Vm.grows_createPageDir hdir
  cases pgdir with
  | none =>
    cases h
    exact hg
  | some v =>
    obtain ⟨vm1, -, h⟩ := bind_ok.mp h
    obtain ⟨files, -, h⟩ := bind_ok.mp h
    obtain ⟨vm2, -, h⟩ := bind_ok.mp h
    cases h

theorem grows_copyProcess (h : s.copyProcess b child = .ok (false, s')) : Vm.Grows s.vm s'.vm := by
  unfold copyProcess at h
  obtain ⟨⟨buf, vm⟩, hpa, h⟩ := bind_ok.mp h
  refine (Vm.grows_getKernelPages le_rfl hpa).trans ?_
  cases buf with
  | none =>
    cases h
    exact fun _ hj => hj
  | some buf =>
    obtain ⟨⟨ok, s1⟩, hpcb, h⟩ := bind_ok.mp h
    have hg := grows_copyPcb hpcb
    cases ok with
    | false =>
      cases h
      exact hg
    | true => exact hg.trans (grows_copyBody h)

theorem sysFork_failed (h : s.sysFork b = .ok (none, s')) :
    bitmapScan b s.vm.kernelVaddr.vaddrBitmap 1 = .ok none ∧ s' = s ∨
    ∃ i, bitmapScan b s.vm.kernelVaddr.vaddrBitmap 1 = .ok (some i) ∧ s.vm.kernelVaddr.vaddrBitmap.bit i = false ∧
      s'.vm.kernelVaddr.vaddrBitmap.bit i = true := by
  unfold sysFork at h
  obtain ⟨⟨childThread, vm⟩, hpa, h⟩ := bind_ok.mp h
  rcases Vm.getKernelPages_cases le_rfl hpa with ⟨hs, rfl, rfl⟩ | ⟨i, hs, hc, hset, -⟩
  · cases h
    exact .inl ⟨hs, rfl⟩
  · refine .inr ⟨i, hs, hc, ?_⟩
    cases childThread with
    | none =>
      cases h
      exact hset
    | some child =>
      obtain ⟨_, -, h⟩ := bind_ok.mp h
      obtain ⟨⟨ok, s1⟩, hco, h⟩ := bind_ok.mp h
      cases ok with
      | true =>
        obtain ⟨sched, -, h⟩ := bind_ok.mp h
        cases h
      | false =>
        cases h
        exact grows_copyProcess hco i hset

/-- **What a failed fork changes.** The system is as before only if the kernel had
no address left for the PCB. -/
theorem failed_fork_iff (h : s.sysFork .ndebug = .ok (none, s')) :
    SameSystem s s' ↔ bitmapScan .ndebug s.vm.kernelVaddr.vaddrBitmap 1 = .ok none := by
  constructor
  · intro hsa
    rcases sysFork_failed h with ⟨hs, -⟩ | ⟨i, -, hc, hset⟩
    · exact hs
    · rw [hsa.kernelVaddr, hc] at hset
      cases hset
  · intro hs
    rcases sysFork_failed h with ⟨-, rfl⟩ | ⟨i, hso, -⟩
    · exact ⟨rfl, rfl, rfl, rfl, rfl, rfl, rfl, rfl⟩
    · rw [hs] at hso
      cases hso

/-- A process on the directory of the boot loader. `frames` is the last byte of the bitmap of frames
and `vaddrs` every byte of that of addresses. -/
def smallKernel (frames vaddrs : UInt8) : Forking where
  vm :=
    { mem := setupPage fun _ _ => 0
      cr3 := bootDir
      kernelVaddr := ⟨.ofBytes 4 fun _ => vaddrs, kHeapStart⟩
      kernelPool := ⟨.ofBytes 4 fun a => if a = 3 then frames else 0, 0x200 * pgSize, 32 * pgSize⟩
      userPool := ⟨.ofBytes 1 fun _ => 0, 0x220 * pgSize, 8 * pgSize⟩
      pgdir := fun _ => some 0xc0110000
      userprogVaddr := fun _ => ⟨.ofBytes userBitmapLen fun _ => 0, userVaddrStart⟩ }
  sched := ⟨fun _ => .running, fun _ => ⟨1, none, 0, true, []⟩, fun _ => .own, 0xc0111000, [], [0xc0111000], fun _ => 1, fun _ => [],
    .ofBytes 128 fun _ => 0, 0xc009e000, 0xc009e000⟩
  files := ⟨fun _ => ⟨0, 0, none⟩, fun _ => none, [], fun _ => some ⟨fun _ => none, fun _ => none⟩⟩

theorem sysFork_sched_small : ∃ s' p, (smallKernel 0 0).sysFork .debug = .ok (some 1, s') ∧
    (smallKernel 0 0).sched.sysFork p = .ok (s'.sched, some 1) := by
  obtain ⟨⟨r, s'⟩, hr, hs⟩ : ∃ r, (smallKernel 0 0).sysFork .debug = .ok r ∧ (r.1 == some 1) = true := exists_of_any (by decide +kernel)
  cases beq_iff_eq.mp hs
  obtain ⟨p, hp⟩ := sysFork_sched hr
  exact ⟨s', p, hr, hp⟩

theorem failed_fork_no_address : ∃ s', (smallKernel 0 0xff).sysFork .ndebug = .ok (none, s') ∧ SameSystem (smallKernel 0 0xff) s' := by
  obtain ⟨⟨o, s'⟩, hr, ho⟩ : ∃ r, (smallKernel 0 0xff).sysFork .ndebug = .ok r ∧ r.1.isNone = true :=
    exists_of_any (by decide +kernel)
  obtain rfl : o = none := Option.isNone_iff_eq_none.mp ho
  exact ⟨s', hr, (failed_fork_iff hr).mpr (by decide +kernel)⟩

/-- There is no frame for the page directory, and the pid and 25 pages are lost. -/
theorem failed_fork_keeps_pid : ∃ s', (smallKernel 0xfe 0).sysFork .ndebug = .ok (none, s') ∧
    (smallKernel 0xfe 0).sched.pidBitmap.bit 0 = false ∧ s'.sched.pidBitmap.bit 0 = true ∧
    (smallKernel 0xfe 0).vm.kernelPool.poolBitmap.bit 24 = false ∧ s'.vm.kernelPool.poolBitmap.bit 24 = true := by
  obtain ⟨⟨o, s'⟩, hr, hq⟩ : ∃ r, (smallKernel 0xfe 0).sysFork .ndebug = .ok r ∧
      (r.1.isNone && (r.2.sched.pidBitmap.bit 0 && r.2.vm.kernelPool.poolBitmap.bit 24)) = true := exists_of_any (by decide +kernel)
  rw [Bool.and_eq_true, Bool.and_eq_true] at hq
  obtain rfl : o = none := Option.isNone_iff_eq_none.mp hq.1
  exact ⟨s', hr, by decide, hq.2.1, by decide, hq.2.2⟩

end Forking

end OperateSystem
