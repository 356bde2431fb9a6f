import OperateSystem.FsEnds
import OperateSystem.FsRun

/-!
# The heap of the cached inodes

`inode_open` allocates an inode as kernel memory, and `inode_close` frees it as
kernel memory. `file_create` allocates the inode of a new file in the heap of
the running process instead.
-/

namespace OperateSystem

namespace Fs

variable {part : Partition} {b : Build} {s s' : Fs part}
variable {ok : Bool} {c : CachedInode} {env : CallEnv} {d : DirPtr} {pathname : List UInt8}
variable {a p parent : Nat} {fd : Option (Fin 8)} {no : UInt32} {flag : UInt8}

/-- The cached inodes are kernel memory, and those that were freed went back to the
pool they came from. -/
structure PoolsOk (s : Fs part) : Prop where
  cached : ∀ c ∈ s.openInodes, c.pool = .pfKernel
  freed : ∀ x ∈ s.freed, x.1 = x.2

theorem PoolsOk.store (h : s.PoolsOk) (hc : c.pool = .pfKernel) : (s.store c).PoolsOk := by
  refine ⟨fun x hx => ?_, h.freed⟩
  rcases mem_store hx with rfl | hx
  · exact hc
  · exact h.cached x hx

theorem PoolsOk.push (h : s.PoolsOk) (hc : c.pool = .pfKernel) : (s.push c).PoolsOk := by
  refine ⟨fun x hx => ?_, h.freed⟩
  rcases List.mem_cons.mp hx with rfl | hx
  · exact hc
  · exact h.cached x hx

theorem PoolsOk.congr (h : s.PoolsOk) (hi : s'.openInodes = s.openInodes) (hf : s'.freed = s.freed) : s'.PoolsOk :=
  ⟨fun c hc => h.cached c (hi ▸ hc), fun x hx => h.freed x (hf ▸ hx)⟩

theorem PoolsOk.pool (h : s.PoolsOk) (hc : s.cached a = .ok c) : c.pool = .pfKernel :=
  h.cached c (cached_ok hc).1

theorem PoolsOk.update (h : s.PoolsOk) {c' : CachedInode} (hc : s.cached a = .ok c)
    (hp : c'.pool = c.pool) :
    (s.store c').PoolsOk := h.store (hp.trans (h.pool hc))

theorem CacheStep.pools (hs : CacheStep b s s') (h : s.PoolsOk) : s'.PoolsOk := by
  cases hs with
  | opened ho =>
    obtain ⟨c, hc, -, -, rfl⟩ | ⟨i, -, -, -, rfl⟩ := inodeOpen_cases ho
    · exact h.store (h.cached c hc)
    · exact h.push rfl
  | closed hc =>
    obtain ⟨c, hp, ⟨-, -, rfl⟩ | ⟨-, rfl⟩⟩ := inodeClose_cases hc
    · refine ⟨fun x hx => h.cached x (List.mem_filter.mp hx).1, fun x hx => ?_⟩
      rcases List.mem_cons.mp hx with rfl | hx
      · exact h.pool hp
      · exact h.freed x hx
    · exact h.update hp rfl

theorem CacheRun.pools (hs : CacheRun b s s') (h : s.PoolsOk) : s'.PoolsOk := by
  induction hs with
  | refl => exact h
  | tail _ hs ih => exact hs.pools ih

/-! ## The functions below the calls -/

theorem link_pools {e : DirEntry} {new : Inode} (hr : s.link b parent e new = .ok (s', ok))
    (h : s.PoolsOk) : s'.PoolsOk := by
  obtain ⟨c, st, vol, hc, -, rfl, -⟩ := link_cases hr
  exact PoolsOk.update (s := s.setVol vol) (h.congr rfl rfl) hc rfl

theorem deleteDirEntry_pools (hr : s.deleteDirEntry b env a no = .ok s') (h : s.PoolsOk) : s'.PoolsOk := by
  unfold Fs.deleteDirEntry at hr
  simp only [bind_ok] at hr
  obtain ⟨c, hc, r, -, ⟨st, x⟩, -, hr⟩ := hr
  cases hr
  exact PoolsOk.update (s := s.setVol st.vol) (h.congr rfl rfl) hc rfl

theorem inodeRelease_pools (hr : s.inodeRelease b no = .ok s') (h : s.PoolsOk) : s'.PoolsOk := by
  unfold Fs.inodeRelease Fs.inodeReleaseVia at hr
  simp only [bind_ok] at hr
  obtain ⟨⟨s1, a⟩, ho, c, -, _, -, vol, -, hr⟩ := hr
  exact (CacheStep.closed hr).pools (((CacheStep.opened ho).pools h).congr rfl rfl)

theorem pcbFdInstall_pools {g : Fin 32} (hr : s.pcbFdInstall p g = .ok (s', fd)) (h : s.PoolsOk) :
    s'.PoolsOk := by
  obtain ⟨-, rfl⟩ | ⟨P, d, -, -, -, rfl⟩ := pcbFdInstall_cases hr
  · exact h
  · exact h.congr rfl rfl

theorem fileCreate_pools {filename : List UInt8}
    (hr : s.fileCreate b env p parent filename flag = .ok (s', fd)) (h : s.PoolsOk)
    (hp : s.callerPool p = .pfKernel) : s'.PoolsOk := by
  unfold Fs.fileCreate Fs.fileCreateVia at hr
  split at hr
  · cases hr
    exact h
  · obtain ⟨⟨r, vol⟩, -, hr⟩ := bind_ok.mp hr
    cases r with
    | none =>
      cases hr
      exact h.congr rfl rfl
    | some n =>
      dsimp only at hr
      split at hr
      · cases hr
        exact h.congr rfl rfl
      · split at hr
        · cases hr
          exact h.congr rfl rfl
        · rename_i g _
          simp only [bind_ok] at hr
          obtain ⟨e, -, ⟨s2, ok⟩, hl, hr⟩ := hr
          have h2 : s2.PoolsOk := link_pools hl (h.congr rfl rfl)
          split at hr
          · exact pcbFdInstall_pools hr (h2.push hp)
          · cases hr
            exact h2.congr rfl rfl

theorem fileOpen_pools (hr : s.fileOpen b p no flag = .ok (s', fd)) (h : s.PoolsOk) : s'.PoolsOk := by
  unfold Fs.fileOpen at hr
  split at hr
  · cases hr
    exact h
  · rename_i g _
    obtain ⟨⟨s1, a⟩, ho, hr⟩ := bind_ok.mp hr
    have h1 : (s1.setFile g ⟨0, flag.toUInt32, some a⟩).PoolsOk := ((CacheStep.opened ho).pools h).congr rfl rfl
    dsimp only at hr
    split at hr
    · obtain ⟨c, hc, hr⟩ := bind_ok.mp hr
      split at hr
      · cases hr
        exact h1
      · exact pcbFdInstall_pools hr (h1.update hc rfl)
    · exact pcbFdInstall_pools hr h1

theorem fileClose_pools {g : Fin 32} (hr : s.fileClose b g = .ok s') (h : s.PoolsOk) : s'.PoolsOk := by
  unfold Fs.fileClose at hr
  simp only [bind_ok] at hr
  obtain ⟨a, -, c, hc, s1, h1, hr⟩ := hr
  cases hr
  exact ((CacheStep.closed h1).pools (h.update hc rfl)).congr rfl rfl

theorem mkdirRollback_pools {n : Option Nat} (hr : s.mkdirRollback b d n = .ok (s', ok)) (h : s.PoolsOk) :
    s'.PoolsOk := by
  obtain ⟨s1, h1, hr⟩ := bind_ok.mp hr
  cases hr
  refine (dirClose_run h1).pools ?_
  cases n <;> exact h.congr rfl rfl

theorem makeDir_pools {dirname : List UInt8} (hr : s.makeDir b d dirname = .ok (s', ok)) (h : s.PoolsOk) :
    s'.PoolsOk := by
  obtain ⟨⟨r, vol⟩, -, hr⟩ := bind_ok.mp hr
  obtain _ | n := r
  · exact mkdirRollback_pools hr (h.congr rfl rfl)
  obtain ⟨⟨r, vol1⟩, -, hr⟩ := bind_ok.mp hr
  obtain _ | lba := r
  · exact mkdirRollback_pools hr (h.congr rfl rfl)
  simp only [bind_ok] at hr
  obtain ⟨_, -, vol2, -, c, -, disk, -, e, -, ⟨s2, r⟩, hl, hr⟩ := hr
  have h2 : s2.PoolsOk := link_pools hl (h.congr rfl rfl)
  split at hr
  · obtain ⟨s3, h3, hr⟩ := bind_ok.mp hr
    cases hr
    exact (dirClose_run h3).pools h2
  · exact mkdirRollback_pools hr h2

/-! ## The calls -/

theorem sysClose_pools {fd : Fin 8} (hr : s.sysClose b p fd = .ok s') (h : s.PoolsOk) : s'.PoolsOk := by
  obtain ⟨P, -, hr⟩ := bind_ok.mp hr
  split at hr
  · cases hr
  obtain ⟨s1, h1, hr⟩ := bind_ok.mp hr
  cases hr
  have hp : s1.PoolsOk := by
    split at h1
    · cases h1
      exact h.congr rfl rfl
    · exact fileClose_pools h1 h
  exact hp.congr rfl rfl

theorem sysUnlink_pools (hr : s.sysUnlink b env pathname = .ok (s', ok)) (h : s.PoolsOk) : s'.PoolsOk := by
  unfold Fs.sysUnlink at hr
  simp only [bind_ok] at hr
  obtain ⟨_, -, ⟨s1, r, no⟩, hs, _, -, inUse, -, hr⟩ := hr
  have h1 := (searchFile_run hs).pools h
  split at hr
  · obtain ⟨s2, h2, hr⟩ := bind_ok.mp hr
    cases hr
    exact (dirClose_run h2).pools h1
  · simp only [bind_ok] at hr
    obtain ⟨s2, h2, s3, h3, s4, h4, hr⟩ := hr
    cases hr
    exact (dirClose_run h4).pools (inodeRelease_pools h3 (deleteDirEntry_pools h2 h1))

theorem sysRmdir_pools (hr : s.sysRmdir b env pathname = .ok (s', ok)) (h : s.PoolsOk) : s'.PoolsOk := by
  obtain ⟨s1, r, no, hs, -, hend⟩ := sysRmdir_end hr
  have h1 := (searchFile_run hs).pools h
  cases hend with
  | refused hc => exact (dirClose_run hc).pools h1
  | left ho hc hc' =>
    exact (dirClose_run hc').pools ((dirClose_run hc).pools ((dirOpen_run ho).pools h1))
  | removed ho _ _ hdel _ hrel hc hc' =>
    have h4 := inodeRelease_pools hrel (deleteDirEntry_pools hdel ((CacheStep.opened ho).pools h1))
    exact (dirClose_run hc').pools ((CacheStep.closed hc).pools h4)

theorem sysMkdir_pools (hr : s.sysMkdir b env pathname = .ok (s', ok)) (h : s.PoolsOk) : s'.PoolsOk := by
  cases sysMkdir_end hr with
  | noBuffer => exact h
  | refused hs _ hc => exact (dirClose_run hc).pools ((searchFile_run hs).pools h)
  | made _ hs _ _ _ hm => exact makeDir_pools hm ((searchFile_run hs).pools h)

theorem sysOpendir_pools {name : List UInt8} {dir : Option DirPtr}
    (hr : s.sysOpendir b env name = .ok (s', dir)) (h : s.PoolsOk) : s'.PoolsOk := by
  obtain ⟨_, -, hr⟩ := bind_ok.mp hr
  split at hr
  · cases hr
    exact h
  · obtain ⟨⟨s1, r, no⟩, hs, hr⟩ := bind_ok.mp hr
    have h1 := (searchFile_run hs).pools h
    dsimp only at hr
    split at hr
    · simp only [bind_ok] at hr
      obtain ⟨⟨s2, d⟩, h2, s3, h3, hr⟩ := hr
      cases hr
      exact (dirClose_run h3).pools (((dirOpen_run h2).pools h1).congr rfl rfl)
    · obtain ⟨s2, h2, hr⟩ := bind_ok.mp hr
      cases hr
      exact (dirClose_run h2).pools h1

theorem sysClosedir_pools {dir : DirPtr} (hr : s.sysClosedir b dir = .ok s') (h : s.PoolsOk) : s'.PoolsOk := by
  unfold Fs.sysClosedir at hr
  split at hr
  · exact (dirClose_run hr).pools h
  · obtain ⟨_, -, hr⟩ := bind_ok.mp hr
    exact (dirClose_run hr).pools (h.congr rfl rfl)

theorem sysStat_pools {path : List UInt8} {buf : Option Stat}
    (hr : s.sysStat b env path = .ok (s', buf)) (h : s.PoolsOk) : s'.PoolsOk := by
  unfold Fs.sysStat at hr
  split at hr
  · obtain ⟨c, -, hr⟩ := bind_ok.mp hr
    cases hr
    exact h
  · obtain ⟨⟨s1, r, no⟩, hs, hr⟩ := bind_ok.mp hr
    have h1 := (searchFile_run hs).pools h
    dsimp only at hr
    split at hr
    · simp only [bind_ok] at hr
      obtain ⟨⟨s2, a⟩, h2, c, -, s3, h3, s4, h4, hr⟩ := hr
      cases hr
      exact (dirClose_run h4).pools ((CacheStep.closed h3).pools ((CacheStep.opened h2).pools h1))
    · obtain ⟨s2, h2, hr⟩ := bind_ok.mp hr
      cases hr
      exact (dirClose_run h2).pools h1

theorem sysChdir_pools {path : List UInt8} (hr : s.sysChdir b env p path = .ok (s', ok)) (h : s.PoolsOk) :
    s'.PoolsOk := by
  unfold Fs.sysChdir at hr
  simp only [bind_ok] at hr
  obtain ⟨P, -, ⟨s1, r, no⟩, hs, hr⟩ := hr
  have h1 := (searchFile_run hs).pools h
  split at hr <;> obtain ⟨s2, h2, hr⟩ := bind_ok.mp hr <;> cases hr
  · exact (dirClose_run h2).pools (h1.congr rfl rfl)
  · exact (dirClose_run h2).pools h1

theorem updateInodeOpenCnts_pools {P : FsProc} : ∀ (ds : List (Fin 8)) (s : Fs part) {s' : Fs part},
    updateInodeOpenCnts P ds s = .ok s' → s.PoolsOk → s'.PoolsOk
  | [], s, s', hr, h => by
    cases hr
    exact h
  | d :: ds, s, s', hr, h => by
    unfold Fs.updateInodeOpenCnts at hr
    split at hr
    · exact updateInodeOpenCnts_pools ds s hr h
    · dsimp only at hr
      split at hr
      · exact updateInodeOpenCnts_pools ds _ hr (h.congr rfl rfl)
      · simp only [bind_ok] at hr
        obtain ⟨a, -, c, hc, hr⟩ := hr
        exact updateInodeOpenCnts_pools ds _ hr (h.update hc rfl)

theorem sysOpen_pools {flags : UInt8} (hr : s.sysOpen b env p pathname flags = .ok (s', fd))
    (h : s.PoolsOk) (hp : flags &&& oCreat = 0 ∨ s.callerPool p = .pfKernel) : s'.PoolsOk := by
  cases sysOpen_end hr with
  | slash => exact h
  | refused hs _ hc => exact (dirClose_run hc).pools ((searchFile_run hs).pools h)
  | created _ hs hch _ _ hcr hc =>
    refine (dirClose_run hc).pools (fileCreate_pools hcr ((searchFile_run hs).pools h) ?_)
    rw [callerPool, (searchFile_run hs).rest.procs]
    exact hp.resolve_left (hch.found.mp rfl)
  | opened _ hs _ _ ho => exact fileOpen_pools ho ((searchFile_run hs).pools h)

/-! ## A file of a process -/

theorem fileCreate_linked {filename : List UInt8} {fd : Fin 8}
    (hr : s.fileCreate b env p parent filename flag = .ok (s', some fd)) :
    ∃ c ∈ s'.openInodes, c.pool = s.callerPool p ∧ c.addr ≠ parent := by
  unfold Fs.fileCreate Fs.fileCreateVia at hr
  split at hr
  · cases hr
  obtain ⟨⟨r, vol⟩, -, hr⟩ := bind_ok.mp hr
  obtain _ | n := r
  · cases hr
  dsimp only at hr
  split at hr
  · cases hr
  split at hr
  · cases hr
  rename_i g _
  simp only [bind_ok] at hr
  obtain ⟨e, -, ⟨s2, ok⟩, hl, hr⟩ := hr
  split at hr
  · obtain ⟨c, -, -, hc, -⟩ := link_cases hl
    obtain ⟨hmem, ha⟩ := cached_ok hc
    have hlt := lt_newAddr hmem
    refine ⟨⟨(s.setVol vol).newAddr, inodeInit (.ofNat n), 1, s.callerPool p⟩, ?_, rfl, fun e => Nat.ne_of_lt hlt (ha.trans e.symm)⟩
    obtain ⟨e, -⟩ | ⟨P, d, -, -, -, rfl⟩ := pcbFdInstall_cases hr
    · cases e
    · exact .head _
  · cases hr

theorem dirClose_keeps (hr : s.dirClose b d = .ok s') (hc : c ∈ s.openInodes) (ha : c.addr ≠ d.inode) :
    c ∈ s'.openInodes := by
  unfold Fs.dirClose at hr
  split at hr
  · cases hr
    exact hc
  · obtain ⟨x, hx, ⟨-, -, rfl⟩ | ⟨-, rfl⟩⟩ := inodeClose_cases hr
    · exact List.mem_filter.mpr ⟨hc, by simpa using ha⟩
    · refine List.mem_map.mpr ⟨c, hc, if_neg ?_⟩
      rwa [← (cached_ok hx).2] at ha

theorem sysOpen_creates {flags : UInt8} {fd : Fin 8}
    (hr : s.sysOpen b env p pathname flags = .ok (s', some fd)) (hct : flags &&& oCreat ≠ 0) :
    ∃ c ∈ s'.openInodes, c.pool = s.callerPool p := by
  cases sysOpen_end hr with
  | created _ hs _ _ _ hcr hcl =>
    obtain ⟨c, hc, hpo, ha⟩ := fileCreate_linked hcr
    refine ⟨c, dirClose_keeps hcl hc ha, hpo.trans ?_⟩
    rw [callerPool, callerPool, (searchFile_run hs).rest.procs]
  | opened _ _ _ hz => exact absurd hz hct

end Fs

/-! ## Runs -/

def FsCall.KernelCreates {part : Partition} (s : Fs part) : FsCall → Prop
  | .sysOpen _ p _ flags => flags &&& oCreat = 0 ∨ s.callerPool p = .pfKernel
  | _ => True

theorem FsCallStep.pools {part : Partition} {b : Build} {call : FsCall} {s s' : Fs part} (hs : FsCallStep b call s s')
    (hc : call.KernelCreates s) (h : s.PoolsOk) : s'.PoolsOk := by
  cases hs with
  | sysOpen _ hr => exact Fs.sysOpen_pools hr h hc
  | sysClose _ hr => exact Fs.sysClose_pools hr h
  | sysOpendir _ hr => exact Fs.sysOpendir_pools hr h
  | sysClosedir hr => exact Fs.sysClosedir_pools hr h
  | sysMkdir _ hr => exact Fs.sysMkdir_pools hr h
  | sysRmdir _ hr => exact Fs.sysRmdir_pools hr h
  | sysUnlink _ hr => exact Fs.sysUnlink_pools hr h
  | sysStat _ hr => exact Fs.sysStat_pools hr h
  | sysChdir _ hr => exact Fs.sysChdir_pools hr h
  | sysFork _ hr =>
    unfold Fs.sysFork at hr
    simp only [bind_ok] at hr
    obtain ⟨P, -, s1, h1, hr⟩ := hr
    cases hr
    exact (Fs.updateInodeOpenCnts_pools _ _ h1 h).congr rfl rfl

/-- **The cached inodes stay in the kernel's heap as long as only kernel threads create files.**
-/
theorem cached_inodes_kernel_iff {part : Partition} {b : Build} {s : Fs part}
    (h : Reach (fun s s' => ∃ call : FsCall, call.KernelCreates s ∧ FsCallStep b call s s') Fs.Mounted s) :
    s.PoolsOk ∧ ∀ env p pathname flags s' fd, s.sysOpen b env p pathname flags = .ok (s', some fd) →
      (s'.PoolsOk ↔ (FsCall.sysOpen env p pathname flags).KernelCreates s) := by
  have hpo : s.PoolsOk := by
    refine h.invariant (fun s0 h0 => ?_) fun s s' hp hs => ?_
    · obtain ⟨i, hro, -⟩ := h0.root
      exact ⟨fun c hc => by rw [hro] at hc; rw [List.mem_singleton.mp hc], fun x hx => by rw [h0.freed] at hx; cases hx⟩
    · obtain ⟨call, hca, hs⟩ := hs
      exact hs.pools hca hp
  refine ⟨hpo, fun env p pathname flags s' fd hr => ⟨fun h' => ?_, fun hk => Fs.sysOpen_pools hr hpo hk⟩⟩
  by_cases hcr : flags &&& oCreat = 0
  · exact .inl hcr
  · obtain ⟨c, hc, hpl⟩ := Fs.sysOpen_creates hr hcr
    exact .inr (hpl.symm.trans (h'.cached c hc))

def homeCreated (p : Nat) : Fs samplePart := ((homeFs.sysOpen .debug homeEnv p [47, 103] oCreat).toOption.getD (homeFs, none)).1

theorem homeCreated_open {p : Nat} (h : (homeFs.sysOpen .debug homeEnv p [47, 103] oCreat).toOption.any (·.2.isSome) = true) :
    ∃ fd, homeFs.sysOpen .debug homeEnv p [47, 103] oCreat = .ok (homeCreated p, some fd) := by
  unfold homeCreated
  cases hr : homeFs.sysOpen .debug homeEnv p [47, 103] oCreat with
  | error e =>
    rw [hr] at h
    cases h
  | ok r =>
    obtain ⟨s, fd⟩ := r
    rw [hr] at h
    cases fd with
    | none => cases h
    | some d => exact ⟨d, rfl⟩

theorem cached_inodes_kernel_thread : (homeCreated 0).PoolsOk := by
  obtain ⟨fd, ho⟩ := homeCreated_open (p := 0) (by decide +kernel)
  have hs : FsCallStep .debug (.sysOpen homeEnv 0 [47, 103] oCreat) homeFs (homeCreated 0) := .sysOpen (by decide) ho
  have hk : (FsCall.sysOpen homeEnv 0 [47, 103] oCreat).KernelCreates homeFs := .inr rfl
  exact (cached_inodes_kernel_iff ((Reach.refl homeFs_mounted).tail ⟨_, hk, hs⟩)).1

/-- The inode is linked from the heap of the process, and closing the file frees it as kernel
memory. -/
theorem user_inode_linked :
    homeFs.Mounted ∧ FsCallStep .debug (.sysOpen homeEnv 1 [47, 103] oCreat) homeFs (homeCreated 1) ∧
      ¬ (homeCreated 1).PoolsOk ∧ ((homeCreated 1).sysClose .debug 1 3).isOk = false := by
  obtain ⟨fd, ho⟩ := homeCreated_open (p := 1) (by decide +kernel)
  refine ⟨homeFs_mounted, .sysOpen (by decide) ho, fun h => ?_, by decide +kernel⟩
  obtain ⟨c, hc, hpo⟩ := Fs.sysOpen_creates ho (by decide)
  exact absurd (hpo.symm.trans (h.cached c hc)) (by decide)

end OperateSystem
