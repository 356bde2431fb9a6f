import OperateSystem.FsBalance
import OperateSystem.GetcwdSound

/-!
# Working directories

The working directory of every process stays a directory of the tree, if `sys_rmdir` takes
off no working directory and `sys_chdir` gets a path with a name.
-/

namespace OperateSystem

open Function

namespace Fs

variable {part : Partition} {s s' : Fs part} {t t' : Tree} {env : CallEnv}

/-- The working directory of each process is a directory of the tree with an allocated inode, and
`sys_getcwd` returns its path. -/
def CwdsValid (s : Fs part) : Prop :=
  ∃ t : Tree, t.Ok ∧ Repr s.vol t ∧ ∀ p P, s.procs p = some P →
    t.IsDir P.cwdInodeNr.toNat ∧ t.Below P.cwdInodeNr.toNat ∧ s.vol.inodeBitmap.bit P.cwdInodeNr.toNat = true ∧
      ∀ size rounds, 512 ≤ size → 512 ≤ rounds → ∃ s' out, s.sysGetcwd .debug true rounds p size = .ok (s', some out)

/-! ## The invariant -/

structure Stays (t : Tree) (P : FsProc) : Prop where
  fds : ∀ d : Fin 8, 3 ≤ d.val → P.fdTable d = none
  dir : t.IsDir P.cwdInodeNr.toNat
  path : ∃ xs, t.PathOf P.cwdInodeNr.toNat xs ∧ (joinPath xs).length < 512

theorem Stays.keeps {P : FsProc} (h : Stays t P) (hk : t.Keeps t' P.cwdInodeNr.toNat) : Stays t' P := by
  obtain ⟨xs, hp, hlen⟩ := h.path
  exact ⟨h.fds, hk.1 h.dir, xs, hk.2 xs hp, hlen⟩

/-- Between calls only `root_dir` is open. -/
structure Resides (s : Fs part) (t : Tree) : Prop where
  ok : t.Ok
  sound : s.Sound t []
  fileTable : ∀ g, (s.fileTable g).fdInode = none
  dirs : s.dirs = []
  procs : ∀ p P, s.procs p = some P → Stays t P

theorem Boots.resides (h : s.Boots t) (hcwd : ∀ p P, s.procs p = some P → P.cwdInodeNr = 0) : s.Resides t := by
  refine ⟨h.ok, h.sound, h.mounted.fileTable, h.mounted.dirs, fun p P hP => ⟨h.mounted.fds p P hP, ?_, [], ?_, by decide⟩⟩
  · rw [hcwd p P hP]
    exact h.ok.root
  · rw [hcwd p P hP]
    exact .root

theorem Resides.valid (h : s.Resides t) : s.CwdsValid := by
  refine ⟨t, h.ok, h.sound.repr, fun p P hP => ?_⟩
  obtain ⟨-, hd, xs, hp, hlen⟩ := h.procs p P hP
  obtain ⟨nd, hnd, hdir⟩ := id hd
  refine ⟨hd, h.ok.below hnd, h.sound.repr.taken hnd, fun size rounds hs hro => ?_⟩
  have hca := h.sound.caches.counts.cacheOk
  obtain ⟨c, hc, ha, hno⟩ := h.sound.caches.counts.root
  have hrt : s.At s.rootDir 0 := ⟨c, hc, ha, by rw [hno]; rfl⟩
  obtain ⟨s', out, hr, -⟩ :=
    Visits.getcwd (b := .debug) h.ok.toShaped hca hrt (.start h.sound.shows hca) hP hd hp hlen hs hro
  exact ⟨s', out, hr⟩

theorem Resides.cached_root (h : s.Resides t) {c : CachedInode} (hc : c ∈ s.openInodes) : c.inode.iNo = 0 := by
  have hco := h.sound.caches.counts
  obtain ⟨c0, hc0, ha0, hno⟩ := hco.root
  have hpos := (hco.held c.addr).mpr ⟨c, hc, rfl⟩
  have hs : s.slots c.addr = 0 := by
    by_contra hne
    obtain ⟨g, hg⟩ := exists_slot (Nat.pos_of_ne_zero hne)
    rw [h.fileTable g] at hg
    cases hg
  unfold refs at hpos
  rw [hs, h.dirs, List.count_nil] at hpos
  have ha : c.addr = s.rootDir := by
    by_contra hne
    rw [if_neg hne] at hpos
    exact absurd hpos (Nat.lt_irrefl 0)
  rw [List.inj_on_of_nodup_map hco.addrs hc hc0 (ha.trans ha0.symm)]
  exact hno

/-! ## Steps -/

theorem Resides.moved (h : s.Resides t) (hok : t'.Ok) (hs : s'.Sound t' []) (hst : Steady s s')
    (hk : ∀ p P, s.procs p = some P → t.Keeps t' P.cwdInodeNr.toNat) : s'.Resides t' := by
  refine ⟨hok, hs, ?_, hst.dirs.trans h.dirs, ?_⟩
  · rw [hst.fileTable]
    exact h.fileTable
  · rw [hst.procs]
    exact fun p P hP => (h.procs p P hP).keeps (hk p P hP)

theorem Resides.unchanged (h : s.Resides t) (hs : Unchanged s s') : s'.Resides t :=
  h.moved h.ok (h.sound.unchanged hs) hs.toSameRest.steady fun _ _ _ => ⟨id, fun _ => id⟩

theorem Resides.setProc (h : s.Resides t) (p : Nat) {P : FsProc} (hP : Stays t P) : (s.setProc p P).Resides t := by
  refine ⟨h.ok, h.sound.setProc p P, h.fileTable, h.dirs, fun p' P' hP' => ?_⟩
  by_cases hp : p' = p
  · subst hp
    have hP' : update s.procs p' (some P) p' = some P' := hP'
    rw [update_self] at hP'
    cases hP'
    exact hP
  · have hP' : update s.procs p (some P) p' = some P' := hP'
    rw [update_of_ne hp] at hP'
    exact h.procs p' P' hP'

theorem searchFile_length {mem : Nat → Bool} {pathname : List UInt8} {old no : UInt32} {r : PathSearchRecord}
    (h : searchFile .debug s pathname mem old = .ok (s', r, no)) : pathname.length < 512 := by
  unfold searchFile at h
  split at h
  · rename_i hr
    have hall : ∀ path ∈ rootPaths, path.length < 512 := by decide
    exact hall pathname hr
  · obtain ⟨_, ha, -⟩ := bind_ok.mp h
    exact (assert_debug_ok.mp ha).2.2

theorem Resides.sysChdir {p : Nat} {path : List UInt8} {ok : Bool} (h : s.Resides t) (hpa : 0 ∉ path)
    (hn : path ∈ rootPaths ∨ names path ≠ []) (hr : s.sysChdir .debug env p path = .ok (s', ok)) : s'.Resides t := by
  have hso := h.sound.sysChdir h.ok hpa hr
  unfold Fs.sysChdir at hr
  obtain ⟨P, hP, hr⟩ := bind_ok.mp hr
  obtain ⟨⟨s1, r, no⟩, hse, hr⟩ := bind_ok.mp hr
  dsimp only at hr
  split at hr
  · rename_i hf
    obtain ⟨-, hp, hd, -⟩ := sound_tracks.directory h.ok.toShaped hpa hn h.sound hse hf.2
    have hlen : (joinPath (normalise (names path))).length < 512 :=
      Nat.lt_of_le_of_lt (Nat.le_trans (normalise_le _) (joinPath_names_le (searchFile_head hse))) (searchFile_length hse)
    have hfds := (h.procs p P (deref_ok.mp hP)).fds
    have h0 := h.setProc p (P := { P with cwdInodeNr := no }) ⟨hfds, hd, _, hp, hlen⟩
    obtain ⟨s2, hcl, hr⟩ := bind_ok.mp hr
    cases hr
    have hs := (searchFile_run hse).rest.steady
    have hc := (dirClose_run hcl).rest.steady
    refine h0.moved h.ok hso ⟨?_, ?_, ?_, ?_⟩ fun _ _ _ => ⟨id, fun _ => id⟩
    · exact hc.fileTable.trans hs.fileTable
    · exact hc.rootDir.trans hs.rootDir
    · exact hc.dirs.trans hs.dirs
    · rw [hc.procs, Fs.setProc, Fs.setProc, hs.procs]
  · obtain ⟨s2, hcl, hr⟩ := bind_ok.mp hr
    cases hr
    exact h.unchanged (search_close h.sound.caches.counts.cacheOk hse hcl)

theorem updateInodeOpenCnts_none {P : FsProc} {ds : List (Fin 8)} (h : ∀ d ∈ ds, P.fdTable d = none) :
    updateInodeOpenCnts P ds s = .ok s := by
  induction ds with
  | nil => rfl
  | cons d ds ih =>
    rw [updateInodeOpenCnts, h d List.mem_cons_self]
    exact ih fun x hx => h x (List.mem_cons_of_mem d hx)

theorem Resides.sysFork {p child : Nat} (h : s.Resides t) (hr : s.sysFork p child = .ok s') : s'.Resides t := by
  have hlow : ∀ d ∈ fds, 3 ≤ d.val := by decide
  unfold Fs.sysFork at hr
  obtain ⟨P, hP, hr⟩ := bind_ok.mp hr
  have hs := h.procs p P (deref_ok.mp hP)
  rw [updateInodeOpenCnts_none fun d hd => hs.fds d (hlow d hd), ok_bind] at hr
  cases hr
  exact h.setProc child hs

/-! ## Runs -/

/-- `sys_rmdir` takes off a directory that is found by its own name and is no working directory. -/
def CanLeave (s : Fs part) (env : CallEnv) (pathname : List UInt8) : Prop :=
  ∀ s' s1 r no, s.sysRmdir .debug env pathname = .ok (s', true) →
    searchFile .debug s pathname env.lookups env.oldNo = .ok (s1, r, no) →
    names pathname ≠ [] ∧ (names pathname).getLast? ≠ some dot ∧ ∀ p P, s.procs p = some P → P.cwdInodeNr ≠ no

end Fs

def FsCall.KeepsCwds {part : Partition} (s : Fs part) : FsCall → Prop
  | .sysMkdir env pathname => s.CanCreate env pathname
  | .sysRmdir env pathname => s.CanLeave env pathname
  | .sysChdir _ _ path => path ∈ rootPaths ∨ names path ≠ []
  | .sysFork _ _ => True
  | _ => False

namespace Fs

variable {part : Partition} {s s' : Fs part} {t : Tree}

theorem Resides.step {call : FsCall} (hf : part.Formatted) (h : s.Resides t) (hca : call.KeepsCwds s)
    (hs : FsCallStep .debug call s s') : ∃ t', s'.Resides t' := by
  cases hs with
  | sysMkdir hpa hr =>
    obtain ⟨t', hok', h', hst, hk⟩ := h.sound.sysMkdir hf h.ok hpa hca hr
    exact ⟨t', h.moved hok' h' hst fun _ P _ => hk P.cwdInodeNr.toNat⟩
  | @sysRmdir _ _ _ _ ok hpa hr =>
    obtain _ | _ := ok
    · exact ⟨t, h.unchanged (sysRmdir_fails h.sound.caches.counts.cacheOk hr)⟩
    obtain ⟨s1, r, no, hse, hz, -⟩ := sysRmdir_end hr
    obtain ⟨hn, hl, hcwd⟩ := hca s' s1 r no hr hse
    -- only the inode of the root directory is cached, and it is never taken off
    have hi : ∀ c ∈ s.openInodes, c.inode.iNo ≠ no := fun c hc => by
      rw [h.cached_root hc]
      exact (hz rfl).symm
    obtain ⟨t', hok', h', hst, hk⟩ := h.sound.sysRmdir hf h.ok hpa hse hn hl hi hr
    exact ⟨t', h.moved hok' h' hst fun p P hP => hk _ fun e => hcwd p P hP (UInt32.toNat_inj.mp e)⟩
  | sysChdir hpa hr => exact ⟨t, h.sysChdir hpa hca hr⟩
  | sysFork _ hr => exact ⟨t, h.sysFork hr⟩
  | _ => exact absurd hca id

/-- **Working directories stay valid** in every run in which new directories have room,
`sys_rmdir` takes off no working directory and nothing named by a dot, and `sys_chdir` gets a path
with a name. -/
theorem cwds_stay_valid (hf : part.Formatted)
    (h : Reach (fun s s' => ∃ call : FsCall, call.KeepsCwds s ∧ FsCallStep .debug call s s')
      (fun s => ∃ t, s.Boots t ∧ ∀ p P, s.procs p = some P → P.cwdInodeNr = 0) s) : s.CwdsValid := by
  have hinv : ∃ t : Tree, s.Resides t := by
    refine h.invariant (P := fun s => ∃ t : Tree, s.Resides t) ?_ ?_
    · rintro s ⟨t, hb, hcwd⟩
      exact ⟨t, hb.resides hcwd⟩
    · rintro s s' ⟨t, hres⟩ ⟨call, hc, hs⟩
      exact hres.step hf hc hs
  obtain ⟨t, hres⟩ := hinv
  exact hres.valid

theorem homeFs_cwds : ∀ p P, homeFs.procs p = some P → P.cwdInodeNr = 0 := by
  intro p P hP
  have hP : (if p < 2 then some (FsProc.mk (fun _ => none) 0 (p = 0)) else none) = some P := hP
  split at hP <;> cases hP
  rfl

theorem cwds_stay_valid_home : ∃ s', homeFs.sysChdir .debug homeEnv 1 [47, 97] = .ok (s', true) ∧ s'.CwdsValid := by
  have hret : (homeFs.sysChdir .debug homeEnv 1 [47, 97]).toOption.any (·.2) = true := by decide +kernel
  obtain ⟨⟨s', ok⟩, hrun, rfl⟩ := exists_of_any hret
  refine ⟨s', hrun, cwds_stay_valid samplePart_formatted (.tail (.refl ⟨homeTree, homeFs_boots, homeFs_cwds⟩) ?_)⟩
  exact ⟨.sysChdir homeEnv 1 [47, 97], .inr (by decide), .sysChdir (by decide) hrun⟩

/-- Process 1 changes to the new directory `/b`, which is then removed: the inode is free, and
`sys_getcwd` stops at an assertion. -/
theorem rmdir_takes_cwd : ∃ s1 s2 s3 P, homeFs.Boots homeTree ∧ (∀ p P, homeFs.procs p = some P → P.cwdInodeNr = 0) ∧
    FsCallStep .debug (.sysMkdir homeEnv [47, 98]) homeFs s1 ∧ FsCallStep .debug (.sysChdir homeEnv 1 [47, 98]) s1 s2 ∧
    FsCallStep .debug (.sysRmdir { homeEnv with rounds := 3 } [47, 98]) s2 s3 ∧
    s3.procs 1 = some P ∧ P.cwdInodeNr = 3 ∧ s3.vol.inodeBitmap.bit 3 = false ∧ ¬ s3.CwdsValid ∧
    s3.sysGetcwd .debug true 512 1 512 = .error (.assertion "block_lba >= cur_part->sb->data_start_lba") := by
  have hret : (homeFs.sysMkdir .debug homeEnv [47, 98]).toOption.any (fun x =>
      (x.1.sysChdir .debug homeEnv 1 [47, 98]).toOption.any fun y =>
        (y.1.sysRmdir .debug { homeEnv with rounds := 3 } [47, 98]).toOption.any fun z =>
          ((z.1.procs 1).map (·.cwdInodeNr) = some 3 ∧ z.1.vol.inodeBitmap.bit 3 = false) &&
            match z.1.sysGetcwd .debug true 512 1 512 with
            | .ok _ => false
            | .error f => f = .assertion "block_lba >= cur_part->sb->data_start_lba") = true := by decide +kernel
  obtain ⟨⟨s1, _⟩, hm, hret⟩ := exists_of_any hret
  obtain ⟨⟨s2, _⟩, hc, hret⟩ := exists_of_any hret
  obtain ⟨⟨s3, _⟩, hr, hret⟩ := exists_of_any hret
  obtain ⟨hpr, hg⟩ := Bool.and_eq_true_iff.mp hret
  obtain ⟨hpr, hf⟩ := of_decide_eq_true hpr
  obtain ⟨P, hP, hcwd⟩ := Option.map_eq_some_iff.mp hpr
  dsimp only at hP hf hg
  refine ⟨s1, s2, s3, P, homeFs_boots, homeFs_cwds, .sysMkdir (by decide) hm, .sysChdir (by decide) hc,
    .sysRmdir (by decide) hr, hP, hcwd, hf, fun hv => ?_, ?_⟩
  · obtain ⟨t, -, -, hall⟩ := hv
    obtain ⟨-, -, hbit, -⟩ := hall 1 P hP
    have hbit : s3.vol.inodeBitmap.bit 3 = true := by
      rw [hcwd] at hbit
      exact hbit
    rw [hf] at hbit
    cases hbit
  · split at hg
    · cases hg
    · rename_i f hrun
      rw [hrun, of_decide_eq_true hg]

end Fs

end OperateSystem
