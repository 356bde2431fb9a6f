import OperateSystem.FsSearch

/-!
# How the calls end

The ways through `sys_open`, `sys_mkdir` and `sys_rmdir`, and what is left of a
directory entry that was to be linked.
-/

namespace OperateSystem

namespace Fs

variable {part : Partition} {b : Build} {s s' : Fs part} {env : CallEnv} {p : Nat} {fd : Option (Fin 8)} {pathname : List UInt8}
  {flags : UInt8} {ok : Bool}

theorem pcbFdInstall_cases {g : Fin 32} (hr : s.pcbFdInstall p g = .ok (s', fd)) : (fd = none ∧ s' = s) ∨
    ∃ P d, s.procs p = some P ∧ P.fdTable d = none ∧ fd = some d ∧
      s' = s.setProc p { P with fdTable := Function.update P.fdTable d (some g) } := by
  unfold pcbFdInstall at hr
  simp only [bind_ok, deref_ok] at hr
  obtain ⟨P, hP, hr⟩ := hr
  split at hr
  · cases hr
    exact .inl ⟨rfl, rfl⟩
  · rename_i d hd
    cases hr
    have hf := List.find?_some hd
    simp only [Bool.and_eq_true, Option.isNone_iff_eq_none] at hf
    exact .inr ⟨P, d, hP, hf.2, rfl, rfl⟩

theorem link_cases {parent : Nat} {e : DirEntry} {new : Inode} (hr : s.link b parent e new = .ok (s', ok)) :
    ∃ c st vol, s.cached parent = .ok c ∧ OperateSystem.syncDirEntry b s.vol c.inode e (fun _ => 0) = .ok (st, ok) ∧
      s' = (s.setVol vol).store { c with inode := st.inode } ∧ (ok = false → vol = st.vol) ∧
      (ok = true → ∃ c' disk disk', ((s.setVol st.vol).store { c with inode := st.inode }).cached parent = .ok c' ∧
        OperateSystem.inodeSync b part st.vol.disk c'.inode (fun _ => 0) = .ok disk ∧
        OperateSystem.inodeSync b part disk new (fun _ => 0) = .ok disk' ∧
        OperateSystem.bitmapSync b { st.vol with disk := disk' } new.iNo.toNat .inodeBitmap = .ok vol) := by
  unfold link linkVia Fs.syncDirEntry at hr
  simp only [bind_ok] at hr
  obtain ⟨_, ⟨c, hc, ⟨st, x⟩, hs, h1⟩, hr⟩ := hr
  cases h1
  cases x with
  | false =>
    cases hr
    exact ⟨c, st, st.vol, hc, hs, rfl, fun _ => rfl, nofun⟩
  | true =>
    simp only [if_true, bind_ok, Fs.inodeSync, Fs.bitmapSync] at hr
    obtain ⟨c', hc', _, ⟨disk, hd, h2⟩, _, ⟨disk', hd', h3⟩, _, ⟨vol, hvol, h4⟩, hr⟩ := hr
    cases h2
    cases h3
    cases h4
    cases hr
    exact ⟨c, st, vol, hc, hs, rfl, nofun, fun _ => ⟨c', disk, disk', hc', hd, hd', hvol⟩⟩

/-! ## `sys_open` -/

structure OpenPasses (env : CallEnv) (pathname : List UInt8) (flags : UInt8) (r : PathSearchRecord) (no : UInt32) : Prop where
  notDir : r.fileType ≠ ftDirectory
  depth : pathDepthCnt pathname env.oldChar = pathDepthCnt r.searchedPath env.oldChar'
  found : no = -1 ↔ flags &&& oCreat ≠ 0

inductive OpenEnd (b : Build) (s : Fs part) (env : CallEnv) (p : Nat) (pathname : List UInt8) (flags : UInt8) :
    Fs part → Option (Fin 8) → Prop
  | slash (hlast : pathname.getLast? = some slash) : OpenEnd b s env p pathname flags s none
  | refused {s1 s' : Fs part} {r : PathSearchRecord} {no : UInt32}
    (hsearch : searchFile b s pathname env.lookups env.oldNo = .ok (s1, r, no)) (hchecks : ¬ OpenPasses env pathname flags r no)
    (hclose : s1.dirClose b r.parentDir = .ok s') : OpenEnd b s env p pathname flags s' none
  | created {s1 s2 s' : Fs part} {r : PathSearchRecord} {d : Nat} {filename : List UInt8} {fd : Option (Fin 8)}
    (hlast : pathname.getLast? ≠ some slash) (hsearch : searchFile b s pathname env.lookups env.oldNo = .ok (s1, r, -1))
    (hchecks : OpenPasses env pathname flags r (-1)) (hdepth : pathDepthCnt pathname env.oldChar = .ok d)
    (hname : afterSlash pathname = .ok filename)
    (hcreate : s1.fileCreate b env p r.parentDir.inode filename flags = .ok (s2, fd))
    (hclose : s2.dirClose b r.parentDir = .ok s') : OpenEnd b s env p pathname flags s' fd
  | opened {s1 s' : Fs part} {r : PathSearchRecord} {no : UInt32} {fd : Option (Fin 8)} (hlast : pathname.getLast? ≠ some slash)
    (hsearch : searchFile b s pathname env.lookups env.oldNo = .ok (s1, r, no)) (hchecks : OpenPasses env pathname flags r no)
    (hcreat : flags &&& oCreat = 0) (hopen : s1.fileOpen b p no flags = .ok (s', fd)) : OpenEnd b s env p pathname flags s' fd

/-- What `sys_open` has found before its `switch`. -/
def OpenFound (b : Build) (s : Fs part) (env : CallEnv) (pathname : List UInt8) (flags : UInt8) (s' : Fs part) :
    Option (PathSearchRecord × UInt32) → Prop
  | none => pathname.getLast? = some slash ∧ s' = s ∨ ∃ s1 r no, searchFile b s pathname env.lookups env.oldNo =
      .ok (s1, r, no) ∧ ¬ OpenPasses env pathname flags r no ∧ s1.dirClose b r.parentDir = .ok s'
  | some (r, no) => pathname.getLast? ≠ some slash ∧ searchFile b s pathname env.lookups env.oldNo = .ok (s', r, no) ∧
      OpenPasses env pathname flags r no ∧ ∃ d, pathDepthCnt pathname env.oldChar = .ok d

theorem openChecks_found {r : Option (PathSearchRecord × UInt32)}
    (hr : s.openChecks b env pathname flags = .ok (s', r)) : OpenFound b s env pathname flags s' r := by
  unfold openChecks at hr
  split at hr
  · rename_i hl
    cases hr
    exact .inl ⟨hl, rfl⟩
  rename_i hl
  simp only [bind_ok] at hr
  obtain ⟨_, -, depth, hde, ⟨s1, record, no⟩, hs, hr⟩ := hr
  have hre : ¬ OpenPasses env pathname flags record no →
      (s1.dirClose b record.parentDir >>= fun s => pure (s, (none : Option (PathSearchRecord × UInt32)))) =
        .ok (s', r) → OpenFound b s env pathname flags s' r := by
    intro hch hr
    obtain ⟨s2, hcl, hr⟩ := bind_ok.mp hr
    cases hr
    exact .inr ⟨s1, record, no, hs, hch, hcl⟩
  dsimp only at hr
  by_cases hdir : record.fileType = ftDirectory
  · rw [if_pos hdir] at hr
    exact hre (fun h => h.notDir hdir) hr
  rw [if_neg hdir] at hr
  obtain ⟨depth', hde', hr⟩ := bind_ok.mp hr
  by_cases heq : depth ≠ depth'
  · rw [if_pos heq] at hr
    exact hre (fun h => heq (Except.ok.inj (hde.symm.trans (h.depth.trans hde')))) hr
  rw [if_neg heq] at hr
  obtain rfl := not_not.mp heq
  by_cases hm : no = -1 ∧ flags &&& oCreat = 0
  · rw [if_pos hm] at hr
    exact hre (fun h => h.found.mp hm.1 hm.2) hr
  rw [if_neg hm] at hr
  by_cases he : no ≠ -1 ∧ flags &&& oCreat ≠ 0
  · rw [if_pos he] at hr
    exact hre (fun h => he.1 (h.found.mpr he.2)) hr
  rw [if_neg he] at hr
  cases hr
  exact ⟨hl, hs, ⟨hdir, hde.trans hde'.symm, fun hn hz => hm ⟨hn, hz⟩, fun hc => by_contra fun hn => he ⟨hn, hc⟩⟩,
    depth, hde⟩

theorem sysOpen_end (hr : s.sysOpen b env p pathname flags = .ok (s', fd)) : OpenEnd b s env p pathname flags s' fd := by
  unfold sysOpen at hr
  obtain ⟨⟨s1, found⟩, hch, hr⟩ := bind_ok.mp hr
  have hfound := openChecks_found hch
  cases found with
  | none =>
    cases hr
    obtain ⟨hl, rfl⟩ | ⟨s2, r, no, hs, hch, hcl⟩ := hfound
    · exact .slash hl
    · exact .refused hs hch hcl
  | some x =>
    obtain ⟨r, no⟩ := x
    obtain ⟨hl, hs, hch, d, hde⟩ := hfound
    by_cases hcr : flags &&& oCreat ≠ 0
    · obtain rfl := hch.found.mpr hcr
      simp only [if_pos hcr, bind_ok] at hr
      obtain ⟨filename, hna, ⟨s2, fd2⟩, hct, s3, hcl, hr⟩ := hr
      cases hr
      exact .created hl hs hch hde hna hct hcl
    · simp only [if_neg hcr] at hr
      exact .opened hl hs hch (not_not.mp hcr) hr

/-! ## `sys_mkdir` -/

theorem mkdirRollback_none {d : DirPtr} (hr : s.mkdirRollback b d none = .ok (s', ok)) : ok = false ∧ s.dirClose b d = .ok s' := by
  unfold mkdirRollback at hr
  obtain ⟨s1, hc, hr⟩ := bind_ok.mp hr
  cases hr
  exact ⟨rfl, hc⟩

inductive MkdirEnd (b : Build) (s : Fs part) (env : CallEnv) (pathname : List UInt8) : Fs part → Bool → Prop
  | noBuffer (hio : env.ioBuf = false) : MkdirEnd b s env pathname s false
  | refused {s1 s' : Fs part} {r : PathSearchRecord} {no : UInt32}
    (hsearch : searchFile b s pathname env.lookups env.oldNo = .ok (s1, r, no))
    (hchecks : no = -1 → ∀ d, pathDepthCnt pathname env.oldChar = .ok d → pathDepthCnt r.searchedPath env.oldChar' ≠ .ok d)
    (hclose : s1.dirClose b r.parentDir = .ok s') : MkdirEnd b s env pathname s' false
  | made {s1 s' : Fs part} {r : PathSearchRecord} {d : Nat} {dirname : List UInt8} {ok : Bool} (hio : env.ioBuf = true)
    (hsearch : searchFile b s pathname env.lookups env.oldNo = .ok (s1, r, -1)) (hdepth : pathDepthCnt pathname env.oldChar = .ok d)
    (hdepth' : pathDepthCnt r.searchedPath env.oldChar' = .ok d) (hname : afterSlash r.searchedPath = .ok dirname)
    (hmake : s1.makeDir b r.parentDir dirname = .ok (s', ok)) : MkdirEnd b s env pathname s' ok

theorem sysMkdir_end (hr : s.sysMkdir b env pathname = .ok (s', ok)) : MkdirEnd b s env pathname s' ok := by
  unfold sysMkdir at hr
  split at hr
  · rename_i hio
    cases hr
    exact .noBuffer hio
  rename_i hio
  obtain ⟨⟨s1, r, no⟩, hs, hr⟩ := bind_ok.mp hr
  dsimp only at hr
  split at hr
  · rename_i hno
    obtain ⟨rfl, hc⟩ := mkdirRollback_none hr
    exact .refused hs (fun e => absurd e hno) hc
  rename_i hno
  obtain rfl := not_not.mp hno
  obtain ⟨depth, hde, hr⟩ := bind_ok.mp hr
  obtain ⟨depth', hde', hr⟩ := bind_ok.mp hr
  split at hr
  · rename_i hne
    obtain ⟨rfl, hc⟩ := mkdirRollback_none hr
    refine .refused hs (fun _ d h1 h2 => hne ?_) hc
    cases hde.symm.trans h1
    cases hde'.symm.trans h2
    rfl
  rename_i heq
  obtain rfl := not_not.mp heq
  obtain ⟨dirname, hn, hr⟩ := bind_ok.mp hr
  exact .made (by simpa using hio) hs hde hde' hn hr

/-! ## `sys_rmdir` -/

inductive RmdirEnd (b : Build) (s : Fs part) (env : CallEnv) (s1 : Fs part) (r : PathSearchRecord) (no : UInt32) (s' : Fs part) :
    Bool → Prop
  | refused (hclose : s1.dirClose b r.parentDir = .ok s') : RmdirEnd b s env s1 r no s' false
  | left {s2 s3 : Fs part} {d : DirPtr} (hopen : s1.dirOpen b no = .ok (s2, d)) (hclose : s2.dirClose b d = .ok s3)
    (hclose' : s3.dirClose b r.parentDir = .ok s') : RmdirEnd b s env s1 r no s' false
  | removed {s2 s3 s4 s5 : Fs part} {x : Nat} {c c' : CachedInode} (hopen : s1.inodeOpen b no = .ok (s2, x)) (hc : s2.cached x = .ok c)
    (hempty : dirIsEmpty c = true) (hdel : s2.deleteDirEntry b env r.parentDir.inode c.inode.iNo = .ok s3) (hc' : s3.cached x = .ok c')
    (hrel : s3.inodeRelease b c'.inode.iNo = .ok s4) (hclose : s4.inodeClose b x = .ok s5)
    (hclose' : s5.dirClose b r.parentDir = .ok s') (hno : no ≠ -1) (htype : r.fileType ≠ ftRegular) : RmdirEnd b s env s1 r no s' true

theorem sysRmdir_end (hr : s.sysRmdir b env pathname = .ok (s', ok)) :
    ∃ s1 r no, searchFile b s pathname env.lookups env.oldNo = .ok (s1, r, no) ∧ (b = .debug → no ≠ 0) ∧
      RmdirEnd b s env s1 r no s' ok := by
  unfold Fs.sysRmdir at hr
  obtain ⟨⟨s1, r, no⟩, hs, hr⟩ := bind_ok.mp hr
  obtain ⟨_, hz, hr⟩ := bind_ok.mp hr
  refine ⟨s1, r, no, hs, fun hb => ?_, ?_⟩
  · subst hb
    exact assert_debug_ok.mp hz
  split at hr
  · obtain ⟨s2, hcl, hr⟩ := bind_ok.mp hr
    cases hr
    exact .refused hcl
  · rename_i hgo
    rw [not_or] at hgo
    obtain ⟨⟨s2, d⟩, hop, hr⟩ := bind_ok.mp hr
    obtain ⟨c, hc, hr⟩ := bind_ok.mp hr
    obtain ⟨⟨s4, ok4⟩, hmid, hr⟩ := bind_ok.mp hr
    simp only [bind_ok] at hr
    obtain ⟨s5, hcl, s6, hcl', hr⟩ := hr
    cases hr
    split at hmid
    · rename_i he
      unfold Fs.dirRemove at hmid
      obtain ⟨c0, hc0, hmid⟩ := bind_ok.mp hmid
      cases hc.symm.trans hc0
      obtain ⟨_, -, hmid⟩ := bind_ok.mp hmid
      split at hmid
      · cases hmid
        exact .left hop hcl hcl'
      · simp only [bind_ok] at hmid
        obtain ⟨s3, hdel, c', hc', s3', hrel, hmid⟩ := hmid
        cases hmid
        unfold Fs.dirOpen at hop
        obtain ⟨⟨s2', x⟩, ho, hop⟩ := bind_ok.mp hop
        cases hop
        exact .removed ho hc he hdel hc' hrel hcl hcl' hgo.1 hgo.2
    · cases hmid
      exact .left hop hcl hcl'

end Fs

end OperateSystem
