import OperateSystem.FsBalance

/-!
# The entries that `sys_rmdir` leaves

`sys_rmdir` deletes the entry from the directory in which `search_file` looked up
the last name, does not look at the result, and releases the inode. If the last
name is `"."`, that directory is the one to be removed, and its entry in the directory
above stays.
-/

namespace OperateSystem

open Function

section
variable {part : Partition} {vol vol' : Volume part} {t : Tree} {d n k i : Nat} {nd : Node}

/-- The entry in a slot of the directory with this inode number, as the disk has it. -/
def diskEntry (vol : Volume part) (d k i : Nat) : Option DirEntry :=
  liveAt vol.disk (slotAddr vol.disk (.ofMem vol.disk (part.inodeAddr d))) k i

theorem Repr.diskEntry_eq (h : Repr vol t) (hd : t d = some nd) (hdir : nd.isDir = true) (k i : Nat) :
    diskEntry vol d k i = nd.ents k i := by
  unfold diskEntry
  rw [h.stored hd]
  exact ((h.holds hd).dir hdir).2 k i

/-- No entry of another directory refers to `n`, and of all their entries that of `n` in its
parent has disappeared. -/
structure EntryGone (vol : Volume part) (t : Tree) (n : Nat) : Prop where
  unreferenced : ∀ d ≠ n, t.IsDir d → ∀ k i x, diskEntry vol d k i = some x → x.iNo.toNat ≠ n
  one : ∃ p k0 i0 e, t.Child p k0 i0 e ∧ e.iNo.toNat = n ∧ ∀ d nd, d ≠ n → t d = some nd → nd.isDir = true →
    ∀ k i, diskEntry vol d k i = if d = p ∧ k = k0 ∧ i = i0 then none else nd.ents k i

theorem EntryGone.of_leaf {p k0 i0 : Nat} {P : Node} {inode : Inode} {e : DirEntry} (h : t.Leaf p P inode k0 i0 e n)
    (hok : (t.link p (P.put inode k0 i0 none) n none).Ok) (hr : Repr vol (t.link p (P.put inode k0 i0 none) n none)) :
    EntryGone vol t n := by
  constructor
  · intro d hd hdir k i x hx hno
    obtain ⟨nd, hnd, hi⟩ := hdir
    obtain ⟨nd', hnd', hs⟩ := h.node hnd hd
    rw [hr.diskEntry_eq hnd' (hs.trans hi)] at hx
    -- an entry of the new tree leads to a node
    obtain ⟨y, hy, -⟩ := hok.entry_leads ⟨nd', hnd', hs.trans hi, hx⟩
    rw [hno, Tree.link_self] at hy
    cases hy
  · refine ⟨p, k0, i0, e, h.child, h.no, fun d nd hd hnd hdir k i => ?_⟩
    by_cases hp : d = p
    · subst hp
      cases h.dir.symm.trans hnd
      rw [hr.diskEntry_eq (Tree.link_parent _ _ _ hd) hdir]
      by_cases hki : k = k0 ∧ i = i0
      · rw [if_pos ⟨rfl, hki⟩]
        exact if_pos hki
      · rw [if_neg fun hc => hki hc.2]
        exact if_neg hki
    · rw [hr.diskEntry_eq (by rw [Tree.link_other _ _ _ hp hd]; exact hnd) hdir, if_neg fun hc => hp hc.1]

theorem Repr.not_entryGone (hok : t.Ok) (hz : n ≠ 0) (hn : t.IsDir n) (hl : ∀ k i x, ¬ t.Child n k i x)
    (hr : Repr vol (update t n none)) : ¬ EntryGone vol t n := by
  intro hg
  obtain ⟨nd, hnd, -⟩ := hn
  cases hok.below hnd with
  | root => exact hz rfl
  | @child p k i e _ hc =>
    obtain ⟨P, hP, hdir, hent⟩ := hc.1
    have hp : p ≠ e.iNo.toNat := fun h => hl k i e (h ▸ hc)
    refine hg.unreferenced p hp ⟨P, hP, hdir⟩ k i e ?_ rfl
    rw [hr.diskEntry_eq (by rwa [update_of_ne hp]) hdir]
    exact hent

end

namespace Fs

variable {part : Partition} {s s' : Fs part} {t : Tree} {l : List Nat} {env : CallEnv}

theorem releaseVol_freed {b : Build} {vol vol' : Volume part} {inode : Inode} {no : UInt32}
    (h : releaseVol b vol inode no = .ok vol') : vol'.inodeBitmap.bit no.toNat = false := by
  unfold releaseVol releaseVolVia at h
  simp only [bind_ok] at h
  obtain ⟨⟨all, cnt, vol1⟩, -, vol2, -, vol3, hs, disk, -, h⟩ := h
  cases h
  simp only [OperateSystem.bitmapSync, bind_ok, pure_ok, Except.ok.injEq] at hs
  obtain ⟨d, -, rfl⟩ := hs
  exact (bit_bitmapSet ..).trans (if_pos rfl)

theorem inodeRelease_freed {b : Build} {no : UInt32} (h : s.inodeRelease b no = .ok s') :
    s'.vol.inodeBitmap.bit no.toNat = false := by
  unfold inodeRelease inodeReleaseVia at h
  simp only [bind_ok] at h
  obtain ⟨⟨s1, a⟩, -, c, -, _, -, vol, hrel, hc⟩ := h
  have hvol : s'.vol = vol := by
    obtain ⟨c, -, ⟨-, -, rfl⟩ | ⟨-, rfl⟩⟩ := inodeClose_cases hc
    · rfl
    · rfl
  rw [hvol]
  exact releaseVol_freed hrel

theorem store_self {c : CachedInode} (had : (s.openInodes.map (·.addr)).Nodup) (hc : c ∈ s.openInodes) : s.store c = s := by
  have hmap : s.openInodes.map (fun x => if x.addr = c.addr then c else x) = s.openInodes := by
    refine (List.map_congr_left fun x hx => ?_).trans (List.map_id _)
    split
    · rename_i ha
      exact eq_of_addr had hx hc ha.symm
    · rfl
  unfold store
  rw [hmap]

theorem Sound.deleteDirEntry_leaf {a q : Nat} {no : UInt32} (hf : part.Formatted) (hok : t.Ok) (h : s.Sound t l) (hat : s.At a q)
    (hq : t.IsDir q) (hle : ∀ k i x, ¬ t.Child q k i x) (hr : s.deleteDirEntry .debug env a no = .ok s') : s' = s := by
  obtain ⟨c, hc, hmem, hcq⟩ := hat.cached h.shows
  obtain ⟨P, hP, hdir⟩ := hq
  have hs := slotAddr_of_pure (h.shows.cached c hmem P (by rw [hcq]; exact hP) hdir) s.vol.disk
  unfold Fs.deleteDirEntry at hr
  simp only [bind_ok] at hr
  obtain ⟨c', hc', r, hdel, ⟨st, ok⟩, hret, hr⟩ := hr
  cases hc.symm.trans hc'
  cases hr
  obtain _ | r := r
  · cases hret
  cases hret
  rcases deleteDirEntry_removed hf (by rw [hs]; exact (h.repr.holds hP).blocks) hdel with ⟨-, hvol, hi, -⟩ | ⟨-, k0, i0, drop, hhit, hrem⟩
  · rw [hvol, hi]
    exact store_self h.caches.counts.addrs hmem
  · -- what it finds is no dot, so it would be a child
    obtain ⟨hk0, hi0, hne⟩ := hrem.index
    have hl := liveAt_eq_some.mpr ⟨hk0, hi0, hne, hhit.1.1, rfl⟩
    rw [hs, ((h.repr.holds hP).dir hdir).2] at hl
    have he : t.Entry q k0 i0 _ := ⟨P, hP, hdir, hl⟩
    refine absurd ⟨he, fun hdot => ?_⟩ (hle k0 i0 _)
    rcases (hok.dot_slot he).mpr hdot with hn | hn
    · exact hhit.1.2.1 (by rw [hs]; exact hn)
    · exact hhit.1.2.2 (by rw [hs]; exact hn)

/-- **A directory that `sys_rmdir` removes leaves no entry behind iff** the path does not end in
`"."`. -/
theorem rmdir_leaves_no_entry_iff {pathname : List UInt8} (hf : part.Formatted) (hok : t.Ok) (h : s.Sound t [])
    (hpath : 0 ∉ pathname) (hname : components pathname ≠ []) (hr : s.sysRmdir .debug env pathname = .ok (s', true)) :
    ∃ n, t.Walk 0 (components pathname) n ∧ s'.vol.inodeBitmap.bit n = false ∧
      (EntryGone s'.vol t n ↔ (components pathname).getLast? ≠ some dot) := by
  rw [← names_eq_components] at hname ⊢
  obtain ⟨s1, r, no, hs, hz, hend⟩ := sysRmdir_end hr
  have hz := hz rfl
  cases hend with
  | @removed s2 s3 s4 s5 x c c' ho hc hem hdel hc' hrel hcl hcl' hno hty =>
    obtain ⟨q, k, i, e, rfl, hfo⟩ := h.rmdir_found hok hpath hname hs hz hno hty ho hc hem
    obtain ⟨pre, hsp, hpre⟩ := hfo.walk
    obtain ⟨h2, -⟩ := hfo.opened
    obtain ⟨hcm, rfl, hcno⟩ := hfo.cached
    rw [hcno] at hdel
    have hat := hfo.parent.1.opened hfo.before.caches.counts.addrs ho
    have hvol : s'.vol = s4.vol := by
      rw [(dirClose_run hcl').rest.vol]
      obtain ⟨-, -, ⟨-, -, rfl⟩ | ⟨-, rfl⟩⟩ := inodeClose_cases hcl
      · rfl
      · rfl
    have hdir := (hok.dir_entry hfo.entry).mp hfo.dir
    rw [hsp, List.getLast?_concat, hvol]
    have hw := hpre.snoc hfo.entry hfo.dir
    rcases hfo.slot with ⟨hch, hne⟩ | ⟨hdot, rfl⟩
    · obtain ⟨hno', P, inode, k0, i0, y, t1, hl, ht⟩ := h2.takeOff hf hok hat hch hfo.leaf hdel
        (fun hk => UInt32.toNat_inj.mp (hk _ _ _ hfo.at_ hc')) hrel
      rw [hno'] at hrel
      refine ⟨_, hw, inodeRelease_freed hrel, iff_of_true (.of_leaf hl ht.ok ht.repr) ?_⟩
      exact fun he => hne (Option.some.inj he)
    · -- the directory does not have itself as a child
      obtain rfl := h2.deleteDirEntry_leaf hf hok hat hdir hfo.leaf hdel
      cases hc.symm.trans hc'
      rw [hcno] at hrel
      have ⟨nd, hnd, _⟩ := hdir
      obtain ⟨-, hre, -⟩ := h2.caches.inodeRelease hf h2.repr hnd hrel
      have hne : e.iNo.toNat ≠ 0 := fun he => hz (UInt32.toNat_inj.mp he)
      refine ⟨_, hw, inodeRelease_freed hrel, iff_of_false (hre.not_entryGone hok hne hdir hfo.leaf) ?_⟩
      rw [hdot]
      exact fun he => he rfl

theorem homeFs_mkdir {s1 : Fs samplePart} (h : homeFs.sysMkdir .debug homeEnv [47, 98] = .ok (s1, true)) :
    ∃ t : Tree, t.Ok ∧ s1.Sound t [] := by
  have hs := homeFs_boots.sound
  have hcan : homeFs.CanCreate homeEnv [47, 98] := by
    intro s1 r hse _
    obtain ⟨h1, -⟩ := sound_tracks.searchFile homeTree_ok.toShaped (by decide) hs hse
    have hvol : s1.vol = homeVol := (searchFile_run hse).rest.vol
    refine ⟨rfl, fun n vol ha => ?_, fun c hc hf => ?_⟩
    · have hbit : (inodeBitmapAlloc .debug homeVol).toOption.all (fun x => x.1.all (· < 256)) = true := by decide +kernel
      rw [← hvol, ha] at hbit
      exact of_decide_eq_true hbit
    · -- no node of the sample tree has a second block
      obtain ⟨nd, hnd, hpu⟩ := h1.caches.nodes c (cached_ok hc).1
      obtain ⟨-, rfl⟩ := homeTree_some hnd
      exact (hf 1 (by decide)).1 ((sec_of_pure hpu 1).trans (if_neg fun h => absurd h.2 (by decide)))
  obtain ⟨t, hok, hs, -⟩ := hs.sysMkdir samplePart_formatted homeTree_ok (by decide) hcan h
  exact ⟨t, hok, hs⟩

theorem rmdir_leaves_no_entry_home : ∃ s1 s2 t n, homeFs.sysMkdir .debug homeEnv [47, 98] = .ok (s1, true) ∧
    s1.sysRmdir .debug { homeEnv with rounds := 3 } [47, 98] = .ok (s2, true) ∧ s1.Sound t [] ∧ EntryGone s2.vol t n := by
  have hret : (homeFs.sysMkdir .debug homeEnv [47, 98]).toOption.any (fun x =>
      x.2 && (x.1.sysRmdir .debug { homeEnv with rounds := 3 } [47, 98]).toOption.any (·.2)) = true := by decide +kernel
  obtain ⟨⟨s1, ok⟩, hm, hret⟩ := exists_of_any hret
  obtain ⟨rfl, hret⟩ := Bool.and_eq_true_iff.mp hret
  obtain ⟨⟨s2, ok⟩, hr, rfl⟩ := exists_of_any hret
  obtain ⟨t, hok, hs⟩ := homeFs_mkdir hm
  obtain ⟨n, -, -, hiff⟩ := rmdir_leaves_no_entry_iff samplePart_formatted hok hs (by decide) (by decide +kernel) hr
  exact ⟨s1, s2, t, n, hm, hr, hs, hiff.mpr (by decide +kernel)⟩

/-- After `"/b/."` is removed, the root directory still has the entry `"b"` of inode 3, which is
free. -/
theorem rmdir_dot_dangles : ∃ s1 s2 x, homeFs.sysMkdir .debug homeEnv [47, 98] = .ok (s1, true) ∧ (∃ t : Tree, t.Ok ∧ s1.Sound t []) ∧
    s1.sysRmdir .debug { homeEnv with rounds := 3 } [47, 98, 47, 46] = .ok (s2, true) ∧
    diskEntry s2.vol 0 0 3 = some x ∧ x.name = [98] ∧ x.iNo = 3 ∧ s2.vol.inodeBitmap.bit 3 = false := by
  have hret : (homeFs.sysMkdir .debug homeEnv [47, 98]).toOption.any (fun x =>
      x.2 && (x.1.sysRmdir .debug { homeEnv with rounds := 3 } [47, 98, 47, 46]).toOption.any fun y => y.2 &&
        (diskEntry y.1.vol 0 0 3).any fun x => x.name = [98] ∧ x.iNo = 3 ∧ y.1.vol.inodeBitmap.bit 3 = false) = true := by
    decide +kernel
  obtain ⟨⟨s1, ok⟩, hm, hret⟩ := exists_of_any hret
  obtain ⟨rfl, hret⟩ := Bool.and_eq_true_iff.mp hret
  obtain ⟨⟨s2, ok⟩, hr, hret⟩ := exists_of_any hret
  obtain ⟨rfl, hret⟩ := Bool.and_eq_true_iff.mp hret
  dsimp only at hret hr
  cases hx : diskEntry s2.vol 0 0 3 with
  | none =>
    rw [hx] at hret
    cases hret
  | some x =>
    rw [hx] at hret
    exact ⟨s1, s2, x, hm, homeFs_mkdir hm, hr, hx, of_decide_eq_true hret⟩

end Fs

end OperateSystem
