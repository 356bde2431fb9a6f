import OperateSystem.FsChange
import OperateSystem.FsRun
import OperateSystem.HomeTree

/-!
# The counts of cached inodes

Between calls, the count of a cached inode is the number of its users, if no call
forgets a directory, reads an uninitialised inode number or takes off a directory that
is in use.
-/

namespace OperateSystem

namespace Fs

variable {part : Partition} {s s' : Fs part} {t : Tree} {l : List Nat} {a : Nat} {env : CallEnv}

/-- Each inode number is cached once, and the count of an inode is the number of slots of
`file_table` and directories that refer to it. -/
structure Balanced (s : Fs part) : Prop where
  numbers : (s.openInodes.map (·.inode.iNo)).Nodup
  counts : ∀ c ∈ s.openInodes, c.iOpenCnts = s.refs c.addr ∧ 0 < s.refs c.addr
  cached : ∀ a, 0 < s.refs a → ∃ c ∈ s.openInodes, c.addr = a

theorem Counts.balanced (h : s.Counts []) : s.Balanced := by
  have hnil : ∀ a, s.refs a + ([] : List Nat).count a = s.refs a := fun a => by rw [List.count_nil, Nat.add_zero]
  refine ⟨h.numbers, fun c hc => ⟨?_, ?_⟩, fun a ha => (h.held a).mp (by rwa [hnil])⟩
  · rw [h.counts c hc, hnil]
  · have hpos := (h.held c.addr).mpr ⟨c, hc, rfl⟩
    rwa [hnil] at hpos

/-! ## Directories -/

theorem Caches.handOut (h : s.Caches t (a :: l)) (hd : ∀ c ∈ s.openInodes, c.addr = a → t.IsDir c.inode.iNo.toNat) :
    Caches { s with dirs := a :: s.dirs } t l := by
  refine ⟨h.counts.handOut, h.nodes, fun c hc hm => ?_, h.flags⟩
  rcases List.mem_cons.mp hm with e | hm
  · exact hd c hc e
  · exact h.dirs c hc hm

theorem Caches.handBack (h : s.Caches t l) (ha : a ∈ s.dirs) : Caches { s with dirs := s.dirs.erase a } t (a :: l) :=
  ⟨h.counts.handBack ha, h.nodes, fun c hc hm => h.dirs c hc (List.mem_of_mem_erase hm), h.flags⟩

theorem Sound.sysOpendir {name : List UInt8} {d : Option DirPtr} (hok : t.Ok) (h : s.Sound t []) (hpa : 0 ∉ name)
    (hn : name ∈ rootPaths ∨ names name ≠ []) (hr : s.sysOpendir .debug env name = .ok (s', d)) : s'.Sound t [] := by
  unfold Fs.sysOpendir at hr
  obtain ⟨_, -, hr⟩ := bind_ok.mp hr
  split at hr
  · cases hr
    exact h
  obtain ⟨⟨s1, r, no⟩, hs, hr⟩ := bind_ok.mp hr
  dsimp only at hr
  split at hr
  · rename_i hf
    obtain ⟨h1, -, hd, -⟩ := sound_tracks.directory hok.toShaped hpa hn h hs hf.2
    simp only [bind_ok] at hr
    obtain ⟨⟨s2, dir⟩, hop, s3, hcl, hr⟩ := hr
    cases hr
    unfold Fs.dirOpen at hop
    obtain ⟨⟨s2', x⟩, ho, hop⟩ := bind_ok.mp hop
    cases hop
    obtain ⟨nd, hnd, -⟩ := id hd
    obtain ⟨h2, -, hat⟩ := h1.opened ⟨nd, hnd⟩ ho
    have h3 : Sound { s2 with dirs := x :: s2.dirs } t (r.parentDir.held ++ []) := by
      refine ⟨h2.caches.handOut fun c hc e => ?_, h2.repr⟩
      rw [hat.number h2.caches.counts.addrs (e ▸ cached_of_mem h2.caches.counts.addrs hc)]
      exact hd
    exact sound_tracks.dirClose h3 hcl
  · obtain ⟨s2, hcl, hr⟩ := bind_ok.mp hr
    cases hr
    exact h.unchanged (search_close h.caches.counts.cacheOk hs hcl)

theorem Sound.sysClosedir {d : DirPtr} (h : s.Sound t []) (hr : s.sysClosedir .debug d = .ok s') : s'.Sound t [] := by
  unfold Fs.sysClosedir Fs.dirClose at hr
  split at hr
  · cases hr
    exact h
  · obtain ⟨_, hin, hr⟩ := bind_ok.mp hr
    obtain ⟨h', hre⟩ := (h.caches.handBack (inBounds_ok.mp hin)).closed hr
    exact ⟨h', hre.vol ▸ h.repr⟩

/-! ## Calls that only look -/

theorem sysStat_unchanged {path : List UInt8} {buf : Option Stat} {b : Build} (h : s.CacheOk)
    (hr : s.sysStat b env path = .ok (s', buf)) : Unchanged s s' := by
  unfold Fs.sysStat at hr
  split at hr
  · obtain ⟨c, -, hr⟩ := bind_ok.mp hr
    cases hr
    exact .refl s
  obtain ⟨⟨s1, r, no⟩, hs, hr⟩ := bind_ok.mp hr
  have ht := reopened_tracks (b := b) h
  have h1 := ht.searchFile (Reopened.start h) hs
  dsimp only at hr
  split at hr
  · simp only [bind_ok] at hr
    obtain ⟨⟨s2, x⟩, ho, c, -, s3, hc, s4, hc', hr⟩ := hr
    cases hr
    exact (ht.dirClose (ht.closed (ht.opened h1 ho) hc) hc').unchanged
  · obtain ⟨s2, hc, hr⟩ := bind_ok.mp hr
    cases hr
    exact search_close h hs hc

theorem Sound.setProc (h : s.Sound t l) (p : Nat) (P : FsProc) : (s.setProc p P).Sound t l :=
  ⟨h.caches.congr rfl rfl rfl rfl, h.repr⟩

theorem Sound.sysChdir {p : Nat} {path : List UInt8} {ok : Bool} (hok : t.Ok) (h : s.Sound t []) (hpa : 0 ∉ path)
    (hr : s.sysChdir .debug env p path = .ok (s', ok)) : s'.Sound t [] := by
  unfold Fs.sysChdir at hr
  obtain ⟨P, -, hr⟩ := bind_ok.mp hr
  obtain ⟨⟨s1, r, no⟩, hs, hr⟩ := bind_ok.mp hr
  obtain ⟨h1, -⟩ := sound_tracks.searchFile hok.toShaped hpa h hs
  dsimp only at hr
  split at hr
  · obtain ⟨s2, hc, hr⟩ := bind_ok.mp hr
    cases hr
    exact sound_tracks.dirClose (h1.setProc p { P with cwdInodeNr := no }) hc
  · obtain ⟨s2, hc, hr⟩ := bind_ok.mp hr
    cases hr
    exact sound_tracks.dirClose h1 hc

/-! ## Runs -/

/-- `sys_rmdir` takes off a directory that is found by its own name and that nobody has open. -/
def CanRemove (s : Fs part) (env : CallEnv) (pathname : List UInt8) : Prop :=
  ∀ s' s1 r no, s.sysRmdir .debug env pathname = .ok (s', true) →
    searchFile .debug s pathname env.lookups env.oldNo = .ok (s1, r, no) →
    names pathname ≠ [] ∧ (names pathname).getLast? ≠ some dot ∧ ∀ c ∈ s.openInodes, c.inode.iNo ≠ no

end Fs

def FsCall.Balances {part : Partition} (s : Fs part) : FsCall → Prop
  | .sysOpen env _ pathname flags => s.CanOpen env pathname flags
  | .sysOpendir _ name => name ∈ rootPaths ∨ names name ≠ []
  | .sysMkdir env pathname => s.CanCreate env pathname
  | .sysRmdir env pathname => s.CanRemove env pathname
  | .sysFork _ _ => False
  | _ => True

namespace Fs

variable {part : Partition} {s s' : Fs part} {t : Tree}

structure Boots (s : Fs part) (t : Tree) : Prop where
  mounted : s.Mounted
  ok : t.Ok
  repr : Repr s.vol t
  root : ∀ c ∈ s.openInodes, ∀ nd, t 0 = some nd → c.inode.pure = nd.inode.pure

theorem Boots.sound (h : s.Boots t) : s.Sound t [] := by
  obtain ⟨i, hi, hno⟩ := h.mounted.root
  have hs : ∀ a, s.slots a = 0 := fun a => by
    by_contra hpos
    obtain ⟨g, hg⟩ := exists_slot (Nat.pos_of_ne_zero hpos)
    rw [h.mounted.fileTable g] at hg
    cases hg
  have hr : ∀ a, s.refs a + ([] : List Nat).count a = if a = s.rootDir then 1 else 0 := fun a => by
    unfold refs
    rw [hs, h.mounted.dirs, List.count_nil, Nat.zero_add, Nat.add_zero]
  have hone : ∀ c ∈ s.openInodes, c = ⟨s.rootDir, i, 1, .pfKernel⟩ := fun c hc => by
    rw [hi] at hc
    exact List.mem_singleton.mp hc
  have hro : (⟨s.rootDir, i, 1, .pfKernel⟩ : CachedInode) ∈ s.openInodes := by
    rw [hi]
    exact List.mem_singleton_self _
  refine ⟨⟨⟨?_, ?_, fun c hc => ?_, fun a => ?_, ⟨_, hro, rfl, hno⟩⟩, fun c hc => ?_, fun c _ hd => ?_, fun g a hg => ?_⟩, h.repr⟩
  · rw [hi]
    exact List.nodup_singleton _
  · rw [hi]
    exact List.nodup_singleton _
  · rw [hr, hone c hc, if_pos rfl]
  · rw [hr]
    constructor
    · intro hpos
      split at hpos
      · rename_i e
        exact ⟨_, hro, e.symm⟩
      · exact absurd hpos (Nat.lt_irrefl 0)
    · rintro ⟨c, hc, rfl⟩
      rw [hone c hc, if_pos rfl]
      exact Nat.one_pos
  · obtain ⟨nd, hnd, -⟩ := h.ok.root
    refine ⟨nd, ?_, h.root c hc nd hnd⟩
    rw [hone c hc, hno]
    exact hnd
  · rw [h.mounted.dirs] at hd
    cases hd
  · rw [h.mounted.fileTable g] at hg
    cases hg

theorem Sound.step {call : FsCall} (hf : part.Formatted) (hok : t.Ok) (h : s.Sound t []) (hc : call.Balances s)
    (hs : FsCallStep .debug call s s') : ∃ t', t'.Ok ∧ s'.Sound t' [] := by
  cases hs with
  | sysOpen hpa hr => exact h.sysOpen hf hok hpa hc hr
  | sysClose _ hr => exact ⟨t, hok, h.sysClose hr⟩
  | sysOpendir hpa hr => exact ⟨t, hok, h.sysOpendir hok hpa hc hr⟩
  | sysClosedir hr => exact ⟨t, hok, h.sysClosedir hr⟩
  | sysMkdir hpa hr =>
    obtain ⟨t', hok', h', -⟩ := h.sysMkdir hf hok hpa hc hr
    exact ⟨t', hok', h'⟩
  | @sysRmdir _ _ _ _ ok hpa hr =>
    cases ok with
    | false => exact ⟨t, hok, h.unchanged (sysRmdir_fails h.caches.counts.cacheOk hr)⟩
    | true =>
      obtain ⟨s1, r, no, hse, -⟩ := sysRmdir_end hr
      obtain ⟨hn, hl, hi⟩ := hc s' s1 r no hr hse
      obtain ⟨t', hok', h', -⟩ := h.sysRmdir hf hok hpa hse hn hl hi hr
      exact ⟨t', hok', h'⟩
  | sysUnlink hpa hr => exact h.sysUnlink hf hok hpa hr
  | sysStat _ hr => exact ⟨t, hok, h.unchanged (sysStat_unchanged h.caches.counts.cacheOk hr)⟩
  | sysChdir hpa hr => exact ⟨t, hok, h.sysChdir hok hpa hr⟩
  | sysFork _ _ => exact absurd hc id

/-- **The counts balance** in every run without fork in which no existing file is opened outside
`root_dir`, new entries have room, and `sys_rmdir` takes off no directory that is in use or named
by a dot. -/
theorem inode_counts_balance (hf : part.Formatted)
    (h : Reach (fun s s' => ∃ call : FsCall, call.Balances s ∧ FsCallStep .debug call s s') (fun s => ∃ t, s.Boots t) s) :
    s.Balanced := by
  have hinv : ∃ t : Tree, t.Ok ∧ s.Sound t [] := by
    refine h.invariant (P := fun s => ∃ t : Tree, t.Ok ∧ s.Sound t []) ?_ ?_
    · rintro s ⟨t, hb⟩
      exact ⟨t, hb.ok, hb.sound⟩
    · rintro s s' ⟨t, hok, hs⟩ ⟨call, hc, hst⟩
      exact hs.step hf hok hc hst
  obtain ⟨t, -, hs⟩ := hinv
  exact hs.caches.counts.balanced

theorem homeFs_boots : homeFs.Boots homeTree := by
  refine ⟨homeFs_mounted, homeTree_ok, homeVol_repr, fun c hc nd hnd => ?_⟩
  obtain rfl := List.mem_singleton.mp hc
  obtain ⟨-, rfl⟩ := homeTree_some hnd
  rfl

theorem samplePart_formatted : samplePart.Formatted := ⟨by decide, by decide, by decide⟩

theorem inode_counts_balance_opendir : ∃ s' d, homeFs.sysOpendir .debug homeEnv [47, 97] = .ok (s', some d) ∧ s'.Balanced := by
  have hret : (homeFs.sysOpendir .debug homeEnv [47, 97]).toOption.any (·.2.isSome) = true := by decide +kernel
  obtain ⟨⟨s', d⟩, hrun, hs⟩ := exists_of_any hret
  obtain ⟨d, rfl⟩ := Option.isSome_iff_exists.mp hs
  refine ⟨s', d, hrun, inode_counts_balance samplePart_formatted (.tail (.refl ⟨homeTree, homeFs_boots⟩) ?_)⟩
  exact ⟨.sysOpendir homeEnv [47, 97], .inr (by decide), .sysOpendir (by decide) hrun⟩

/-- `sys_open` of `/a/f` leaves the inode of `/a` cached, though nothing refers to it. -/
theorem open_keeps_directory : ∃ s', homeFs.Boots homeTree ∧ FsCallStep .debug (.sysOpen homeEnv 0 [47, 97, 47, 102] 0) homeFs s' ∧
    (∃ c ∈ s'.openInodes, c.inode.iNo = 1 ∧ c.iOpenCnts = 1 ∧ s'.refs c.addr = 0) ∧ ¬ s'.Balanced := by
  have hret : (homeFs.sysOpen .debug homeEnv 0 [47, 97, 47, 102] 0).toOption.any (fun x =>
      x.1.openInodes.any fun c => c.inode.iNo = 1 ∧ c.iOpenCnts = 1 ∧ x.1.refs c.addr = 0) = true := by decide +kernel
  obtain ⟨⟨s', d⟩, hrun, hany⟩ := exists_of_any hret
  obtain ⟨c, hc, hf⟩ := List.any_eq_true.mp hany
  have hf := of_decide_eq_true hf
  refine ⟨s', homeFs_boots, .sysOpen (by decide) hrun, ⟨c, hc, hf⟩, fun hb => ?_⟩
  have hpos := (hb.counts c hc).2
  rw [hf.2.2] at hpos
  exact absurd hpos (Nat.lt_irrefl 0)

end Fs

end OperateSystem
