import OperateSystem.FsTree

/-!
# Calls that change the tree

`sys_mkdir` and `file_create` hang a node into the tree, `sys_rmdir` and `sys_unlink`
take one off, and `file_open` and `file_close` change who uses an inode.
-/

namespace OperateSystem

open Function

namespace Fs

variable {part : Partition} {b : Build} {s s' : Fs part} {t : Tree} {l : List Nat} {a n p q : Nat} {no : UInt32} {c : CachedInode}
variable {ok : Bool} {e : DirEntry} {g : Fin 32} {s1 : Fs part} {pathname : List UInt8} {i k : Nat}
variable {d : Option (Fin 8)} {r : PathSearchRecord}
  {env : CallEnv}

/-! ## `sys_mkdir` -/

/-- There is a small number and a free slot for a new entry of directory `a`. -/
structure Room (s : Fs part) (a : Nat) : Prop where
  number : ∀ n vol, inodeBitmapAlloc .debug s.vol = .ok (some n, vol) → n < 256
  slot : ∀ c, s.cached a = .ok c → ¬ DirectFull s.vol.disk c.inode

theorem Sound.makeDir {d : DirPtr} {dirname : List UInt8} (hf : part.Formatted) (hok : t.Ok)
    (h : s.Sound t (d.held ++ l)) (hat : s.At d.inode q) (hq : t.IsDir q) (hro : s.Room d.inode)
    (hne : dirname ≠ []) (hz : 0 ∉ dirname) (hlen : dirname.length < 16)
    (hm : ∀ k i x, t.Entry q k i x → x.name ≠ dirname)
    (hr : s.makeDir .debug d dirname = .ok (s', ok)) :
    ∃ t', t'.Ok ∧ s'.Sound t' l ∧ Steady s s' ∧ ∀ d, t.Keeps t' d := by
  obtain ⟨c, hc, hmem, hcq⟩ := hat.cached h.shows
  obtain ⟨P, hP, hdir⟩ := hq
  have hpu := h.shows.cached c hmem P (by rw [hcq]; exact hP) hdir
  have hcno : c.inode.iNo = .ofNat q := by rw [← hcq, UInt32.ofNat_toNat]
  obtain ⟨⟨r, vol1⟩, ha, hr⟩ := bind_ok.mp hr
  obtain _ | n := r
  · exact absurd ha (inodeBitmapAlloc_debug _)
  obtain ⟨⟨r, vol2⟩, hb, hr⟩ := bind_ok.mp hr
  obtain _ | lba := r
  · exact absurd rfl (blockBitmapAlloc_debug hb)
  simp only [bind_ok] at hr
  obtain ⟨_, -, vol3, hsy, c1, hc1, disk, hw, e, he, ⟨s2, ok2⟩, hli, hr⟩ := hr
  cases hc.symm.trans hc1
  have hlba := (blockBitmapAlloc_spec hb).2.1.toNat_ofNat
  have hsec : ((inodeInit (.ofNat n)).setSec 0 (.ofNat lba)).sec 0 = .ofNat lba := by rw [sec_setSec _ _ _ _ (by decide), if_pos rfl]
  rw [hsec, hlba, hcno] at hw
  have hn := hro.number n vol1 ha
  obtain ⟨hre, hsp⟩ := Spare.dir hf h.repr hn ha hb hsy hw
  obtain ⟨hen, heno, het, hem⟩ := createDirEntry_ok he hne hz hlen
  have hdo := hok.no_dots hP hdir hm
  have hl : (s.setVol { vol3 with disk := disk }).Linkable t q P e n (dirNode n q lba) := by
    refine ⟨⟨hP, hdir⟩, ((h.repr.holds hP).hasRoom_iff hdir hpu).mp (hro.slot c hc), hsp, rfl, fun _ => ⟨rfl, rfl⟩,
      ⟨by rw [het]; decide, hem⟩, ⟨heno, het⟩, by rw [hen]; exact hdo, fun {k i x} hx => ?_⟩
    rw [hen]
    exact hm k i x ⟨P, hP, hdir, hx⟩
  obtain ⟨rfl, vol, i, k0, i0, rfl, hino, hang, hr'⟩ := link_spec hf hok hl hre h.caches.counts.addrs hc hpu hli
  have h2 : (((s.setVol { vol3 with disk := disk }).setVol vol).store { c with inode := i }).Sound
      (t.link q (P.put i.pure k0 i0 (some e)) n (some (dirNode n q lba))) (d.held ++ l) :=
    ⟨(h.caches.setVol vol).linked hmem hcq hino hang, hr'⟩
  obtain ⟨s3, hcl, hr⟩ := bind_ok.mp hr
  cases hr
  refine ⟨_, hok.insert hang, sound_tracks.dirClose h2 hcl, ?_, hang.grows hok⟩
  have hs := (dirClose_run hcl).rest.steady
  exact ⟨hs.fileTable, hs.rootDir, hs.dirs, hs.procs⟩

def CanCreate (s : Fs part) (env : CallEnv) (pathname : List UInt8) : Prop :=
  ∀ s1 r, searchFile .debug s pathname env.lookups env.oldNo = .ok (s1, r, -1) →
    pathDepthCnt pathname env.oldChar = pathDepthCnt r.searchedPath env.oldChar' → env.lookups 0 = true ∧ s1.Room r.parentDir.inode

theorem Counts.cacheOk (h : s.Counts []) : s.CacheOk := by
  refine ⟨h.addrs, fun c hc => ?_⟩
  have hpos := (h.held c.addr).mpr ⟨c, hc, rfl⟩
  rw [h.counts c hc]
  exact hpos

theorem Sound.no_ne (h : s.Sound t l) (hok : t.Ok) (he : t.Entry q k i e) : e.iNo ≠ -1 := by
  intro hno
  obtain ⟨nd, hnd, -⟩ := hok.entry_leads he
  have := h.repr.small hnd
  rw [hno] at this
  exact absurd this (by decide)

theorem Sound.missing {old old' : UInt8} {depth : Nat} (hok : t.Ok) (h : s.Sound t [])
    (hpa : 0 ∉ pathname)
    (hsr : searchFile .debug s pathname env.lookups env.oldNo = .ok (s1, r, -1))
    (hse : r.fileType ≠ ftDirectory ∨ r.searchedPath ≠ [])
    (hde : pathDepthCnt pathname old = .ok depth)
    (hde' : pathDepthCnt r.searchedPath old' = .ok depth) (hmem : env.lookups 0 = true) :
    ∃ pre name q, s1.Sound t (r.parentDir.held ++ []) ∧ names pathname = pre ++ [name] ∧
      r.searchedPath = joinPath (pre ++ [name]) ∧ s1.At r.parentDir.inode q ∧ t.IsDir q ∧ IsName name ∧ 0 ∉ name ∧ name.length < 16 ∧
      ∀ k i x, t.Entry q k i x → x.name ≠ name := by
  obtain ⟨h1, hend⟩ := sound_tracks.searchFile hok.toShaped hpa h hsr
  rcases hend with ⟨-, -, -, hno⟩ | ⟨-, hend⟩
  · exact absurd hno (by decide)
  cases hend with
  | regular _ _ _ he _ hno => exact absurd hno.symm (h.no_ne hok he)
  | directory _ _ _ he _ hno => exact absurd hno.symm (h.no_ne hok he)
  | nameless _ ht hnil => exact absurd hnil (hse.resolve_left fun hne => hne ht)
  | @missing pre post name q hs hw hat _ _ hsp hlen hm =>
    rw [hsp] at hde'
    obtain rfl := searched_all hs hde hde'
    have hn : name ∈ names pathname := by
      rw [hs]
      simp
    exact ⟨pre, name, q, h1, hs, hsp, hat, hw.isDir hok.toShaped hok.root, names_isName hn, fun hz => hpa (names_sub hn hz), hlen,
      hm hmem⟩

theorem Sound.sysMkdir (hf : part.Formatted) (hok : t.Ok) (h : s.Sound t []) (hpa : 0 ∉ pathname)
    (hcan : s.CanCreate env pathname) (hr : s.sysMkdir .debug env pathname = .ok (s', ok)) :
    ∃ t', t'.Ok ∧ s'.Sound t' [] ∧ Steady s s' ∧ ∀ d, t.Keeps t' d := by
  have hsa : Unchanged s s' → ∃ t', t'.Ok ∧ s'.Sound t' [] ∧ Steady s s' ∧ ∀ d, t.Keeps t' d := fun hs =>
    ⟨t, hok, h.unchanged hs, hs.toSameRest.steady, fun d => ⟨fun hd => hd, fun xs hx => hx⟩⟩
  cases sysMkdir_end hr with
  | noBuffer => exact hsa (.refl s)
  | refused hse _ hc => exact hsa (search_close h.caches.counts.cacheOk hse hc)
  | @made s1 _ r depth dirname _ _ hse hde hde' hn hm =>
    have hsr : r.searchedPath ≠ [] := fun e => by
      obtain ⟨_, hin, -⟩ := bind_ok.mp hn
      rw [e, inBounds_ok] at hin
      cases hin
    obtain ⟨hmem, hro⟩ := hcan s1 r hse (hde.trans hde'.symm)
    obtain ⟨pre, name, q, h1, -, hsp, hat, hq, hi, hz, hlen, hmi⟩ := h.missing hok hpa hse (.inr hsr) hde hde' hmem
    rw [hsp, joinPath_concat, afterSlash_split hi.2, Except.ok.injEq] at hn
    subst hn
    obtain ⟨t', hok', h', hst, hk⟩ := h1.makeDir hf hok hat hq hro hi.1 hz hlen hmi hm
    exact ⟨t', hok', h', (searchFile_run hse).rest.steady.trans hst, hk⟩

/-! ## Files -/

theorem pcbFdInstall_same (hr : s.pcbFdInstall p g = .ok (s', d)) :
    s'.vol = s.vol ∧ s'.openInodes = s.openInodes ∧ s'.fileTable = s.fileTable ∧ s'.rootDir = s.rootDir ∧ s'.dirs = s.dirs := by
  obtain ⟨-, rfl⟩ | ⟨P, d, -, -, -, rfl⟩ := pcbFdInstall_cases hr <;> exact ⟨rfl, rfl, rfl, rfl, rfl⟩

theorem Sound.installed (h : s.Sound t l) (hr : s.pcbFdInstall p g = .ok (s', d)) :
    s'.Sound t l := by
  obtain ⟨hvol, hi, hf, hro, hd⟩ := pcbFdInstall_same hr
  exact ⟨h.caches.congr hi hf hro hd, hvol ▸ h.repr⟩

theorem flag_ne_pipe (flag : UInt8) : flag.toUInt32 ≠ pipeFlag := by
  intro h
  have hlt := flag.toNat_lt
  have := congrArg UInt32.toNat h
  rw [UInt8.toNat_toUInt32] at this
  have hpi : pipeFlag.toNat = 65535 := rfl
  omega

theorem newAddr_congr (hi : s'.openInodes.map (·.addr) = s.openInodes.map (·.addr)) (hr : s'.rootDir = s.rootDir) :
    s'.newAddr = s.newAddr := by
  unfold newAddr
  rw [hi, hr]

theorem Sound.fileCreate {filename : List UInt8} {flag : UInt8} (hf : part.Formatted) (hok : t.Ok)
    (h : s.Sound t l) (hat : s.At a q) (hq : t.IsDir q) (hro : s.Room a) (hne : filename ≠ [])
    (hz : 0 ∉ filename) (hlen : filename.length < 16)
    (hm : ∀ k i x, t.Entry q k i x → x.name ≠ filename)
    (hr : s.fileCreate .debug env p a filename flag = .ok (s', d)) : ∃ t', t'.Ok ∧ s'.Sound t' l := by
  unfold Fs.fileCreate Fs.fileCreateVia at hr
  split at hr
  · cases hr
    exact ⟨t, hok, h⟩
  obtain ⟨⟨r, vol1⟩, ha, hr⟩ := bind_ok.mp hr
  obtain _ | n := r
  · exact absurd ha (inodeBitmapAlloc_debug _)
  dsimp only at hr
  split at hr
  · cases hr
    rw [inodeBitmapAlloc_undo ha]
    exact ⟨t, hok, h⟩
  split at hr
  · cases hr
    rw [inodeBitmapAlloc_undo ha]
    exact ⟨t, hok, h⟩
  rename_i g hs
  simp only [bind_ok] at hr
  obtain ⟨e, he, ⟨s2, ok⟩, hli, hr⟩ := hr
  obtain ⟨c, hc, hmem, hcq⟩ := hat.cached h.shows
  obtain ⟨P, hP, hdir⟩ := hq
  have hpu := h.shows.cached c hmem P (by rw [hcq]; exact hP) hdir
  obtain ⟨hfr, hre, -⟩ := h.repr.alloc ha
  obtain ⟨hen, heno, het, hem⟩ := createDirEntry_ok he hne hz hlen
  have hn := hro.number n vol1 ha
  have hl : ((s.setVol vol1).setFile g ⟨0, flag.toUInt32, some s.newAddr⟩).Linkable t q P e n (fileNode n) := by
    refine ⟨⟨hP, hdir⟩, ((h.repr.holds hP).hasRoom_iff hdir hpu).mp (hro.slot c hc), .file h.repr hn ha, rfl, fun hd => ?_,
      ⟨by rw [het]; decide, hem⟩, ⟨heno, het⟩, by rw [hen]; exact hok.no_dots hP hdir hm, fun {k i x} hx => ?_⟩
    · cases hd
    · rw [hen]
      exact hm k i x ⟨P, hP, hdir, hx⟩
  obtain ⟨rfl, vol, i, k0, i0, rfl, hino, hang, hr'⟩ := link_spec hf hok hl hre h.caches.counts.addrs hc hpu hli
  -- the slot and the inode come together
  generalize ht' : t.link q (P.put i.pure k0 i0 (some e)) n (some (fileNode n)) = t' at hr'
  have h1 : ((s.setVol vol).store { c with inode := i }).Caches t' l := by
    rw [← ht']
    exact (h.caches.setVol vol).linked hmem hcq hino hang
  have had : ((s.setVol vol).store { c with inode := i }).newAddr = s.newAddr :=
    newAddr_congr (map_store (s := s.setVol vol) _ h.caches.counts.addrs hmem rfl rfl) rfl
  have hno : (UInt32.ofNat n).toNat = n := Tree.ofNat_toNat_small (by omega)
  -- the numbers in the cache are those of nodes
  have hold : ∀ y ∈ s.openInodes, y.inode.iNo ≠ .ofNat n := fun y hy e => by
    obtain ⟨nd, hnd, -⟩ := h.caches.nodes y hy
    rw [e, hno, hfr] at hnd
    cases hnd
  have h2 := h1.push (i := inodeInit (.ofNat n)) (s.callerPool p) (fun x hx e => ?_) ⟨fileNode n, ?_, rfl⟩
  · rw [had] at h2
    have h3 := h2.setFile (g := g) (f := ⟨0, flag.toUInt32, some s.newAddr⟩) (h2.counts.install (free_slot hs) rfl)
      fun _ _ => flag_ne_pipe flag
    refine ⟨t', ?_, Sound.installed ⟨h3, hr'⟩ hr⟩
    rw [← ht']
    exact hok.insert hang
  · rcases mem_store hx with rfl | hx
    · exact hold c hmem (hino.symm.trans e)
    · exact hold x hx e
  · show t' (UInt32.ofNat n).toNat = _
    rw [hno, ← ht', Tree.link_self]

theorem Sound.fileOpen {flag : UInt8} (h : s.Sound t l) (hn : ∃ nd, t no.toNat = some nd)
    (hr : s.fileOpen .debug p no flag = .ok (s', d)) : s'.Sound t l := by
  unfold Fs.fileOpen at hr
  split at hr
  · cases hr
    exact h
  · rename_i g hs
    obtain ⟨⟨s1, x⟩, ho, hr⟩ := bind_ok.mp hr
    obtain ⟨h1, hre, -⟩ := h.opened hn ho
    have hf : (s1.fileTable g).fdInode = none := by
      rw [hre.fileTable]
      exact free_slot hs
    have h2 : (s1.setFile g ⟨0, flag.toUInt32, some x⟩).Sound t l :=
      ⟨h1.caches.setFile (h1.caches.counts.install hf rfl) fun _ _ => flag_ne_pipe flag, h1.repr⟩
    dsimp only at hr
    split at hr
    · obtain ⟨c, hc, hr⟩ := bind_ok.mp hr
      split at hr
      · cases hr
        exact h2
      · have h3 := h2.caches.touch (i := { c.inode with writeDeny := 1 }) (cached_ok hc).1 rfl
        exact Sound.installed ⟨h3, h2.repr⟩ hr
    · exact h2.installed hr

/-- A file that is opened is found in `root_dir` itself, and there is room for a new one. -/
def CanOpen (s : Fs part) (env : CallEnv) (pathname : List UInt8) (flags : UInt8) : Prop :=
  if flags &&& oCreat = 0 then ∀ r, s.OpenGoesOn env pathname flags r → r.parentDir.isRootDir = true
  else s.CanCreate env pathname

theorem Sound.sysOpen {flags : UInt8} (hf : part.Formatted) (hok : t.Ok) (h : s.Sound t [])
    (hpa : 0 ∉ pathname) (hcan : s.CanOpen env pathname flags)
    (hr : s.sysOpen .debug env p pathname flags = .ok (s', d)) :
    ∃ t', t'.Ok ∧ s'.Sound t' [] := by
  unfold CanOpen at hcan
  cases sysOpen_end hr with
  | slash => exact ⟨t, hok, h⟩
  | refused hs _ hcl => exact ⟨t, hok, h.unchanged (search_close h.caches.counts.cacheOk hs hcl)⟩
  | @created s1 s2 _ r depth filename _ hl hs hc hde hn hct hcl =>
    rw [if_neg (hc.found.mp rfl)] at hcan
    obtain ⟨hmem, hro⟩ := hcan s1 r hs hc.depth
    obtain ⟨pre, name, q, h1, hsp, -, hat, hq, hi, hz, hlen, hmi⟩ :=
      h.missing hok hpa hs (.inl hc.notDir) hde (hc.depth.symm.trans hde) hmem
    have hfi : filename = name := by
      have hend := names_last (searchFile_head hs) hl
      rw [hsp, List.getLast?_concat, Option.some.injEq] at hend
      obtain ⟨_, -, hn⟩ := bind_ok.mp hn
      cases hn
      exact hend.symm
    subst hfi
    obtain ⟨t', hok', h2⟩ := h1.fileCreate hf hok hat hq hro hi.1 hz hlen hmi hct
    exact ⟨t', hok', sound_tracks.dirClose h2 hcl⟩
  | @opened s1 _ r no _ hl hs hc hcr ho =>
    rw [if_pos hcr] at hcan
    obtain ⟨h1, hend⟩ := sound_tracks.searchFile hok.toShaped hpa h hs
    rcases hend with ⟨-, -, rfl, -⟩ | ⟨-, hend⟩
    · exact absurd rfl hc.notDir
    cases hend with
    | missing _ _ _ hm => exact absurd hcr (hc.found.mp hm)
    | directory _ _ _ _ _ _ ht => exact absurd ht hc.notDir
    | nameless _ ht => exact absurd ht hc.notDir
    | regular _ _ _ he _ heno =>
      -- nobody closes the directory, so it has to be `root_dir`
      rw [DirPtr.held, if_pos (hcan r (hc.goesOn hl hs))] at h1
      obtain ⟨nd, hnd, -⟩ := hok.entry_leads he
      exact ⟨t, hok, h1.fileOpen ⟨nd, by rw [heno]; exact hnd⟩ ho⟩

theorem Sound.fileClose (h : s.Sound t l) (hr : s.fileClose .debug g = .ok s') : s'.Sound t l := by
  unfold Fs.fileClose at hr
  simp only [bind_ok, deref_ok] at hr
  obtain ⟨x, hx, c, hc, s1, hcl, hr⟩ := hr
  cases hr
  have h1 := h.caches.touch (i := { c.inode with writeDeny := 0 }) (cached_ok hc).1 rfl
  have h2 := h1.setFile (f := { s.fileTable g with fdInode := none }) (h1.counts.uninstall hx rfl) fun a ha => by cases ha
  obtain ⟨h3, hre⟩ := h2.closed (inodeClose_setFile hcl)
  exact ⟨h3, hre.vol ▸ h.repr⟩

theorem Sound.sysClose {d : Fin 8} (h : s.Sound t l) (hr : s.sysClose .debug p d = .ok s') : s'.Sound t l := by
  obtain ⟨P, -, hr⟩ := bind_ok.mp hr
  split at hr
  · cases hr
  rename_i g _
  obtain ⟨s1, hc, hr⟩ := bind_ok.mp hr
  cases hr
  have h1 : s1.Sound t l := by
    split at hc
    · -- no slot in use is a pipe's
      rename_i hf
      cases hc
      have hn : (s.fileTable g).fdInode = none := by
        by_contra hne
        obtain ⟨x, hx⟩ := Option.ne_none_iff_exists'.mp hne
        exact h.caches.flags g x hx hf
      have hs : (if (s.fileTable g).fdPos - 1 = 0 then none else (s.fileTable g).fdInode) = none := by
        rw [hn]
        split <;> rfl
      refine ⟨h.caches.setFile (h.caches.counts.leave hn hs) fun a ha => ?_, h.repr⟩
      rw [hs] at ha
      cases ha
    · exact h.fileClose hc
  exact ⟨h1.caches.congr rfl rfl rfl rfl, h1.repr⟩

/-! ## Taking a node off -/

theorem deleteDirEntry_spec {P : Node} (hf : part.Formatted) (hok : t.Ok) (h : Repr s.vol t)
    (hp : t q = some P) (hc : s.cached a = .ok c) (hi : c.inode.pure = P.inode.pure)
    (hch : t.Child q k i e) (hr : s.deleteDirEntry .debug env a e.iNo = .ok s') :
    ∃ vol i k0 i0 x, s' = (s.setVol vol).store { c with inode := i } ∧
      i.iNo = c.inode.iNo ∧ t.Child q k0 i0 x ∧ x.iNo = e.iNo ∧ i.iSize.toNat + 24 = P.inode.iSize.toNat ∧
      Repr vol (update t q (some (P.put i.pure k0 i0 none))) := by
  obtain ⟨nd, hnd, hdir, hent⟩ := hch.1
  cases hp.symm.trans hnd
  have hs := h.holds hp
  have hsl := slotAddr_of_pure hi s.vol.disk
  have hen : ∀ k i, liveAt s.vol.disk (slotAddr s.vol.disk c.inode) k i = P.ents k i := fun k i => by
    rw [hsl]
    exact (hs.dir hdir).2 k i
  unfold Fs.deleteDirEntry at hr
  simp only [bind_ok] at hr
  obtain ⟨c', hc', r, hdel, ⟨st, ok⟩, hret, hr⟩ := hr
  cases hc.symm.trans hc'
  cases hr
  obtain _ | r := r
  · cases hret
  cases hret
  rcases deleteDirEntry_removed hf (by rw [hsl]; exact hs.blocks) hdel with ⟨-, -, -, hno⟩ | ⟨-, k0, i0, drop, hhit, hrem⟩
  · -- the child's own slot would have been found
    have hl := (hen k i).trans hent
    obtain ⟨hk, hlt, hne, ht, hat⟩ := liveAt_eq_some.mp hl
    refine absurd ⟨?_, ?_⟩ (hno k hk i hlt hne)
    · rw [hat]
      exact ⟨ht, hok.names hch⟩
    · rw [hat]
  · obtain ⟨hk0, hi0, hne⟩ := hrem.index
    have hl := liveAt_eq_some.mpr ⟨hk0, hi0, hne, hhit.1.1, rfl⟩
    rw [hen] at hl
    have he : t.Entry q k0 i0 _ := ⟨P, hp, hdir, hl⟩
    have hc0 : t.Child q k0 i0 _ := ⟨he, fun hdot => by
      rcases (hok.dot_slot he).mpr hdot with hn | hn
      · exact hhit.1.2.1 hn
      · exact hhit.1.2.2 hn⟩
    refine ⟨st.vol, st.inode, k0, i0, _, rfl, hrem.iNo, hc0, hhit.2, ?_, ?_⟩
    · have hsi := congrArg Inode.iSize hi
      replace hsi : c.inode.iSize = P.inode.iSize := hsi
      obtain ⟨hle, hnew⟩ := hrem.size
      rw [hsi] at hle hnew
      unfold dirEntrySize at hle hnew
      have h24 : (UInt32.ofNat 24).toNat = 24 := rfl
      rw [hnew, UInt32.toNat_sub_of_le _ _ (UInt32.le_iff_toNat_le.mpr (by omega)), h24]
      omega
    · exact h.clear hp hdir hi hrem fun hd i hlt hne => hrem.no_dots hok hp hdir hs hi hc0 hd hlt hne

theorem Caches.inodeRelease {nd : Node} (hf : part.Formatted) (h : s.Caches t l) (hrp : Repr s.vol t) (hn : t no.toNat = some nd)
    (hr : s.inodeRelease .debug no = .ok s') : s'.Caches t l ∧ Repr s'.vol (update t no.toNat none) ∧ Steady s s' ∧
      ((∀ c ∈ s.openInodes, c.inode.iNo ≠ no) → ∀ c ∈ s'.openInodes, c.inode.iNo ≠ no) ∧
      ∀ x m, s.At x m → 0 < s.refs x + l.count x → s'.At x m := by
  unfold Fs.inodeRelease Fs.inodeReleaseVia at hr
  simp only [bind_ok] at hr
  obtain ⟨⟨s1, x⟩, ho, c, hc, _, -, vol, hrel, hcl⟩ := hr
  obtain ⟨h1, hre, hat⟩ := h.opened hrp ⟨nd, hn⟩ ho
  obtain ⟨hmem, rfl⟩ := cached_ok hc
  have hcno : c.inode.iNo.toNat = no.toNat := by
    obtain ⟨y, hy, hya, hyn⟩ := hat
    rw [eq_of_addr h1.counts.addrs hmem hy hya] at hyn
    exact hyn
  obtain ⟨nd', hnd', hpu⟩ := h1.nodes c hmem
  rw [hcno, hn, Option.some.injEq] at hnd'
  subst hnd'
  have hvol := hrp.release hf hn hpu (hre.vol ▸ hrel)
  obtain ⟨h2, hr2⟩ := (h1.setVol vol).closed hcl
  refine ⟨h2, by rw [hr2.vol]; exact hvol, ?_, fun hnew x hx e => ?_, fun x m hx hpos => ?_⟩
  · have hvol : Steady s1 (s1.setVol vol) := ⟨rfl, rfl, rfl, rfl⟩
    exact (hre.steady.trans hvol).trans hr2.steady
  · have ha := h.opened_alone hnew ho
    exact (h1.setVol vol).closed_last ha ⟨c, hmem, rfl, hcno⟩ hcl x hx (congrArg UInt32.toNat e)
  · rw [← hre.steady.refs] at hpos
    have hx1 : s1.At x m := hx.opened h.counts.addrs ho
    exact At.closed (s := s1.setVol vol) hx1 (h1.setVol vol) hcl hpos

theorem Caches.forget {t' : Tree} (h : s.Caches t l) (hn : ∀ c ∈ s.openInodes, c.inode.iNo.toNat ≠ n)
    (hsub : ∀ m nd, m ≠ n → t m = some nd → t' m = some nd) : s.Caches t' l := by
  refine ⟨h.counts, fun c hc => ?_, fun c hc hd => ?_, h.flags⟩
  · obtain ⟨nd, hnd, hp⟩ := h.nodes c hc
    exact ⟨nd, hsub _ nd (hn c hc) hnd, hp⟩
  · obtain ⟨nd, hnd, hdir⟩ := h.dirs c hc hd
    exact ⟨nd, hsub _ nd (hn c hc) hnd, hdir⟩

/-- The state after `delete_dir_entry` and `inode_release`. -/
structure TakenOff (s : Fs part) (t : Tree) (l : List Nat) (no : UInt32) (s' : Fs part) (t1 t' : Tree) : Prop where
  ok : t'.Ok
  caches : s'.Caches t1 l
  repr : Repr s'.vol t'
  steady : Steady s s'
  sub : ∀ m nd, m ≠ no.toNat → t1 m = some nd → t' m = some nd
  keeps : ∀ d ≠ no.toNat, t.Keeps t' d
  gone : (∀ c ∈ s.openInodes, c.inode.iNo ≠ no) → ∀ c ∈ s'.openInodes, c.inode.iNo ≠ no
  pointers : ∀ x m, s.At x m → 0 < s.refs x + l.count x → s'.At x m

theorem Sound.takeOff (hf : part.Formatted) (hok : t.Ok) (h : s.Sound t l) (hat : s.At a q)
    (hch : t.Child q k i e) (hl : ∀ k i x, ¬ t.Child e.iNo.toNat k i x)
    (hdel : s.deleteDirEntry .debug env a e.iNo = .ok s1)
    (hno : (∀ x m c, s.At x m → s1.cached x = .ok c → c.inode.iNo.toNat = m) → no = e.iNo)
    (hrel : s1.inodeRelease .debug no = .ok s') :
    no = e.iNo ∧ ∃ P inode k0 i0 x t1, t.Leaf q P inode k0 i0 x e.iNo.toNat ∧
      TakenOff s t l e.iNo s' t1 (t.link q (P.put inode k0 i0 none) e.iNo.toNat none) := by
  obtain ⟨c, hc, hmem, hcq⟩ := hat.cached h.shows
  obtain ⟨P, hP, hdir⟩ := hch.isDir
  have hpu := h.shows.cached c hmem P (by rw [hcq]; exact hP) hdir
  obtain ⟨vol, i', k0, i0, x, rfl, hino, hc0, hxno, hsi, hr⟩ := deleteDirEntry_spec hf hok h.repr hP hc hpu hch hdel
  have hpo : ∀ x m, s.At x m → ((s.setVol vol).store { c with inode := i' }).At x m := fun x m hx =>
    At.store (s := s.setVol vol) hx h.caches.counts.addrs hmem rfl hino
  have ha : ((s.setVol vol).store { c with inode := i' }).openInodes.map (·.addr) = s.openInodes.map (·.addr) :=
    map_store (s := s.setVol vol) _ h.caches.counts.addrs hmem rfl rfl
  obtain rfl := hno fun x m y hx hy => (hpo x m hx).number (by rw [ha]; exact h.caches.counts.addrs) hy
  have hl0 : t.Leaf q P i'.pure k0 i0 x e.iNo.toNat := ⟨hP, hc0, congrArg UInt32.toNat hxno, hl, hsi⟩
  have hca : ((s.setVol vol).store { c with inode := i' }).Caches (update t q (some (P.put i'.pure k0 i0 none))) l := by
    refine (h.caches.setVol vol).replace hmem hino (by rw [hcq]; exact update_self ..) rfl (fun m nd hm hnd => ?_) fun d hd => ?_
    · rwa [update_of_ne (hcq ▸ hm)]
    · obtain ⟨nd, hnd, hn⟩ := hd
      by_cases hdq : d = q
      · subst hdq
        exact ⟨_, update_self .., hdir⟩
      · exact ⟨nd, by rwa [update_of_ne hdq], hn⟩
  obtain ⟨-, nd, hnd, -⟩ := hok.leads hch
  have hnd1 : update t q (some (P.put i'.pure k0 i0 none)) e.iNo.toNat = some nd := by
    rwa [update_of_ne hl0.ne.symm]
  obtain ⟨h2, hr2, hs, hg, hpn⟩ := hca.inodeRelease hf hr hnd1 hrel
  refine ⟨rfl, P, i'.pure, k0, i0, x, _, hl0, hok.remove hl0, h2, hr2, ⟨hs.fileTable, hs.rootDir, hs.dirs, hs.procs⟩, fun m nd hm hmd => ?_,
    fun d hd => hl0.keeps_path hd, fun hnew => hg fun y hy => ?_, fun x m hx hpos => hpn x m (hpo x m hx) hpos⟩
  · unfold Tree.link
    rwa [update_of_ne hm]
  · rcases mem_store hy with rfl | hy
    · rw [hino]
      exact hnew c hmem
    · exact hnew y hy
/-! ## `sys_unlink` and `sys_rmdir` -/

theorem exists_slot (h : 0 < s.slots a) : ∃ g, (s.fileTable g).fdInode = some a := by
  by_contra hn
  have hz : s.slots a = 0 := List.sum_eq_zero fun x hx => by
    obtain ⟨g, -, rfl⟩ := List.mem_map.mp hx
    exact if_neg fun hg => hn ⟨g, hg⟩
  omega

theorem anyM_false {α : Type} {f : α → Exec Bool} : ∀ {xs : List α}, xs.anyM f = .ok false → ∀ x ∈ xs, f x = .ok false
  | [], _, x, hx => absurd hx List.not_mem_nil
  | y :: ys, h, x, hx => by
    obtain ⟨r, hr, h⟩ := bind_ok.mp h
    cases r with
    | true => cases h
    | false =>
      rcases List.mem_cons.mp hx with rfl | hx
      · exact hr
      · exact anyM_false h x hx

theorem inFileTable_false (h : s.inFileTable no = .ok false) (hg : (s.fileTable g).fdInode = some a)
    (hc : s.cached a = .ok c) : c.inode.iNo ≠ no := by
  have hs := anyM_false h g (List.mem_finRange g)
  rw [hg] at hs
  dsimp only at hs
  rw [hc, ok_bind] at hs
  have hs := Except.ok.inj hs
  exact of_decide_eq_false hs

theorem Sound.regular_idle {d : DirPtr} {nd : Node} (h : s.Sound t d.held) (hok : t.Ok) (hat : s.At d.inode q) (hq : t.IsDir q)
    (hn : t no.toNat = some nd) (hreg : nd.isDir = false) (hs : s.inFileTable no = .ok false) :
    ∀ c ∈ s.openInodes, c.inode.iNo ≠ no := by
  intro c hc hcno
  have hno : ¬ t.IsDir c.inode.iNo.toNat := by
    rintro ⟨nd', hnd', hdir⟩
    rw [hcno, hn, Option.some.injEq] at hnd'
    rw [← hnd', hreg] at hdir
    cases hdir
  have hu := (h.caches.counts.held c.addr).mpr ⟨c, hc, rfl⟩
  have hsl : s.slots c.addr = 0 := by
    by_contra hpos
    obtain ⟨g, hg⟩ := exists_slot (Nat.pos_of_ne_zero hpos)
    exact inFileTable_false hs hg (cached_of_mem h.caches.counts.addrs hc) hcno
  have hdi : s.dirs.count c.addr = 0 := by
    refine List.count_eq_zero.mpr fun hm => hno (h.caches.dirs c hc hm)
  have hro : c.addr ≠ s.rootDir := fun e => by
    obtain ⟨r, hr, hra, hrno⟩ := h.caches.counts.root
    rw [eq_of_addr h.caches.counts.addrs hr hc (e.trans hra.symm), hrno] at hno
    exact hno hok.root
  have hh : d.held.count c.addr = 0 := by
    refine List.count_eq_zero.mpr fun hm => hno ?_
    unfold DirPtr.held at hm
    split at hm
    · cases hm
    · obtain ⟨y, hy, hya, hyq⟩ := hat
      rw [eq_of_addr h.caches.counts.addrs hy hc ((List.mem_singleton.mp hm).trans hya.symm), hyq]
      exact hq
  unfold refs at hu
  rw [hsl, hdi, hh, if_neg hro] at hu
  omega

theorem Sound.sysUnlink (hf : part.Formatted) (hok : t.Ok) (h : s.Sound t []) (hpa : 0 ∉ pathname)
    (hr : s.sysUnlink .debug env pathname = .ok (s', ok)) : ∃ t', t'.Ok ∧ s'.Sound t' [] := by
  obtain ⟨_, -, hr⟩ := bind_ok.mp hr
  obtain ⟨⟨s1, record, no⟩, hs, hr⟩ := bind_ok.mp hr
  obtain ⟨_, -, hr⟩ := bind_ok.mp hr
  obtain ⟨inUse, huse, hr⟩ := bind_ok.mp hr
  split at hr
  · obtain ⟨s2, hcl, hr⟩ := bind_ok.mp hr
    cases hr
    exact ⟨t, hok, h.unchanged (search_close h.caches.counts.cacheOk hs hcl)⟩
  · rename_i hgo
    simp only [bind_ok] at hr
    obtain ⟨s2, hdel, s3, hrel, s4, hcl, hr⟩ := hr
    cases hr
    rw [not_or] at hgo
    split at huse
    · cases huse
      exact absurd rfl hgo.1
    · rename_i hfo
      rw [not_or] at hfo
      have huse : s1.inFileTable no = .ok false := by
        rw [huse]
        simpa using hgo.1
      obtain ⟨h1, hend⟩ := sound_tracks.searchFile hok.toShaped hpa h hs
      rw [List.append_nil] at h1
      rcases hend with ⟨-, -, rfl, -⟩ | ⟨-, hend⟩
      · exact absurd rfl hfo.2
      cases hend with
      | missing _ _ _ hno => exact absurd hno hfo.1
      | directory _ _ _ _ _ _ hty => exact absurd hty hfo.2
      | nameless _ hty => exact absurd hty hfo.2
      | @regular pre post q k i e _ hw hat he hreg hno =>
        subst hno
        obtain ⟨nd, hnd, hty⟩ := hok.entry_leads he
        have hfi : nd.isDir = false := by
          by_contra hdir
          rw [Bool.not_eq_false] at hdir
          rw [hreg, Node.fileType, if_pos hdir] at hty
          exact absurd hty (by decide)
        have hl : ∀ k i x, ¬ t.Child e.iNo.toNat k i x := fun k i x hc => by
          obtain ⟨nd', hnd', hdir⟩ := hc.isDir
          cases hnd.symm.trans hnd'
          rw [hfi] at hdir
          cases hdir
        have hi := h1.regular_idle hok hat (hw.isDir hok.toShaped hok.root) hnd hfi huse
        obtain ⟨-, P, i', k0, i0, x, t1, -, ht⟩ := h1.takeOff hf hok hat (hok.regular_child he hreg) hl hdel (fun _ => rfl) hrel
        have hg := ht.gone hi
        have h3 : s3.Sound (t.link q (P.put i' k0 i0 none) e.iNo.toNat none) (record.parentDir.held ++ []) := by
          rw [List.append_nil]
          exact ⟨ht.caches.forget (fun c hc e => hg c hc (UInt32.toNat_inj.mp e)) ht.sub, ht.repr⟩
        exact ⟨_, ht.ok, sound_tracks.dirClose h3 hcl⟩

theorem sysRmdir_fails (h : s.CacheOk) (hr : s.sysRmdir b env pathname = .ok (s', false)) : Unchanged s s' := by
  obtain ⟨s1, r, no, hs, -, hend⟩ := sysRmdir_end hr
  cases hend with
  | refused hc => exact search_close h hs hc
  | left ho hc hc' =>
    have ht := reopened_tracks (b := b) h
    have h1 := ht.searchFile (Reopened.start h) hs
    exact (ht.dirClose (ht.dirClose (ht.dirOpen h1 ho) hc) hc').unchanged

/-- The parent is the directory in which the last name was looked up, so for `"."` it is the
directory itself. -/
structure RmdirFound (t : Tree) (pathname : List UInt8) (s1 s2 : Fs part) (d : DirPtr) (x q k i : Nat) (c : CachedInode) (e : DirEntry) :
    Prop where
  walk : ∃ pre, names pathname = pre ++ [e.name] ∧ t.Walk 0 pre q
  entry : t.Entry q k i e
  dir : e.fType = ftDirectory
  parent : s1.At d.inode q ∧ d.isRootDir = false
  before : s1.Sound t (d.held ++ [])
  opened : s2.Sound t (x :: (d.held ++ [])) ∧ SameRest s1 s2
  at_ : s2.At x e.iNo.toNat
  cached : c ∈ s2.openInodes ∧ c.addr = x ∧ c.inode.iNo = e.iNo
  leaf : ∀ k i x, ¬ t.Child e.iNo.toNat k i x
  slot : (t.Child q k i e ∧ e.name ≠ dot) ∨ (e.name = dot ∧ q = e.iNo.toNat)

theorem Sound.rmdir_found {s2 : Fs part} {x : Nat} (hok : t.Ok) (h : s.Sound t [])
    (hpt : 0 ∉ pathname) (hn : names pathname ≠ [])
    (hse : searchFile .debug s pathname env.lookups env.oldNo = .ok (s1, r, no)) (hz : no ≠ 0)
    (hno : no ≠ -1) (ht : r.fileType ≠ ftRegular) (ho : s1.inodeOpen .debug no = .ok (s2, x))
    (hc : s2.cached x = .ok c) (hem : dirIsEmpty c = true) :
    ∃ q k i e, no = e.iNo ∧ RmdirFound t pathname s1 s2 r.parentDir x q k i c e := by
  obtain ⟨h1, hwa⟩ := sound_tracks.searchFile hok.toShaped hpt h hse
  rcases hwa with ⟨-, -, -, rfl⟩ | ⟨-, hwa⟩
  · exact absurd rfl hz
  cases hwa with
  | missing _ _ _ hmi => exact absurd hmi hno
  | regular _ _ _ _ _ _ hreg => exact absurd hreg ht
  | nameless hnil => exact absurd hnil hn
  | @directory pre q k i e hsp hw hat he hed heno _ hr =>
    subst heno
    obtain ⟨nd, hnd, -⟩ := hok.entry_leads he
    obtain ⟨h2, hr2, hatx⟩ := h1.opened ⟨nd, hnd⟩ ho
    obtain ⟨hcm, rfl⟩ := cached_ok hc
    have hcno := hatx.number h2.caches.counts.addrs hc
    -- the directory has no children
    obtain ⟨nd', hnd', hpu⟩ := h2.caches.nodes c hcm
    rw [hcno, hnd, Option.some.injEq] at hnd'
    subst hnd'
    have hs := congrArg Inode.iSize hpu
    replace hs : c.inode.iSize = nd.inode.iSize := hs
    have h48 : nd.inode.iSize.toNat = 48 := by
      rw [← hs, of_decide_eq_true hem]
      rfl
    have hl : ∀ k i x, ¬ t.Child e.iNo.toNat k i x := fun k i x => hok.empty hnd (hok.isDir_of hnd he hed) h48
    refine ⟨q, k, i, e, rfl, ⟨pre, hsp, hw⟩, he, hed, ⟨hat, hr⟩, h1, ⟨h2, hr2⟩, hatx,
      ⟨hcm, rfl, UInt32.toNat_inj.mp hcno⟩, hl, ?_⟩
    by_cases hdot : k = 0 ∧ i < 2
    · obtain ⟨rfl, hi⟩ := hdot
      obtain ⟨Q, hQ, hQd, hent⟩ := he
      rcases (show i = 0 ∨ i = 1 by omega) with rfl | rfl
      · cases (hok.dot hQ hQd).symm.trans hent
        exact .inr ⟨dotEntry_name _, (Tree.ofNat_toNat_small (hok.small hQ)).symm⟩
      · -- the directory above has a child
        obtain ⟨m, hm, hpa⟩ := hok.dotDot hQ hQd
        obtain ⟨M, hM, -⟩ := hpa.isDir hok.toShaped
        cases hm.symm.trans hent
        have hmno := Tree.ofNat_toNat_small (hok.small hM)
        rcases hpa with ⟨-, rfl⟩ | ⟨k', i', e', hc', -⟩
        · exact absurd rfl hz
        · rw [← hmno] at hc'
          exact absurd hc' (hl _ _ _)
    · exact .inl ⟨⟨he, hdot⟩, (hok.names ⟨he, hdot⟩).1⟩

theorem RmdirFound.idle {s2 : Fs part} {x : Nat}
    (hf : RmdirFound t pathname s1 s2 r.parentDir x q k i c e) (h : s.Sound t [])
    (hc : t.Child q k i e)
    (hs : searchFile b s pathname env.lookups env.oldNo = .ok (s1, r, no))
    (hi : ∀ c ∈ s.openInodes, c.inode.iNo ≠ e.iNo) :
    ∀ y ∈ s1.openInodes, y.inode.iNo ≠ e.iNo := by
  intro y hy hyno
  have ha := hf.before.caches.counts.addrs
  obtain ⟨news, hca, hn⟩ := ((reopened_tracks h.caches.counts.cacheOk).searchFile (.start h.caches.counts.cacheOk) hs).cache
  have hy' := hy
  rw [hca] at hy
  rcases List.mem_append.mp hy with hy | hy
  · obtain ⟨hco, hpos⟩ := hn y hy
    have hh := List.count_pos_iff.mp (Nat.lt_of_lt_of_le hpos (Nat.le_of_eq hco))
    rw [List.append_nil, DirPtr.held, if_neg (by rw [hf.parent.2]; decide)] at hh
    have hyq := hf.parent.1.number ha (by rw [← List.mem_singleton.mp hh]; exact cached_of_mem ha hy')
    rw [hyno] at hyq
    exact hf.leaf k i e (hyq ▸ hc)
  · obtain ⟨z, hz, rfl⟩ := List.mem_map.mp hy
    exact hi z hz hyno

theorem Sound.sysRmdir (hf : part.Formatted) (hok : t.Ok) (h : s.Sound t []) (hpa : 0 ∉ pathname)
    (hs : searchFile .debug s pathname env.lookups env.oldNo = .ok (s1, r, no))
    (hn : names pathname ≠ []) (hl : (names pathname).getLast? ≠ some dot)
    (hi : ∀ c ∈ s.openInodes, c.inode.iNo ≠ no)
    (hr : s.sysRmdir .debug env pathname = .ok (s', true)) :
    ∃ t', t'.Ok ∧ s'.Sound t' [] ∧ Steady s s' ∧ ∀ d ≠ no.toNat, t.Keeps t' d := by
  obtain ⟨s1', r', no', hs', hz, hend⟩ := sysRmdir_end hr
  cases hs.symm.trans hs'
  cases hend with
  | @removed s2 s3 s4 s5 x c c' ho hc he hdel hc' hrel hcl hcl' hno hty =>
    obtain ⟨q, k, i, e, rfl, hfo⟩ := h.rmdir_found hok hpa hn hs (hz rfl) hno hty ho hc he
    have hch : t.Child q k i e := by
      rcases hfo.slot with ⟨hch, -⟩ | ⟨hdot, -⟩
      · exact hch
      · obtain ⟨pre, hsp, -⟩ := hfo.walk
        rw [hsp, List.getLast?_concat, hdot] at hl
        exact absurd rfl hl
    obtain ⟨h2, hr2⟩ := hfo.opened
    obtain ⟨hcm, rfl, hcno⟩ := hfo.cached
    rw [hcno] at hdel
    have ha := hfo.before.caches.opened_alone (hfo.idle h hch hs hi) ho
    obtain ⟨-, P, i', k0, i0, y, t1, -, ht⟩ := h2.takeOff hf hok (hfo.parent.1.opened hfo.before.caches.counts.addrs ho) hch
      hfo.leaf hdel (fun hk => UInt32.toNat_inj.mp (hk _ _ _ hfo.at_ hc')) hrel
    have hpos : 0 < s2.refs c.addr + (c.addr :: (r.parentDir.held ++ [])).count c.addr := by
      rw [List.count_cons_self]
      omega
    have hat4 := ht.pointers _ _ hfo.at_ hpos
    rw [← ht.steady.refs] at ha
    have hg := ht.caches.closed_last ha hat4 hcl
    obtain ⟨h5, hr5⟩ := ht.caches.closed hcl
    have h5 : s5.Sound (t.link q (P.put i' k0 i0 none) e.iNo.toNat none) (r.parentDir.held ++ []) :=
      ⟨h5.forget hg ht.sub, hr5.vol ▸ ht.repr⟩
    refine ⟨_, ht.ok, sound_tracks.dirClose h5 hcl', ?_, ht.keeps⟩
    have hst := (searchFile_run hs).rest.steady.trans hr2.steady
    exact ((hst.trans ht.steady).trans hr5.steady).trans (dirClose_run hcl').rest.steady

end Fs

end OperateSystem
