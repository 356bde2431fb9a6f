import OperateSystem.FileFull
import OperateSystem.FsIoSound

/-!
# Calls that fail

What `search_file` opens it closes again, apart from the directory it leaves to its
caller. So a call that closes that directory and does nothing else leaves the
partition as it was. `sys_open` has exits where more has happened, and so has
`sys_mkdir`.
-/

namespace OperateSystem

open List

namespace Fs

variable {part : Partition} {b : Build} {s0 s s' : Fs part} {l l' : List Nat} {a : Nat}

/-! ## Opening and closing again -/

structure CacheOk (s : Fs part) : Prop where
  addrs : (s.openInodes.map (·.addr)).Nodup
  used : ∀ c ∈ s.openInodes, 1 ≤ c.iOpenCnts

def bump (l : List Nat) (c : CachedInode) : CachedInode := { c with iOpenCnts := c.iOpenCnts + l.count c.addr }

structure Reopened (s0 s : Fs part) (l : List Nat) : Prop where
  rest : SameRest s0 s
  addrs : (s.openInodes.map (·.addr)).Nodup
  held : ∀ a ∈ l, ∃ c ∈ s.openInodes, c.addr = a
  cache : ∃ news, s.openInodes = news ++ s0.openInodes.map (bump l) ∧
    ∀ c ∈ news, c.iOpenCnts = l.count c.addr ∧ 1 ≤ c.iOpenCnts

theorem bump_nil (c : CachedInode) : bump [] c = c := rfl

theorem Reopened.start (h : s.CacheOk) : Reopened s s [] := by
  refine ⟨.refl s, h.addrs, fun a ha => absurd ha not_mem_nil, [], ?_, fun c hc => absurd hc not_mem_nil⟩
  rw [nil_append, map_congr_left fun c _ => bump_nil c, map_id']

theorem Reopened.store {c : CachedInode} {n : Nat} (h : Reopened s0 s l) (hc : c ∈ s.openInodes) (hpos : 1 ≤ n)
    (hn : n + l.count c.addr = c.iOpenCnts + l'.count c.addr) (ho : ∀ x, x ≠ c.addr → l'.count x = l.count x)
    (hh : ∀ a ∈ l', ∃ c ∈ s.openInodes, c.addr = a) : Reopened s0 (s.store { c with iOpenCnts := n }) l' := by
  obtain ⟨news, hca, hne⟩ := h.cache
  have hone : ∀ x ∈ s.openInodes, x.addr = c.addr → x = c := fun x hx e => eq_of_addr h.addrs hc hx e
  refine ⟨h.rest.trans ⟨rfl, rfl, rfl, rfl, rfl⟩, ?_, fun a ha => ?_,
    news.map (fun x => if x.addr = c.addr then { c with iOpenCnts := n } else x), ?_, fun x hx => ?_⟩
  · have had : (s.store { c with iOpenCnts := n }).openInodes.map (·.addr) = s.openInodes.map (·.addr) :=
      map_store _ h.addrs hc rfl rfl
    rw [had]
    exact h.addrs
  · obtain ⟨x, hx, hxa⟩ := hh a ha
    by_cases e : x.addr = c.addr
    · exact ⟨_, (mem_count_iff hc n).mpr (.inl rfl), e.symm.trans hxa⟩
    · exact ⟨x, (mem_count_iff hc n).mpr (.inr ⟨hx, e⟩), hxa⟩
  · show s.openInodes.map (fun x => if x.addr = c.addr then { c with iOpenCnts := n } else x) = _
    rw [hca, map_append, map_map]
    congr 1
    refine map_congr_left fun x hx => ?_
    show (if x.addr = c.addr then { c with iOpenCnts := n } else bump l x) = bump l' x
    split
    · rename_i e
      have hxc := hone (bump l x) (by rw [hca]; exact mem_append_right _ (mem_map_of_mem hx)) e
      subst hxc
      have hn : n + l.count x.addr = x.iOpenCnts + l.count x.addr + l'.count x.addr := hn
      unfold bump
      rw [show n = x.iOpenCnts + l'.count x.addr by omega]
    · rename_i e
      unfold bump
      rw [ho _ e]
  · obtain ⟨y, hy, rfl⟩ := mem_map.mp hx
    obtain ⟨hcnt, hle⟩ := hne y hy
    split
    · rename_i e
      have hyc := hone y (by rw [hca]; exact mem_append_left _ hy) e
      subst hyc
      exact ⟨by dsimp only; omega, hpos⟩
    · rename_i e
      rw [ho _ e]
      exact ⟨hcnt, hle⟩

theorem Reopened.opened {no : UInt32} (h : Reopened s0 s l) (hr : s.inodeOpen b no = .ok (s', a)) : Reopened s0 s' (a :: l) := by
  obtain ⟨c, hc, -, rfl, rfl⟩ | ⟨i, -, -, rfl, rfl⟩ := inodeOpen_cases hr
  · refine h.store hc (by omega) ?_ (fun x hx => count_cons_of_ne fun e => hx e.symm) fun a ha => ?_
    · rw [count_cons_self]
      omega
    · rcases mem_cons.mp ha with rfl | ha
      · exact ⟨c, hc, rfl⟩
      · exact h.held a ha
  · obtain ⟨news, hca, hn⟩ := h.cache
    have hf : ∀ c ∈ s.openInodes, c.addr ≠ s.newAddr := fun c hc e => absurd (lt_newAddr hc) (by omega)
    have hno : l.count s.newAddr = 0 := count_eq_zero.mpr fun hm => by
      obtain ⟨c, hc, e⟩ := h.held _ hm
      exact hf c hc e
    have ho : ∀ c ∈ s.openInodes, (s.newAddr :: l).count c.addr = l.count c.addr := fun c hc =>
      count_cons_of_ne fun e => hf c hc e.symm
    refine ⟨h.rest.trans ⟨rfl, rfl, rfl, rfl, rfl⟩, ?_, fun a ha => ?_, ⟨s.newAddr, i, 1, .pfKernel⟩ :: news, ?_, fun x hx => ?_⟩
    · refine nodup_cons.mpr ⟨fun hm => ?_, h.addrs⟩
      obtain ⟨c, hc, e⟩ := mem_map.mp hm
      exact hf c hc e
    · rcases mem_cons.mp ha with rfl | ha
      · exact ⟨_, .head _, rfl⟩
      · obtain ⟨c, hc, e⟩ := h.held a ha
        exact ⟨c, .tail _ hc, e⟩
    · show _ :: s.openInodes = _ :: news ++ _
      rw [cons_append, hca]
      congr 2
      refine map_congr_left fun x hx => ?_
      have := ho (bump l x) (by rw [hca]; exact mem_append_right _ (mem_map_of_mem hx))
      have : (s.newAddr :: l).count x.addr = l.count x.addr := this
      unfold bump
      rw [this]
    · rcases mem_cons.mp hx with rfl | hx
      · exact ⟨by rw [count_cons_self, hno], le_rfl⟩
      · rw [ho x (by rw [hca]; exact mem_append_left _ hx)]
        exact hn x hx

theorem Reopened.closed (h0 : s0.CacheOk) (h : Reopened s0 s (a :: l)) (hr : s.inodeClose b a = .ok s') : Reopened s0 s' l := by
  obtain ⟨c, hcc, hcs⟩ := inodeClose_cases hr
  obtain ⟨hc, rfl⟩ := cached_ok hcc
  obtain ⟨news, hca, hnw⟩ := h.cache
  have hh : ∀ x ∈ l, ∃ y ∈ s.openInodes, y.addr = x := fun x hx => h.held x (.tail _ hx)
  have hco : (c.addr :: l).count c.addr = l.count c.addr + 1 := count_cons_self
  have hot : ∀ x, x ≠ c.addr → l.count x = (c.addr :: l).count x := fun x hx =>
    (count_cons_of_ne fun e => hx e.symm).symm
  -- an inode of `s0` has two users now
  have hold : ∀ x ∈ s0.openInodes, x.addr = c.addr → 2 ≤ c.iOpenCnts := fun x hx e => by
    have hmem : bump (c.addr :: l) x ∈ s.openInodes := by
      rw [hca]
      exact mem_append_right _ (mem_map_of_mem hx)
    rw [← eq_of_addr h.addrs hc hmem e]
    have := h0.used x hx
    show 2 ≤ x.iOpenCnts + (c.addr :: l).count x.addr
    rw [e, hco]
    omega
  have hpos : 1 ≤ c.iOpenCnts := by
    rw [hca] at hc
    rcases mem_append.mp hc with hn | ho
    · exact (hnw c hn).2
    · obtain ⟨x, hx, e⟩ := mem_map.mp ho
      have := hold x hx (by rw [← e]; rfl)
      omega
  obtain ⟨hl, -, rfl⟩ | ⟨hmo, rfl⟩ := hcs
  · have hz : c.addr ∉ l := fun hm => by
      have hnew : c ∈ news := by
        rw [hca] at hc
        refine (mem_append.mp hc).resolve_right fun ho => ?_
        obtain ⟨x, hx, e⟩ := mem_map.mp ho
        have := hold x hx (by rw [← e]; rfl)
        omega
      have := (hnw c hnew).1
      have := count_pos_iff.mpr hm
      omega
    have hk : ∀ x ∈ s0.openInodes, x.addr ≠ c.addr := fun x hx e => by
      have := hold x hx e
      omega
    refine ⟨h.rest.trans ⟨rfl, rfl, rfl, rfl, rfl⟩, (filter_sublist.map _).nodup h.addrs, fun x hx => ?_,
      news.filter fun x => x.addr ≠ c.addr, ?_, fun x hx => ?_⟩
    · obtain ⟨y, hy, rfl⟩ := hh x hx
      refine ⟨y, mem_filter.mpr ⟨hy, ?_⟩, rfl⟩
      exact decide_eq_true fun e => hz (e ▸ hx)
    · show s.openInodes.filter (fun x => x.addr ≠ c.addr) = _
      rw [hca, filter_append]
      congr 1
      rw [filter_eq_self.mpr fun x hx => ?_]
      · refine map_congr_left fun x hx => ?_
        unfold bump
        rw [hot _ (hk x hx)]
      · obtain ⟨y, hy, rfl⟩ := mem_map.mp hx
        exact decide_eq_true (hk y hy)
    · obtain ⟨hx, hne⟩ := mem_filter.mp hx
      rw [hot _ (of_decide_eq_true hne)]
      exact hnw x hx
  · exact h.store hc (by omega) (by rw [hco]; omega) hot hh

theorem reopened_tracks (h0 : s0.CacheOk) : Tracks b (Reopened s0) where
  opened h hr := h.opened hr
  closed h hr := h.closed h0 hr

/-- Nothing but the list of freed inodes has changed. -/
structure Unchanged (s s' : Fs part) : Prop extends SameRest s s' where
  openInodes : s'.openInodes = s.openInodes

theorem Unchanged.refl (s : Fs part) : Unchanged s s := ⟨.refl s, rfl⟩

theorem Reopened.unchanged (h : Reopened s0 s []) : Unchanged s0 s := by
  obtain ⟨news, hca, hn⟩ := h.cache
  have hnil : news = [] := eq_nil_iff_forall_not_mem.mpr fun c hc => by
    obtain ⟨h1, h2⟩ := hn c hc
    rw [count_nil] at h1
    omega
  rw [hnil, nil_append, map_congr_left fun c _ => bump_nil c, map_id'] at hca
  exact ⟨h.rest, hca⟩

theorem Reopened.changed (h : Reopened s0 s (a :: l)) : s.openInodes ≠ s0.openInodes := by
  intro heq
  obtain ⟨news, hcc, -⟩ := h.cache
  rw [heq] at hcc
  have hnil : news = [] := by
    have := congrArg List.length hcc
    rw [length_append, length_map] at this
    exact length_eq_zero_iff.mp (by omega)
  rw [hnil, nil_append] at hcc
  obtain ⟨c, hc, hca⟩ := h.held a mem_cons_self
  rw [heq] at hc
  have hs : ∀ x ∈ s0.openInodes, bump (a :: l) x = x := by
    have := map_inj_left.mp ((map_id _).trans hcc)
    exact fun x hx => (this x hx).symm
  have := congrArg CachedInode.iOpenCnts (hs c hc)
  have : c.iOpenCnts + (a :: l).count c.addr = c.iOpenCnts := this
  rw [hca, count_cons_self] at this
  omega

theorem search_close {mem : Nat → Bool} {pathname : List UInt8} {old no : UInt32} {r : PathSearchRecord} {s1 : Fs part}
    (h : s.CacheOk) (hs : searchFile b s pathname mem old = .ok (s1, r, no))
    (hc : s1.dirClose b r.parentDir = .ok s') : Unchanged s s' := by
  have ht := reopened_tracks (b := b) h
  have h1 := ht.searchFile (Reopened.start h) hs
  exact (ht.dirClose h1 hc).unchanged

end Fs

/-! ## `sync_dir_entry` with its assertions -/

section
variable {part : Partition} {st' : DirWriting part} {e : DirEntry} {ok : Bool}

theorem syncDirEntry_debug {vol : Volume part} {inode : Inode} {ioBuf : Mem}
    (h : syncDirEntry .debug vol inode e ioBuf = .ok (st', ok)) : ok = true := by
  cases syncDirEntry_end h with
  | free _ _ _ _ hput => exact putEntry_true hput
  | add hk _ _ hadd =>
    cases addBlock_end hk hadd with
    | full ha => exact absurd rfl (blockBitmapAlloc_debug ha)
    | direct _ _ hput => exact putEntry_true hput
    | noTable _ ha => exact absurd rfl (blockBitmapAlloc_debug ha)
    | table _ _ _ hput => exact putEntry_true hput

end

namespace Fs

variable {part : Partition} {b : Build} {s s' : Fs part} {env : CallEnv} {p : Nat}

/-! ## A failed `sys_open` -/

theorem inodeBitmapAlloc_debug (vol : Volume part) {vol' : Volume part} : inodeBitmapAlloc .debug vol ≠ .ok (none, vol') := by
  intro h
  unfold inodeBitmapAlloc at h
  obtain ⟨r, hs, h⟩ := bind_ok.mp h
  cases r with
  | none => exact bitmapScan_one _ hs
  | some i => cases h

theorem inodeBitmapAlloc_undo {vol : Volume part} {n : Nat} (h : inodeBitmapAlloc b s.vol = .ok (some n, vol)) :
    (s.setVol vol).clearInodeBit n = s := by
  have hbit := (inodeBitmapAlloc_some h).1
  unfold inodeBitmapAlloc at h
  obtain ⟨r, -, h⟩ := bind_ok.mp h
  cases r with
  | none => cases h
  | some i =>
    cases h
    unfold clearInodeBit setVol
    dsimp only
    rw [bitmapSet_undo hbit]

theorem link_debug {parent : Nat} {e : DirEntry} {new : Inode} {ok : Bool} (h : s.link .debug parent e new = .ok (s', ok)) :
    ok = true := by
  obtain ⟨c, st, vol, -, hs, -⟩ := link_cases h
  exact syncDirEntry_debug hs

theorem link_fileTable {parent : Nat} {e : DirEntry} {new : Inode} {ok : Bool} (h : s.link b parent e new = .ok (s', ok)) :
    s'.fileTable = s.fileTable := by
  obtain ⟨c, st, vol, -, -, rfl, -⟩ := link_cases h
  rfl

theorem pcbFdInstall_fails {g : Fin 32} (h : s.pcbFdInstall p g = .ok (s', none)) : s' = s := by
  obtain ⟨-, hs⟩ | ⟨P, d, -, -, e, -⟩ := pcbFdInstall_cases h
  · exact hs
  · cases e

theorem fileCreate_fails {parent : Nat} {filename : List UInt8} {flag : UInt8}
    (h : s.fileCreate .debug env p parent filename flag = .ok (s', none)) :
    ((env.ioBuf = false ∨ env.newInode = false ∨ s.getFreeSlotInGlobal = none) ∧ s' = s) ∨
      (¬ (env.ioBuf = false ∨ env.newInode = false ∨ s.getFreeSlotInGlobal = none) ∧ s'.fileTable ≠ s.fileTable) := by
  unfold fileCreate fileCreateVia at h
  by_cases hio : env.ioBuf = false
  · rw [if_pos hio] at h
    cases h
    exact .inl ⟨.inl hio, rfl⟩
  rw [if_neg hio] at h
  obtain ⟨⟨r, vol⟩, ha, h⟩ := bind_ok.mp h
  obtain _ | n := r
  · exact absurd ha (inodeBitmapAlloc_debug s.vol)
  dsimp only at h
  by_cases hnew : env.newInode = false
  · rw [if_pos hnew] at h
    cases h
    exact .inl ⟨.inr (.inl hnew), inodeBitmapAlloc_undo ha⟩
  rw [if_neg hnew] at h
  have hs : (s.setVol vol).getFreeSlotInGlobal = s.getFreeSlotInGlobal := rfl
  rw [hs] at h
  cases hg : s.getFreeSlotInGlobal with
  | none =>
    rw [hg] at h
    cases h
    exact .inl ⟨.inr (.inr rfl), inodeBitmapAlloc_undo ha⟩
  | some g =>
    rw [hg] at h
    obtain ⟨e, -, h⟩ := bind_ok.mp h
    obtain ⟨⟨s1, ok⟩, hl, h⟩ := bind_ok.mp h
    obtain rfl := link_debug hl
    refine .inr ⟨by simp [hio, hnew], fun heq => ?_⟩
    rw [pcbFdInstall_fails h] at heq
    have hf : (s1.fileTable g).fdInode = (s.fileTable g).fdInode := by
      have heq : s1.fileTable = s.fileTable := heq
      rw [heq]
    rw [link_fileTable hl, free_slot hg] at hf
    simp [setFile] at hf

theorem fileOpen_fails {no : UInt32} {flag : UInt8} (h : s.fileOpen b p no flag = .ok (s', none)) :
    (s.getFreeSlotInGlobal = none ∧ s' = s) ∨ (s.getFreeSlotInGlobal ≠ none ∧ s'.fileTable ≠ s.fileTable) := by
  unfold fileOpen at h
  cases hg : s.getFreeSlotInGlobal with
  | none =>
    rw [hg] at h
    cases h
    exact .inl ⟨rfl, rfl⟩
  | some g =>
    rw [hg] at h
    obtain ⟨⟨s1, a⟩, -, h⟩ := bind_ok.mp h
    refine .inr ⟨by simp, fun heq => ?_⟩
    have ht : (s'.fileTable g).fdInode = some a := by
      have hset : ((s1.setFile g ⟨0, flag.toUInt32, some a⟩).fileTable g).fdInode = some a := by simp [setFile]
      dsimp only at h
      split at h
      · obtain ⟨c, -, h⟩ := bind_ok.mp h
        split at h
        · cases h
          exact hset
        · rw [pcbFdInstall_fails h]
          exact hset
      · rw [pcbFdInstall_fails h]
        exact hset
    rw [heq, free_slot hg] at ht
    cases ht

/-- `sys_open` gets past its checks. -/
structure OpenGoesOn (s : Fs part) (env : CallEnv) (pathname : List UInt8) (flags : UInt8) (r : PathSearchRecord) : Prop where
  name : pathname.getLast? ≠ some slash
  found : ∃ s1 no, searchFile .debug s pathname env.lookups env.oldNo = .ok (s1, r, no) ∧ (no = -1 ↔ flags &&& oCreat ≠ 0)
  notDir : r.fileType ≠ ftDirectory
  depth : pathDepthCnt pathname env.oldChar = pathDepthCnt r.searchedPath env.oldChar'

theorem OpenGoesOn.passes {pathname : List UInt8} {flags : UInt8} {s1 : Fs part} {r r' : PathSearchRecord} {no : UInt32}
    (hgo : s.OpenGoesOn env pathname flags r') (hs : searchFile .debug s pathname env.lookups env.oldNo = .ok (s1, r, no)) :
    r' = r ∧ (no = -1 ↔ flags &&& oCreat ≠ 0) := by
  obtain ⟨s2, no2, hs2, hiff⟩ := hgo.found
  rw [hs] at hs2
  cases hs2
  exact ⟨rfl, hiff⟩

theorem OpenPasses.goesOn {pathname : List UInt8} {flags : UInt8} {s1 : Fs part} {r : PathSearchRecord} {no : UInt32}
    (h : OpenPasses env pathname flags r no) (hl : pathname.getLast? ≠ some slash)
    (hs : searchFile .debug s pathname env.lookups env.oldNo = .ok (s1, r, no)) : s.OpenGoesOn env pathname flags r :=
  ⟨hl, ⟨s1, no, hs, h.found⟩, h.notDir, h.depth⟩

/-- A call that goes on fails before it changes anything. -/
def OpenHarmless (s : Fs part) (env : CallEnv) (flags : UInt8) (r : PathSearchRecord) : Prop :=
  (s.getFreeSlotInGlobal = none ∧ (flags &&& oCreat = 0 → r.parentDir.isRootDir = true)) ∨
    (flags &&& oCreat ≠ 0 ∧ (env.ioBuf = false ∨ env.newInode = false))

/-- **A failed `sys_open`** leaves everything as it was iff it does not get past its checks or fails
right behind them. -/
theorem failed_open_iff {pathname : List UInt8} {flags : UInt8} (hcache : s.CacheOk)
    (h : s.sysOpen .debug env p pathname flags = .ok (s', none)) :
    Unchanged s s' ↔ ∀ r, s.OpenGoesOn env pathname flags r → s.OpenHarmless env flags r := by
  have ht := reopened_tracks (b := .debug) hcache
  cases sysOpen_end h with
  | slash hl => exact iff_of_true (.refl s) fun r hgo => absurd hl hgo.name
  | refused hs hc hcl =>
    refine iff_of_true (search_close hcache hs hcl) fun r' hgo => absurd ?_ hc
    obtain ⟨rfl, hiff⟩ := hgo.passes hs
    exact ⟨hgo.notDir, hgo.depth, hiff⟩
  | @created s1 s2 _ r _ filename _ hl hs hc _ _ hcr hcl =>
    have hgo := hc.goesOn hl hs
    have hfl := hc.found.mp rfl
    have hre := (searchFile_run hs).rest
    have hsl : s1.getFreeSlotInGlobal = s.getFreeSlotInGlobal := by
      unfold getFreeSlotInGlobal
      rw [hre.fileTable]
    have hh : ∀ r', s.OpenHarmless env flags r' ↔
        (env.ioBuf = false ∨ env.newInode = false ∨ s.getFreeSlotInGlobal = none) := fun r' => by
      unfold OpenHarmless
      simp only [hfl, false_imp_iff, and_true, ne_eq, not_false_eq_true, true_and]
      tauto
    rcases fileCreate_fails hcr with ⟨hwhy, rfl⟩ | ⟨hwhy, hch⟩
    · rw [hsl] at hwhy
      exact iff_of_true (search_close hcache hs hcl) fun r' _ => (hh r').mpr hwhy
    · rw [hsl] at hwhy
      refine iff_of_false (fun hsa => hch ?_) fun hall => hwhy ((hh r).mp (hall r hgo))
      rw [← (dirClose_run hcl).rest.fileTable, hsa.fileTable, hre.fileTable]
  | @opened s1 _ r no _ hl hs hc hfl hop =>
    have hgo := hc.goesOn hl hs
    have hre := (searchFile_run hs).rest
    have hsl : s1.getFreeSlotInGlobal = s.getFreeSlotInGlobal := by
      unfold getFreeSlotInGlobal
      rw [hre.fileTable]
    have hiff : (∀ r', s.OpenGoesOn env pathname flags r' → s.OpenHarmless env flags r') ↔
        s.getFreeSlotInGlobal = none ∧ r.parentDir.isRootDir = true := by
      simp only [OpenHarmless, hfl, forall_const, ne_eq, not_true_eq_false, false_and, or_false]
      exact ⟨fun hall => hall r hgo, fun hr r' hgo' => (hgo'.passes hs).1 ▸ hr⟩
    rw [hiff]
    rcases fileOpen_fails hop with ⟨hf, rfl⟩ | ⟨hf, hch⟩
    · -- the directory that the search left open stays open
      rw [hsl] at hf
      have ho := ht.searchFile (Reopened.start hcache) hs
      rw [append_nil] at ho
      unfold DirPtr.held at ho
      by_cases hro : r.parentDir.isRootDir = true
      · rw [if_pos hro] at ho
        exact iff_of_true ho.unchanged ⟨hf, hro⟩
      · rw [if_neg hro] at ho
        exact iff_of_false (fun hsa => ho.changed hsa.openInodes) fun hr => hro hr.2
    · rw [hsl] at hf
      refine iff_of_false (fun hsa => hch ?_) fun hr => hf hr.1
      rw [hsa.fileTable, hre.fileTable]

theorem homeFs_cacheOk : homeFs.CacheOk := by
  refine ⟨by decide, fun c hc => ?_⟩
  obtain rfl := mem_singleton.mp hc
  exact le_rfl

theorem failed_open_missing : ∃ s', homeFs.sysOpen .debug homeEnv 1 [47, 120] 0 = .ok (s', none) ∧ Unchanged homeFs s' := by
  have hret : (homeFs.sysOpen .debug homeEnv 1 [47, 120] 0).toOption.map Prod.snd = some none := by decide +kernel
  have hno : (searchFile .debug homeFs [47, 120] homeEnv.lookups homeEnv.oldNo).toOption.map (·.2.2) = some (-1) := by decide +kernel
  obtain ⟨⟨s', fd⟩, hrun, rfl⟩ := exists_of_map hret
  refine ⟨s', hrun, (failed_open_iff homeFs_cacheOk hrun).mpr fun r hgo => ?_⟩
  obtain ⟨s1, no, hs, hiff⟩ := hgo.found
  rw [hs] at hno
  exact absurd (by decide) (hiff.mp (Option.some.inj hno))

def deniedFs : Fs samplePart := homeFs.after openHomeFile

/-- The second descriptor for writing is refused, but slot 4 and a count of the inode are taken. -/
theorem failed_open_keeps_slot : ∃ s', deniedFs.sysOpen .debug homeEnv 0 [47, 97, 47, 102] oRdwr = .ok (s', none) ∧
    (deniedFs.fileTable 4).fdInode = none ∧ (s'.fileTable 4).fdInode.isSome = true ∧ ¬ Unchanged deniedFs s' := by
  have hret : (deniedFs.sysOpen .debug homeEnv 0 [47, 97, 47, 102] oRdwr).toOption.map
      (fun r => (r.2, (r.1.fileTable 4).fdInode.isSome)) = some (none, true) := by decide +kernel
  have hf : (deniedFs.fileTable 4).fdInode = none := by decide +kernel
  obtain ⟨⟨s', fd⟩, hrun, hfa⟩ := exists_of_map hret
  obtain ⟨rfl, hs⟩ := Prod.mk.inj hfa
  refine ⟨s', hrun, hf, hs, fun hsa => ?_⟩
  rw [hsa.fileTable, hf] at hs
  cases hs

end Fs

/-! ## `sync_dir_entry` without its assertions -/

section
variable {part : Partition} {vol vol' : Volume part} {st' : DirWriting part} {e : DirEntry}

theorem blockBitmapAlloc_bit {b : Build} {lba : Nat} (h : blockBitmapAlloc b vol = .ok (some lba, vol')) :
    vol.blockBitmap.bit (lba - part.dataStartLba) = false ∧
      vol'.blockBitmap = bitmapSet vol.blockBitmap (lba - part.dataStartLba) true := by
  obtain ⟨hf, -, hset, -⟩ := blockBitmapAlloc_ok h
  have hmem : lba - part.dataStartLba ∈ vol.blockBitmap.freeBits := by
    rw [hf]
    exact .head _
  exact ⟨(Bitmap.mem_freeBits.mp hmem).2, hset⟩

theorem syncDirEntry_fails {inode : Inode} {ioBuf : Mem} (h : syncDirEntry .ndebug vol inode e ioBuf = .ok (st', false)) :
    st'.vol.blockBitmap = vol.blockBitmap := by
  cases syncDirEntry_end h with
  | free _ _ _ _ hput => cases putEntry_true hput
  | add hk _ _ hadd =>
    cases addBlock_end hk hadd with
    | full ha =>
      obtain ⟨rfl, -⟩ := blockBitmapAlloc_fails ha
      rfl
    | direct _ _ hput => cases putEntry_true hput
    | @noTable t _ _ ht ha =>
      obtain ⟨vol1, hal, hs⟩ := ht
      obtain ⟨hbit, hset⟩ := blockBitmapAlloc_bit hal
      obtain ⟨rfl, -⟩ := blockBitmapAlloc_fails ha
      show bitmapSet _ (((inode.setSec 12 (.ofNat t)).sec 12).toNat - part.dataStartLba) false = _
      rw [sec_setSec _ _ _ _ (by omega), if_pos rfl, (blockBitmapAlloc_spec hal).2.1.toNat_ofNat, (bitmapSync_ok hs).2.1, hset,
        bitmapSet_undo hbit]
    | table _ _ _ hput => cases putEntry_true hput

end

namespace Fs

variable {part : Partition} {s s' : Fs part} {env : CallEnv}

/-! ## A failed `sys_mkdir` -/

theorem link_fails {parent : Nat} {e : DirEntry} {new : Inode} (h : s.link .ndebug parent e new = .ok (s', false)) :
    s'.vol.blockBitmap = s.vol.blockBitmap := by
  obtain ⟨c, st, vol, -, hs, rfl, hvol, -⟩ := link_cases h
  obtain rfl := hvol rfl
  exact syncDirEntry_fails hs

theorem inodeBitmapAlloc_fails {vol : Volume part} (h : inodeBitmapAlloc .ndebug s.vol = .ok (none, vol)) :
    s.setVol vol = s ∧ s.vol.inodeBitmap.freeBits = [] := by
  unfold inodeBitmapAlloc at h
  obtain ⟨r, hs, h⟩ := bind_ok.mp h
  cases r with
  | none =>
    cases h
    refine ⟨rfl, ?_⟩
    by_contra hne
    obtain ⟨i, hi⟩ := bitmapScan_free .ndebug hne
    rw [hi] at hs
    cases hs
  | some i => cases h

theorem inodeBitmapAlloc_free {b : Build} {vol : Volume part} {n : Nat} (h : inodeBitmapAlloc b s.vol = .ok (some n, vol)) :
    s.vol.inodeBitmap.freeBits ≠ [] := by
  unfold inodeBitmapAlloc at h
  obtain ⟨r, hs, h⟩ := bind_ok.mp h
  cases r with
  | none => cases h
  | some i =>
    rw [Bitmap.freeBits_scan hs]
    exact cons_ne_nil _ _

theorem makeDir_fails {d : DirPtr} {dirname : List UInt8} (h : s.makeDir .ndebug d dirname = .ok (s', false)) :
    ((s.vol.inodeBitmap.freeBits = [] ∨ s.vol.blockBitmap.freeBits = []) ∧ s.dirClose .ndebug d = .ok s') ∨
      (¬ (s.vol.inodeBitmap.freeBits = [] ∨ s.vol.blockBitmap.freeBits = []) ∧ s'.vol.blockBitmap ≠ s.vol.blockBitmap) := by
  unfold makeDir makeDirVia at h
  obtain ⟨⟨r, vol⟩, hi, h⟩ := bind_ok.mp h
  have hc : ∀ s1 : Fs part, (s1.dirClose .ndebug d >>= fun s => pure (s, false)) = .ok (s', false) → s1.dirClose .ndebug d = .ok s' :=
    fun s1 h => by
      obtain ⟨s2, hc, h⟩ := bind_ok.mp h
      cases h
      exact hc
  cases r with
  | none =>
    obtain ⟨hs, hf⟩ := inodeBitmapAlloc_fails hi
    have h : (s.setVol vol).mkdirRollback .ndebug d none = .ok (s', false) := h
    rw [hs] at h
    exact .inl ⟨.inl hf, hc s h⟩
  | some n =>
    have hb := (inodeBitmapAlloc_ok hi).2
    dsimp only at h
    obtain ⟨⟨r, vol1⟩, ha, h⟩ := bind_ok.mp h
    cases r with
    | none =>
      obtain ⟨hvol, hf⟩ := blockBitmapAlloc_fails ha
      rw [hb] at hf
      refine .inl ⟨.inr hf, ?_⟩
      have hba := hc ((s.setVol vol1).clearInodeBit n) h
      rwa [hvol, inodeBitmapAlloc_undo hi] at hba
    | some lba =>
      obtain ⟨hbit, hset⟩ := blockBitmapAlloc_bit ha
      rw [hb] at hbit hset
      obtain ⟨-, -, h⟩ := bind_ok.mp h
      obtain ⟨vol2, hsy, h⟩ := bind_ok.mp h
      obtain ⟨c, -, h⟩ := bind_ok.mp h
      obtain ⟨disk, -, h⟩ := bind_ok.mp h
      obtain ⟨e, -, h⟩ := bind_ok.mp h
      obtain ⟨⟨s1, ok⟩, hl, h⟩ := bind_ok.mp h
      cases ok with
      | true =>
        obtain ⟨s2, -, h⟩ := bind_ok.mp h
        cases h
      | false =>
        -- the block of the new directory stays marked
        refine .inr ⟨not_or.mpr ⟨inodeBitmapAlloc_free hi, fun hf => ?_⟩, fun heq => ?_⟩
        · rw [← hb] at hf
          exact blockBitmapAlloc_full hf ha
        · have hr := (dirClose_run (hc _ h)).rest.vol
          have hk : s'.vol.blockBitmap = bitmapSet s.vol.blockBitmap (lba - part.dataStartLba) true := by
            rw [hr]
            show s1.vol.blockBitmap = _
            rw [link_fails hl, ← hset]
            exact (bitmapSync_ok hsy).2.1
          have := congrArg (fun m => Bitmap.bit m (lba - part.dataStartLba)) (hk.symm.trans heq)
          rw [bit_bitmapSet, if_pos rfl, hbit] at this
          cases this

structure MkdirGoesOn (s : Fs part) (env : CallEnv) (pathname : List UInt8) : Prop where
  ioBuf : env.ioBuf = true
  missing : ∃ s1 r depth, searchFile .ndebug s pathname env.lookups env.oldNo = .ok (s1, r, -1) ∧
    pathDepthCnt pathname env.oldChar = .ok depth ∧ pathDepthCnt r.searchedPath env.oldChar' = .ok depth

theorem MkdirGoesOn.searched {pathname : List UInt8} {s1 : Fs part} {r : PathSearchRecord} {no : UInt32} (hgo : s.MkdirGoesOn env pathname)
    (hs : searchFile .ndebug s pathname env.lookups env.oldNo = .ok (s1, r, no)) : no = -1 ∧
      ∃ d, pathDepthCnt pathname env.oldChar = .ok d ∧ pathDepthCnt r.searchedPath env.oldChar' = .ok d := by
  obtain ⟨s2, r2, d, hs2, h1, h2⟩ := hgo.missing
  rw [hs] at hs2
  cases hs2
  exact ⟨rfl, d, h1, h2⟩

/-- **A failed `sys_mkdir`** leaves both bitmaps, the disk and the cached inodes as they were iff it
does not get past its checks, or there is no inode or no block to begin with. -/
theorem failed_mkdir_iff {pathname : List UInt8} (hcache : s.CacheOk) (h : s.sysMkdir .ndebug env pathname = .ok (s', false)) :
    (s'.vol = s.vol ∧ s'.openInodes = s.openInodes) ↔
      (s.MkdirGoesOn env pathname → s.vol.inodeBitmap.freeBits = [] ∨ s.vol.blockBitmap.freeBits = []) := by
  cases sysMkdir_end h with
  | noBuffer hio =>
    refine iff_of_true ⟨rfl, rfl⟩ fun hgo => ?_
    rw [hgo.ioBuf] at hio
    cases hio
  | refused hs hcc hc =>
    have hsa := search_close hcache hs hc
    refine iff_of_true ⟨hsa.vol, hsa.openInodes⟩ fun hgo => ?_
    obtain ⟨hno, d, h1, h2⟩ := hgo.searched hs
    exact absurd h2 (hcc hno d h1)
  | made hio hs hde hde' _ hm =>
    have hgo : s.MkdirGoesOn env pathname := ⟨hio, _, _, _, hs, hde, hde'⟩
    have hvol := (searchFile_run hs).rest.vol
    rcases makeDir_fails hm with ⟨hf, hc⟩ | ⟨hfr, hch⟩
    · rw [hvol] at hf
      have hsa := search_close hcache hs hc
      exact iff_of_true ⟨hsa.vol, hsa.openInodes⟩ fun _ => hf
    · rw [hvol] at hfr hch
      exact iff_of_false (fun hsa => hch (by rw [hsa.1])) fun hco => hfr (hco hgo)

theorem failed_mkdir_exists : ∃ s', homeFs.sysMkdir .ndebug homeEnv [47, 97] = .ok (s', false) ∧
    s'.vol = homeFs.vol ∧ s'.openInodes = homeFs.openInodes := by
  have hret : (homeFs.sysMkdir .ndebug homeEnv [47, 97]).toOption.map Prod.snd = some false := by decide +kernel
  have hno : (searchFile .ndebug homeFs [47, 97] homeEnv.lookups homeEnv.oldNo).toOption.map (·.2.2) = some 1 := by decide +kernel
  obtain ⟨⟨s', ok⟩, hrun, rfl⟩ := exists_of_map hret
  refine ⟨s', hrun, (failed_mkdir_iff homeFs_cacheOk hrun).mpr fun hgo => ?_⟩
  obtain ⟨s1, r, depth, hs, -⟩ := hgo.missing
  rw [hs] at hno
  have hone : (-1 : UInt32) = 1 := Option.some.inj hno
  exact absurd hone (by decide)

end Fs

/-! ### A root directory with a full block -/

def packedInode (n : Nat) : Inode :=
  ⟨.ofNat n, if n = 0 then 504 else 0, 0, 0, fun j => if n = 0 ∧ j.val = 0 then 612 else 0, 0, 0⟩

def packedEntry (i : Nat) : DirEntry :=
  if i = 0 then ⟨fun j => dot.getD j 0, 0, ftDirectory⟩
  else if i = 1 then ⟨fun j => dotDot.getD j 0, 0, ftDirectory⟩
  else if i < 21 then ⟨fun j => if j.val = 0 then .ofNat (95 + i) else 0, .ofNat (i - 1), ftRegular⟩
  else ⟨fun _ => 0, 0, 0⟩

def packedFs : Fs samplePart where
  vol := {
    disk := fun a =>
      if 2048 ≤ a ∧ a < 2048 + 76 * 20 then (packedInode ((a - 2048) / 76)).toMem ((a - 2048) % 76)
      else if a / 512 = 612 then (packedEntry (a % 512 / 24)).toMem (a % 512 % 24)
      else 0
    blockBitmap := ⟨512, fun k => if k = 511 then 0x7f else 0xff, sector_lt⟩
    inodeBitmap := ⟨512, fun k => if k < 2 then 0xff else if k = 2 then 0x0f else 0, sector_lt⟩
    block_len := rfl }
  openInodes := [⟨0, packedInode 0, 1, .pfKernel⟩]
  fileTable _ := ⟨0, 0, none⟩
  rootDir := 0
  dirs := []
  procs _ := none
  freed := []

namespace Fs

/-- The new directory takes the last block, and there is none for its entry in the parent. -/
theorem failed_mkdir_keeps_block : ∃ s', packedFs.sysMkdir .ndebug homeEnv [47, 122] = .ok (s', false) ∧
    packedFs.vol.blockBitmap.bit 4095 = false ∧ s'.vol.blockBitmap.bit 4095 = true ∧
    ¬ (s'.vol = packedFs.vol ∧ s'.openInodes = packedFs.openInodes) := by
  have hret : (packedFs.sysMkdir .ndebug homeEnv [47, 122]).toOption.map (fun r => (r.2, r.1.vol.blockBitmap.bit 4095)) =
      some (false, true) := by decide +kernel
  have hf : packedFs.vol.blockBitmap.bit 4095 = false := by decide +kernel
  obtain ⟨⟨s', ok⟩, hrun, hfa⟩ := exists_of_map hret
  obtain ⟨rfl, hbit⟩ := Prod.mk.inj hfa
  refine ⟨s', hrun, hf, hbit, fun hs => ?_⟩
  rw [hs.1, hf] at hbit
  cases hbit

end Fs

end OperateSystem
