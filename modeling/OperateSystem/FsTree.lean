import OperateSystem.FsCache
import OperateSystem.FsFail
import OperateSystem.FsWalk

/-!
# The cache and the tree

The volume stores a tree and the cache holds inodes of its nodes, each with the count
of its users. Opening and closing inodes keeps that, and so does linking a new node
into a directory.
-/

namespace OperateSystem

open Function

namespace Fs

variable {part : Partition} {b : Build} {s s' : Fs part} {t : Tree} {l l' : List Nat} {a n q : Nat} {no : UInt32} {c : CachedInode}
variable {f : File} {g : Fin 32} {i : Inode} {m x : Nat}

/-! ## Users that change -/

theorem Counts.move (h : s.Counts l) (hi : s'.openInodes = s.openInodes) (hr : s'.rootDir = s.rootDir)
    (heq : ∀ a, s'.refs a + l'.count a = s.refs a + l.count a) : s'.Counts l' := by
  refine ⟨by rw [hi]; exact h.addrs, by rw [hi]; exact h.numbers, fun c hc => ?_, fun a => ?_, ?_⟩
  · rw [hi] at hc
    rw [heq]
    exact h.counts c hc
  · rw [hi, heq]
    exact h.held a
  · rw [hi, hr]
    exact h.root

theorem Counts.install (h : s.Counts (a :: l)) (hfr : (s.fileTable g).fdInode = none)
    (hf : f.fdInode = some a) : (s.setFile g f).Counts l := by
  refine h.move rfl rfl fun x => ?_
  have hs := s.slots_setFile g f x
  rw [hfr, hf, if_neg (by simp)] at hs
  show (s.setFile g f).slots x + s.dirs.count x + (if x = s.rootDir then 1 else 0) + l.count x =
    s.slots x + s.dirs.count x + (if x = s.rootDir then 1 else 0) + (a :: l).count x
  rw [List.count_cons]
  simp only [Option.some.injEq] at hs
  simp only [beq_iff_eq]
  omega

theorem Counts.uninstall (h : s.Counts l) (hg : (s.fileTable g).fdInode = some a)
    (hf : f.fdInode = none) : (s.setFile g f).Counts (a :: l) := by
  refine h.move rfl rfl fun x => ?_
  have hs := s.slots_setFile g f x
  rw [hg, hf] at hs
  show (s.setFile g f).slots x + s.dirs.count x + (if x = s.rootDir then 1 else 0) + (a :: l).count x =
    s.slots x + s.dirs.count x + (if x = s.rootDir then 1 else 0) + l.count x
  rw [List.count_cons]
  simp only [Option.some.injEq, reduceCtorEq, if_false] at hs
  simp only [beq_iff_eq]
  omega

theorem Counts.leave (h : s.Counts l) (hg : (s.fileTable g).fdInode = none) (hf : f.fdInode = none) :
    (s.setFile g f).Counts l := by
  refine h.move rfl rfl fun x => ?_
  have hs := s.slots_setFile g f x
  rw [hg, hf] at hs
  show (s.setFile g f).slots x + s.dirs.count x + (if x = s.rootDir then 1 else 0) + l.count x =
    s.slots x + s.dirs.count x + (if x = s.rootDir then 1 else 0) + l.count x
  omega

theorem Counts.handOut (h : s.Counts (a :: l)) : Counts { s with dirs := a :: s.dirs } l := by
  refine h.move rfl rfl fun x => ?_
  show s.slots x + (a :: s.dirs).count x + (if x = s.rootDir then 1 else 0) + l.count x =
    s.slots x + s.dirs.count x + (if x = s.rootDir then 1 else 0) + (a :: l).count x
  rw [List.count_cons, List.count_cons]
  omega

theorem Counts.handBack (h : s.Counts l) (ha : a ∈ s.dirs) : Counts { s with dirs := s.dirs.erase a } (a :: l) := by
  refine h.move rfl rfl fun x => ?_
  show s.slots x + (s.dirs.erase a).count x + (if x = s.rootDir then 1 else 0) + (a :: l).count x =
    s.slots x + s.dirs.count x + (if x = s.rootDir then 1 else 0) + l.count x
  have hpos := List.count_pos_iff.mpr ha
  rw [List.count_erase, List.count_cons]
  by_cases hx : a = x
  · subst hx
    simp only [beq_self_eq_true, if_true]
    omega
  · simp only [beq_iff_eq, hx, if_false]
    omega

structure Steady (s s' : Fs part) : Prop where
  fileTable : s'.fileTable = s.fileTable
  rootDir : s'.rootDir = s.rootDir
  dirs : s'.dirs = s.dirs
  procs : s'.procs = s.procs

theorem Steady.trans {s1 s2 s3 : Fs part} (h1 : Steady s1 s2) (h2 : Steady s2 s3) : Steady s1 s3 :=
  ⟨h2.fileTable.trans h1.fileTable, h2.rootDir.trans h1.rootDir, h2.dirs.trans h1.dirs, h2.procs.trans h1.procs⟩

theorem SameRest.steady (h : SameRest s s') : Steady s s' := ⟨h.fileTable, h.rootDir, h.dirs, h.procs⟩

theorem Steady.refs (h : Steady s s') : s'.refs = s.refs := by
  unfold Fs.refs slots
  rw [h.fileTable, h.dirs, h.rootDir]

/-! ## The cache and the tree -/

structure Caches (s : Fs part) (t : Tree) (l : List Nat) : Prop where
  counts : s.Counts l
  nodes : ∀ c ∈ s.openInodes, ∃ nd, t c.inode.iNo.toNat = some nd ∧ c.inode.pure = nd.inode.pure
  dirs : ∀ c ∈ s.openInodes, c.addr ∈ s.dirs → t.IsDir c.inode.iNo.toNat
  flags : ∀ g a, (s.fileTable g).fdInode = some a → (s.fileTable g).fdFlag ≠ pipeFlag

structure Sound (s : Fs part) (t : Tree) (l : List Nat) : Prop where
  caches : s.Caches t l
  repr : Repr s.vol t

theorem Caches.recount (h : s.Caches t l) (hco : s'.Counts l') (hf : s'.fileTable = s.fileTable) (hdi : s'.dirs = s.dirs)
    (hsub : ∀ x ∈ s'.openInodes, ∃ c ∈ s.openInodes, x.addr = c.addr ∧ x.inode = c.inode) : s'.Caches t l' := by
  refine ⟨hco, fun x hx => ?_, fun x hx hd => ?_, by rw [hf]; exact h.flags⟩
  · obtain ⟨c, hc, -, hi⟩ := hsub x hx
    rw [hi]
    exact h.nodes c hc
  · obtain ⟨c, hc, ha, hi⟩ := hsub x hx
    rw [hi]
    exact h.dirs c hc (by rwa [← ha, ← hdi])

theorem Sound.shows (h : s.Sound t l) : s.Shows t :=
  .of_repr h.repr h.caches.counts.addrs fun c hc nd hnd => by
    obtain ⟨nd', hnd', hpu⟩ := h.caches.nodes c hc
    cases hnd.symm.trans hnd'
    exact hpu

theorem Caches.push (h : s.Caches t l) (pool : PoolFlags)
    (hnew : ∀ c ∈ s.openInodes, c.inode.iNo ≠ i.iNo)
    (hn : ∃ nd, t i.iNo.toNat = some nd ∧ i.pure = nd.inode.pure) :
    (s.push ⟨s.newAddr, i, 1, pool⟩).Caches t (s.newAddr :: l) := by
  have hf : s.newAddr ∉ s.dirs := fun hm => by
    have := h.counts.newAddr
    have hpos := List.count_pos_iff.mpr hm
    unfold refs at this
    omega
  refine ⟨h.counts.push hnew, fun x hx => ?_, fun x hx hd => ?_, h.flags⟩
  · rcases List.mem_cons.mp hx with rfl | hx
    · exact hn
    · exact h.nodes x hx
  · rcases List.mem_cons.mp hx with rfl | hx
    · exact absurd hd hf
    · exact h.dirs x hx hd

theorem Caches.opened (h : s.Caches t l) (hr : Repr s.vol t) (hn : ∃ nd, t no.toNat = some nd) (ho : s.inodeOpen b no = .ok (s', a)) :
    s'.Caches t (a :: l) ∧ SameRest s s' ∧ s'.At a no.toNat := by
  obtain ⟨c, hc, hcno, rfl, rfl⟩ | ⟨i, hnew, hi, rfl, rfl⟩ := inodeOpen_cases ho
  · have hmem := (mem_count_iff hc (c.iOpenCnts + 1)).mpr (.inl rfl)
    refine ⟨h.recount (h.counts.more hc) rfl rfl fun x hx => ?_, ⟨rfl, rfl, rfl, rfl, rfl⟩, _, hmem, rfl, congrArg UInt32.toNat hcno⟩
    rcases (mem_count_iff hc _).mp hx with rfl | ⟨hx, -⟩
    · exact ⟨c, hc, rfl, rfl⟩
    · exact ⟨x, hx, rfl, rfl⟩
  · obtain ⟨nd, hnd⟩ := hn
    have hs := hr.small hnd
    rw [inodeRead_spec part _ (by omega), Except.ok.injEq, hr.stored hnd] at hi
    have hino : i.iNo = no := by rw [← hi, hr.number hnd, UInt32.ofNat_toNat]
    refine ⟨h.push _ (fun c hc => ?_) ⟨nd, ?_, by rw [hi]⟩, ⟨rfl, rfl, rfl, rfl, rfl⟩, _, .head _, rfl,
      congrArg UInt32.toNat hino⟩
    · rw [hino]
      exact hnew c hc
    · rw [hino]
      exact hnd

theorem Caches.opened_alone (h : s.Caches t l) (hnew : ∀ c ∈ s.openInodes, c.inode.iNo ≠ no) (ho : s.inodeOpen b no = .ok (s', a)) :
    s'.refs a + l.count a = 0 := by
  obtain ⟨c, hc, hcno, -, -⟩ | ⟨i, -, -, rfl, rfl⟩ := inodeOpen_cases ho
  · exact absurd hcno (hnew c hc)
  · exact h.counts.newAddr

theorem At.store {c' : CachedInode} (hat : s.At x m) (had : (s.openInodes.map (·.addr)).Nodup)
    (hc : c ∈ s.openInodes) (ha : c'.addr = c.addr) (hn : c'.inode.iNo = c.inode.iNo) :
    (s.store c').At x m := by
  obtain ⟨y, hy, hx, hm⟩ := hat
  by_cases e : y.addr = c.addr
  · obtain rfl := eq_of_addr had hc hy e
    exact ⟨c', (mem_store_iff hc ha).mpr (.inl rfl), ha.trans hx, by rw [hn]; exact hm⟩
  · exact ⟨y, (mem_store_iff hc ha).mpr (.inr ⟨hy, e⟩), hx, hm⟩

theorem At.opened (hat : s.At x m) (ha : (s.openInodes.map (·.addr)).Nodup)
    (ho : s.inodeOpen b no = .ok (s', a)) :
    s'.At x m := by
  obtain ⟨c, hc, -, -, rfl⟩ | ⟨i, -, -, -, rfl⟩ := inodeOpen_cases ho
  · exact hat.store ha hc rfl rfl
  · obtain ⟨y, hy, hx, hm⟩ := hat
    exact ⟨y, .tail _ hy, hx, hm⟩

theorem inodeClose_sub (hr : s.inodeClose b a = .ok s') : ∀ x ∈ s'.openInodes, ∃ c ∈ s.openInodes, x.addr = c.addr ∧ x.inode = c.inode := by
  obtain ⟨c, hca, hcs⟩ := inodeClose_cases hr
  intro x hx
  obtain ⟨-, -, rfl⟩ | ⟨-, rfl⟩ := hcs
  · exact ⟨x, (List.mem_filter.mp hx).1, rfl, rfl⟩
  · obtain ⟨hc, rfl⟩ := cached_ok hca
    rcases (mem_count_iff hc _).mp hx with rfl | ⟨hx, -⟩
    · exact ⟨c, hc, rfl, rfl⟩
    · exact ⟨x, hx, rfl, rfl⟩

theorem Caches.closed (h : s.Caches t (a :: l)) (hr : s.inodeClose b a = .ok s') : s'.Caches t l ∧ SameRest s s' := by
  have hre := (CacheStep.closed hr).rest
  exact ⟨h.recount (h.counts.inodeClose hr) hre.fileTable hre.dirs (inodeClose_sub hr), hre⟩

theorem At.closed (hat : s.At x m) (h : s.Caches t (a :: l)) (hr : s.inodeClose b a = .ok s')
    (hx : 0 < s.refs x + l.count x) : s'.At x m := by
  obtain ⟨h', hre⟩ := h.closed hr
  rw [← hre.steady.refs] at hx
  obtain ⟨y, hy, hya⟩ := (h'.counts.held x).mp hx
  obtain ⟨c, hc, ha, hi⟩ := inodeClose_sub hr y hy
  obtain ⟨z, hz, hza, hm⟩ := hat
  obtain rfl := eq_of_addr h.counts.addrs hc hz (hza.trans (hya.symm.trans ha))
  exact ⟨y, hy, hya, by rw [hi]; exact hm⟩

theorem Caches.closed_last (h : s.Caches t (a :: l)) (hz : s.refs a + l.count a = 0) (hat : s.At a m)
    (hr : s.inodeClose b a = .ok s') : ∀ c ∈ s'.openInodes, c.inode.iNo.toNat ≠ m := by
  obtain ⟨c, hca, hcs⟩ := inodeClose_cases hr
  obtain ⟨hc, rfl⟩ := cached_ok hca
  obtain ⟨y, hy, hya, hm⟩ := hat
  obtain rfl := eq_of_addr h.counts.addrs hc hy hya
  have hone := h.counts.counts y hc
  rw [List.count_cons_self] at hone
  obtain ⟨-, -, rfl⟩ | ⟨hmo, -⟩ := hcs
  · intro x hx hno
    obtain ⟨hx, hne⟩ := List.mem_filter.mp hx
    have := h.counts.eq_of_number hc hx (UInt32.toNat_inj.mp (hno.trans hm.symm))
    exact of_decide_eq_true hne (by rw [this])
  · omega

theorem Sound.opened (h : s.Sound t l) (hn : ∃ nd, t no.toNat = some nd) (ho : s.inodeOpen b no = .ok (s', a)) :
    s'.Sound t (a :: l) ∧ SameRest s s' ∧ s'.At a no.toNat := by
  obtain ⟨hc, hr, hat⟩ := h.caches.opened h.repr hn ho
  exact ⟨⟨hc, hr.vol ▸ h.repr⟩, hr, hat⟩

theorem Sound.closed (h : s.Sound t (a :: l)) (hr : s.inodeClose b a = .ok s') : s'.Sound t l ∧ SameRest s s' := by
  obtain ⟨hc, hre⟩ := h.caches.closed hr
  exact ⟨⟨hc, hre.vol ▸ h.repr⟩, hre⟩

theorem Caches.setVol (h : s.Caches t l) (vol : Volume part) : (s.setVol vol).Caches t l :=
  ⟨h.counts.move rfl rfl fun _ => rfl, h.nodes, h.dirs, h.flags⟩

theorem Caches.congr (h : s.Caches t l) (hi : s'.openInodes = s.openInodes) (hf : s'.fileTable = s.fileTable)
    (hr : s'.rootDir = s.rootDir) (hd : s'.dirs = s.dirs) : s'.Caches t l := by
  refine h.recount (h.counts.move hi hr fun a => ?_) hf hd fun x hx => ⟨x, by rwa [← hi], rfl, rfl⟩
  unfold refs slots
  rw [hf, hd, hr]

theorem Sound.unchanged (h : s.Sound t l) (hs : Unchanged s s') : s'.Sound t l :=
  ⟨h.caches.congr hs.openInodes hs.fileTable hs.rootDir hs.dirs, hs.vol ▸ h.repr⟩

theorem Caches.setFile {l' : List Nat} (h : s.Caches t l) (hc : (s.setFile g f).Counts l')
    (hf : ∀ a, f.fdInode = some a → f.fdFlag ≠ pipeFlag) : (s.setFile g f).Caches t l' := by
  refine ⟨hc, h.nodes, h.dirs, fun g' a' ha => ?_⟩
  unfold Fs.setFile at ha ⊢
  by_cases hg : g' = g
  · subst hg
    simp only [update_self] at ha ⊢
    exact hf a' ha
  · simp only [update_of_ne hg] at ha ⊢
    exact h.flags g' a' ha

theorem Caches.replace {t' : Tree} {nd' : Node} (h : s.Caches t l) (hc : c ∈ s.openInodes)
    (hi : i.iNo = c.inode.iNo) (hn : t' c.inode.iNo.toNat = some nd')
    (hpu : i.pure = nd'.inode.pure)
    (ho : ∀ m nd, m ≠ c.inode.iNo.toNat → t m = some nd → t' m = some nd)
    (hdi : ∀ d, t.IsDir d → t'.IsDir d) :
    (s.store { c with inode := i }).Caches t' l := by
  have hmem : ∀ x, x ∈ (s.store { c with inode := i }).openInodes ↔ _ := fun x => mem_store_iff hc rfl
  refine ⟨h.counts.update hc rfl hi rfl, fun x hx => ?_, fun x hx hd => ?_, h.flags⟩
  · rcases (hmem x).mp hx with rfl | ⟨hx, hne⟩
    · exact ⟨nd', by rw [hi]; exact hn, hpu⟩
    · obtain ⟨nd, hnd, hp⟩ := h.nodes x hx
      refine ⟨nd, ho _ nd (fun e => hne ?_) hnd, hp⟩
      rw [h.counts.eq_of_number hc hx (UInt32.toNat_inj.mp e)]
  · rcases (hmem x).mp hx with rfl | ⟨hx, -⟩
    · rw [hi]
      exact hdi _ (h.dirs c hc hd)
    · exact hdi _ (h.dirs x hx hd)

theorem Caches.touch (h : s.Caches t l) (hc : c ∈ s.openInodes) (hi : i.pure = c.inode.pure) :
    (s.store { c with inode := i }).Caches t l := by
  obtain ⟨nd, hnd, hp⟩ := h.nodes c hc
  have hno := congrArg Inode.iNo hi
  exact h.replace hc hno hnd (hi.trans hp) (fun m nd _ hm => hm) fun d hd => hd

theorem sound_tracks : TreeTracks b t fun (s : Fs part) l => s.Sound t l where
  shows h := h.shows
  root h := by
    obtain ⟨c, hc, ha, hno⟩ := h.caches.counts.root
    exact ⟨c, hc, ha, congrArg UInt32.toNat hno⟩
  opened h hd ho := (h.opened (by obtain ⟨nd, hnd, -⟩ := hd; exact ⟨nd, hnd⟩) ho).1
  closed h hr := (h.closed hr).1

end Fs

/-! ## Hanging a node into the tree -/

theorem createDirEntry_ok {b : Build} {filename : List UInt8} {no fileType : UInt32} {e : DirEntry}
    (h : createDirEntry b filename no fileType = .ok e) (hne : filename ≠ []) (hz : 0 ∉ filename) (hlen : filename.length < 16) :
    e.name = filename ∧ e.iNo = no ∧ e.fType = fileType ∧ e.Named := by
  obtain rfl := createDirEntry_eq h
  refine ⟨?_, rfl, rfl, ?_, ⟨⟨filename.length, by omega⟩, List.getD_eq_default _ _ le_rfl⟩⟩
  · show (List.ofFn (fun j : Fin 16 => filename.getD j 0)).takeWhile (· ≠ 0) = filename
    rw [DirEntry.ofFn_getD (Nat.le_of_lt hlen), List.takeWhile_append_of_pos fun c hc => ?_]
    · have hn : (List.replicate (16 - filename.length) (0 : UInt8)).takeWhile (· ≠ 0) = [] := by
        cases 16 - filename.length with
        | zero => rfl
        | succ n => rfl
      rw [hn, List.append_nil]
    · have hc : c ≠ 0 := fun e => hz (e ▸ hc)
      simpa using hc
  · obtain ⟨c, rest, rfl⟩ := List.exists_cons_of_ne_nil hne
    intro hc
    have hc : c = 0 := hc
    exact hz (by simp [hc])

section
variable {part : Partition} {vol : Volume part} {nd : Node} {inode : Inode}

theorem Node.slots_card_le (nd : Node) : nd.slots.card ≤ 140 * 21 := by
  have hsub : nd.slots ⊆ Finset.range 140 ×ˢ Finset.range 21 := Finset.subset_iff.mpr fun x hx => by
    rw [Tree.mem_slots] at hx
    rw [Finset.mem_product, Finset.mem_range, Finset.mem_range]
    exact hx.1
  refine (Finset.card_le_card hsub).trans_eq ?_
  rw [Finset.card_product, Finset.card_range, Finset.card_range]

def Node.HasRoom (nd : Node) : Prop := ∃ k < 12, ∃ i < 21, nd.ents k i = none

theorem StoresNode.hasRoom_iff (h : StoresNode vol nd) (hdir : nd.isDir = true) (hi : inode.pure = nd.inode.pure) :
    ¬ DirectFull vol.disk inode ↔ nd.HasRoom := by
  have he : ∀ k i, liveAt vol.disk (slotAddr vol.disk inode) k i = nd.ents k i := fun k i => by
    rw [slotAddr_of_pure hi]
    exact (h.dir hdir).2 k i
  constructor
  · intro hf
    by_contra hno
    refine hf fun k hk => ?_
    have hli : ∀ i < 21, inode.sec k ≠ 0 ∧ (entryAt vol.disk (slotAddr vol.disk inode) k i).fType ≠ 0 := fun i hlt => by
      cases hent : nd.ents k i with
      | none => exact absurd ⟨k, hk, i, hlt, hent⟩ hno
      | some x =>
        rw [← he] at hent
        obtain ⟨-, -, hl, ht, rfl⟩ := liveAt_eq_some.mp hent
        rw [slotAddr_low hk] at hl
        exact ⟨hl, ht⟩
    exact ⟨(hli 0 (by decide)).1, fun i hlt => (hli i hlt).2⟩
  · rintro ⟨k, hk, i, hlt, hent⟩ hf
    obtain ⟨hl, ht⟩ := hf k hk
    rw [← he, liveAt_eq_some.mpr ⟨by omega, hlt, by rwa [slotAddr_low hk], ht i hlt, rfl⟩] at hent
    cases hent

end

namespace Fs

variable {part : Partition} {s s' : Fs part} {t : Tree} {l : List Nat} {a n q : Nat} {c : CachedInode} {P new : Node} {e : DirEntry}

structure Linkable (s : Fs part) (t : Tree) (q : Nat) (P : Node) (e : DirEntry) (n : Nat) (new : Node) : Prop where
  dir : t q = some P ∧ P.isDir = true
  room : P.HasRoom
  spare : Spare s.vol t n new
  pure : new.inode.pure = new.inode
  fresh : new.isDir = true → new.ents = newEnts n q ∧ new.inode.iSize.toNat = 48
  live : e.Live
  entry : e.iNo = .ofNat n ∧ e.fType = new.fileType
  dots : e.name ≠ dot ∧ e.name ≠ dotDot
  name : ∀ {k i x}, P.ents k i = some x → x.name ≠ e.name

theorem cached_store {c' : CachedInode} (had : (s.openInodes.map (·.addr)).Nodup) (hc : c ∈ s.openInodes) (ha : c'.addr = c.addr) :
    (s.store c').cached c.addr = .ok c' := by
  have ha' : ((s.store c').openInodes.map (·.addr)).Nodup := by
    rw [map_store (·.addr) had hc ha ha]
    exact had
  rw [← ha]
  exact cached_of_mem ha' ((mem_store_iff hc ha).mpr (.inl rfl))

theorem link_spec {ok : Bool} (hf : part.Formatted) (hok : t.Ok) (h : s.Linkable t q P e n new) (hre : Repr s.vol t)
    (ha : (s.openInodes.map (·.addr)).Nodup) (hc : s.cached a = .ok c)
    (hi : c.inode.pure = P.inode.pure) (hr : s.link .debug a e new.inode = .ok (s', ok)) :
    ok = true ∧ ∃ vol i k0 i0, s' = (s.setVol vol).store { c with inode := i } ∧ i.iNo = c.inode.iNo ∧
      t.Hangs q P i.pure k0 i0 e n new ∧ Repr vol (t.link q (P.put i.pure k0 i0 (some e)) n (some new)) := by
  obtain ⟨hmem, rfl⟩ := cached_ok hc
  obtain ⟨hp, hdir⟩ := h.dir
  have hs := hre.holds hp
  have hq := hre.small hp
  obtain ⟨c1, st, vol3, hc1, hsy, hs', -, hfl⟩ := link_cases hr
  cases hc.symm.trans hc1
  obtain rfl := syncDirEntry_debug hsy
  obtain ⟨lba, k0, i0, hins⟩ := syncDirEntry_inserted hf (by rw [slotAddr_of_pure hi]; exact hs.blocks) hsy
    ((hs.hasRoom_iff hdir hi).mpr h.room)
  obtain ⟨c2, disk1, disk2, hc2, hd1, hd2, hv3⟩ := hfl rfl
  cases (cached_store (s := s.setVol st.vol) ha hmem (by rfl)).symm.trans hc2
  have hqno : c.inode.iNo = .ofNat q := by
    have hpu := congrArg Inode.iNo hi
    exact Eq.trans hpu (hre.number hp)
  have hqm : st.inode.iNo.toNat % 256 = q := by
    rw [hins.iNo, hqno, Tree.ofNat_toNat_small (by omega)]
    exact Nat.mod_eq_of_lt hq
  have hn := h.spare.small
  have hnno : new.inode.iNo.toNat = n := by rw [h.spare.number, Tree.ofNat_toNat_small (by omega)]
  have hne : q ≠ n := fun e => by
    have hfr := h.spare.free
    rw [← e, hp] at hfr
    cases hfr
  refine ⟨rfl, vol3, st.inode, k0, i0, hs', hins.iNo, ?_, ?_⟩
  · refine ⟨h.dir, ⟨h.spare.free, hn⟩, hins.slot hs hdir hi, h.entry, h.dots, ?_, h.fresh⟩
    have hsi := congrArg Inode.iSize hi
    replace hsi : c.inode.iSize = P.inode.iSize := hsi
    have hca := hok.size hp hdir
    have hle := P.slots_card_le
    show st.inode.iSize.toNat = _
    rw [hins.placed.size, hsi, UInt32.toNat_add, UInt32.toNat_ofNat', Nat.mod_eq_of_lt (show dirEntrySize < 2 ^ 32 by decide)]
    exact Nat.mod_eq_of_lt (by unfold dirEntrySize; omega)
  · rw [inodeSync_spec, Except.ok.injEq] at hd1 hd2
    have hd1 : disk1 = blit st.vol.disk (part.inodeAddr q) st.inode.pure.toMem 0 76 := by
      rw [← hd1, hqm]
    have hd2 : disk2 = blit disk1 (part.inodeAddr n) new.inode.toMem 0 76 := by
      rw [← hd2, hnno, Nat.mod_eq_of_lt hn, h.pure]
    obtain ⟨ht3, hb⟩ := Touched.inodeBitmapSync (T := ∅) (U := ∅) (N := ∅) hf (by omega) hv3
    have ht1 : Touched st.vol { st.vol with disk := disk1 } ∅ ∅ {q} := .inode (by omega) hd1 rfl rfl
    have ht2 : Touched { st.vol with disk := disk1 } { st.vol with disk := disk2 } ∅ ∅ {n} := .inode (by omega) hd2 rfl rfl
    have he : ∀ m, m ∉ (∅ : Set Nat) := Set.notMem_empty
    refine hre.insert h.spare hp hdir hi hins h.live h.name ?_ hb ?_ ?_
    · refine ((ht1.mono ?_ ?_ ?_).trans (ht2.mono ?_ ?_ ?_)).trans (ht3.mono ?_ ?_ ?_)
      all_goals first | exact Set.Subset.refl _ | exact Set.empty_subset _ | skip
      · exact Set.singleton_subset_iff.mpr (Set.mem_insert _ _)
      · exact Set.singleton_subset_iff.mpr (Set.mem_insert_of_mem _ rfl)
    · rw [ht3.table q (by omega) (he q)]
      rw [hd2, slot_blit_apart part _ _ hne, hd1]
      exact ofMem_blit_same _ _ _
    · rw [ht3.table n (by omega) (he n)]
      rw [hd2]
      exact ofMem_blit_same _ _ _

theorem Caches.linked {i : Inode} {k0 i0 : Nat} (h : s.Caches t l) (hc : c ∈ s.openInodes) (hq : c.inode.iNo.toNat = q)
    (hi : i.iNo = c.inode.iNo) (hang : t.Hangs q P i.pure k0 i0 e n new) :
    (s.store { c with inode := i }).Caches (t.link q (P.put i.pure k0 i0 (some e)) n (some new)) l := by
  refine h.replace hc hi (by rw [hq]; exact Tree.link_parent _ _ _ hang.ne) rfl (fun m nd hm hnd => ?_) fun d hd => ?_
  · rw [Tree.link_other _ _ _ (hq ▸ hm) fun e => ?_]
    · exact hnd
    · rw [e, hang.free.1] at hnd
      cases hnd
  · obtain ⟨nd, hnd, hdir⟩ := hd
    obtain ⟨nd', hnd', hs⟩ := hang.node hnd
    exact ⟨nd', hnd', hs.trans hdir⟩

end Fs

end OperateSystem
