import OperateSystem.FsSearch
import OperateSystem.TreeDisk
import OperateSystem.TreePaths

/-!
# The path search in the tree

`search_file` walks the tree that the volume stores, with one directory open at a
time: it ends at a directory, at a regular file, or at a name that a directory does
not have.
-/

namespace OperateSystem

section
variable {part : Partition} {b : Build} {vol : Volume part} {nd : Node} {inode : Inode} {name : List UInt8}

/-! ## Looking up a name -/

theorem StoresNode.lookup (h : StoresNode vol nd) (hdir : nd.isDir = true) (hi : inode.pure = nd.inode.pure) (hne : name ≠ [])
    (hz : 0 ∉ name) (hlen : name.length < 16) {mem : Bool} {buf : Mem} {r : Option DirEntry}
    (hr : searchDirEntry b vol.disk inode name mem buf = .ok r) :
    (∀ e, r = some e → e.name = name ∧ ∃ k i, nd.ents k i = some e) ∧
      (r = none → mem = true → ∀ k i e, nd.ents k i = some e → e.name ≠ name) := by
  cases mem with
  | false =>
    cases hr
    exact ⟨fun e he => absurd he (by simp), fun _ h => absurd h (by decide)⟩
  | true =>
    obtain ⟨hok, hen⟩ := h.dir hdir
    have hok := hok.of_pure hi
    have hen : ∀ k i, liveAt vol.disk (slotAddr vol.disk inode) k i = nd.ents k i := fun k i => by
      rw [slotAddr_of_pure hi]
      exact hen k i
    have hma : ∀ k i, Matches vol.disk (slotAddr vol.disk inode) name k i ↔
        (entryAt vol.disk (slotAddr vol.disk inode) k i).name = name := fun k i => DirEntry.strcmp_short hz hlen
    obtain ⟨r', hr', hs, hn⟩ := hok.blocks.search (b := b) (Nat.le_of_lt hlen) buf
    cases hr.symm.trans hr'
    constructor
    · intro e he
      obtain ⟨k, i, hk, hi, hl, hm, rfl⟩ := hs e he
      have hm := (hma k i).mp hm
      -- a free slot has no name
      have hli := (hok.entries k hk i hi hl).resolve_left fun hf => hne (hm ▸ hf.name_eq_nil)
      exact ⟨hm, k, i, (hen k i).symm.trans (liveAt_eq_some.mpr ⟨hk, hi, hl, hli.1, rfl⟩)⟩
    · intro hnil _ k i e he hna
      rw [← hen] at he
      obtain ⟨hk, hi, hl, -, rfl⟩ := liveAt_eq_some.mp he
      exact hn hnil k hk i hi hl ((hma k i).mpr hna)

end

/-! ## The tree in the cache -/

namespace Fs

variable {part : Partition} {b : Build} {s s' : Fs part} {t : Tree} {a q : Nat} {no : UInt32}

structure Shows (s : Fs part) (t : Tree) : Prop where
  number : ∀ {n nd}, t n = some nd → nd.inode.iNo = .ofNat n
  stored : ∀ {n nd}, t n = some nd → nd.isDir = true → (Inode.ofMem s.vol.disk (part.inodeAddr n)).pure = nd.inode.pure
  holds : ∀ {n nd}, t n = some nd → nd.isDir = true → StoresNode s.vol nd
  addrs : (s.openInodes.map (·.addr)).Nodup
  cached : ∀ c ∈ s.openInodes, ∀ nd, t c.inode.iNo.toNat = some nd → nd.isDir = true → c.inode.pure = nd.inode.pure

def At (s : Fs part) (a q : Nat) : Prop := ∃ c ∈ s.openInodes, c.addr = a ∧ c.inode.iNo.toNat = q

theorem At.cached (h : s.At a q) (hs : s.Shows t) : ∃ c, s.cached a = .ok c ∧ c ∈ s.openInodes ∧ c.inode.iNo.toNat = q := by
  obtain ⟨c, hc, rfl, hq⟩ := h
  exact ⟨c, cached_of_mem hs.addrs hc, hc, hq⟩

theorem At.number {c : CachedInode} (h : s.At a q) (ha : (s.openInodes.map (·.addr)).Nodup) (hc : s.cached a = .ok c) :
    c.inode.iNo.toNat = q := by
  obtain ⟨x, hx, rfl, hq⟩ := h
  cases hc.symm.trans (cached_of_mem ha hx)
  exact hq

theorem Shows.of_repr (h : Repr s.vol t) (ha : (s.openInodes.map (·.addr)).Nodup)
    (hca : ∀ c ∈ s.openInodes, ∀ nd, t c.inode.iNo.toNat = some nd → c.inode.pure = nd.inode.pure) : s.Shows t :=
  ⟨h.number, fun hn _ => congrArg Inode.pure (h.stored hn), fun hn _ => h.holds hn, ha, fun c hc nd hnd _ => hca c hc nd hnd⟩

theorem Shows.of_rest (hs : s.Shows t) (hvol : s'.vol = s.vol) (hi : s'.openInodes = s.openInodes) : s'.Shows t :=
  ⟨hs.number, by rw [hvol]; exact hs.stored, by rw [hvol]; exact hs.holds, by rw [hi]; exact hs.addrs,
    by rw [hi]; exact hs.cached⟩

theorem Shows.entry_live (hs : s.Shows t) {d k i : Nat} {e : DirEntry} (he : t.Entry d k i e) : e.Live := by
  obtain ⟨nd, hnd, hdir, hent⟩ := he
  obtain ⟨hok, hen⟩ := (hs.holds hnd hdir).dir hdir
  exact hok.live ((hen k i).trans hent)

theorem Shows.walk_names (hs : s.Shows t) {d d' : Nat} {xs : List (List UInt8)} (hw : t.Walk d xs d') :
    ∀ x ∈ xs, x.length < 16 := by
  induction hw with
  | nil => exact fun x hx => absurd hx List.not_mem_nil
  | cons he _ _ ih =>
    intro x hx
    rcases List.mem_cons.mp hx with rfl | hx
    · exact (hs.entry_live he).2.length_lt
    · exact ih x hx

theorem Shows.count (hs : s.Shows t) {c : CachedInode} (hc : c ∈ s.openInodes) (n : Nat) :
    (s.store { c with iOpenCnts := n }).Shows t := by
  have ha : (s.store { c with iOpenCnts := n }).openInodes.map (·.addr) = s.openInodes.map (·.addr) :=
    map_store _ hs.addrs hc rfl rfl
  refine ⟨hs.number, hs.stored, hs.holds, ?_, fun x hx nd hnd hdir => ?_⟩
  · rw [ha]
    exact hs.addrs
  · rcases mem_store hx with rfl | hx
    · exact hs.cached c hc nd hnd hdir
    · exact hs.cached x hx nd hnd hdir

theorem Shows.read (hs : s.Shows t) (ht : t.Shaped) (hd : t.IsDir no.toNat) :
    ∃ i nd, inodeRead b part s.vol.disk no.toNat = .ok i ∧ t no.toNat = some nd ∧ i.pure = nd.inode.pure ∧ i.iNo = no := by
  obtain ⟨nd, hnd, hdir⟩ := hd
  have hpu := hs.stored hnd hdir
  refine ⟨_, nd, inodeRead_spec part _ (ht.small hnd), hnd, hpu, ?_⟩
  have hno : nd.inode.iNo = no := by rw [hs.number hnd, UInt32.ofNat_toNat]
  have := congrArg Inode.iNo hpu
  exact Eq.trans this hno

theorem Shows.opened (hs : s.Shows t) (ht : t.Shaped) (hd : t.IsDir no.toNat) (h : s.inodeOpen b no = .ok (s', a)) :
    s'.Shows t ∧ s'.At a no.toNat := by
  obtain ⟨c, hc, hcno, rfl, rfl⟩ | ⟨i, -, hi, rfl, rfl⟩ := inodeOpen_cases h
  · have hmem : { c with iOpenCnts := c.iOpenCnts + 1 } ∈ (s.store { c with iOpenCnts := c.iOpenCnts + 1 }).openInodes :=
      List.mem_map.mpr ⟨c, hc, if_pos rfl⟩
    exact ⟨hs.count hc _, _, hmem, rfl, congrArg UInt32.toNat hcno⟩
  · obtain ⟨i', nd, hi', hnd, hpu, hino⟩ := hs.read (b := b) ht hd
    cases hi.symm.trans hi'
    refine ⟨⟨hs.number, hs.stored, hs.holds, ?_, fun x hx nd' hnd' hdir => ?_⟩, _, .head _, rfl, ?_⟩
    · refine List.nodup_cons.mpr ⟨fun hm => ?_, hs.addrs⟩
      obtain ⟨c, hc, e⟩ := List.mem_map.mp hm
      have e : c.addr = s.newAddr := e
      exact absurd (lt_newAddr hc) (by omega)
    · rcases List.mem_cons.mp hx with rfl | hx
      · rw [hino] at hnd'
        cases hnd.symm.trans hnd'
        exact hpu
      · exact hs.cached x hx nd' hnd' hdir
    · exact congrArg UInt32.toNat hino

theorem Shows.closed (hs : s.Shows t) (h : s.inodeClose b a = .ok s') : s'.Shows t := by
  obtain ⟨c, hc, hca⟩ := inodeClose_cases h
  obtain ⟨-, -, rfl⟩ | ⟨-, rfl⟩ := hca
  · refine ⟨hs.number, hs.stored, hs.holds, (List.filter_sublist.map _).nodup hs.addrs, fun x hx => ?_⟩
    exact hs.cached x (List.mem_filter.mp hx).1
  · exact hs.count (cached_ok hc).1 _

theorem Shows.open_total (hs : s.Shows t) (ht : t.Shaped) (hd : t.IsDir no.toNat) : ∃ s' a, s.inodeOpen b no = .ok (s', a) := by
  obtain ⟨i, -, hi, -⟩ := hs.read (b := b) ht hd
  unfold inodeOpen
  split
  · exact ⟨_, _, rfl⟩
  · rw [hi]
    exact ⟨_, _, rfl⟩

end Fs

/-! ## `search_file` -/

section
variable {part : Partition} {b : Build} {t : Tree} {mem : Nat → Bool}
variable {s s' : Fs part} {pathname : List UInt8} {r : PathSearchRecord} {no old : UInt32}

structure TreeTracks (b : Build) (t : Tree) (K : Fs part → List Nat → Prop) : Prop where
  shows : ∀ {s : Fs part} {l : List Nat}, K s l → s.Shows t
  root : ∀ {s : Fs part} {l : List Nat}, K s l → s.At s.rootDir 0
  opened : ∀ {s s' : Fs part} {no : UInt32} {a : Nat} {l : List Nat}, K s l → t.IsDir no.toNat → s.inodeOpen b no = .ok (s', a) →
    K s' (a :: l)
  closed : ∀ {s s' : Fs part} {a : Nat} {l : List Nat}, K s (a :: l) → s.inodeClose b a = .ok s' → K s' l

variable {K : Fs part → List Nat → Prop} {l : List Nat}

theorem TreeTracks.dirOpen (h : TreeTracks b t K) (ht : t.Shaped) {d : DirPtr} (hk : K s l)
    (hd : t.IsDir no.toNat) (hr : s.dirOpen b no = .ok (s', d)) :
    K s' (d.held ++ l) ∧ s'.At d.inode no.toNat ∧ d.isRootDir = false := by
  obtain ⟨⟨s1, a⟩, ho, hr⟩ := bind_ok.mp hr
  cases hr
  exact ⟨h.opened hk hd ho, ((h.shows hk).opened ht hd ho).2, rfl⟩

theorem TreeTracks.dirClose (h : TreeTracks b t K) {d : DirPtr} (hk : K s (d.held ++ l))
    (hr : s.dirClose b d = .ok s') : K s' l := by
  unfold Fs.dirClose at hr
  unfold DirPtr.held at hk
  split at hr
  · rename_i hro
    cases hr
    rwa [if_pos hro] at hk
  · rename_i hro
    rw [if_neg hro] at hk
    exact h.closed hk hr

inductive SearchEnd (t : Tree) (mem : Nat → Bool) (names : List (List UInt8)) (s : Fs part) (r : PathSearchRecord) (no : UInt32) :
    Prop
  | missing {pre post : List (List UInt8)} {name : List UInt8} {q : Nat} (hsplit : names = pre ++ name :: post)
    (hw : t.Walk 0 pre q) (hat : s.At r.parentDir.inode q) (hno : no = -1) (htype : r.fileType = 0)
    (hpath : r.searchedPath = joinPath (pre ++ [name])) (hlen : name.length < 16)
    (hmiss : mem post.length = true → ∀ k i e, t.Entry q k i e → e.name ≠ name)
  | regular {pre post : List (List UInt8)} {q k i : Nat} {e : DirEntry} (hsplit : names = pre ++ e.name :: post)
    (hw : t.Walk 0 pre q) (hat : s.At r.parentDir.inode q) (he : t.Entry q k i e) (hreg : e.fType = ftRegular) (hno : no = e.iNo)
    (htype : r.fileType = ftRegular) (hpath : r.searchedPath = joinPath (pre ++ [e.name]))
  | directory {pre : List (List UInt8)} {q k i : Nat} {e : DirEntry} (hsplit : names = pre ++ [e.name])
    (hw : t.Walk 0 pre q) (hat : s.At r.parentDir.inode q) (he : t.Entry q k i e) (hdir : e.fType = ftDirectory) (hno : no = e.iNo)
    (htype : r.fileType = ftDirectory) (hroot : r.parentDir.isRootDir = false)
  | nameless (hnil : names = []) (htype : r.fileType = ftDirectory) (hpath : r.searchedPath = [])

structure Came (t : Tree) (st : Searching part) (done : List (List UInt8)) (q : Nat) : Prop where
  walk : t.Walk 0 done q
  at_ : st.fs.At st.parentDir.inode q
  path : st.searchedPath = joinPath done
  last : done = [] ∧ st.parentInodeNo = 0 ∨ ∃ pre k i e, done = pre ++ [e.name] ∧ t.Walk 0 pre st.parentInodeNo.toNat ∧
    t.Entry st.parentInodeNo.toNat k i e ∧ e.fType = ftDirectory ∧ st.iNo = e.iNo

theorem TreeTracks.searchLoop (h : TreeTracks b t K) (ht : t.Shaped) : ∀ (rest done : List (List UInt8)) (q : Nat)
    (st : Searching part) {fs : Fs part} {r : PathSearchRecord} {no : UInt32}, K st.fs (st.parentDir.held ++ l) →
    Came t st done q → (∀ x ∈ rest, x ≠ [] ∧ 0 ∉ x) → (∀ x ∈ rest.head?, x.length < 16) →
    searchLoop b mem rest st = .ok (fs, r, no) → K fs (r.parentDir.held ++ l) ∧ SearchEnd t mem (done ++ rest) fs r no
  | [], done, q, st, fs, r, no, hk, hca, _, _, hr => by
    simp only [OperateSystem.searchLoop, bind_ok] at hr
    obtain ⟨fs1, hcl, ⟨fs2, d⟩, ho, hr⟩ := hr
    cases hr
    have hk1 := h.dirClose hk hcl
    rw [List.append_nil]
    rcases hca.last with ⟨rfl, hze⟩ | ⟨pre, k, i, e, rfl, hw, he, hdir, hno⟩
    · have hdir : t.IsDir st.parentInodeNo.toNat := by
        rw [hze]
        exact ht.root
      exact ⟨(h.dirOpen ht hk1 hdir ho).1, .nameless rfl rfl hca.path⟩
    · obtain ⟨hk2, hat, hro⟩ := h.dirOpen ht hk1 (hw.isDir ht ht.root) ho
      exact ⟨hk2, .directory rfl hw hat he hdir hno rfl hro⟩
  | name :: rest, done, q, st, fs, r, no, hk, hca, hn, hlen, hr => by
    simp only [OperateSystem.searchLoop, bind_ok] at hr
    obtain ⟨_, -, c, hc, found, hf, hr⟩ := hr
    have hs := h.shows hk
    obtain ⟨c', hc', hmem, hq⟩ := hca.at_.cached hs
    cases hc.symm.trans hc'
    obtain ⟨nd, hnd, hdir⟩ := hca.walk.isDir ht ht.root
    have hpu := hs.cached c hmem nd (by rw [hq]; exact hnd) hdir
    obtain ⟨hne, hz⟩ := hn name List.mem_cons_self
    have hsh := hlen name rfl
    obtain ⟨hso, hnn⟩ := (hs.holds hnd hdir).lookup hdir hpu hne hz hsh hf
    have hpa : st.searchedPath ++ slash :: name = joinPath (done ++ [name]) := by
      rw [joinPath_append, ← hca.path]
      simp
    cases found with
    | none =>
      cases hr
      refine ⟨hk, .missing rfl hca.walk hca.at_ rfl rfl hpa hsh fun hm k i e he => ?_⟩
      obtain ⟨nd', hnd', -, hent⟩ := he
      cases hnd.symm.trans hnd'
      exact hnn rfl hm k i e hent
    | some e =>
      obtain ⟨hna, k, i, hent⟩ := hso e rfl
      subst hna
      have he : t.Entry q k i e := ⟨nd, hnd, hdir, hent⟩
      obtain ⟨_, hnx, hr⟩ := bind_ok.mp hr
      split at hr
      · rename_i hed
        simp only [bind_ok] at hr
        obtain ⟨fs1, hcl, ⟨fs2, d⟩, ho, hr⟩ := hr
        obtain ⟨hk2, hat, -⟩ := h.dirOpen ht (h.dirClose hk hcl) ((ht.dir_entry he).mp hed) ho
        have ih := h.searchLoop ht rest (done ++ [e.name]) e.iNo.toNat ⟨fs2, d, c.inode.iNo, st.searchedPath ++ slash :: e.name, e.iNo⟩
          hk2 ⟨hca.walk.snoc he hed, hat, hpa, .inr ⟨done, k, i, e, rfl, by rw [hq]; exact hca.walk, by rw [hq]; exact he, hed, rfl⟩⟩
          (fun x hx => hn x (.tail _ hx)) (inBounds_ok.mp hnx) hr
        rwa [List.append_assoc, List.singleton_append] at ih
      · rename_i hed
        rw [if_pos ((ht.regular_entry he).resolve_left hed)] at hr
        cases hr
        exact ⟨hk, .regular rfl hca.walk hca.at_ he ((ht.regular_entry he).resolve_left hed) rfl rfl hpa⟩

theorem TreeTracks.searchFile (h : TreeTracks b t K) (ht : t.Shaped) (hpa : 0 ∉ pathname) (hk : K s l)
    (hr : searchFile b s pathname mem old = .ok (s', r, no)) :
    K s' (r.parentDir.held ++ l) ∧ ((pathname ∈ rootPaths ∧ s' = s ∧ r = ⟨[], s.rootPtr, ftDirectory⟩ ∧ no = 0) ∨
      (pathname ∉ rootPaths ∧ SearchEnd t mem (names pathname) s' r no)) := by
  unfold OperateSystem.searchFile at hr
  split at hr
  · rename_i hro
    cases hr
    exact ⟨hk, .inl ⟨hro, rfl, rfl, rfl⟩⟩
  · rename_i hro
    simp only [bind_ok] at hr
    obtain ⟨_, -, _, hh, hr⟩ := hr
    have hc : Came t ⟨s, s.rootPtr, 0, [], old⟩ [] 0 := ⟨.nil, h.root hk, rfl, .inl ⟨rfl, rfl⟩⟩
    obtain ⟨hk', hend⟩ := h.searchLoop ht (names pathname) [] 0 ⟨s, s.rootPtr, 0, [], old⟩ hk hc
      (fun x hx => ⟨(names_isName hx).1, fun hz => hpa (names_sub hx hz)⟩) (inBounds_ok.mp hh) hr
    exact ⟨hk', .inr ⟨hro, hend⟩⟩

theorem rootPaths_normalise : ∀ pathname ∈ rootPaths, normalise (names pathname) = [] := by decide

theorem rootPaths_names : ∀ path ∈ rootPaths, ∀ x ∈ names path, x.length < 16 := by decide

theorem TreeTracks.directory (hk : TreeTracks b t K) (ht : t.Shaped) {path : List UInt8} {d : UInt32}
    (hnul : 0 ∉ path) (hn : path ∈ rootPaths ∨ names path ≠ []) (h : K s l)
    (hs : OperateSystem.searchFile b s path mem old = .ok (s', r, d))
    (hdir : r.fileType = ftDirectory) :
    K s' (r.parentDir.held ++ l) ∧ t.PathOf d.toNat (normalise (names path)) ∧ t.IsDir d.toNat ∧ ∀ x ∈ names path, x.length < 16 := by
  obtain ⟨h', hend⟩ := hk.searchFile ht hnul h hs
  refine ⟨h', ?_⟩
  rcases hend with ⟨hr, -, -, rfl⟩ | ⟨hr, hend⟩
  · rw [rootPaths_normalise path hr]
    exact ⟨.root, ht.root, rootPaths_names path hr⟩
  · cases hend with
    | missing _ _ _ _ hty =>
      rw [hdir] at hty
      exact absurd hty (by decide)
    | regular _ _ _ _ _ _ hty =>
      rw [hdir] at hty
      exact absurd hty (by decide)
    | directory hsp hw _ he hed hno =>
      have hwa := hw.snoc he hed
      rw [← hsp, ← hno] at hwa
      exact ⟨hwa.normalise ht, hwa.isDir ht ht.root, (hk.shows h').walk_names hwa⟩
    | nameless hnil => exact absurd hnil (hn.resolve_left hr)

theorem searchFile_head (h : OperateSystem.searchFile .debug s pathname mem old = .ok (s', r, no)) :
    pathname.head? = some slash := by
  unfold OperateSystem.searchFile at h
  split at h
  · rename_i hr
    have hall : ∀ path ∈ rootPaths, path.head? = some slash := by decide
    exact hall pathname hr
  · obtain ⟨_, ha, -⟩ := bind_ok.mp h
    exact (assert_debug_ok.mp ha).1

theorem searched_all {name : List UInt8} {pre post : List (List UInt8)} {old old' : UInt8} {n : Nat}
    (hs : names pathname = pre ++ name :: post) (h1 : pathDepthCnt pathname old = .ok n)
    (h2 : pathDepthCnt (joinPath (pre ++ [name])) old' = .ok n) : post = [] := by
  have hsub : pre ++ [name] ⊆ names pathname := by
    rw [hs]
    exact List.append_subset.mpr ⟨List.subset_append_left _ _, fun x hx => by simp_all⟩
  have hn := names_join fun x hx => names_isName (hsub hx)
  obtain ⟨_, -, h1⟩ := bind_ok.mp h1
  obtain ⟨_, -, h2⟩ := bind_ok.mp h2
  rw [hs, if_neg (by simp), pure_ok, Except.ok.injEq] at h1
  rw [hn, if_neg (by simp), pure_ok, Except.ok.injEq] at h2
  rw [← h2, List.length_append, List.length_append, List.length_cons, List.length_singleton] at h1
  exact List.length_eq_zero_iff.mp (by omega)

end

end OperateSystem
