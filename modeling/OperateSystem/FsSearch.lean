import OperateSystem.FsCalls
import OperateSystem.Accounting

/-!
# The path search and the cache

`search_file` opens and closes inodes and changes nothing else.
-/

namespace OperateSystem

namespace Fs

variable {part : Partition} {b : Build} {s s' : Fs part}
variable {c : CachedInode} {a : Nat}

inductive CacheStep (b : Build) : Fs part → Fs part → Prop
  | opened {s s' : Fs part} {inodeNo : UInt32} {a : Nat} (h : s.inodeOpen b inodeNo = .ok (s', a)) : CacheStep b s s'
  | closed {s s' : Fs part} {a : Nat} (h : s.inodeClose b a = .ok s') : CacheStep b s s'

abbrev CacheRun (b : Build) : Fs part → Fs part → Prop := Relation.ReflTransGen (CacheStep b)

structure SameRest (s s' : Fs part) : Prop where
  vol : s'.vol = s.vol
  fileTable : s'.fileTable = s.fileTable
  rootDir : s'.rootDir = s.rootDir
  dirs : s'.dirs = s.dirs
  procs : s'.procs = s.procs

theorem SameRest.refl (s : Fs part) : SameRest s s := ⟨rfl, rfl, rfl, rfl, rfl⟩

theorem SameRest.trans {s1 s2 s3 : Fs part} (h1 : SameRest s1 s2) (h2 : SameRest s2 s3) : SameRest s1 s3 :=
  ⟨h2.vol.trans h1.vol, h2.fileTable.trans h1.fileTable, h2.rootDir.trans h1.rootDir, h2.dirs.trans h1.dirs,
    h2.procs.trans h1.procs⟩

theorem inodeOpen_cases {inodeNo : UInt32} (h : s.inodeOpen b inodeNo = .ok (s', a)) :
    (∃ c ∈ s.openInodes, c.inode.iNo = inodeNo ∧ a = c.addr ∧ s' = s.store { c with iOpenCnts := c.iOpenCnts + 1 }) ∨
      (∃ i, (∀ c ∈ s.openInodes, c.inode.iNo ≠ inodeNo) ∧ inodeRead b part s.vol.disk inodeNo.toNat = .ok i ∧ a = s.newAddr ∧
        s' = s.push ⟨s.newAddr, i, 1, .pfKernel⟩) := by
  unfold inodeOpen at h
  split at h
  · rename_i c hc
    cases h
    exact .inl ⟨c, List.mem_of_find?_eq_some hc, by simpa using List.find?_some hc, rfl, rfl⟩
  · rename_i hn
    obtain ⟨i, hi, h⟩ := bind_ok.mp h
    cases h
    exact .inr ⟨i, fun c hc => by simpa using List.find?_eq_none.mp hn c hc, hi, rfl, rfl⟩

theorem mem_store {x : CachedInode} (h : x ∈ (s.store c).openInodes) : x = c ∨ x ∈ s.openInodes := by
  obtain ⟨y, hy, rfl⟩ := List.mem_map.mp h
  split
  · exact .inl rfl
  · exact .inr hy

theorem cached_ok (h : s.cached a = .ok c) : c ∈ s.openInodes ∧ c.addr = a := by
  have h := deref_ok.mp h
  exact ⟨List.mem_of_find?_eq_some h, by simpa using List.find?_some h⟩

theorem lt_newAddr (h : c ∈ s.openInodes) : c.addr < s.newAddr := by
  have hle : ∀ (l : List Nat) (n : Nat), ∀ x ∈ l, x ≤ l.foldr max n := fun l n => by
    induction l with
    | nil => exact fun x hx => absurd hx List.not_mem_nil
    | cons y l ih =>
      intro x hx
      rcases List.mem_cons.mp hx with rfl | hx
      · exact Nat.le_max_left _ _
      · exact Nat.le_trans (ih x hx) (Nat.le_max_right _ _)
  exact Nat.lt_succ_of_le (hle _ _ _ (List.mem_map_of_mem h))

/-! ## Addresses and slots -/

section
variable {c c' x : CachedInode}

theorem eq_of_addr (h : (s.openInodes.map (·.addr)).Nodup) (hc : c ∈ s.openInodes) (hx : x ∈ s.openInodes)
    (e : x.addr = c.addr) : x = c := List.inj_on_of_nodup_map h hx hc e

theorem cached_of_mem (h : (s.openInodes.map (·.addr)).Nodup) (hc : c ∈ s.openInodes) : s.cached c.addr = .ok c := by
  unfold Fs.cached
  refine deref_ok.mpr ?_
  cases hf : s.openInodes.find? (·.addr = c.addr) with
  | none => exact absurd (List.find?_eq_none.mp hf c hc) (by simp)
  | some x =>
    have he : x.addr = c.addr := by simpa using List.find?_some hf
    rw [eq_of_addr h hc (List.mem_of_find?_eq_some hf) he]

theorem mem_store_iff (hc : c ∈ s.openInodes) (ha : c'.addr = c.addr) :
    x ∈ (s.store c').openInodes ↔ x = c' ∨ (x ∈ s.openInodes ∧ x.addr ≠ c.addr) := by
  unfold store
  rw [← ha]
  constructor
  · intro hx
    obtain ⟨y, hy, rfl⟩ := List.mem_map.mp hx
    split
    · exact .inl rfl
    · rename_i hne
      exact .inr ⟨hy, hne⟩
  · rintro (rfl | ⟨hx, hne⟩)
    · exact List.mem_map.mpr ⟨c, hc, if_pos ha.symm⟩
    · exact List.mem_map.mpr ⟨x, hx, if_neg hne⟩

theorem mem_count_iff (hc : c ∈ s.openInodes) (n : Nat) : x ∈ (s.store { c with iOpenCnts := n }).openInodes ↔
    x = { c with iOpenCnts := n } ∨ (x ∈ s.openInodes ∧ x.addr ≠ c.addr) := mem_store_iff hc rfl

theorem map_store {β : Type} (f : CachedInode → β) (h : (s.openInodes.map (·.addr)).Nodup) (hc : c ∈ s.openInodes)
    (ha : c'.addr = c.addr) (hf : f c' = f c) : (s.store c').openInodes.map f = s.openInodes.map f := by
  unfold store
  rw [List.map_map]
  refine List.map_congr_left fun x hx => ?_
  show f (if x.addr = c'.addr then c' else x) = f x
  split
  · rename_i e
    rw [hf, eq_of_addr h hc hx (e.trans ha)]
  · rfl

end

def slots (s : Fs part) (a : Nat) : Nat :=
  ((List.finRange 32).map fun g => if (s.fileTable g).fdInode = some a then 1 else 0).sum

theorem slots_setFile (s : Fs part) (g : Fin 32) (f : File) (a : Nat) :
    (s.setFile g f).slots a + (if (s.fileTable g).fdInode = some a then 1 else 0) =
      s.slots a + if f.fdInode = some a then 1 else 0 :=
  sum_map_update (fun f : File => if f.fdInode = some a then 1 else 0) s.fileTable g f (List.nodup_finRange 32)
    (List.mem_finRange g)

theorem slots_pos {g : Fin 32} (h : (s.fileTable g).fdInode = some a) : 0 < s.slots a := by
  have hmem : 1 ∈ (List.finRange 32).map fun g => if (s.fileTable g).fdInode = some a then 1 else 0 :=
    List.mem_map.mpr ⟨g, List.mem_finRange g, if_pos h⟩
  exact List.single_le_sum (fun _ _ => Nat.zero_le _) _ hmem

theorem inodeClose_cases (h : s.inodeClose b a = .ok s') : ∃ c, s.cached a = .ok c ∧
    ((c.iOpenCnts = 1 ∧ (b = .debug → c.pool = .pfKernel) ∧
        s' = { s with openInodes := s.openInodes.filter fun x => x.addr ≠ a, freed := (c.pool, .pfKernel) :: s.freed }) ∨
      (c.iOpenCnts ≠ 1 ∧ s' = s.store { c with iOpenCnts := c.iOpenCnts - 1 })) := by
  unfold inodeClose at h
  obtain ⟨c, hc, h⟩ := bind_ok.mp h
  refine ⟨c, hc, ?_⟩
  split at h
  · rename_i hone
    obtain ⟨_, hpo, h⟩ := bind_ok.mp h
    cases h
    refine .inl ⟨hone, fun hb => ?_, rfl⟩
    subst hb
    exact assert_debug_ok.mp hpo
  · rename_i hone
    cases h
    exact .inr ⟨hone, rfl⟩

theorem CacheStep.rest (h : CacheStep b s s') : SameRest s s' := by
  cases h with
  | opened h => obtain ⟨_, -, -, -, rfl⟩ | ⟨_, -, -, -, rfl⟩ := inodeOpen_cases h <;> exact ⟨rfl, rfl, rfl, rfl, rfl⟩
  | closed h => obtain ⟨_, -, ⟨-, -, rfl⟩ | ⟨-, rfl⟩⟩ := inodeClose_cases h <;> exact ⟨rfl, rfl, rfl, rfl, rfl⟩

theorem CacheRun.rest (h : CacheRun b s s') : SameRest s s' := by
  induction h with
  | refl => exact .refl s
  | tail _ hs ih => exact ih.trans hs.rest

theorem dirOpen_run {inodeNo : UInt32} {d : DirPtr} (h : s.dirOpen b inodeNo = .ok (s', d)) : CacheRun b s s' := by
  unfold dirOpen at h
  obtain ⟨⟨s1, a⟩, ho, h⟩ := bind_ok.mp h
  cases h
  exact .single (.opened ho)

theorem dirClose_run {d : DirPtr} (h : s.dirClose b d = .ok s') : CacheRun b s s' := by
  unfold dirClose at h
  split at h
  · cases h
    exact .refl
  · exact .single (.closed h)

end Fs

section
variable {part : Partition} {b : Build} {mem : Nat → Bool}
variable {s s' : Fs part} {no : UInt32}

theorem inodeBitmapAlloc_ok {vol vol' : Volume part} {r : Option Nat} (h : inodeBitmapAlloc b vol = .ok (r, vol')) :
    vol'.disk = vol.disk ∧ vol'.blockBitmap = vol.blockBitmap := by
  unfold inodeBitmapAlloc at h
  obtain ⟨x, -, h⟩ := bind_ok.mp h
  cases x with
  | none =>
    cases h
    exact ⟨rfl, rfl⟩
  | some i =>
    cases h
    exact ⟨rfl, rfl⟩

theorem inodeBitmapAlloc_some {vol vol' : Volume part} {n : Nat} (h : inodeBitmapAlloc b vol = .ok (some n, vol')) :
    vol.inodeBitmap.bit n = false ∧ vol'.inodeBitmap = bitmapSet vol.inodeBitmap n true := by
  unfold inodeBitmapAlloc at h
  obtain ⟨x, hs, h⟩ := bind_ok.mp h
  cases x with
  | none => cases h
  | some i =>
    cases h
    exact ⟨(bitmapScan_sound hs).1 n le_rfl (by omega), rfl⟩

theorem searchLoop_run : ∀ (names : List (List UInt8)) (st : Searching part) {fs : Fs part} {r : PathSearchRecord} {no : UInt32},
    searchLoop b mem names st = .ok (fs, r, no) → Fs.CacheRun b st.fs fs
  | [], st, fs, r, no, h => by
    simp only [searchLoop, bind_ok] at h
    obtain ⟨fs1, hc, ⟨fs2, d⟩, ho, h⟩ := h
    cases h
    exact (Fs.dirClose_run hc).trans (Fs.dirOpen_run ho)
  | name :: rest, st, fs, r, no, h => by
    simp only [searchLoop, bind_ok] at h
    obtain ⟨_, -, c, -, found, -, h⟩ := h
    cases found with
    | none =>
      cases h
      exact .refl
    | some e =>
      obtain ⟨_, -, h⟩ := bind_ok.mp h
      split at h
      · simp only [bind_ok] at h
        obtain ⟨fs1, hc, ⟨fs2, d⟩, ho, h⟩ := h
        exact ((Fs.dirClose_run hc).trans (Fs.dirOpen_run ho)).trans (searchLoop_run rest _ h)
      · split at h
        · cases h
          exact .refl
        · have hrun := searchLoop_run rest _ h
          exact hrun

theorem searchFile_run {pathname : List UInt8} {old : UInt32} {r : PathSearchRecord}
    (h : searchFile b s pathname mem old = .ok (s', r, no)) : Fs.CacheRun b s s' := by
  unfold searchFile at h
  split at h
  · cases h
    exact .refl
  · simp only [bind_ok] at h
    obtain ⟨_, -, _, -, h⟩ := h
    exact searchLoop_run _ _ h

/-! ## The directory that is left open -/

def DirPtr.held (d : DirPtr) : List Nat := if d.isRootDir then [] else [d.inode]

structure Tracks (b : Build) (K : Fs part → List Nat → Prop) : Prop where
  opened : ∀ {s s' : Fs part} {no : UInt32} {a : Nat} {l : List Nat}, K s l → s.inodeOpen b no = .ok (s', a) → K s' (a :: l)
  closed : ∀ {s s' : Fs part} {a : Nat} {l : List Nat}, K s (a :: l) → s.inodeClose b a = .ok s' → K s' l

variable {K : Fs part → List Nat → Prop} {l : List Nat}

theorem Tracks.dirOpen (h : Tracks b K) {d : DirPtr} (hk : K s l) (hr : s.dirOpen b no = .ok (s', d)) :
    K s' (d.held ++ l) := by
  unfold Fs.dirOpen at hr
  obtain ⟨⟨s1, a⟩, ho, hr⟩ := bind_ok.mp hr
  cases hr
  exact h.opened hk ho

theorem Tracks.dirClose (h : Tracks b K) {d : DirPtr} (hk : K s (d.held ++ l))
    (hr : s.dirClose b d = .ok s') : K s' l := by
  unfold Fs.dirClose at hr
  unfold DirPtr.held at hk
  split at hr
  · rename_i hro
    cases hr
    rwa [if_pos hro] at hk
  · rename_i hro
    rw [if_neg hro] at hk
    exact h.closed hk hr

theorem Tracks.searchLoop (h : Tracks b K) : ∀ (names : List (List UInt8)) (st : Searching part) {fs : Fs part}
    {r : PathSearchRecord} {no : UInt32}, K st.fs (st.parentDir.held ++ l) →
    searchLoop b mem names st = .ok (fs, r, no) → K fs (r.parentDir.held ++ l)
  | [], st, fs, r, no, hk, hr => by
    simp only [OperateSystem.searchLoop, bind_ok] at hr
    obtain ⟨fs1, hc, ⟨fs2, d⟩, ho, hr⟩ := hr
    cases hr
    exact h.dirOpen (h.dirClose hk hc) ho
  | name :: rest, st, fs, r, no, hk, hr => by
    simp only [OperateSystem.searchLoop, bind_ok] at hr
    obtain ⟨_, -, c, -, found, -, hr⟩ := hr
    cases found with
    | none =>
      cases hr
      exact hk
    | some e =>
      obtain ⟨_, -, hr⟩ := bind_ok.mp hr
      split at hr
      · simp only [bind_ok] at hr
        obtain ⟨fs1, hc, ⟨fs2, d⟩, ho, hr⟩ := hr
        exact h.searchLoop rest _ (h.dirOpen (h.dirClose hk hc) ho) hr
      · split at hr
        · cases hr
          exact hk
        · exact h.searchLoop rest { st with searchedPath := st.searchedPath ++ slash :: name, iNo := e.iNo } hk hr

theorem Tracks.searchFile (h : Tracks b K) {pathname : List UInt8} {old : UInt32} {r : PathSearchRecord}
    (hk : K s l) (hr : searchFile b s pathname mem old = .ok (s', r, no)) : K s' (r.parentDir.held ++ l) := by
  unfold OperateSystem.searchFile at hr
  split at hr
  · cases hr
    exact hk
  · simp only [bind_ok] at hr
    obtain ⟨_, -, _, -, hr⟩ := hr
    exact h.searchLoop _ _ hk hr

end

end OperateSystem
