import OperateSystem.GetcwdSound

/-!
# Paths that are looked up name by name

`search_file` does the lookups of a path, and `sys_unlink` and `sys_stat` act on what it
finds even if there are names left.
-/

namespace OperateSystem

theorem pathDepthCnt_of {pathname : List UInt8} (hn : names pathname ≠ []) (hs : ∀ x ∈ names pathname, x.length ≤ 16)
    (old : UInt8) : pathDepthCnt pathname old = .ok (names pathname).length := by
  unfold pathDepthCnt
  rw [inBounds_of hs, ok_bind, if_neg hn]
  rfl

/-- **The path search.** Where no proper prefix of a path names a regular file, `search_file` does
the lookups one after the other and reports the last one. -/
theorem Fs.path_walk_correct {part : Partition} {b : Build} {s : Fs part} {t : Tree} {mem : Nat → Bool} {pathname : List UInt8}
    (ht : t.Shaped) (hs : s.Shows t) (hcache : s.CacheOk) (hroot : s.At s.rootDir 0) (hhead : pathname.head? = some slash)
    (hnul : 0 ∉ pathname) (hlen : pathname.length < 512) (hname : components pathname ≠ [])
    (hshort : ∀ x ∈ components pathname, x.length ≤ 15) (hdots : pathname ∉ rootPaths)
    (hfile : t.NoFilePrefix 0 (components pathname)) (old : UInt32) :
    let R := t.resolve mem 0 (components pathname)
    ∃ s' r no, searchFile b s pathname mem old = .ok (s', r, no) ∧ no = (R.found.map (·.iNo)).getD (-1) ∧
      r.searchedPath = joinPath R.lookedUp ∧ s'.At r.parentDir.inode R.dir ∧ Reopened s s' r.parentDir.held ∧
      r.fileType = (R.found.map (·.fType)).getD 0 ∧
      ∀ old old', pathDepthCnt r.searchedPath old = pathDepthCnt pathname old' ↔ R.lookedUp = components pathname := by
  intro R
  have hc := names_eq_components pathname
  obtain ⟨s', r, no, hr, hk, hf⟩ := (visits_total (b := b) ht hcache hroot).searchFile_follows ht (.start hs hcache) hhead hlen
    (hc ▸ hname) (fun x hx hz => hnul (names_sub hx hz)) (fun x hx => Nat.lt_succ_of_le (hshort x (hc ▸ hx))) hdots (hc ▸ hfile) old
  rw [hc] at hf
  refine ⟨s', r, no, hr, hf.number, hf.path, hf.parent, by simpa using hk.reopened, hf.type, fun old old' => ?_⟩
  -- The names that were looked up are those of the searched path.
  have hpre : R.lookedUp <+: components pathname := t.resolve_lookedUp mem _ 0
  have hsub : ∀ x ∈ R.lookedUp, x ∈ names pathname := fun x hx => hc ▸ hpre.subset hx
  have hn : names r.searchedPath = R.lookedUp := by
    rw [hf.path, List.nil_append]
    exact names_join fun x hx => names_isName (hsub x hx)
  have hshort' : ∀ x ∈ names pathname, x.length ≤ 16 := fun x hx => Nat.le_succ_of_le (hshort x (hc ▸ hx))
  rw [pathDepthCnt_of (by rw [hn]; exact t.resolve_lookedUp_ne_nil mem hname 0)
    (by rw [hn]; exact fun x hx => hshort' x (hsub x hx)), pathDepthCnt_of (hc ▸ hname) hshort', hn, hc, Except.ok.injEq]
  constructor
  · exact hpre.eq_of_length
  · exact congrArg List.length

theorem homeTree_walk : homeTree.Walk 0 [[97]] 1 :=
  @Tree.Walk.cons homeTree 0 1 0 2 (homeEntry 0 2) [] (homeTree_entry.mpr ⟨by decide, rfl, by decide, rfl⟩) rfl .nil

theorem Fs.path_walk_correct_home : ∃ s' r no, searchFile .debug homeFs [47, 97, 47, 102] (fun _ => true) 0 = .ok (s', r, no) ∧
    no = 2 ∧ r.fileType = ftRegular ∧ r.searchedPath = [47, 97, 47, 102] ∧ s'.At r.parentDir.inode 1 := by
  have hc : components [47, 97, 47, 102] = [[97], [102]] := by decide +kernel
  have hf : homeTree.NoFilePrefix 0 (components [47, 97, 47, 102]) := by
    rw [hc]
    exact homeFs_shows.noFilePrefix homeTree_walk [102]
  have hR : homeTree.resolve (fun _ => true) 0 [[97], [102]] = ⟨[[97], [102]], 1, some (homeEntry 1 2)⟩ := rfl
  obtain ⟨s', r, no, hr, hno, hpa, hat, -, ht, -⟩ := @Fs.path_walk_correct _ .debug homeFs homeTree (fun _ => true)
    _ homeTree_ok.toShaped homeFs_shows homeFs_cacheOk homeFs_root rfl (by decide) (by decide) (by decide +kernel) (by decide +kernel)
    (by decide) hf 0
  rw [hc, hR] at hno hpa hat ht
  exact ⟨s', r, no, hr, hno, ht, hpa, hat⟩

/-! ## Paths that resolve -/

namespace Fs

variable {part : Partition} {s : Fs part} {t : Tree} {k i : Nat} {e : DirEntry} {xs : List (List UInt8)}

theorem Shows.resolves_iff {s' : Fs part} {mem : Nat → Bool} {r : PathSearchRecord} {no : UInt32} (hs : s.Shows t) (ht : t.Shaped)
    (h : SearchEnd t mem xs s' r no) (hno : no ≠ -1) : (t.Resolves xs ↔ t.NoFilePrefix 0 xs) ∧
      (t.NoFilePrefix 0 xs → xs ≠ [] → (t.resolve (fun _ => true) 0 xs).found.map (·.iNo) = some no) := by
  cases h with
  | missing _ _ _ h => exact absurd h hno
  | @regular pre post q k i e hsp hw _ he hreg hno =>
    subst hsp hno
    by_cases hpo : post = []
    · subst hpo
      have hf := hs.resolves_last hw he
      exact ⟨iff_of_true (fun _ => ⟨e, hf⟩) (hs.noFilePrefix hw e.name), fun _ _ => by rw [hf]; rfl⟩
    · obtain ⟨h1, h2⟩ := hs.below_file ht hw he hreg hpo
      exact ⟨iff_of_false h1 h2, fun h => absurd h h2⟩
  | @directory pre q k i e hsp hw _ he hdir hno =>
    subst hsp hno
    have hf := hs.resolves_last hw he
    exact ⟨iff_of_true (fun _ => ⟨e, hf⟩) (hs.noFilePrefix hw e.name), fun _ _ => by rw [hf]; rfl⟩
  | nameless hnil =>
    subst hnil
    exact ⟨iff_of_true (fun h => absurd rfl h) Tree.noFilePrefix_nil, fun _ h => absurd rfl h⟩

theorem Shows.root_entry (hs : s.Shows t) (he : t.Entry 0 k i e) (hno : e.iNo = 0) : t.Resolves [e.name] ∧
    t.NoFilePrefix 0 [e.name] ∧ (t.resolve (fun _ => true) 0 [e.name]).found.map (·.iNo) = some 0 := by
  have hf : (t.resolve (fun _ => true) 0 [e.name]).found = some e := hs.resolves_last .nil he
  refine ⟨fun _ => ⟨e, hf⟩, Tree.noFilePrefix_single, ?_⟩
  rw [hf, Option.map_some, hno]

theorem Shows.root_resolves (hs : s.Shows t) (ht : t.Shaped) {path : List UInt8} (h : path ∈ rootPaths) : t.Resolves (names path) ∧
    t.NoFilePrefix 0 (names path) ∧ (names path ≠ [] → (t.resolve (fun _ => true) 0 (names path)).found.map (·.iNo) = some 0) := by
  obtain ⟨nd, hnd, hdir⟩ := ht.root
  rcases (show path = [slash] ∨ path = slash :: dot ∨ path = slash :: dotDot by simpa [rootPaths] using h) with rfl | rfl | rfl
  · exact ⟨fun h => absurd rfl h, Tree.noFilePrefix_nil, fun h => absurd rfl h⟩
  · obtain ⟨h1, h2, h3⟩ := hs.root_entry ⟨nd, hnd, hdir, ht.dot hnd hdir⟩ rfl
    exact ⟨h1, h2, fun _ => h3⟩
  · obtain ⟨p, hp, hpa⟩ := ht.dotDot hnd hdir
    have hz : p = 0 := by
      rcases hpa with ⟨-, rfl⟩ | ⟨k, i, e, hc, hno⟩
      · rfl
      · exact absurd hno (ht.leads hc).1
    obtain ⟨h1, h2, h3⟩ := hs.root_entry ⟨nd, hnd, hdir, hp⟩ (by rw [hz]; rfl)
    exact ⟨h1, h2, fun _ => h3⟩

/-- **`sys_unlink` and `sys_stat` succeed only for a path that resolves, iff** no proper prefix of
it names a regular file. -/
theorem unlink_stat_resolve_iff {b : Build} {env : CallEnv} {path : List UInt8} (ht : t.Shaped) (hs : s.Shows t)
    (hcache : s.CacheOk) (hroot : s.At s.rootDir 0) (hnul : 0 ∉ path) :
    (∀ s', s.sysUnlink b env path = .ok (s', true) →
      (t.Resolves (components path) ↔ t.NoFilePrefix 0 (components path))) ∧
      ∀ s' buf, s.sysStat b env path = .ok (s', some buf) →
        (t.Resolves (components path) ↔ t.NoFilePrefix 0 (components path)) ∧
          (t.NoFilePrefix 0 (components path) → components path ≠ [] →
            (t.resolve (fun _ => true) 0 (components path)).found.map (·.iNo) = some buf.stIno) := by
  have hk := (visits_total (b := b) ht hcache hroot).toTreeTracks
  rw [← names_eq_components]
  constructor
  · intro s' hr
    unfold sysUnlink at hr
    obtain ⟨_, -, hr⟩ := bind_ok.mp hr
    obtain ⟨⟨s1, r, no⟩, hse, hr⟩ := bind_ok.mp hr
    obtain ⟨_, -, hr⟩ := bind_ok.mp hr
    obtain ⟨inUse, huse, hr⟩ := bind_ok.mp hr
    obtain ⟨-, hend⟩ := hk.searchFile ht hnul (.start hs hcache) hse
    have hno : no ≠ -1 := by
      rintro rfl
      rw [if_pos (.inl rfl)] at huse
      cases huse
      rw [if_pos (.inl rfl)] at hr
      obtain ⟨s2, -, hr⟩ := bind_ok.mp hr
      cases hr
    rcases hend with ⟨hpa, -⟩ | ⟨-, hend⟩
    · obtain ⟨h1, h2, -⟩ := hs.root_resolves ht hpa
      exact iff_of_true h1 h2
    · exact (hs.resolves_iff ht hend hno).1
  · intro s' buf hr
    unfold sysStat at hr
    split at hr
    · rename_i hpa
      obtain ⟨c, -, hr⟩ := bind_ok.mp hr
      cases hr
      obtain ⟨h1, h2, h3⟩ := hs.root_resolves ht hpa
      exact ⟨iff_of_true h1 h2, fun _ => h3⟩
    · rename_i hpa
      obtain ⟨⟨s1, r, no⟩, hse, hr⟩ := bind_ok.mp hr
      obtain ⟨-, hend⟩ := hk.searchFile ht hnul (.start hs hcache) hse
      have hend := (hend.resolve_left fun h => hpa h.1).2
      dsimp only at hr
      split at hr
      · rename_i hno
        obtain ⟨⟨s2, a⟩, -, hr⟩ := bind_ok.mp hr
        obtain ⟨c, -, hr⟩ := bind_ok.mp hr
        obtain ⟨s3, -, hr⟩ := bind_ok.mp hr
        obtain ⟨s4, -, hr⟩ := bind_ok.mp hr
        cases hr
        exact hs.resolves_iff ht hend hno
      · obtain ⟨s2, -, hr⟩ := bind_ok.mp hr
        cases hr

theorem unlink_stat_resolve_home : ∃ s' buf, homeFs.sysStat .debug homeEnv [47, 97, 47, 102] = .ok (s', some buf) ∧
    homeTree.NoFilePrefix 0 [[97], [102]] ∧ homeTree.Resolves [[97], [102]] := by
  have hret : (homeFs.sysStat .debug homeEnv [47, 97, 47, 102]).toOption.any (·.2.isSome) = true := by decide +kernel
  obtain ⟨⟨s', buf⟩, hr, hs⟩ := exists_of_any hret
  obtain ⟨buf, rfl⟩ := Option.isSome_iff_exists.mp hs
  have hf := homeFs_shows.noFilePrefix homeTree_walk [102]
  have hiff := (unlink_stat_resolve_iff homeTree_ok.toShaped homeFs_shows homeFs_cacheOk homeFs_root (by decide)).2 s' buf hr
  exact ⟨s', buf, hr, hf, hiff.1.mpr hf⟩

/-- `sys_unlink` of `"/a/f/x"` deletes the regular file `"/a/f"`, and `sys_stat` reports it. -/
theorem unlink_below_file : ¬ homeTree.Resolves (components [47, 97, 47, 102, 47, 120]) ∧
    (∃ s' r, homeFs.sysUnlink .debug homeEnv [47, 97, 47, 102, 47, 120] = .ok (s', true) ∧
      searchFile .debug s' [47, 97, 47, 102] (fun _ => true) 0 = .ok r ∧ r.2.2 = -1) ∧
    ∃ s' buf, homeFs.sysStat .debug homeEnv [47, 97, 47, 102, 47, 120] = .ok (s', some buf) ∧ buf.stIno = 2 := by
  refine ⟨?_, ?_, ?_⟩
  · have hn : (homeTree.resolve (fun _ => true) 0 (components [47, 97, 47, 102, 47, 120])).found.isNone = true := by decide +kernel
    intro h
    obtain ⟨e, he⟩ := h (by decide +kernel)
    rw [he] at hn
    cases hn
  · have hret : (homeFs.sysUnlink .debug homeEnv [47, 97, 47, 102, 47, 120]).toOption.any (fun x =>
        x.2 && (searchFile .debug x.1 [47, 97, 47, 102] (fun _ => true) 0).toOption.any (·.2.2 = -1)) = true := by decide +kernel
    obtain ⟨⟨s', ok⟩, hr, hx⟩ := exists_of_any hret
    obtain ⟨rfl, hx⟩ := (Bool.and_eq_true _ _).mp hx
    obtain ⟨r, hs, hno⟩ := exists_of_any hx
    exact ⟨s', r, hr, hs, of_decide_eq_true hno⟩
  · have hret : (homeFs.sysStat .debug homeEnv [47, 97, 47, 102, 47, 120]).toOption.any (·.2.any (·.stIno = 2)) = true := by
      decide +kernel
    obtain ⟨⟨s', buf⟩, hr, hx⟩ := exists_of_any hret
    cases buf with
    | none => cases hx
    | some buf => exact ⟨s', buf, hr, of_decide_eq_true hx⟩

end Fs

end OperateSystem
