import OperateSystem.PathWalk

/-!
# `cd`

`make_clear_abs_path` and `buildin_cd` of `shell/buildin_cmd.c`: a relative path is put behind the
working directory's and washed, and the result is what `chdir` gets.
-/

namespace OperateSystem

namespace Fs

variable {part : Partition}

/-- `abs_path` has 512 characters. It is empty before the path if `getcwd` fails. -/
def makeClearAbsPath (b : Build) (s : Fs part) (ioBuf : Bool) (rounds p : Nat) (path : List UInt8) :
    Exec (Fs part × List UInt8) := do
  let (s, cwd) ← (if path.head? ≠ some slash then s.sysGetcwd b ioBuf rounds p 512 else return (s, none))
  let absPath := match cwd with
    | none => []
    | some cwd => if cwd ≠ [slash] then cwd ++ [slash] else cwd
  inBounds ((absPath ++ path).length < 512)
  let finalPath ← washPath b (absPath ++ path)
  return (s, finalPath)

/-- `none` is the return value `NULL`. What is printed is left out. -/
def buildinCd (b : Build) (s : Fs part) (env : CallEnv) (ioBuf : Bool) (rounds p : Nat) (argv : List (List UInt8)) :
    Exec (Fs part × Option (List UInt8)) := do
  if 2 < argv.length then
    return (s, none)
  let (s, finalPath) ← (if argv.length = 1 then return (s, [slash]) else s.makeClearAbsPath b ioBuf rounds p (argv.getD 1 []))
  let (s, ok) ← s.sysChdir b env p finalPath
  return (s, if ok then some finalPath else none)

variable {b : Build} {env : CallEnv} {s0 s : Fs part} {t : Tree} {p d : Nat} {P : FsProc} {xs : List (List UInt8)} {path : List UInt8}

theorem names_relative (h : ∀ x ∈ xs, IsName x) (path : List UInt8) :
    names ((if pathString xs ≠ [slash] then pathString xs ++ [slash] else pathString xs) ++ path) = xs ++ names path := by
  by_cases hxs : xs = []
  · subst hxs
    simpa [pathString, names_eq_components, components] using components_append_slash [] path
  · rw [if_pos (pathString_ne h hxs), pathString, if_neg hxs, List.append_assoc, List.singleton_append, names_eq_components,
      components_append_slash, ← names_eq_components, names_join h, ← names_eq_components]

theorem Visits.chdir (ht : t.Shaped) (h0 : s0.CacheOk) (hr : s0.At s0.rootDir 0) (h : Visits t s0 s [])
    (hpr : s.procs p = some P) (hmem : ∀ n, env.lookups n = true) (hp : t.PathOf d xs) (hd : t.IsDir d)
    (hx : ∀ x ∈ xs, IsName x) (hlen : (pathString xs).length < 512) :
    ∃ s' P', s.sysChdir b env p (pathString xs) = .ok (s', true) ∧ s'.procs p = some P' ∧ P'.cwdInodeNr.toNat = d := by
  have hk := visits_total (b := b) ht h0 hr
  have hn := names_pathString hx
  have hne : pathString xs ∈ rootPaths ∨ names (pathString xs) ≠ [] := by
    rw [hn]
    obtain rfl | hnil := eq_or_ne xs []
    · exact .inl (by decide)
    · exact .inr hnil
  obtain ⟨s1, r, no, hs, h1, hdir, hno⟩ := hk.searchFile_total ht hmem h (by rw [hn]; exact hp.walk ht hd) (pathString_head xs)
    hlen hne env.oldNo
  obtain ⟨s', hc, -⟩ := hk.dirClose_total h1
  have hno1 : no ≠ -1 := by
    rintro rfl
    obtain ⟨nd, hnd, -⟩ := hd
    rw [← hno] at hnd
    exact absurd (ht.small hnd) (by decide)
  refine ⟨s'.setProc p { P with cwdInodeNr := no }, _, ?_, Function.update_self .., hno⟩
  simp only [sysChdir, hpr, deref, ok_bind, hs, if_pos (And.intro hno1 hdir), dirClose_setProc hc]
  rfl

/-- **`cd` walks.** With a relative path it moves the process from its working directory along the names of the path, and
returns the way to there from the root. -/
theorem cd_walks {rounds : Nat} {cmd : List UInt8} (ht : t.Shaped) (hs : s.Shows t) (hclear : s.Cleared t)
    (hcache : s.CacheOk) (hroot : s.At s.rootDir 0) (hproc : s.procs p = some P) (hcwd : t.IsDir P.cwdInodeNr.toNat)
    (hxs : t.PathOf P.cwdInodeNr.toNat xs) (hname : ∀ x ∈ xs, IsName x) (hrel : path.head? ≠ some slash)
    (hlen : (pathString xs).length + path.length + 1 < 512) (hmem : ∀ n, env.lookups n = true) (hrounds : 512 ≤ rounds)
    (hwalk : t.Walk P.cwdInodeNr.toNat (names path) d) :
    ∃ s' P' out, s.buildinCd b env true rounds p [cmd, path] = .ok (s', some out) ∧ s'.procs p = some P' ∧
      P'.cwdInodeNr.toNat = d ∧ t.PathOf d (names out) := by
  have hjoin : (joinPath xs).length ≤ (pathString xs).length := by
    unfold pathString
    split <;> simp_all
  obtain ⟨s1, out, hget, h1, hout⟩ := Visits.getcwd (b := b) ht hcache hroot (.start hs hcache) hproc hcwd hxs (by omega) le_rfl hrounds
  rw [hout hclear hname] at hget
  -- the path that is washed
  generalize habs : (if pathString xs ≠ [slash] then pathString xs ++ [slash] else pathString xs) ++ path = abs
  have hn : names abs = xs ++ names path := by rw [← habs, names_relative hname]
  have habslen : abs.length < 512 := by
    rw [← habs]
    split <;> simp <;> omega
  have hhead : abs.head? = some slash := by
    obtain ⟨l, hl⟩ := List.head?_eq_some_iff.mp (pathString_head xs)
    rw [← habs, hl]
    split <;> rfl
  have hwr := hxs.walk ht hcwd
  have hshort : ∀ x ∈ names abs, x.length < 16 := by
    intro x hx
    rw [hn, List.mem_append] at hx
    exact hx.elim (hs.walk_names hwr x) (hs.walk_names hwalk x)
  -- washing is walking
  have hself : xs.foldl normStep [] = xs := (hwr.normalise ht).unique ht hxs
  have hpath : t.PathOf d (normalise (names abs)) := by
    rw [hn, normalise, List.foldl_append, hself]
    exact hwalk.path ht hxs
  have hisname : ∀ x ∈ normalise (names abs), IsName x := fun x hx => names_isName (normalise_sub hx)
  have hfinal : (pathString (normalise (names abs))).length < 512 := by
    have := Nat.le_trans (normalise_le (names abs)) (joinPath_names_le hhead)
    unfold pathString
    split
    · decide
    · omega
  obtain ⟨s', P', hch, hP', hd⟩ := h1.chdir (b := b) ht hcache hroot (h1.reopened.rest.procs ▸ hproc) hmem hpath (hwalk.isDir ht hcwd) hisname hfinal
  refine ⟨s', P', pathString (normalise (names abs)), ?_, hP', hd, by rw [names_pathString hisname]; exact hpath⟩
  have hclr : s.makeClearAbsPath b true rounds p path = .ok (s1, pathString (normalise (names abs))) := by
    simp only [makeClearAbsPath, if_pos hrel, hget, ok_bind, habs, inBounds_of habslen, washPath_eq hhead hshort]
    rfl
  simp [buildinCd, hclr, hch, ok_bind, pure_ok]

theorem cd_walks_home : ∃ s' P' out, homeFs.buildinCd .debug homeEnv true 512 1 [[99, 100], [97]] = .ok (s', some out) ∧
    s'.procs 1 = some P' ∧ P'.cwdInodeNr.toNat = 1 ∧ homeTree.PathOf 1 (names out) :=
  cd_walks homeTree_ok.toShaped homeFs_shows homeFs_cleared homeFs_cacheOk homeFs_root rfl homeTree_ok.toShaped.root .root nofun (by decide)
    (by decide) (fun _ => rfl) (by decide) homeTree_walk

end Fs

end OperateSystem
