import OperateSystem.FsFail
import OperateSystem.Resolve
import OperateSystem.Getcwd
import OperateSystem.HomeTree

/-!
# `sys_getcwd` returns what `sys_chdir` was given

The climb from a directory to the root collects the names of its path, the last one
first, and the loop with `strrchr` turns them around. `wash_path` works off the dots
of a path as the walk through the tree does.
-/

namespace OperateSystem

open List
variable {xs : List (List UInt8)}

/-! ## Strings -/

theorem beforeSlash_split {u v : List UInt8} (h : slash ∉ v) : beforeSlash (u ++ slash :: v) = u := by
  have hrev : (u ++ slash :: v).reverse = v.reverse ++ slash :: u.reverse := by simp
  unfold beforeSlash
  rw [hrev, (takeWhile_name (by simpa using h) _ (.inr rfl)).2, tail_cons, reverse_reverse]

theorem moveNames_total {size : Nat} : ∀ (n : Nat) (buf path : List UInt8), buf.length + path.length < size →
    ∃ out, moveNames size n buf path = .ok out
  | 0, buf, path, _ => ⟨buf, rfl⟩
  | n + 1, buf, path, hsi => by
    unfold moveNames
    by_cases hs : slash ∈ path
    · obtain ⟨v, u, hpa, hv⟩ := eq_append_cons_of_mem (mem_reverse.mpr hs)
      have hpa : path = u.reverse ++ slash :: v.reverse := by
        rw [← reverse_reverse path, hpa]
        simp
      have hv : slash ∉ v.reverse := by simpa using hv
      have hlen : path.length = u.reverse.length + (v.reverse.length + 1) := by
        rw [hpa, length_append, length_cons]
      have hbuf : (buf ++ slash :: v.reverse).length = buf.length + (v.reverse.length + 1) := by
        rw [length_append, length_cons]
      rw [if_pos hs, hpa, afterSlash_split hv, ok_bind, inBounds_of (by omega), ok_bind, beforeSlash_split hv]
      exact moveNames_total n _ _ (by omega)
    · rw [if_neg hs]
      exact ⟨buf, rfl⟩

theorem moveNames_join {size : Nat} : ∀ (xs : List (List UInt8)) (n : Nat) (buf : List UInt8), (∀ x ∈ xs, IsName x) → xs.length ≤ n →
    buf.length + (joinPath xs).length < size → moveNames size n buf (joinPath xs) = .ok (buf ++ joinPath xs.reverse) := by
  intro xs
  induction xs using List.reverseRecOn with
  | nil =>
    intro n buf _ _ _
    cases n with
    | zero => simp [moveNames]
    | succ n => simp [moveNames]
  | append_singleton xs x ih =>
    intro n buf hx hn hs
    rw [length_append, length_singleton] at hn
    obtain ⟨n, rfl⟩ := Nat.exists_eq_succ_of_ne_zero (show n ≠ 0 by omega)
    have hna : IsName x := hx x (by simp)
    rw [joinPath_concat, length_append, length_cons] at hs
    have hlen : (buf ++ slash :: x).length = buf.length + (x.length + 1) := by simp
    have ih := ih n (buf ++ slash :: x) (fun y hy => hx y (mem_append_left _ hy)) (by omega) (by omega)
    rw [joinPath_concat, moveNames, if_pos (by simp), afterSlash_split hna.2, ok_bind, inBounds_of (by omega), ok_bind,
      beforeSlash_split hna.2, ih]
    simp

theorem length_le_joinPath (xs : List (List UInt8)) : xs.length ≤ (joinPath xs).length := by
  induction xs with
  | nil => exact le_rfl
  | cons x xs ih =>
    rw [joinPath_cons, length_cons, length_cons, length_append]
    omega

theorem pathString_ne (h : ∀ x ∈ xs, IsName x) (hne : xs ≠ []) : pathString xs ≠ [slash] := by
  obtain ⟨x, ys, rfl⟩ := exists_cons_of_ne_nil hne
  have hx := length_pos_iff.mpr (h x mem_cons_self).1
  intro he
  rw [pathString, if_neg hne] at he
  have := congrArg List.length he
  rw [joinPath_cons, length_cons, length_append, length_singleton] at this
  omega

theorem washStep_pathString {x : List UInt8} (h : ∀ y ∈ xs, IsName y) :
    washStep (pathString xs) x = pathString (normStep xs x) := by
  unfold washStep normStep
  by_cases hdd : x = dotDot
  · rw [if_pos hdd, if_pos hdd]
    rcases eq_nil_or_concat xs with rfl | ⟨ys, y, rfl⟩
    · rfl
    rw [concat_eq_append] at h ⊢
    have hy : IsName y := h y (by simp)
    have hstr : pathString (ys ++ [y]) = joinPath ys ++ slash :: y := by
      rw [pathString, if_neg (by simp), joinPath_concat]
    rw [dropLast_concat, hstr, beforeSlash_split hy.2, pathString]
    by_cases hys : ys = []
    · rw [if_neg (by simp [hys]), if_pos hys, hys]
      rfl
    · rw [if_pos (by simpa [joinPath_eq_nil] using hys), if_neg hys]
  · rw [if_neg hdd, if_neg hdd]
    by_cases hd : x = dot
    · rw [if_neg (by simpa using hd), if_pos hd]
    · rw [if_pos hd, if_neg hd]
      by_cases hxs : xs = []
      · subst hxs
        simp [pathString]
      · rw [if_pos (pathString_ne h hxs), pathString, if_neg hxs, pathString, if_neg (by simp)]
        simp

theorem foldl_washStep : ∀ (ys xs : List (List UInt8)), (∀ x ∈ xs, IsName x) → (∀ y ∈ ys, IsName y) →
    ys.foldl washStep (pathString xs) = pathString (ys.foldl normStep xs)
  | [], _, _, _ => rfl
  | y :: ys, xs, hxs, hys => by
    rw [foldl_cons, foldl_cons, washStep_pathString hxs]
    refine foldl_washStep ys (normStep xs y) (fun x hx => ?_) fun z hz => hys z (.tail _ hz)
    rcases normStep_mem hx with hx | rfl
    · exact hxs x hx
    · exact hys x mem_cons_self

theorem washPath_eq {b : Build} {path : List UInt8} (hh : path.head? = some slash) (hlen : ∀ x ∈ names path, x.length < 16) :
    washPath b path = .ok (pathString (normalise (names path))) := by
  unfold washPath
  rw [assert_of _ hh, ok_bind, inBounds_of hlen, ok_bind]
  split
  · rename_i hnil
    rw [hnil]
    rfl
  · have h := foldl_washStep (names path) [] (fun x hx => absurd hx not_mem_nil) fun y hy => names_isName hy
    exact congrArg Except.ok h

theorem names_pathString (h : ∀ x ∈ xs, IsName x) : names (pathString xs) = xs := by
  unfold pathString
  split
  · rename_i hnil
    rw [hnil]
    rfl
  · exact names_join h

theorem pathString_head (xs : List (List UInt8)) : (pathString xs).head? = some slash := by
  unfold pathString
  split
  · rfl
  · rename_i hne
    exact (joinPath_head xs).resolve_left fun e => hne (joinPath_eq_nil.mp e)

theorem pathString_last (h : ∀ x ∈ xs, IsName x) (hl : (pathString xs).getLast? = some slash) :
    pathString xs = [slash] := by
  rcases eq_nil_or_concat xs with rfl | ⟨ys, y, rfl⟩
  · rfl
  · rw [concat_eq_append] at h hl
    obtain ⟨hne, hs⟩ := h y (by simp)
    rw [pathString, if_neg (by simp), joinPath_append, joinPath_cons, joinPath_nil, append_nil, append_cons,
      List.getLast?_append_of_ne_nil _ hne] at hl
    exact absurd (mem_of_getLast? hl) hs

/-- **`wash_path` is normalisation**: a slash and the components that are left, with slashes
between them. -/
theorem wash_path_normalises {b : Build} {path : List UInt8} (hhead : path.head? = some slash)
    (hlen : ∀ x ∈ components path, x.length ≤ 15) : ∃ out, washPath b path = .ok out ∧
      out = pathString (normalise (components path)) ∧
      (normalise (components path) ≠ [] → out.splitOnP (· = slash) = [] :: normalise (components path)) ∧
      (∀ x ∈ components out, x ≠ [] ∧ x ≠ dot ∧ x ≠ dotDot) ∧
      (out.getLast? = some slash → out = [slash]) ∧ out.head? = some slash ∧ washPath b out = .ok out := by
  rw [← names_eq_components] at hlen ⊢
  have hxs : ∀ x ∈ normalise (names path), IsName x := fun x hx => names_isName (normalise_sub hx)
  have hout := names_pathString hxs
  have hs : ∀ x ∈ names (pathString (normalise (names path))), x.length < 16 := fun x hx => by
    rw [hout] at hx
    exact Nat.lt_succ_of_le (hlen x (normalise_sub hx))
  refine ⟨_, washPath_eq hhead fun x hx => Nat.lt_succ_of_le (hlen x hx), rfl, fun hne => ?_, fun x hx => ?_, pathString_last hxs,
    pathString_head _, ?_⟩
  · rw [pathString, if_neg hne, split_join hxs]
  · rw [← names_eq_components, hout] at hx
    exact ⟨(hxs x hx).1, normalise_dotless _ x hx⟩
  · rw [washPath_eq (pathString_head _) hs, hout, normalise_idem]

theorem wash_path_normalises_dots : ∃ out, washPath .debug [47, 97, 47, 47, 46, 46, 47, 98, 47, 46] = .ok out ∧
    out = pathString (normalise (components [47, 97, 47, 47, 46, 46, 47, 98, 47, 46])) ∧ washPath .debug out = .ok out := by
  obtain ⟨out, hw, hout, -, -, -, -, ha⟩ := @wash_path_normalises .debug [47, 97, 47, 47, 46, 46, 47, 98, 47, 46] rfl (by decide)
  exact ⟨out, hw, hout, ha⟩

/-! ## Finding a child by its number -/

section
variable {b : Build} {disk : Mem} {l : Blocks} {no : UInt32}

theorem childInSector_some {buf : Mem} {e : DirEntry} : ∀ n i, childInSector buf no n i = some e →
    ∃ j, i ≤ j ∧ j < i + n ∧ e = .ofMem buf (dirEntrySize * j) ∧ e.iNo = no
  | 0, _, h => by cases h
  | n + 1, i, h => by
    unfold childInSector at h
    split at h
    · rename_i hno
      cases h
      exact ⟨i, le_rfl, by omega, rfl, hno⟩
    · obtain ⟨j, h1, h2, h3⟩ := childInSector_some n (i + 1) h
      exact ⟨j, by omega, by omega, h3⟩

theorem childInSector_none {buf : Mem} : ∀ n i, childInSector buf no n i = none → ∀ j, i ≤ j → j < i + n →
    (DirEntry.ofMem buf (dirEntrySize * j)).iNo ≠ no
  | 0, _, _, j, h1, h2 => by omega
  | n + 1, i, h, j, h1, h2 => by
    unfold childInSector at h
    split at h
    · cases h
    · rename_i hno
      by_cases hj : j = i
      · rwa [hj]
      · exact childInSector_none n (i + 1) h j (by omega) (by omega)

theorem childInBlocks_spec : ∀ (n k : Nat) (buf : Mem), (∀ j, k ≤ j → j < k + n → l j ≠ 0 → (l j).toNat ≤ maxLba) →
    ∃ r, childInBlocks b disk l no n k buf = .ok r ∧
      (∀ e, r = some e → ∃ j i, k ≤ j ∧ j < k + n ∧ i < 21 ∧ l j ≠ 0 ∧ e = entryAt disk l j i ∧ e.iNo = no) ∧
      (r = none → ∀ j i, k ≤ j → j < k + n → i < 21 → l j ≠ 0 → (entryAt disk l j i).iNo ≠ no)
  | 0, k, buf, _ => ⟨none, rfl, fun e he => absurd he (by simp), fun _ j i h1 h2 => by omega⟩
  | n + 1, k, buf, hdi => by
    have ih := fun buf => childInBlocks_spec n (k + 1) buf fun j h1 h2 => hdi j (by omega) (by omega)
    unfold childInBlocks
    by_cases hl : l k = 0
    · rw [if_pos hl]
      obtain ⟨r, hr, hs, hn⟩ := ih buf
      refine ⟨r, hr, fun e he => ?_, fun he j i h1 h2 hi hj => ?_⟩
      · obtain ⟨j, i, h1, h2, h3⟩ := hs e he
        exact ⟨j, i, by omega, by omega, h3⟩
      · have hne : j ≠ k := fun e => hj (e ▸ hl)
        exact hn he j i (by omega) (by omega) hi hj
    · rw [if_neg hl, ideRead_eq _ _ (hdi k le_rfl (by omega) hl) (by decide), ok_bind]
      split
      · rename_i e he
        obtain ⟨i, -, hi, rfl, hno⟩ := childInSector_some _ _ he
        rw [sector_entry hi] at hno ⊢
        refine ⟨_, rfl, fun e he => ?_, fun h => by cases h⟩
        cases he
        exact ⟨k, i, le_rfl, by omega, hi, hl, rfl, hno⟩
      · rename_i he
        obtain ⟨r, hr, hs, hn⟩ := ih (blit buf 0 disk (512 * (l k).toNat) (512 * 1))
        refine ⟨r, hr, fun e he => ?_, fun hr j i h1 h2 hi hj => ?_⟩
        · obtain ⟨j, i, h1, h2, h3⟩ := hs e he
          exact ⟨j, i, by omega, by omega, h3⟩
        · by_cases hne : j = k
          · have := childInSector_none _ _ he i (Nat.zero_le i) (by simpa [dirEntrySize] using hi)
            rw [sector_entry hi] at this
            rwa [hne]
          · exact hn hr j i (by omega) (by omega) hi hj

end

theorem StoresNode.child {part : Partition} {b : Build} {vol : Volume part} {nd : Node} {inode : Inode} (h : StoresNode vol nd)
    (hdir : nd.isDir = true) (hi : inode.pure = nd.inode.pure) {k i : Nat} {e : DirEntry} (he : nd.ents k i = some e) :
    ∃ all e', allBlocks b vol.disk inode = .ok all ∧
      childInBlocks b vol.disk all e.iNo (if inode.sec 12 ≠ 0 then 140 else 12) 0 (fun _ => 0) = .ok (some e') ∧ e'.iNo = e.iNo ∧
      ((∃ k i, nd.ents k i = some e') ∨ (e'.Free ∧ ∃ k < 140, ∃ i < 21, slotAddr vol.disk nd.inode k ≠ 0 ∧
        entryAt vol.disk (slotAddr vol.disk nd.inode) k i = e')) := by
  obtain ⟨hok, het⟩ := h.dir hdir
  have hs := slotAddr_of_pure hi vol.disk
  obtain ⟨all, hall⟩ := allBlocks_total b vol.disk fun hne : inode.sec 12 ≠ 0 => by
    have htab : slotAddr vol.disk nd.inode 140 = inode.sec 12 := by rw [← hs, slotAddr, memLayout_table]
    rw [← htab] at hne ⊢
    exact hok.blocks.onDisk 140 le_rfl hne
  have ha : ∀ j < 140, all j = slotAddr vol.disk nd.inode j := fun j hj => by rw [allBlocks_spec hall j hj, hs]
  have hen : ∀ j < 140, ∀ i, entryAt vol.disk all j i = entryAt vol.disk (slotAddr vol.disk nd.inode) j i := fun j hj i => by
    unfold entryAt
    rw [ha j hj]
  -- without a table there are no blocks behind the first 12
  have hcnt : ∀ j < 140, all j ≠ 0 → j < (if inode.sec 12 ≠ 0 then 140 else 12) := fun j hj hne => by
    by_cases hz : inode.sec 12 = 0
    · rw [if_neg (by simpa using hz)]
      by_contra hlow
      rw [allBlocks_spec hall j hj, slotAddr, memLayout_mid _ _ (by omega) hj, tableOf, if_pos hz] at hne
      exact hne rfl
    · rwa [if_pos hz]
  have hle : (if inode.sec 12 ≠ 0 then 140 else 12) ≤ 140 := by split <;> omega
  generalize (if inode.sec 12 ≠ 0 then 140 else 12) = cnt at hcnt hle ⊢
  have hdi : ∀ j, 0 ≤ j → j < 0 + cnt → all j ≠ 0 → (all j).toNat ≤ maxLba := fun j _ hj hne => by
    rw [ha j (by omega)] at hne ⊢
    exact hok.blocks.onDisk j (by omega) hne
  obtain ⟨r, hr, hso, hn⟩ := childInBlocks_spec cnt 0 (fun _ => 0) hdi
  rw [← het] at he
  obtain ⟨hk, hi', hne, -, hat⟩ := liveAt_eq_some.mp he
  cases r with
  | none =>
    rw [← ha k hk] at hne
    refine absurd ?_ (hn rfl k i (Nat.zero_le k) (by have := hcnt k hk hne; omega) hi' hne)
    rw [hen k hk, hat]
  | some e' =>
    obtain ⟨j, i', -, hj, hi', hne, rfl, hno⟩ := hso e' rfl
    have hj : j < 140 := by omega
    rw [ha j hj] at hne
    rw [hen j hj] at hno hr
    refine ⟨all, _, hall, hr, hno, ?_⟩
    rcases hok.entries j hj i' hi' hne with hf | hl
    · exact .inr ⟨hf, j, hj, i', hi', hne, rfl⟩
    · exact .inl ⟨j, i', (het j i').symm.trans (liveAt_eq_some.mpr ⟨hj, hi', hne, hl.1, rfl⟩)⟩

/-! ## Opening and closing directories -/

namespace Fs

variable {part : Partition} {b : Build} {s0 s s' : Fs part} {t : Tree} {l : List Nat}

structure Visits (t : Tree) (s0 s : Fs part) (l : List Nat) : Prop where
  shows : s.Shows t
  reopened : Reopened s0 s l
  kernel : ∀ c ∈ s.openInodes, c.iOpenCnts ≤ l.count c.addr → c.pool = .pfKernel

theorem Visits.start (hs : s.Shows t) (h : s.CacheOk) : Visits t s s [] := by
  refine ⟨hs, .start h, fun c hc hle => ?_⟩
  have := h.used c hc
  rw [count_nil] at hle
  omega

theorem visits_total (ht : t.Shaped) (h0 : s0.CacheOk) (hro : s0.At s0.rootDir 0) : TotalTracks b t (Visits t s0) where
  shows h := h.shows
  root := by
    intro s l h
    obtain ⟨news, hcc, -⟩ := h.reopened.cache
    obtain ⟨c, hc, ha, hno⟩ := hro
    refine ⟨bump l c, ?_, ?_, hno⟩
    · rw [hcc]
      exact mem_append_right _ (mem_map_of_mem hc)
    · rw [h.reopened.rest.rootDir]
      exact ha
  opened := by
    intro s s' no a l h hd hr
    refine ⟨(h.shows.opened ht hd hr).1, h.reopened.opened hr, fun x hx hle => ?_⟩
    obtain ⟨c, hc, -, rfl, rfl⟩ | ⟨i, -, -, rfl, rfl⟩ := inodeOpen_cases hr
    · rcases (mem_count_iff hc _).mp hx with rfl | ⟨hx, hne⟩
      · rw [count_cons_self] at hle
        exact h.kernel c hc (Nat.le_of_succ_le_succ hle)
      · rw [count_cons_of_ne hne.symm] at hle
        exact h.kernel x hx hle
    · rcases mem_cons.mp hx with rfl | hx
      · rfl
      · rw [count_cons_of_ne (Nat.ne_of_gt (lt_newAddr hx))] at hle
        exact h.kernel x hx hle
  closed := by
    intro s s' a l h hr
    refine ⟨h.shows.closed hr, h.reopened.closed h0 hr, fun x hx hle => ?_⟩
    obtain ⟨c, hca, hcs⟩ := inodeClose_cases hr
    obtain ⟨hc, rfl⟩ := cached_ok hca
    obtain ⟨-, -, rfl⟩ | ⟨-, rfl⟩ := hcs
    · obtain ⟨hx, hne⟩ := mem_filter.mp hx
      refine h.kernel x hx ?_
      rwa [count_cons_of_ne (of_decide_eq_true hne).symm]
    · rcases (mem_count_iff hc _).mp hx with rfl | ⟨hx, hne⟩
      · refine h.kernel c hc ?_
        have hle : c.iOpenCnts - 1 ≤ l.count c.addr := hle
        rw [count_cons_self]
        omega
      · refine h.kernel x hx ?_
        rwa [count_cons_of_ne hne.symm]
  closes := by
    intro s a l h
    obtain ⟨c, hc, rfl⟩ := h.reopened.held a mem_cons_self
    unfold inodeClose
    rw [cached_of_mem h.shows.addrs hc, ok_bind]
    split
    · rename_i hone
      have hpo := h.kernel c hc (by rw [hone, count_cons_self]; omega)
      rw [assert_of _ hpo]
      exact ⟨_, rfl⟩
    · exact ⟨_, rfl⟩

/-! ## The climb -/

def Cleared (s : Fs part) (t : Tree) : Prop :=
  ∀ {d nd}, t d = some nd → nd.isDir = true → ∀ k < 140, ∀ i < 21, slotAddr s.vol.disk nd.inode k ≠ 0 →
    (entryAt s.vol.disk (slotAddr s.vol.disk nd.inode) k i).fType = 0 →
    (entryAt s.vol.disk (slotAddr s.vol.disk nd.inode) k i).iNo = 0

variable {no : UInt32}

theorem Visits.vol (h : Visits t s0 s l) : s.vol = s0.vol := h.reopened.rest.vol

theorem Visits.parent (ht : t.Shaped) (h0 : s0.CacheOk) (hr : s0.At s0.rootDir 0) (h : Visits t s0 s []) (hd : t.IsDir no.toNat) :
    ∃ s' p, s.getParentDirInodeNr b no = .ok (s', .ofNat p) ∧ Visits t s0 s' [] ∧ t.Parent p no.toNat := by
  have hk := visits_total (b := b) ht h0 hr
  obtain ⟨s1, a, ho⟩ := h.shows.open_total (b := b) ht hd
  have h1 := hk.opened h hd ho
  obtain ⟨c, hc, hmem, hno⟩ := (h.shows.opened ht hd ho).2.cached h1.shows
  obtain ⟨s2, hcl⟩ := hk.closes h1
  have h2 := hk.closed h1 hcl
  obtain ⟨nd, hnd, hdir⟩ := hd
  have hpu := h1.shows.cached c hmem nd (by rw [hno]; exact hnd) hdir
  have hs := h2.shows.holds hnd hdir
  obtain ⟨p, hdd, hpa⟩ := ht.dotDot hnd hdir
  obtain ⟨pd, hpd, -⟩ := hpa.isDir ht
  -- the second slot of the first block
  obtain ⟨-, -, hne, -, hent⟩ := liveAt_eq_some.mp (((hs.dir hdir).2 0 1).trans hdd)
  have hsec : slotAddr s2.vol.disk nd.inode 0 = c.inode.sec 0 := by
    rw [slotAddr, memLayout_low _ _ (by decide), sec_of_pure hpu]
  have hda := (hs.blocks.inData 0 (by decide) hne).1
  have hdi := hs.blocks.onDisk 0 (by decide) hne
  unfold entryAt at hent
  rw [hsec] at hda hdi hent
  have hre := ideRead_eq (b := b) s2.vol.disk (fun _ => 0) hdi Nat.one_pos
  have he : DirEntry.ofMem (blit (fun _ => 0) 0 s2.vol.disk (512 * (c.inode.sec 0).toNat) (512 * 1)) dirEntrySize =
      dotDotEntry (.ofNat p) := (sector_entry (i := 1) (by decide)).trans hent
  have hsm : (dotDotEntry (.ofNat p)).iNo < 4096 := by
    rw [UInt32.lt_iff_toNat_lt, dotDotEntry, Tree.ofNat_toNat_small (ht.small hpd)]
    exact ht.small hpd
  refine ⟨s2, p, ?_, h2, hpa⟩
  simp only [getParentDirInodeNr, ho, hc, ok_bind, assert_of _ hda, hcl, hre, he]
  rw [assert_of _ ⟨hsm, rfl⟩]
  rfl

theorem Visits.childName (ht : t.Shaped) (h0 : s0.CacheOk) (hr : s0.At s0.rootDir 0) (h : Visits t s0 s []) {k i : Nat}
    {e : DirEntry} (hch : t.Child no.toNat k i e) {path : List UInt8} (hlen : path.length + (e.name.length + 1) < 512) :
    ∃ s' name, s.getChildDirName b no e.iNo path = .ok (s', some (path ++ slash :: name)) ∧ Visits t s0 s' [] ∧
      name.length ≤ e.name.length ∧ (s0.Cleared t → name = e.name) := by
  have hk := visits_total (b := b) ht h0 hr
  obtain ⟨s1, a, ho⟩ := h.shows.open_total (b := b) ht hch.isDir
  have h1 := hk.opened h hch.isDir ho
  obtain ⟨c, hc, hmem, hno⟩ := (h.shows.opened ht hch.isDir ho).2.cached h1.shows
  obtain ⟨s2, hcl⟩ := hk.closes h1
  have h2 := hk.closed h1 hcl
  obtain ⟨nd, hnd, hdir, hent⟩ := hch.1
  have hpu := h1.shows.cached c hmem nd (by rw [hno]; exact hnd) hdir
  have hs := h1.shows.holds hnd hdir
  obtain ⟨all, e', hall, hfi, hno', hca⟩ := hs.child (b := b) hdir hpu hent
  have hvol := h2.vol.trans h1.vol.symm
  have hn : (∃ j, e'.filename j = 0) ∧ e'.name.length ≤ e.name.length ∧ (s0.Cleared t → e'.name = e.name) := by
    rcases hca with ⟨k', i', hent'⟩ | ⟨hf, k', hk', i', hi', hne, rfl⟩
    · have he : e' = e := ht.entry_number hch ⟨nd, hnd, hdir, hent'⟩ hno'
      rw [he]
      exact ⟨(h1.shows.entry_live hch.1).2.2, le_rfl, fun _ => rfl⟩
    · refine ⟨⟨0, hf.2⟩, by rw [hf.name_eq_nil]; exact Nat.zero_le _, fun hcr => ?_⟩
      rw [h1.vol] at hne hf hno'
      rw [hcr hnd hdir k' hk' i' hi' hne hf.1] at hno'
      exact absurd (congrArg UInt32.toNat hno'.symm) (ht.leads hch).1
  refine ⟨s2, e'.name, ?_, h2, hn.2⟩
  have hb : (path ++ slash :: e'.name).length < 512 := by
    rw [length_append, length_cons]
    omega
  simp only [getChildDirName, ho, hc, hall, hcl, ok_bind, hvol, hfi, inBounds_of hn.1, inBounds_of hb]
  rfl

theorem Visits.climb (ht : t.Shaped) (h0 : s0.CacheOk) (hr : s0.At s0.rootDir 0) {d : Nat} {xs : List (List UInt8)}
    (hp : t.PathOf d xs) : ∀ (n : Nat) (s : Fs part) (no : UInt32) (path : List UInt8), no.toNat = d → t.IsDir d → Visits t s0 s [] →
    xs.length < n → path.length + (joinPath xs).length < 512 →
    ∃ s' out, s.climb b n no path = .ok (some (s', some out)) ∧ Visits t s0 s' [] ∧
      out.length ≤ path.length + (joinPath xs).length ∧ (s0.Cleared t → out = path ++ joinPath xs.reverse) := by
  induction hp with
  | root =>
    intro n s no path hno _ h hn _
    obtain ⟨n, rfl⟩ := Nat.exists_eq_succ_of_ne_zero (show n ≠ 0 by omega)
    have hno : no = 0 := UInt32.toNat_inj.mp hno
    refine ⟨s, path, ?_, h, le_rfl, fun _ => by simp⟩
    rw [Fs.climb, if_pos hno]
  | @child d k i e xs hp hch ih =>
    intro n s no path hno hd h hn hlen
    rw [length_append, length_singleton] at hn
    obtain ⟨n, rfl⟩ := Nat.exists_eq_succ_of_ne_zero (show n ≠ 0 by omega)
    have hno : no = e.iNo := UInt32.toNat_inj.mp hno
    subst hno
    have hs : (joinPath (xs ++ [e.name])).length = (joinPath xs).length + (e.name.length + 1) := by simp
    obtain ⟨hne, -⟩ := ht.leads hch
    obtain ⟨s1, p, hpa, h1, hpar⟩ := h.parent (b := b) ht h0 hr hd
    -- the directory above is the one the path comes from
    have hpd : p = d := by
      rcases hpar with ⟨hz, -⟩ | ⟨k', i', e', hc, hno⟩
      · exact absurd hz hne
      · exact (ht.unique hc hch hno).1
    subst hpd
    obtain ⟨nd, hnd, -⟩ := hch.isDir
    have hpno := Tree.ofNat_toNat_small (ht.small hnd)
    have hc' : t.Child (UInt32.ofNat p).toNat k i e := by rwa [hpno]
    obtain ⟨s2, name, hna, h2, hle, hcr⟩ := h1.childName (b := b) ht h0 hr hc' (show path.length + (e.name.length + 1) < 512 by omega)
    have hpt : (path ++ slash :: name).length = path.length + (name.length + 1) := by simp
    obtain ⟨s3, out, hout, h3, hle', hcl'⟩ := ih n s2 (.ofNat p) (path ++ slash :: name) hpno hch.isDir h2 (by omega) (by omega)
    refine ⟨s3, out, ?_, h3, by omega, fun hcl => ?_⟩
    · rw [Fs.climb, if_neg fun hz => hne (congrArg UInt32.toNat hz), hpa, ok_bind]
      dsimp only
      rw [hna, ok_bind]
      exact hout
    · rw [hcl' hcl, hcr hcl]
      simp

theorem Visits.getcwd (ht : t.Shaped) (h0 : s0.CacheOk) (hr : s0.At s0.rootDir 0) (h : Visits t s0 s []) {p : Nat} {P : FsProc}
    (hpr : s.procs p = some P) (hd : t.IsDir P.cwdInodeNr.toNat) {xs : List (List UInt8)} (hp : t.PathOf P.cwdInodeNr.toNat xs)
    (hlen : (joinPath xs).length < 512) {size rounds : Nat} (hsi : 512 ≤ size) (hro : 512 ≤ rounds) :
    ∃ s' out, s.sysGetcwd b true rounds p size = .ok (s', some out) ∧ Visits t s0 s' [] ∧
      (s0.Cleared t → (∀ x ∈ xs, IsName x) → out = pathString xs) := by
  have hxs := length_le_joinPath xs
  obtain ⟨nd, hnd, hdir⟩ := hd
  have hs : P.cwdInodeNr < 4096 := UInt32.lt_iff_toNat_lt.mpr (ht.small hnd)
  by_cases hz : P.cwdInodeNr = 0
  · have hnil : xs = [] := hp.unique ht (by rw [hz]; exact .root)
    refine ⟨s, [slash], ?_, h, fun _ _ => by rw [hnil]; rfl⟩
    simp only [sysGetcwd, hpr, deref, ok_bind, assert_of _ hs, if_pos hz, inBounds_of (show 2 ≤ size by omega)]
    rfl
  · obtain ⟨s', path, hcm, h', hle, hcr⟩ := Visits.climb (b := b) ht h0 hr hp rounds s P.cwdInodeNr [] rfl ⟨nd, hnd, hdir⟩ h
      (by omega) (by rw [length_nil]; omega)
    rw [length_nil, Nat.zero_add] at hle
    have hmo : ∃ out, moveNames size path.length [] path = .ok out := moveNames_total _ _ _ (by rw [length_nil]; omega)
    obtain ⟨out, hout⟩ := hmo
    refine ⟨s', out, ?_, h', fun hcl hn => ?_⟩
    · simp only [sysGetcwd, hpr, deref, ok_bind, assert_of _ hs, if_neg hz, hcm, returned,
        assert_of _ (show path.length ≤ size by omega), hout]
      rfl
    · have hne : xs ≠ [] := by
        rintro rfl
        exact hz (UInt32.toNat_inj.mp hp.eq_root)
      have hpa := hcr hcl
      rw [nil_append] at hpa
      have hc := length_le_joinPath xs.reverse
      rw [← hpa] at hc
      have hm : moveNames size path.length [] (joinPath xs.reverse) = .ok ([] ++ joinPath xs.reverse.reverse) :=
        moveNames_join _ _ _ (fun x hx => hn x (mem_reverse.mp hx)) hc (by rw [length_nil, ← hpa]; omega)
      rw [← hpa, hout, reverse_reverse, nil_append] at hm
      rw [pathString, if_neg hne]
      exact Except.ok.inj hm

/-! ## `sys_chdir` and back -/

theorem dirClose_setProc {d : DirPtr} {p : Nat} {P : FsProc} (h : s.dirClose b d = .ok s') :
    (s.setProc p P).dirClose b d = .ok (s'.setProc p P) := by
  unfold dirClose at h ⊢
  split at h
  · rename_i hr
    cases h
    rw [if_pos hr]
  · rename_i hr
    rw [if_neg hr]
    obtain ⟨c, hc, hca⟩ := inodeClose_cases h
    have hc : (s.setProc p P).cached d.inode = .ok c := hc
    unfold inodeClose
    rw [hc, ok_bind]
    obtain ⟨hone, hpo, rfl⟩ | ⟨hone, rfl⟩ := hca
    · rw [if_pos hone]
      have ha : assert b (c.pool = .pfKernel) "(uint32_t)ptr >= K_HEAP_START" = .ok () := by
        cases b with
        | debug => exact assert_of _ (hpo rfl)
        | ndebug => exact assert_ndebug _ _
      rw [ha]
      rfl
    · rw [if_neg hone]
      rfl

/-- **`sys_getcwd` inverts `sys_chdir`.** It returns the one path without dots that leads to the
directory, which is what `wash_path` makes of the path that was given. -/
theorem getcwd_inverts_chdir {s1 : Fs part} {env : CallEnv} {p : Nat} {P : FsProc} {path : List UInt8} {r : PathSearchRecord}
    {d : UInt32} (ht : t.Shaped) (hs : s.Shows t) (hclear : s.Cleared t) (hcache : s.CacheOk) (hroot : s.At s.rootDir 0)
    (hproc : s.procs p = some P) (hhead : path.head? = some slash) (hnul : 0 ∉ path) (hlen : path.length < 512)
    (hname : names path ≠ []) (hsearch : searchFile b s path env.lookups env.oldNo = .ok (s1, r, d))
    (hdir : r.fileType = ftDirectory) :
    ∃ s2 xs, s.sysChdir b env p path = .ok (s2, true) ∧ (∀ ys, t.PathOf d.toNat ys ↔ ys = xs) ∧
      washPath b path = .ok (pathString xs) ∧ ∀ rounds ≥ 512, ∃ s3,
        s2.sysGetcwd b true rounds p 512 = .ok (s3, some (pathString xs)) ∧ ∀ mem, (∀ n, mem n = true) → ∀ old,
          ∃ s4 r', searchFile b s3 (pathString xs) mem old = .ok (s4, r', d) ∧ r'.fileType = ftDirectory := by
  have hk := visits_total (b := b) ht hcache hroot
  obtain ⟨h1, hpa, hd, hsh⟩ := hk.toTreeTracks.directory ht hnul (.inr hname) (.start hs hcache) hsearch hdir
  have hxs : ∀ x ∈ normalise (names path), IsName x := fun x hx => names_isName (normalise_sub hx)
  have hj := Nat.lt_of_le_of_lt (Nat.le_trans (normalise_le _) (joinPath_names_le hhead)) hlen
  have hw := washPath_eq (b := b) hhead hsh
  generalize normalise (names path) = xs at *
  -- the change of directory
  obtain ⟨s', hc, h'⟩ := hk.dirClose_total h1
  have hsa := h'.reopened.unchanged
  have hne : d ≠ -1 := by
    rintro rfl
    obtain ⟨nd, hnd, -⟩ := hd
    exact absurd (ht.small hnd) (by decide)
  have hch : s.sysChdir b env p path = .ok (s'.setProc p { P with cwdInodeNr := d }, true) := by
    simp only [sysChdir, hproc, deref, ok_bind, hsearch, if_pos (And.intro hne hdir), dirClose_setProc hc]
    rfl
  refine ⟨_, xs, hch, fun ys => ⟨fun hy => hy.unique ht hpa, fun e => e ▸ hpa⟩, hw, fun rounds hro => ?_⟩
  -- the way back
  generalize hs2 : s'.setProc p { P with cwdInodeNr := d } = s2
  have hp2 : s2.procs p = some { P with cwdInodeNr := d } := by
    rw [← hs2]
    exact Function.update_self ..
  have hi : s2.openInodes = s.openInodes := by
    rw [← hs2]
    exact hsa.openInodes
  have hvol : s2.vol = s.vol := by
    rw [← hs2]
    exact hsa.vol
  have hr : s2.rootDir = s.rootDir := by
    rw [← hs2]
    exact hsa.rootDir
  have hc2 : s2.CacheOk := ⟨by rw [hi]; exact hcache.addrs, by rw [hi]; exact hcache.used⟩
  have hr2 : s2.At s2.rootDir 0 := by
    unfold At
    rw [hi, hr]
    exact hroot
  have hcl2 : s2.Cleared t := by
    unfold Cleared
    rw [hvol]
    exact hclear
  obtain ⟨s3, out, hcwd, h3, hout⟩ := Visits.getcwd (b := b) ht hc2 hr2 (.start (hs.of_rest hvol hi) hc2) hp2 hd hpa
    hj le_rfl hro
  refine ⟨s3, hout hcl2 hxs ▸ hcwd, fun mem hmem old => ?_⟩
  have hst := names_pathString hxs
  have hlen3 : (pathString xs).length < 512 := by
    unfold pathString
    split
    · decide
    · exact hj
  have hh3 := pathString_head xs
  have hn3 : pathString xs ∈ rootPaths ∨ names (pathString xs) ≠ [] := by
    rw [hst]
    by_cases hnil : xs = []
    · rw [hnil]
      exact .inl (by decide)
    · exact .inr hnil
  have hwa : t.Walk 0 (names (pathString xs)) d.toNat := by
    rw [hst]
    exact hpa.walk ht hd
  obtain ⟨s4, r', no, hf, -, hty, hno⟩ := (visits_total (b := b) ht hc2 hr2).searchFile_total ht hmem h3 hwa hh3 hlen3
    hn3 old
  rw [UInt32.toNat_inj.mp hno] at hf
  exact ⟨s4, r', hf, hty⟩

theorem homeFs_shows : homeFs.Shows homeTree := by
  refine .of_repr homeVol_repr (by decide) fun c hc nd hnd => ?_
  obtain rfl := mem_singleton.mp hc
  obtain ⟨-, rfl⟩ := homeTree_some hnd
  rfl

theorem homeFs_cleared : homeFs.Cleared homeTree := by
  intro d nd hnd hdir k _ i hi hne ht
  obtain ⟨-, rfl⟩ := homeTree_some hnd
  have hd : d < 2 := of_decide_eq_true hdir
  have hk : k = 0 := by
    by_contra hk
    exact hne ((homeInode_addr _ d k).trans (if_neg fun hc => hk hc.2))
  have he : entryAt homeFs.vol.disk (slotAddr homeFs.vol.disk (homeNode d).inode) k i = homeEntry d i := homeNode_entry hd hi hk
  rw [he] at ht ⊢
  by_cases hlow : i < 3
  · have hl : ∀ d < 2, ∀ i < 3, (homeEntry d i).fType ≠ 0 := by decide
    exact absurd ht (hl d hd i hlow)
  · rw [homeEntry_clear (by omega)]

theorem homeFs_root : homeFs.At homeFs.rootDir 0 := ⟨_, mem_singleton_self _, rfl, rfl⟩

theorem getcwd_inverts_chdir_home : ∃ s2 xs, homeFs.sysChdir .debug homeEnv 1 [47, 97, 47, 46, 46, 47, 97] = .ok (s2, true) ∧
    (∀ ys, homeTree.PathOf (1 : UInt32).toNat ys ↔ ys = xs) ∧
    washPath .debug [47, 97, 47, 46, 46, 47, 97] = .ok (pathString xs) ∧ ∀ rounds ≥ 512, ∃ s3,
      s2.sysGetcwd .debug true rounds 1 512 = .ok (s3, some (pathString xs)) ∧ ∀ mem, (∀ n, mem n = true) → ∀ old,
        ∃ s4 r', searchFile .debug s3 (pathString xs) mem old = .ok (s4, r', (1 : UInt32)) ∧ r'.fileType = ftDirectory := by
  have hf : (searchFile .debug homeFs [47, 97, 47, 46, 46, 47, 97] homeEnv.lookups homeEnv.oldNo).toOption.any
      (fun x => x.2.1.fileType = ftDirectory ∧ x.2.2 = 1) = true := by decide +kernel
  obtain ⟨⟨s1, r, d⟩, hs, hfa⟩ := exists_of_any hf
  obtain ⟨hdir, rfl⟩ := of_decide_eq_true hfa
  exact getcwd_inverts_chdir homeTree_ok.toShaped homeFs_shows homeFs_cleared homeFs_cacheOk homeFs_root rfl rfl (by decide) (by decide)
    (by decide) hs hdir

end Fs

end OperateSystem
