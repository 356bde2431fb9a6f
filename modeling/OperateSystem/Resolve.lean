import OperateSystem.FsWalk

/-!
# Lookups along a path

What `search_file` is for: the names of a path are looked up one after the other, each in
the directory that the one before names, until a lookup fails. It returns, and what it
returns is what the last lookup finds.
-/

namespace OperateSystem

open List

/-! ## Looking up in the tree -/

def Node.find (nd : Node) (name : List UInt8) : Option DirEntry :=
  dirSlots.findSome? fun q => (nd.ents q.1 q.2).filter (·.name = name)

structure Resolved where
  lookedUp : List (List UInt8)
  dir : Nat
  found : Option DirEntry

namespace Tree

def lookup (t : Tree) (d : Nat) (name : List UInt8) : Option DirEntry :=
  (t d).bind fun nd => if nd.isDir then nd.find name else none

/-- `ok` tells for each lookup, counted from the last name, whether there is memory for it. -/
def resolve (t : Tree) (ok : Nat → Bool) : Nat → List (List UInt8) → Resolved
  | d, [] => ⟨[], d, none⟩
  | d, name :: rest =>
    match if ok rest.length then t.lookup d name else none with
    | none => ⟨[name], d, none⟩
    | some e =>
      if rest = [] then ⟨[name], d, some e⟩
      else
        let r := t.resolve ok e.iNo.toNat rest
        { r with lookedUp := name :: r.lookedUp }

/-- No proper prefix of the names leads to a regular file. -/
def NoFilePrefix (t : Tree) (d : Nat) (xs : List (List UInt8)) : Prop :=
  ∀ pre post e, xs = pre ++ post → post ≠ [] → (t.resolve (fun _ => true) d pre).found = some e → e.fType ≠ ftRegular

variable {t : Tree} {ok : Nat → Bool} {d : Nat} {name : List UInt8} {xs rest : List (List UInt8)} {e : DirEntry}

theorem resolve_fail (h : ok rest.length = true → t.lookup d name = none) :
    t.resolve ok d (name :: rest) = ⟨[name], d, none⟩ := by
  unfold resolve
  split
  · rfl
  · rename_i hs
    split at hs
    · rename_i hok
      rw [h hok] at hs
      cases hs
    · cases hs

theorem resolve_last (hok : ok 0 = true) (h : t.lookup d name = some e) : t.resolve ok d [name] = ⟨[name], d, some e⟩ := by
  simp [resolve, hok, h]

theorem resolve_step (hok : ok rest.length = true) (h : t.lookup d name = some e) (hr : rest ≠ []) :
    t.resolve ok d (name :: rest) =
      { t.resolve ok e.iNo.toNat rest with lookedUp := name :: (t.resolve ok e.iNo.toNat rest).lookedUp } := by
  rw [resolve]
  simp only [hok, h, if_true, if_neg hr]

theorem resolve_lookedUp (t : Tree) (ok : Nat → Bool) : ∀ (xs : List (List UInt8)) (d : Nat), (t.resolve ok d xs).lookedUp <+: xs
  | [], d => prefix_refl _
  | name :: rest, d => by
    rw [resolve]
    split
    · exact (prefix_cons_inj name).mpr nil_prefix
    · split
      · exact (prefix_cons_inj name).mpr nil_prefix
      · exact (prefix_cons_inj name).mpr (resolve_lookedUp t ok rest _)

theorem resolve_lookedUp_ne_nil (t : Tree) (ok : Nat → Bool) (hxs : xs ≠ []) (d : Nat) : (t.resolve ok d xs).lookedUp ≠ [] := by
  cases xs with
  | nil => exact absurd rfl hxs
  | cons name rest =>
    rw [resolve]
    split
    · exact cons_ne_nil _ _
    · split
      · exact cons_ne_nil _ _
      · exact cons_ne_nil _ _

theorem NoFilePrefix.step (h : t.NoFilePrefix d (name :: rest)) (hl : t.lookup d name = some e) (hr : rest ≠ []) :
    e.fType ≠ ftRegular ∧ t.NoFilePrefix e.iNo.toNat rest := by
  refine ⟨h [name] rest e rfl hr (by rw [resolve_last rfl hl]), fun pre post e' hs hpo hf => ?_⟩
  cases pre with
  | nil => cases hf
  | cons x pre =>
    refine h (name :: x :: pre) post e' (by rw [hs]; rfl) hpo ?_
    rw [resolve_step rfl hl (cons_ne_nil _ _)]
    exact hf

theorem noFilePrefix_nil : t.NoFilePrefix d [] := by
  intro pre post e hs hpo _
  exact absurd (append_eq_nil_iff.mp hs.symm).2 hpo

theorem noFilePrefix_single : t.NoFilePrefix d [name] := by
  intro pre post e hs hpo hf
  cases pre with
  | nil => cases hf
  | cons x pre => exact absurd (append_eq_nil_iff.mp (List.cons.inj hs).2.symm).2 hpo

theorem NoFilePrefix.cons (hl : t.lookup d name = some e) (hdir : e.fType ≠ ftRegular) (h : t.NoFilePrefix e.iNo.toNat rest) :
    t.NoFilePrefix d (name :: rest) := by
  intro pre post e' hs hpo hf
  obtain _ | ⟨x, pre⟩ := pre
  · cases hf
  obtain ⟨rfl, hr⟩ := List.cons.inj hs
  cases pre with
  | nil =>
    rw [resolve_last rfl hl] at hf
    cases hf
    exact hdir
  | cons y pre =>
    rw [resolve_step rfl hl (cons_ne_nil y pre)] at hf
    exact h (y :: pre) post e' hr hpo hf

def Resolves (t : Tree) (xs : List (List UInt8)) : Prop := xs ≠ [] → ∃ e, (t.resolve (fun _ => true) 0 xs).found = some e

theorem Walk.zero_not_mem {d' : Nat} (h : t.Walk d xs d') : ∀ x ∈ xs, (0 : UInt8) ∉ x := by
  induction h with
  | nil => exact fun x hx => absurd hx not_mem_nil
  | @cons _ _ _ _ e _ _ _ _ ih => exact forall_mem_cons.mpr ⟨e.zero_not_mem_name, ih⟩

end Tree

/-! ## Looking up in a directory -/

section
variable {part : Partition} {b : Build} {vol : Volume part} {nd : Node} {inode : Inode} {name : List UInt8}

theorem Node.find_some {e : DirEntry} (h : nd.find name = some e) : ∃ k i, nd.ents k i = some e ∧ e.name = name := by
  obtain ⟨q, -, hq⟩ := exists_of_findSome?_eq_some h
  obtain ⟨he, hn⟩ := Option.filter_eq_some_iff.mp hq
  exact ⟨q.1, q.2, he, of_decide_eq_true hn⟩

theorem Node.find_none (h : nd.find name = none) {k i : Nat} (hk : k < 140) (hi : i < 21) {e : DirEntry}
    (he : nd.ents k i = some e) : e.name ≠ name := by
  intro hna
  have hn := List.findSome?_eq_none_iff.mp h (k, i) (mem_dirSlots.mpr ⟨hk, hi⟩)
  rw [he, Option.filter_some, if_pos (decide_eq_true hna)] at hn
  cases hn

theorem StoresNode.find_entry (h : StoresNode vol nd) (hdir : nd.isDir = true) {k i : Nat} {e : DirEntry}
    (he : nd.ents k i = some e) : nd.find e.name = some e := by
  obtain ⟨hok, hen⟩ := h.dir hdir
  have hl := (hen k i).trans he
  obtain ⟨hk, hi, -⟩ := liveAt_eq_some.mp hl
  cases hf : nd.find e.name with
  | none => exact absurd rfl (Node.find_none hf hk hi he)
  | some e' =>
    obtain ⟨k', i', he', hn⟩ := Node.find_some hf
    obtain ⟨rfl, rfl⟩ := hok.distinct ((hen k' i').trans he') hl hn
    exact he'.symm.trans he

theorem StoresNode.search_find (h : StoresNode vol nd) (hdir : nd.isDir = true) (hi : inode.pure = nd.inode.pure) (hne : name ≠ [])
    (hz : 0 ∉ name) (hlen : name.length < 16) (mem : Bool) (buf : Mem) :
    searchDirEntry b vol.disk inode name mem buf = .ok (if mem then nd.find name else none) := by
  obtain _ | _ := mem
  · rfl
  obtain ⟨hok, -⟩ := h.dir hdir
  obtain ⟨r, hr, -⟩ := (hok.of_pure hi).blocks.search (b := b) (Nat.le_of_lt hlen) buf
  obtain ⟨hs, hn⟩ := h.lookup hdir hi hne hz hlen hr
  rw [hr, if_pos rfl]
  cases r with
  | none =>
    cases hf : nd.find name with
    | none => rfl
    | some e =>
      obtain ⟨k, i, he, hna⟩ := Node.find_some hf
      exact absurd hna (hn rfl rfl k i e he)
  | some e =>
    obtain ⟨rfl, k, i, he⟩ := hs e rfl
    rw [h.find_entry hdir he]

end

/-! ## Walks -/

theorem lookup_eq {t : Tree} {d : Nat} {nd : Node} (hnd : t d = some nd) (hdir : nd.isDir = true) (name : List UInt8) :
    t.lookup d name = nd.find name := by
  unfold Tree.lookup
  rw [hnd, Option.bind_some, if_pos hdir]

theorem lookup_some {t : Tree} {d : Nat} {name : List UInt8} {e : DirEntry} (h : t.lookup d name = some e) :
    ∃ k i, t.Entry d k i e ∧ e.name = name := by
  obtain ⟨nd, hnd, hf⟩ := Option.bind_eq_some_iff.mp h
  split at hf
  · rename_i hdir
    obtain ⟨k, i, he, hn⟩ := Node.find_some hf
    exact ⟨k, i, ⟨nd, hnd, hdir, he⟩, hn⟩
  · cases hf

namespace Fs

variable {part : Partition} {s : Fs part} {t : Tree} {d q k i : Nat} {e : DirEntry} {pre rest : List (List UInt8)}

theorem Shows.lookup_entry (hs : s.Shows t) (he : t.Entry d k i e) : t.lookup d e.name = some e := by
  obtain ⟨nd, hnd, hdir, hent⟩ := he
  rw [lookup_eq hnd hdir]
  exact (hs.holds hnd hdir).find_entry hdir hent

theorem Shows.found_walk (hs : s.Shows t) (hw : t.Walk d pre q) (hr : rest ≠ []) :
    (t.resolve (fun _ => true) d (pre ++ rest)).found = (t.resolve (fun _ => true) q rest).found := by
  induction hw with
  | nil => rfl
  | cons he _ _ ih =>
    rw [cons_append, Tree.resolve_step rfl (hs.lookup_entry he) (append_ne_nil_of_right_ne_nil _ hr)]
    exact ih

theorem ftDirectory_ne_ftRegular : ftDirectory ≠ ftRegular := by decide

theorem Shows.noFilePrefix (hs : s.Shows t) (hw : t.Walk d pre q) (name : List UInt8) : t.NoFilePrefix d (pre ++ [name]) := by
  induction hw with
  | nil => exact Tree.noFilePrefix_single
  | cons he hdir _ ih => exact .cons (hs.lookup_entry he) (fun h => ftDirectory_ne_ftRegular (hdir.symm.trans h)) ih

theorem Shows.resolves_last (hs : s.Shows t) (hw : t.Walk 0 pre q) (he : t.Entry q k i e) :
    (t.resolve (fun _ => true) 0 (pre ++ [e.name])).found = some e := by
  rw [hs.found_walk hw (cons_ne_nil _ _), Tree.resolve_last rfl (hs.lookup_entry he)]

theorem Shows.below_file (hs : s.Shows t) (ht : t.Shaped) (hw : t.Walk 0 pre q) (he : t.Entry q k i e) (hreg : e.fType = ftRegular)
    (hr : rest ≠ []) : ¬ t.Resolves (pre ++ e.name :: rest) ∧ ¬ t.NoFilePrefix 0 (pre ++ e.name :: rest) := by
  constructor
  · intro h
    obtain ⟨x, hx⟩ := h (by simp)
    obtain ⟨y, ys, rfl⟩ := exists_cons_of_ne_nil hr
    have hn : t.lookup e.iNo.toNat y = none := by
      by_contra hso
      obtain ⟨e', he'⟩ := Option.ne_none_iff_exists'.mp hso
      obtain ⟨k', i', ⟨nd, hnd, hdir, -⟩, -⟩ := lookup_some he'
      exact ftDirectory_ne_ftRegular (((ht.dir_entry he).mpr ⟨nd, hnd, hdir⟩).symm.trans hreg)
    rw [hs.found_walk hw (cons_ne_nil _ _), Tree.resolve_step rfl (hs.lookup_entry he) hr, Tree.resolve_fail fun _ => hn] at hx
    cases hx
  · intro h
    exact h (pre ++ [e.name]) rest e (by simp) hr (hs.resolves_last hw he) hreg

end Fs

/-! ## `search_file` -/

section
variable {part : Partition} {b : Build} {t : Tree} {mem : Nat → Bool} {K : Fs part → List Nat → Prop} {l : List Nat}

structure TotalTracks (b : Build) (t : Tree) (K : Fs part → List Nat → Prop) : Prop extends TreeTracks b t K where
  closes : ∀ {s : Fs part} {a : Nat} {l : List Nat}, K s (a :: l) → ∃ s', s.inodeClose b a = .ok s'

theorem TotalTracks.dirClose_total (h : TotalTracks b t K) {s : Fs part} {d : DirPtr} (hk : K s (d.held ++ l)) :
    ∃ s', s.dirClose b d = .ok s' ∧ K s' l := by
  have hc : ∃ s', s.dirClose b d = .ok s' := by
    unfold Fs.dirClose
    unfold DirPtr.held at hk
    split
    · exact ⟨s, rfl⟩
    · rename_i hr
      rw [if_neg hr] at hk
      exact h.closes hk
  obtain ⟨s', hc⟩ := hc
  exact ⟨s', hc, h.dirClose hk hc⟩

theorem TotalTracks.dirOpen_total (h : TotalTracks b t K) (ht : t.Shaped) {s : Fs part} {no : UInt32} (hk : K s l)
    (hd : t.IsDir no.toNat) : ∃ s' d, s.dirOpen b no = .ok (s', d) ∧ K s' (d.held ++ l) ∧ s'.At d.inode no.toNat := by
  obtain ⟨s', a, ho⟩ := (h.shows hk).open_total (b := b) ht hd
  have hop : s.dirOpen b no = .ok (s', ⟨a, false⟩) := by
    unfold Fs.dirOpen
    rw [ho]
    rfl
  obtain ⟨hk', hat, -⟩ := h.dirOpen ht hk hd hop
  exact ⟨s', _, hop, hk', hat⟩

structure Follows (s : Fs part) (r : PathSearchRecord) (no : UInt32) (front : List UInt8) (R : Resolved) : Prop where
  number : no = (R.found.map (·.iNo)).getD (-1)
  path : r.searchedPath = front ++ joinPath R.lookedUp
  parent : s.At r.parentDir.inode R.dir
  type : r.fileType = (R.found.map (·.fType)).getD 0

theorem Follows.cons {s : Fs part} {r : PathSearchRecord} {no : UInt32} {front name : List UInt8} {R : Resolved}
    (h : Follows s r no (front ++ slash :: name) R) : Follows s r no front { R with lookedUp := name :: R.lookedUp } :=
  ⟨h.number, by rw [h.path]; simp, h.parent, h.type⟩

theorem TotalTracks.searchLoop_round (h : TotalTracks b t K) (mem : Nat → Bool) {rest : List (List UInt8)} {name : List UInt8} {q : Nat}
    {st : Searching part} (hk : K st.fs (st.parentDir.held ++ l)) (hat : st.fs.At st.parentDir.inode q) (hq : t.IsDir q)
    (hn : ∀ x ∈ name :: rest, x ≠ [] ∧ 0 ∉ x ∧ x.length < 16) (hlen : st.searchedPath.length < 512) :
    ∃ no : UInt32, no.toNat = q ∧ searchLoop b mem (name :: rest) st =
      match if mem rest.length then t.lookup q name else none with
      | none => .ok (st.fs, ⟨st.searchedPath ++ slash :: name, st.parentDir, 0⟩, -1)
      | some e =>
        if e.fType = ftDirectory then do
          let fs ← st.fs.dirClose b st.parentDir
          let (fs, parentDir) ← fs.dirOpen b e.iNo
          searchLoop b mem rest ⟨fs, parentDir, no, st.searchedPath ++ slash :: name, e.iNo⟩
        else if e.fType = ftRegular then
          .ok (st.fs, ⟨st.searchedPath ++ slash :: name, st.parentDir, ftRegular⟩, e.iNo)
        else searchLoop b mem rest { st with searchedPath := st.searchedPath ++ slash :: name, iNo := e.iNo } := by
  have hs := h.shows hk
  obtain ⟨c, hc, hmem, rfl⟩ := hat.cached hs
  obtain ⟨nd, hnd, hdir⟩ := hq
  have hpu := hs.cached c hmem nd hnd hdir
  obtain ⟨hne, hz, hsh⟩ := hn name mem_cons_self
  have hf := (hs.holds hnd hdir).search_find (b := b) hdir hpu hne hz hsh (mem rest.length) fun _ => 0
  have hnx : ∀ x ∈ rest.head?, x.length < 16 := fun x hx => (hn x (.tail _ (mem_of_mem_head? hx))).2.2
  refine ⟨c.inode.iNo, rfl, ?_⟩
  rw [OperateSystem.searchLoop, assert_of _ hlen, ok_bind, hc, ok_bind, hf, ok_bind, lookup_eq hnd hdir]
  generalize (if mem rest.length then nd.find name else none) = r
  cases r with
  | none => rfl
  | some e =>
    dsimp only
    rw [inBounds_of hnx, ok_bind]
    rfl

theorem TotalTracks.searchLoop_follows (h : TotalTracks b t K) (ht : t.Shaped) : ∀ (rest : List (List UInt8)) (name : List UInt8)
    (q : Nat) (st : Searching part), K st.fs (st.parentDir.held ++ l) → st.fs.At st.parentDir.inode q → t.IsDir q →
    (∀ x ∈ name :: rest, x ≠ [] ∧ 0 ∉ x ∧ x.length < 16) → st.searchedPath.length + (joinPath (name :: rest)).length < 512 →
    t.NoFilePrefix q (name :: rest) →
    ∃ fs r no, searchLoop b mem (name :: rest) st = .ok (fs, r, no) ∧ K fs (r.parentDir.held ++ l) ∧
      Follows fs r no st.searchedPath (t.resolve mem q (name :: rest)) := by
  intro rest name q st hk hat hq hn hlen hfi
  obtain ⟨no, hno, hro⟩ := h.searchLoop_round mem hk hat hq hn (by omega)
  rw [hro]
  cases hl : if mem rest.length then t.lookup q name else none with
  | none =>
    rw [t.resolve_fail (ite_eq_right_iff.mp hl)]
    exact ⟨_, _, _, rfl, hk, rfl, by simp, hat, rfl⟩
  | some e =>
    obtain ⟨hmem, hf⟩ := Option.ite_none_right_eq_some.mp hl
    obtain ⟨k, i, he, -⟩ := lookup_some hf
    cases rest with
    | nil =>
      rw [t.resolve_last hmem hf]
      dsimp only
      by_cases hdir : e.fType = ftDirectory
      · obtain ⟨fs1, hc, hk1⟩ := h.dirClose_total hk
        obtain ⟨fs2, d, ho, hk2, -⟩ := h.dirOpen_total ht hk1 ((ht.dir_entry he).mp hdir)
        obtain ⟨fs3, hc', hk3⟩ := h.dirClose_total hk2
        obtain ⟨fs4, d', ho', hk4, hat'⟩ := h.dirOpen_total ht hk3 (hno ▸ hq)
        refine ⟨fs4, ⟨st.searchedPath ++ slash :: name, d', ftDirectory⟩, e.iNo, ?_, hk4, rfl, by simp, hno ▸ hat', hdir.symm⟩
        simp only [if_pos hdir, hc, ho, searchLoop, hc', ho', ok_bind]
        rfl
      · have hreg := (ht.regular_entry he).resolve_left hdir
        rw [if_neg hdir, if_pos hreg]
        exact ⟨_, _, _, rfl, hk, rfl, by simp, hat, hreg.symm⟩
    | cons y ys =>
      obtain ⟨hnot, hf'⟩ := hfi.step hf (cons_ne_nil _ _)
      have hdir := (ht.regular_entry he).resolve_right hnot
      have hsub := (ht.dir_entry he).mp hdir
      obtain ⟨fs1, hc, hk1⟩ := h.dirClose_total hk
      obtain ⟨fs2, d, ho, hk2, hat2⟩ := h.dirOpen_total ht hk1 hsub
      rw [joinPath_cons, length_cons, length_append] at hlen
      obtain ⟨fs, r, no', hr, hk', hfo⟩ := h.searchLoop_follows ht ys y e.iNo.toNat
        ⟨fs2, d, no, st.searchedPath ++ slash :: name, e.iNo⟩ hk2 hat2 hsub (fun x hx => hn x (mem_cons_of_mem name hx))
        (by simp only [length_append, length_cons]; omega) hf'
      rw [t.resolve_step hmem hf (cons_ne_nil _ _)]
      refine ⟨fs, r, no', ?_, hk', hfo.cons⟩
      simp only [if_pos hdir, hc, ho, ok_bind]
      exact hr

theorem TotalTracks.searchFile_follows (h : TotalTracks b t K) (ht : t.Shaped) {s : Fs part} (hk : K s l) {pathname : List UInt8}
    (hh : pathname.head? = some slash) (hlen : pathname.length < 512) (hn : names pathname ≠ [])
    (hnul : ∀ x ∈ names pathname, 0 ∉ x) (hs : ∀ x ∈ names pathname, x.length < 16) (hr : pathname ∉ rootPaths) (hf : t.NoFilePrefix 0 (names pathname))
    (old : UInt32) : ∃ s' r no, searchFile b s pathname mem old = .ok (s', r, no) ∧ K s' (r.parentDir.held ++ l) ∧
      Follows s' r no [] (t.resolve mem 0 (names pathname)) := by
  have hle := joinPath_names_le hh
  have hall : ∀ x ∈ names pathname, x ≠ [] ∧ 0 ∉ x ∧ x.length < 16 := fun x hx =>
    ⟨(names_isName hx).1, hnul x hx, hs x hx⟩
  unfold OperateSystem.searchFile
  rw [if_neg hr, inBounds_of fun x hx => hs x (mem_of_mem_head? hx)]
  rcases hxs : names pathname with _ | ⟨x, xs⟩
  · exact absurd hxs hn
  rw [hxs] at hle hall hf
  have hpos := length_pos_iff.mpr (hall x mem_cons_self).1
  have hl : 1 < pathname.length := by
    rw [joinPath_cons, length_cons, length_append] at hle
    omega
  rw [assert_of _ ⟨hh, hl, hlen⟩, ok_bind, ok_bind]
  exact h.searchLoop_follows ht xs x 0 ⟨s, s.rootPtr, 0, [], old⟩ hk (h.root hk) ht.root hall
    (by rw [length_nil]; omega) hf

theorem TotalTracks.searchFile_total (h : TotalTracks b t K) (ht : t.Shaped) (hmem : ∀ n, mem n = true) {s : Fs part} (hk : K s l)
    {pathname : List UInt8} {d : Nat} (hw : t.Walk 0 (names pathname) d) (hh : pathname.head? = some slash)
    (hlen : pathname.length < 512) (hn : pathname ∈ rootPaths ∨ names pathname ≠ []) (old : UInt32) :
    ∃ s' r no, searchFile b s pathname mem old = .ok (s', r, no) ∧ K s' (r.parentDir.held ++ l) ∧ r.fileType = ftDirectory ∧
      no.toNat = d := by
  have hs := h.shows hk
  by_cases hro : pathname ∈ rootPaths
  · refine ⟨s, ⟨[], s.rootPtr, ftDirectory⟩, 0, if_pos hro, hk, rfl, ?_⟩
    have hpa := hw.normalise ht
    rw [rootPaths_normalise pathname hro] at hpa
    exact hpa.eq_root.symm
  · have hn := hn.resolve_left hro
    obtain ⟨pre, q, k, i, e, hsp, hpre, he, hdir, rfl⟩ := hw.last hn
    obtain rfl : mem = fun _ => true := funext hmem
    obtain ⟨s', r, no, hr, hk', hf⟩ := h.searchFile_follows ht hk hh hlen hn hw.zero_not_mem
      (hs.walk_names hw) hro (hsp ▸ hs.noFilePrefix hpre e.name) old
    have hfo : (t.resolve (fun _ => true) 0 (names pathname)).found = some e := by
      rw [hsp]
      exact hs.resolves_last hpre he
    refine ⟨s', r, no, hr, hk', ?_, ?_⟩
    · rw [hf.type, hfo]
      exact hdir
    · rw [hf.number, hfo]
      rfl

end

end OperateSystem
