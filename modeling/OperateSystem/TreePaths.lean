import OperateSystem.Paths
import OperateSystem.Tree

/-!
# Paths in the tree

A node has one list of names that leads to it from the root without dots. A walk
along entries, dots included, ends at the node with the names that `normalise`
leaves of those on the way.
-/

namespace OperateSystem

namespace Tree

inductive PathOf (t : Tree) : Nat → List (List UInt8) → Prop
  | root : PathOf t 0 []
  | child {d k i : Nat} {e : DirEntry} {xs : List (List UInt8)} (h : PathOf t d xs) (hc : t.Child d k i e) :
    PathOf t e.iNo.toNat (xs ++ [e.name])

inductive Walk (t : Tree) : Nat → List (List UInt8) → Nat → Prop
  | nil {d : Nat} : Walk t d [] d
  | cons {d d' k i : Nat} {e : DirEntry} {xs : List (List UInt8)} (he : t.Entry d k i e) (hdir : e.fType = ftDirectory)
    (h : Walk t e.iNo.toNat xs d') : Walk t d (e.name :: xs) d'

variable {t : Tree} {d d' q k i : Nat} {e : DirEntry} {xs ys : List (List UInt8)}

theorem Walk.snoc (h : t.Walk d xs q) (he : t.Entry q k i e) (hdir : e.fType = ftDirectory) :
    t.Walk d (xs ++ [e.name]) e.iNo.toNat := by
  induction h with
  | nil => exact .cons he hdir .nil
  | cons he' hdir' _ ih => exact .cons he' hdir' (ih he)

theorem Walk.last (h : t.Walk d xs d') (hne : xs ≠ []) : ∃ pre q k i e, xs = pre ++ [e.name] ∧ t.Walk d pre q ∧ t.Entry q k i e ∧
    e.fType = ftDirectory ∧ e.iNo.toNat = d' := by
  induction h with
  | nil => exact absurd rfl hne
  | @cons d _ k i e xs he hdir h ih =>
    by_cases hxs : xs = []
    · subst hxs
      cases h
      exact ⟨[], d, k, i, e, rfl, .nil, he, hdir, rfl⟩
    · obtain ⟨pre, q, k', i', e', rfl, hw, he', hdir', hend⟩ := ih hxs
      exact ⟨e.name :: pre, q, k', i', e', rfl, .cons he hdir hw, he', hdir', hend⟩

theorem Shaped.dir_entry (h : t.Shaped) (he : t.Entry d k i e) : e.fType = ftDirectory ↔ t.IsDir e.iNo.toNat := by
  obtain ⟨nd, hnd, ht⟩ := h.entry_leads he
  have hiff : nd.fileType = ftDirectory ↔ nd.isDir = true := by
    unfold Node.fileType
    split
    · simp_all
    · simp_all [ftRegular, ftDirectory]
  rw [ht, hiff]
  constructor
  · exact fun hdir => ⟨nd, hnd, hdir⟩
  · rintro ⟨nd', hnd', hdir⟩
    cases hnd.symm.trans hnd'
    exact hdir

theorem Shaped.isDir_of (h : t.Shaped) {nd : Node} (hn : t e.iNo.toNat = some nd) (he : t.Entry d k i e) (hdir : e.fType = ftDirectory) :
    nd.isDir = true := by
  obtain ⟨nd', hnd', hi⟩ := (h.dir_entry he).mp hdir
  cases hn.symm.trans hnd'
  exact hi

theorem Shaped.regular_entry (h : t.Shaped) (he : t.Entry d k i e) : e.fType = ftDirectory ∨ e.fType = ftRegular := by
  obtain ⟨nd, -, ht⟩ := h.entry_leads he
  rw [ht, Node.fileType]
  split
  · exact .inl rfl
  · exact .inr rfl

theorem Walk.isDir (h : t.Shaped) (hd : t.IsDir d) (hw : t.Walk d xs d') : t.IsDir d' := by
  induction hw with
  | nil => exact hd
  | cons he hdir _ ih => exact ih ((h.dir_entry he).mp hdir)

/-! ## The path of a node -/

theorem Child.isDir (h : t.Child d k i e) : t.IsDir d := by
  obtain ⟨nd, hnd, hdir, -⟩ := h.1
  exact ⟨nd, hnd, hdir⟩

theorem Child.inj {e' : DirEntry} (h : t.Child d k i e) (h' : t.Child d k i e') : e = e' := by
  obtain ⟨nd, hnd, -, hent⟩ := h.1
  obtain ⟨nd', hnd', -, hent'⟩ := h'.1
  cases hnd.symm.trans hnd'
  exact Option.some.inj (hent.symm.trans hent')

theorem PathOf.unique (h : t.Shaped) (hx : t.PathOf d xs) (hy : t.PathOf d ys) : xs = ys := by
  induction hx generalizing ys with
  | root =>
    generalize hz : 0 = n at hy
    cases hy with
    | root => rfl
    | child _ hc => exact absurd hz.symm (h.leads hc).1
  | @child d k i e xs _ hc ih =>
    generalize hn : e.iNo.toNat = n at hy
    cases hy with
    | root => exact absurd hn (h.leads hc).1
    | child hy hc' =>
      obtain ⟨rfl, rfl, rfl⟩ := h.unique hc hc' hn
      rw [hc.inj hc', ih hy]

theorem PathOf.eq_root (h : t.PathOf d []) : d = 0 := by
  generalize hxs : [] = xs at h
  cases h with
  | root => rfl
  | child _ _ => exact absurd hxs (by simp)

theorem Below.path (h : t.Below d) : ∃ xs, t.PathOf d xs := by
  induction h with
  | root => exact ⟨[], .root⟩
  | child _ hc ih =>
    obtain ⟨xs, hxs⟩ := ih
    exact ⟨_, .child hxs hc⟩

theorem Shaped.path (h : t.Shaped) (hd : t.IsDir d) : ∃ xs, t.PathOf d xs := by
  obtain ⟨nd, hnd, -⟩ := hd
  exact (h.below hnd).path

theorem PathOf.walk (h : t.Shaped) (hp : t.PathOf d xs) (hd : t.IsDir d) : t.Walk 0 xs d := by
  induction hp with
  | root => exact .nil
  | child _ hc ih => exact (ih hc.isDir).snoc hc.1 ((h.dir_entry hc.1).mpr hd)

theorem PathOf.step (h : t.Shaped) (hp : t.PathOf d xs) (he : t.Entry d k i e) : t.PathOf e.iNo.toNat (normStep xs e.name) := by
  by_cases hdot : k = 0 ∧ i < 2
  · obtain ⟨nd, hnd, hdir, hent⟩ := he
    obtain ⟨rfl, hi⟩ := hdot
    rcases (show i = 0 ∨ i = 1 by omega) with rfl | rfl
    · cases (h.dot hnd hdir).symm.trans hent
      rw [dotEntry_name, normStep, if_neg (by decide), if_pos rfl, dotEntry, ofNat_toNat_small (h.small hnd)]
      exact hp
    · obtain ⟨p, hdd, hpa⟩ := h.dotDot hnd hdir
      obtain ⟨pd, hpd, -⟩ := hpa.isDir h
      cases hdd.symm.trans hent
      rw [dotDotEntry_name, normStep, if_pos rfl, dotDotEntry, ofNat_toNat_small (h.small hpd)]
      rcases hpa with ⟨rfl, rfl⟩ | ⟨k, i, e, hc, rfl⟩
      · rw [hp.unique h .root]
        exact .root
      · obtain ⟨ys, hys⟩ := h.path hc.isDir
        rw [hp.unique h (.child hys hc), List.dropLast_concat]
        exact hys
  · obtain ⟨h1, h2⟩ := h.names ⟨he, hdot⟩
    rw [normStep, if_neg h2, if_neg h1]
    exact .child hp ⟨he, hdot⟩

theorem Shaped.entry_number (h : t.Shaped) {k' i' : Nat} {e' : DirEntry} (hc : t.Child d k i e) (he : t.Entry d k' i' e')
    (hno : e'.iNo = e.iNo) : e' = e := by
  obtain ⟨xs, hxs⟩ := h.path hc.isDir
  have hpa := hxs.step h he
  rw [hno] at hpa
  have heq := congrArg List.length (hpa.unique h (.child hxs hc))
  rw [List.length_append, List.length_singleton] at heq
  have hdot : ¬ (k' = 0 ∧ i' < 2) := by
    rintro ⟨rfl, hi⟩
    obtain ⟨nd, hnd, hdir, hent⟩ := he
    rcases (show i' = 0 ∨ i' = 1 by omega) with rfl | rfl
    · cases (h.dot hnd hdir).symm.trans hent
      rw [dotEntry_name, normStep, if_neg (by decide), if_pos rfl] at heq
      omega
    · obtain ⟨p, hp, -⟩ := h.dotDot hnd hdir
      cases hp.symm.trans hent
      rw [dotDotEntry_name, normStep, if_pos rfl, List.length_dropLast] at heq
      omega
  obtain ⟨-, rfl, rfl⟩ := h.unique ⟨he, hdot⟩ hc (congrArg UInt32.toNat hno)
  exact Child.inj ⟨he, hdot⟩ hc

theorem Walk.path (h : t.Shaped) (hw : t.Walk d ys d') : ∀ {xs}, t.PathOf d xs → t.PathOf d' (ys.foldl normStep xs) := by
  induction hw with
  | nil => exact fun hp => hp
  | cons he _ _ ih => exact fun hp => ih (hp.step h he)

theorem Walk.normalise (h : t.Shaped) (hw : t.Walk 0 ys d) : t.PathOf d (normalise ys) := hw.path h .root

/-! ## A change of the tree -/

def Keeps (t t' : Tree) (d : Nat) : Prop := (t.IsDir d → t'.IsDir d) ∧ ∀ xs, t.PathOf d xs → t'.PathOf d xs

theorem PathOf.mono {t' : Tree} (h : ∀ {d k i e}, t.Child d k i e → t'.Child d k i e) (hp : t.PathOf d xs) : t'.PathOf d xs := by
  induction hp with
  | root => exact .root
  | child _ hc ih => exact .child ih (h hc)

section
variable {p n k0 i0 : Nat} {P new : Node} {inode : Inode}

theorem Hangs.grows (hok : t.Ok) (h : t.Hangs p P inode k0 i0 e n new) (d : Nat) :
    t.Keeps (t.link p (P.put inode k0 i0 (some e)) n (some new)) d := by
  refine ⟨?_, fun xs hp => hp.mono fun hc => (h.child_iff hok).mpr (.inl hc)⟩
  rintro ⟨nd, hnd, hdir⟩
  obtain ⟨nd', hnd', hs⟩ := h.node hnd
  exact ⟨nd', hnd', hs.trans hdir⟩

theorem Leaf.keeps_path (h : t.Leaf p P inode k0 i0 e n) (hd : d ≠ n) : t.Keeps (t.link p (P.put inode k0 i0 none) n none) d := by
  constructor
  · rintro ⟨nd, hnd, hdir⟩
    obtain ⟨nd', hnd', hs⟩ := h.node hnd hd
    exact ⟨nd', hnd', hs.trans hdir⟩
  · intro xs hp
    induction hp with
    | root => exact .root
    | child _ hc ih => exact .child (ih fun e => h.leaf _ _ _ (e ▸ hc)) (h.keeps hc hd)

end

end Tree

end OperateSystem
