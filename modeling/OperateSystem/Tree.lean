import OperateSystem.FsCalls

/-!
# The directory tree

A file system as a map from inode numbers to nodes, without the disk. A
directory's first two slots hold `"."` and `".."`, and every other entry leads
down to a node of its own. A new node is hung below a directory, and a node
without children is taken off.
-/

namespace OperateSystem

open Function

def dotEntry (no : UInt32) : DirEntry := ⟨fun j => dot.getD j 0, no, ftDirectory⟩

def dotDotEntry (no : UInt32) : DirEntry := ⟨fun j => dotDot.getD j 0, no, ftDirectory⟩

theorem dotEntry_name (no : UInt32) : (dotEntry no).name = dot := rfl

theorem dotDotEntry_name (no : UInt32) : (dotDotEntry no).name = dotDot := rfl

/-- An inode and, for a directory, the entries in its slots. -/
structure Node where
  inode : Inode
  isDir : Bool
  ents : Nat → Nat → Option DirEntry

namespace Node

@[irreducible] def slots (nd : Node) : Finset (Nat × Nat) := (Finset.range 140 ×ˢ Finset.range 21).filter fun x => (nd.ents x.1 x.2).isSome

def put (nd : Node) (inode : Inode) (k0 i0 : Nat) (e : Option DirEntry) : Node :=
  { nd with inode, ents := fun k i => if k = k0 ∧ i = i0 then e else nd.ents k i }

def fileType (nd : Node) : UInt32 := if nd.isDir then ftDirectory else ftRegular

end Node

def newEnts (n p : Nat) (k i : Nat) : Option DirEntry :=
  if k = 0 ∧ i = 0 then some (dotEntry (.ofNat n)) else if k = 0 ∧ i = 1 then some (dotDotEntry (.ofNat p)) else none

abbrev Tree := Nat → Option Node

namespace Tree
variable {e : DirEntry} {d i k m : Nat} {nd : Node}

def IsDir (t : Tree) (d : Nat) : Prop := ∃ nd, t d = some nd ∧ nd.isDir = true

def Entry (t : Tree) (d k i : Nat) (e : DirEntry) : Prop := ∃ nd, t d = some nd ∧ nd.isDir = true ∧ nd.ents k i = some e

def Child (t : Tree) (d k i : Nat) (e : DirEntry) : Prop := t.Entry d k i e ∧ ¬ (k = 0 ∧ i < 2)

/-- The root is its own parent. -/
def Parent (t : Tree) (p d : Nat) : Prop := d = 0 ∧ p = 0 ∨ ∃ k i e, t.Child p k i e ∧ e.iNo.toNat = d

inductive Below (t : Tree) : Nat → Prop
  | root : Below t 0
  | child {d k i : Nat} {e : DirEntry} (h : Below t d) (hc : t.Child d k i e) : Below t e.iNo.toNat

/-- Every entry apart from the dots leads to a node of its own, and `".."` to the directory above. -/
structure Shaped (t : Tree) : Prop where
  root : t.IsDir 0
  small : ∀ {n nd}, t n = some nd → n < 4096
  dot : ∀ {d nd}, t d = some nd → nd.isDir = true → nd.ents 0 0 = some (dotEntry (.ofNat d))
  dotDot : ∀ {d nd}, t d = some nd → nd.isDir = true → ∃ p, nd.ents 0 1 = some (dotDotEntry (.ofNat p)) ∧ t.Parent p d
  names : ∀ {d k i e}, t.Child d k i e → e.name ≠ OperateSystem.dot ∧ e.name ≠ OperateSystem.dotDot
  leads : ∀ {d k i e}, t.Child d k i e → e.iNo.toNat ≠ 0 ∧ ∃ nd, t e.iNo.toNat = some nd ∧ e.fType = nd.fileType
  unique : ∀ {d k i e d' k' i' e'}, t.Child d k i e → t.Child d' k' i' e' → e.iNo.toNat = e'.iNo.toNat →
    d = d' ∧ k = k' ∧ i = i'
  below : ∀ {n nd}, t n = some nd → t.Below n

structure Ok (t : Tree) : Prop extends Shaped t where
  byte : ∀ {n nd}, t n = some nd → n < 256
  range : ∀ {d k i e}, t.Entry d k i e → k < 140 ∧ i < 21
  size : ∀ {d nd}, t d = some nd → nd.isDir = true → nd.inode.iSize.toNat = 24 * nd.slots.card

variable {t : Tree} {p n : Nat} {P : Node}

theorem Parent.isDir (h : t.Shaped) (hp : t.Parent p d) : t.IsDir p := by
  rcases hp with ⟨-, rfl⟩ | ⟨k, i, e, ⟨⟨nd, hnd, hdir, -⟩, -⟩, -⟩
  · exact h.root
  · exact ⟨nd, hnd, hdir⟩

theorem ofNat_toNat_small {n : Nat} (h : n < 4096) : (UInt32.ofNat n).toNat = n := by
  rw [UInt32.toNat_ofNat']
  exact Nat.mod_eq_of_lt (by omega)

theorem Shaped.entry_leads (h : t.Shaped) (he : t.Entry d k i e) :
    ∃ nd, t e.iNo.toNat = some nd ∧ e.fType = nd.fileType := by
  by_cases hdot : k = 0 ∧ i < 2
  · obtain ⟨nd, hnd, hdir, hent⟩ := he
    obtain ⟨rfl, hi⟩ := hdot
    rcases (show i = 0 ∨ i = 1 by omega) with rfl | rfl
    · cases (h.dot hnd hdir).symm.trans hent
      refine ⟨nd, ?_, ?_⟩
      · rwa [dotEntry, ofNat_toNat_small (h.small hnd)]
      · simp [dotEntry, Node.fileType, hdir]
    · obtain ⟨p, hp, hpa⟩ := h.dotDot hnd hdir
      obtain ⟨md, hmd, hm⟩ := hpa.isDir h
      cases hp.symm.trans hent
      refine ⟨md, ?_, ?_⟩
      · rwa [dotDotEntry, ofNat_toNat_small (h.small hmd)]
      · simp [dotDotEntry, Node.fileType, hm]
  · exact (h.leads ⟨he, hdot⟩).2

theorem Ok.dot_slot (h : t.Ok) (he : t.Entry d k i e) :
    (e.name = OperateSystem.dot ∨ e.name = OperateSystem.dotDot) ↔ k = 0 ∧ i < 2 := by
  constructor
  · intro hn
    by_contra hdot
    obtain ⟨h1, h2⟩ := h.names ⟨he, hdot⟩
    rcases hn with hn | hn
    · exact h1 hn
    · exact h2 hn
  · rintro ⟨rfl, hi⟩
    obtain ⟨nd, hnd, hdir, hent⟩ := he
    rcases (show i = 0 ∨ i = 1 by omega) with rfl | rfl
    · cases (h.dot hnd hdir).symm.trans hent
      exact .inl (dotEntry_name _)
    · obtain ⟨p, hp, -⟩ := h.dotDot hnd hdir
      cases hp.symm.trans hent
      exact .inr (dotDotEntry_name _)

theorem Ok.regular_child (h : t.Ok) (he : t.Entry d k i e) (hreg : e.fType = ftRegular) : t.Child d k i e := by
  refine ⟨he, ?_⟩
  rintro ⟨rfl, hi⟩
  obtain ⟨nd, hnd, hdir, hent⟩ := he
  have hne : ftDirectory ≠ ftRegular := by decide
  rcases (show i = 0 ∨ i = 1 by omega) with rfl | rfl
  · cases (h.dot hnd hdir).symm.trans hent
    exact hne hreg
  · obtain ⟨p, hp, -⟩ := h.dotDot hnd hdir
    cases hp.symm.trans hent
    exact hne hreg

theorem Ok.no_dots (hok : t.Ok) (hd : t d = some nd) (hdir : nd.isDir = true) {name : List UInt8}
    (hm : ∀ k i x, t.Entry d k i x → x.name ≠ name) :
    name ≠ OperateSystem.dot ∧ name ≠ OperateSystem.dotDot := by
  obtain ⟨p, hp, -⟩ := hok.dotDot hd hdir
  constructor
  · intro e
    exact hm 0 0 _ ⟨nd, hd, hdir, hok.dot hd hdir⟩ ((dotEntry_name _).trans e.symm)
  · intro e
    exact hm 0 1 _ ⟨nd, hd, hdir, hp⟩ ((dotDotEntry_name _).trans e.symm)

theorem mem_slots : (k, i) ∈ nd.slots ↔ (k < 140 ∧ i < 21) ∧ (nd.ents k i).isSome := by
  unfold Node.slots
  simp

theorem Ok.empty (h : t.Ok) (hd : t n = some nd) (hdir : nd.isDir = true)
    (hs : nd.inode.iSize.toNat = 48) : ¬ t.Child n k i e := by
  intro hc
  have hsi := h.size hd hdir
  have hr := h.range hc.1
  obtain ⟨⟨nd', hnd', -, hent⟩, hdot⟩ := hc
  cases hd.symm.trans hnd'
  obtain ⟨p, hp, -⟩ := h.dotDot hd hdir
  -- the child's slot would be a third one
  have hsub : {(0, 0), (0, 1), (k, i)} ⊆ nd.slots := by
    intro x hx
    simp only [Finset.mem_insert, Finset.mem_singleton] at hx
    rcases hx with rfl | rfl | rfl
    · exact mem_slots.mpr ⟨by decide, by rw [h.dot hd hdir]; rfl⟩
    · exact mem_slots.mpr ⟨by decide, by rw [hp]; rfl⟩
    · exact mem_slots.mpr ⟨hr, by rw [hent]; rfl⟩
  have hca : ({(0, 0), (0, 1), (k, i)} : Finset (Nat × Nat)).card = 3 := by
    refine Finset.card_eq_three.mpr ⟨_, _, _, by decide, ?_, ?_, rfl⟩
    · intro e
      cases e
      exact hdot ⟨rfl, by decide⟩
    · intro e
      cases e
      exact hdot ⟨rfl, by decide⟩
  have := Finset.card_le_card hsub
  omega

/-! ## Changing a directory and a node -/

def link (t : Tree) (p : Nat) (P : Node) (n : Nat) (nd : Option Node) : Tree :=
  Function.update (Function.update t p (some P)) n nd

theorem link_self (t : Tree) (p : Nat) (P : Node) (n : Nat) (nd : Option Node) : t.link p P n nd n = nd :=
  update_self ..

theorem link_parent (t : Tree) (P : Node) (nd : Option Node) (h : p ≠ n) : t.link p P n nd p = some P := by
  unfold link
  rw [update_of_ne h, update_self]

theorem link_other (t : Tree) (P : Node) (nd : Option Node) (hp : m ≠ p) (hn : m ≠ n) :
    t.link p P n nd m = t m := by
  unfold link
  rw [update_of_ne hn, update_of_ne hp]

theorem link_cases {nd : Option Node} {x : Node} (h : p ≠ n) (hm : t.link p P n nd m = some x) :
    (m = n ∧ nd = some x) ∨ (m = p ∧ x = P) ∨ (m ≠ n ∧ m ≠ p ∧ t m = some x) := by
  by_cases hn : m = n
  · rw [hn, link_self] at hm
    exact .inl ⟨hn, hm⟩
  · by_cases hp : m = p
    · rw [hp, link_parent _ _ _ h, Option.some.injEq] at hm
      exact .inr (.inl ⟨hp, hm.symm⟩)
    · rw [link_other _ _ _ hp hn] at hm
      exact .inr (.inr ⟨hn, hp, hm⟩)

theorem Below.mono {t' : Tree} (h : ∀ {d k i e}, t.Child d k i e → t'.Child d k i e) (hb : t.Below m) :
    t'.Below m := by
  induction hb with
  | root => exact .root
  | child _ hc ih => exact .child ih (h hc)

theorem Parent.mono {t' : Tree} (h : ∀ {d k i e}, t.Child d k i e → t'.Child d k i e)
    (hp : t.Parent p d) :
    t'.Parent p d := by
  rcases hp with h0 | ⟨k, i, e, hc, he⟩
  · exact .inl h0
  · exact .inr ⟨k, i, e, h hc, he⟩

section
variable {inode : Inode} {k0 i0 : Nat} {e : DirEntry}
variable {x : DirEntry} {d i k m : Nat} {nd : Node}

theorem put_card (hr : k0 < 140 ∧ i0 < 21) (hold : nd.ents k0 i0 = none) :
    (nd.put inode k0 i0 (some e)).slots.card = nd.slots.card + 1 := by
  have hins : (nd.put inode k0 i0 (some e)).slots = insert (k0, i0) nd.slots := by
    ext ⟨k, i⟩
    rw [Finset.mem_insert, mem_slots, mem_slots, Prod.mk.injEq]
    by_cases hki : k = k0 ∧ i = i0
    · obtain ⟨rfl, rfl⟩ := hki
      simp [Node.put, hr]
    · simp [Node.put, hki]
  rw [hins, Finset.card_insert_of_notMem fun h => by simp [mem_slots, hold] at h]

theorem clear_card (inode : Inode) (hr : k0 < 140 ∧ i0 < 21) (hold : nd.ents k0 i0 = some e) :
    (nd.put inode k0 i0 none).slots.card + 1 = nd.slots.card := by
  have hdel : (nd.put inode k0 i0 none).slots = nd.slots.erase (k0, i0) := by
    ext ⟨k, i⟩
    rw [Finset.mem_erase, mem_slots, mem_slots, ne_eq, Prod.mk.injEq]
    by_cases hki : k = k0 ∧ i = i0
    · simp [Node.put, hki]
    · simp [Node.put, hki]
  rw [hdel, Finset.card_erase_add_one (mem_slots.mpr ⟨hr, by rw [hold]; rfl⟩)]

/-! ## A new node -/

structure Hangs (t : Tree) (p : Nat) (P : Node) (inode : Inode) (k0 i0 : Nat) (e : DirEntry) (n : Nat) (new : Node) : Prop where
  dir : t p = some P ∧ P.isDir = true
  free : t n = none ∧ n < 256
  slot : P.ents k0 i0 = none ∧ k0 < 140 ∧ i0 < 21
  entry : e.iNo = .ofNat n ∧ e.fType = new.fileType
  name : e.name ≠ OperateSystem.dot ∧ e.name ≠ OperateSystem.dotDot
  size : inode.iSize.toNat = P.inode.iSize.toNat + 24
  new : new.isDir = true → new.ents = newEnts n p ∧ new.inode.iSize.toNat = 48

variable {new : Node}

theorem newEnts_cases {n p : Nat} (h : newEnts n p k i = some x) :
    k = 0 ∧ (i = 0 ∧ x.name = OperateSystem.dot ∨ i = 1 ∧ x.name = OperateSystem.dotDot) := by
  unfold newEnts at h
  split at h
  · rename_i hc
    cases h
    exact ⟨hc.1, .inl ⟨hc.2, rfl⟩⟩
  · split at h
    · rename_i hc
      cases h
      exact ⟨hc.1, .inr ⟨hc.2, rfl⟩⟩
    · cases h

theorem newEnts_dot {n p : Nat} (h : newEnts n p k i = some x) : k = 0 ∧ i < 2 := by
  obtain ⟨hk, ⟨rfl, -⟩ | ⟨rfl, -⟩⟩ := newEnts_cases h <;> exact ⟨hk, by decide⟩

theorem Hangs.ne (h : t.Hangs p P inode k0 i0 e n new) : p ≠ n := fun he => by
  have hf := h.free.1
  rw [← he, h.dir.1] at hf
  cases hf

theorem Hangs.not_dot (hok : t.Ok) (h : t.Hangs p P inode k0 i0 e n new) : ¬ (k0 = 0 ∧ i0 < 2) := by
  rintro ⟨rfl, hi⟩
  have hs := h.slot.1
  rcases (show i0 = 0 ∨ i0 = 1 by omega) with rfl | rfl
  · rw [hok.dot h.dir.1 h.dir.2] at hs
    cases hs
  · obtain ⟨q, hq, -⟩ := hok.dotDot h.dir.1 h.dir.2
    rw [hq] at hs
    cases hs

theorem Hangs.child_iff (hok : t.Ok) (h : t.Hangs p P inode k0 i0 e n new) :
    (t.link p (P.put inode k0 i0 (some e)) n (some new)).Child d k i x ↔
      t.Child d k i x ∨ (d = p ∧ k = k0 ∧ i = i0 ∧ x = e) := by
  have hnot := h.not_dot hok
  constructor
  · rintro ⟨⟨nd, hnd, hdir, hent⟩, hdot⟩
    by_cases hn : d = n
    · rw [hn, link_self, Option.some.injEq] at hnd
      subst hnd
      rw [(h.new hdir).1] at hent
      exact absurd (newEnts_dot hent) hdot
    · by_cases hp : d = p
      · subst hp
        rw [link_parent _ _ _ hn, Option.some.injEq] at hnd
        subst hnd
        by_cases hki : k = k0 ∧ i = i0
        · simp only [Node.put, if_pos hki, Option.some.injEq] at hent
          exact .inr ⟨rfl, hki.1, hki.2, hent.symm⟩
        · simp only [Node.put, if_neg hki] at hent
          exact .inl ⟨⟨P, h.dir.1, hdir, hent⟩, hdot⟩
      · rw [link_other _ _ _ hp hn] at hnd
        exact .inl ⟨⟨nd, hnd, hdir, hent⟩, hdot⟩
  · rintro (⟨⟨nd, hnd, hdir, hent⟩, hdot⟩ | ⟨rfl, rfl, rfl, rfl⟩)
    · refine ⟨?_, hdot⟩
      have hn : d ≠ n := fun he => by
        rw [he, h.free.1] at hnd
        cases hnd
      by_cases hp : d = p
      · subst hp
        cases h.dir.1.symm.trans hnd
        refine ⟨_, link_parent _ _ _ hn, hdir, ?_⟩
        have hki : ¬ (k = k0 ∧ i = i0) := fun hki => by
          rw [hki.1, hki.2, h.slot.1] at hent
          cases hent
        simpa only [Node.put, if_neg hki] using hent
      · exact ⟨nd, by rwa [link_other _ _ _ hp hn], hdir, hent⟩
    · exact ⟨⟨_, link_parent _ _ _ h.ne, h.dir.2, by simp [Node.put]⟩, hnot⟩

theorem Hangs.node (h : t.Hangs p P inode k0 i0 e n new) (hm : t m = some nd) :
    ∃ nd', t.link p (P.put inode k0 i0 (some e)) n (some new) m = some nd' ∧ nd'.isDir = nd.isDir := by
  have hn : m ≠ n := fun he => by
    rw [he, h.free.1] at hm
    cases hm
  by_cases hp : m = p
  · subst hp
    cases h.dir.1.symm.trans hm
    exact ⟨_, link_parent _ _ _ hn, rfl⟩
  · exact ⟨nd, by rwa [link_other _ _ _ hp hn], rfl⟩

theorem Hangs.cases (h : t.Hangs p P inode k0 i0 e n new)
    (hm : t.link p (P.put inode k0 i0 (some e)) n (some new) m = some nd) :
    (m = n ∧ nd = new) ∨ (m = p ∧ nd = P.put inode k0 i0 (some e)) ∨ (m ≠ n ∧ m ≠ p ∧ t m = some nd) := by
  rcases link_cases h.ne hm with ⟨hn, e⟩ | hold
  · exact .inl ⟨hn, (Option.some.inj e).symm⟩
  · exact .inr hold

theorem Ok.insert (hok : t.Ok) (h : t.Hangs p P inode k0 i0 e n new) :
    (t.link p (P.put inode k0 i0 (some e)) n (some new)).Ok := by
  have hnot := h.not_dot hok
  have hmo : ∀ {d k i x}, t.Child d k i x → (t.link p (P.put inode k0 i0 (some e)) n (some new)).Child d k i x :=
    fun hc => (h.child_iff hok).mpr (.inl hc)
  have hnew := (h.child_iff hok).mpr (.inr ⟨rfl, rfl, rfl, rfl⟩)
  have heno : e.iNo.toNat = n := by rw [h.entry.1, ofNat_toNat_small (Nat.lt_trans h.free.2 (by decide))]
  have hput : ∀ i < 2, (P.put inode k0 i0 (some e)).ents 0 i = P.ents 0 i := fun i hi =>
    if_neg fun hc => hnot ⟨hc.1.symm, by omega⟩
  -- a number that a child leads to is in use, so it is not the new one
  have hold : ∀ {d k i x}, t.Child d k i x → x.iNo.toNat ≠ n := fun hc he => by
    obtain ⟨-, nd, hnd, -⟩ := hok.leads hc
    rw [he, h.free.1] at hnd
    cases hnd
  have hbyte : ∀ {m nd}, t.link p (P.put inode k0 i0 (some e)) n (some new) m = some nd → m < 256 := by
    intro m nd hm
    rcases h.cases hm with ⟨rfl, -⟩ | ⟨rfl, -⟩ | ⟨-, -, hm⟩
    · exact h.free.2
    · exact hok.byte h.dir.1
    · exact hok.byte hm
  refine ⟨⟨?_, fun hm => Nat.lt_trans (hbyte hm) (by decide), ?_, ?_, ?_, ?_, ?_, ?_⟩, hbyte, ?_, ?_⟩
  · obtain ⟨nd, hnd, hdir⟩ := hok.root
    obtain ⟨nd', hnd', hs⟩ := h.node hnd
    exact ⟨nd', hnd', hs.trans hdir⟩
  · intro d nd hd hdir
    rcases h.cases hd with ⟨rfl, rfl⟩ | ⟨rfl, rfl⟩ | ⟨-, -, hd⟩
    · rw [(h.new hdir).1]
      rfl
    · rw [hput 0 (by decide)]
      exact hok.dot h.dir.1 h.dir.2
    · exact hok.dot hd hdir
  · intro d nd hd hdir
    rcases h.cases hd with ⟨rfl, rfl⟩ | ⟨rfl, rfl⟩ | ⟨-, -, hd⟩
    · refine ⟨p, ?_, .inr ⟨k0, i0, e, hnew, heno⟩⟩
      rw [(h.new hdir).1]
      rfl
    · obtain ⟨q, hq, hpa⟩ := hok.dotDot h.dir.1 h.dir.2
      exact ⟨q, by rwa [hput 1 (by decide)], hpa.mono hmo⟩
    · obtain ⟨q, hq, hpa⟩ := hok.dotDot hd hdir
      exact ⟨q, hq, hpa.mono hmo⟩
  · intro d k i x hc
    rcases (h.child_iff hok).mp hc with hc | ⟨-, -, -, rfl⟩
    · exact hok.names hc
    · exact h.name
  · intro d k i x hc
    rcases (h.child_iff hok).mp hc with hc | ⟨-, -, -, rfl⟩
    · obtain ⟨hne, nd, hnd, ht⟩ := hok.leads hc
      obtain ⟨nd', hnd', hs⟩ := h.node hnd
      exact ⟨hne, nd', hnd', by rw [ht, Node.fileType, Node.fileType, hs]⟩
    · refine ⟨?_, new, ?_, h.entry.2⟩
      · rw [heno]
        rintro rfl
        obtain ⟨nd, hnd, -⟩ := hok.root
        rw [h.free.1] at hnd
        cases hnd
      · rw [heno, link_self]
  · intro d k i x d' k' i' x' hc hc' hno
    rcases (h.child_iff hok).mp hc with hc | ⟨hd, hk, hi, hx⟩ <;>
      rcases (h.child_iff hok).mp hc' with hc' | ⟨hd', hk', hi', hx'⟩
    · exact hok.unique hc hc' hno
    · exact absurd (hno.trans (hx' ▸ heno)) (hold hc)
    · exact absurd (hno.symm.trans (hx ▸ heno)) (hold hc')
    · exact ⟨hd.trans hd'.symm, hk.trans hk'.symm, hi.trans hi'.symm⟩
  · intro m nd hm
    rcases h.cases hm with ⟨hmn, -⟩ | ⟨rfl, -⟩ | ⟨-, -, hm⟩
    · have hb : Below _ e.iNo.toNat := .child ((hok.below h.dir.1).mono hmo) hnew
      rw [hmn]
      rwa [heno] at hb
    · exact (hok.below h.dir.1).mono hmo
    · exact (hok.below hm).mono hmo
  · intro d k i x hx
    by_cases hdot : k = 0 ∧ i < 2
    · omega
    · rcases (h.child_iff hok).mp ⟨hx, hdot⟩ with hc | ⟨-, rfl, rfl, -⟩
      · exact hok.range hc.1
      · exact h.slot.2
  · intro d nd hd hdir
    rcases h.cases hd with ⟨rfl, rfl⟩ | ⟨rfl, rfl⟩ | ⟨-, -, hd⟩
    · have hsl : nd.slots = {(0, 0), (0, 1)} := by
        ext ⟨k, i⟩
        rw [mem_slots, (h.new hdir).1, newEnts]
        simp only [Finset.mem_insert, Finset.mem_singleton, Prod.mk.injEq]
        by_cases h0 : k = 0 ∧ i = 0
        · simp [h0]
        · by_cases h1 : k = 0 ∧ i = 1
          · simp [h1]
          · simp [h0, h1]
      rw [(h.new hdir).2, hsl]
      rfl
    · rw [put_card h.slot.2 h.slot.1, show (P.put inode k0 i0 (some e)).inode = inode from rfl, h.size, hok.size h.dir.1 h.dir.2]
      omega
    · exact hok.size hd hdir

/-! ## A node less -/

structure Leaf (t : Tree) (p : Nat) (P : Node) (inode : Inode) (k0 i0 : Nat) (e : DirEntry) (n : Nat) : Prop where
  dir : t p = some P
  child : t.Child p k0 i0 e
  no : e.iNo.toNat = n
  leaf : ∀ k i x, ¬ t.Child n k i x
  size : inode.iSize.toNat + 24 = P.inode.iSize.toNat

theorem Leaf.ne (h : t.Leaf p P inode k0 i0 e n) : p ≠ n := by
  rintro rfl
  exact h.leaf _ _ _ h.child

theorem Leaf.ent (h : t.Leaf p P inode k0 i0 e n) : P.isDir = true ∧ P.ents k0 i0 = some e := by
  obtain ⟨nd, hnd, hdir, hent⟩ := h.child.1
  cases h.dir.symm.trans hnd
  exact ⟨hdir, hent⟩

theorem Leaf.child_iff (h : t.Leaf p P inode k0 i0 e n) :
    (t.link p (P.put inode k0 i0 none) n none).Child d k i x ↔ t.Child d k i x ∧ ¬ (d = p ∧ k = k0 ∧ i = i0) := by
  constructor
  · rintro ⟨⟨nd, hnd, hdir, hent⟩, hdot⟩
    have hn : d ≠ n := fun he => by
      rw [he, link_self] at hnd
      cases hnd
    by_cases hp : d = p
    · subst hp
      rw [link_parent _ _ _ hn, Option.some.injEq] at hnd
      subst hnd
      by_cases hki : k = k0 ∧ i = i0
      · simp only [Node.put, if_pos hki] at hent
        cases hent
      · simp only [Node.put, if_neg hki] at hent
        exact ⟨⟨⟨P, h.dir, hdir, hent⟩, hdot⟩, fun hc => hki hc.2⟩
    · rw [link_other _ _ _ hp hn] at hnd
      exact ⟨⟨⟨nd, hnd, hdir, hent⟩, hdot⟩, fun hc => hp hc.1⟩
  · rintro ⟨hc, hne⟩
    have hn : d ≠ n := fun he => h.leaf _ _ _ (he ▸ hc)
    obtain ⟨⟨nd, hnd, hdir, hent⟩, hdot⟩ := hc
    refine ⟨?_, hdot⟩
    by_cases hp : d = p
    · subst hp
      cases h.dir.symm.trans hnd
      refine ⟨_, link_parent _ _ _ hn, hdir, ?_⟩
      have hki : ¬ (k = k0 ∧ i = i0) := fun hki => hne ⟨rfl, hki⟩
      simpa only [Node.put, if_neg hki] using hent
    · exact ⟨nd, by rwa [link_other _ _ _ hp hn], hdir, hent⟩

theorem Leaf.cases (h : t.Leaf p P inode k0 i0 e n)
    (hm : t.link p (P.put inode k0 i0 none) n none m = some nd) :
    (m = p ∧ nd = P.put inode k0 i0 none) ∨ (m ≠ n ∧ m ≠ p ∧ t m = some nd) := by
  rcases link_cases h.ne hm with ⟨-, e⟩ | hold
  · cases e
  · exact hold

theorem Leaf.node (h : t.Leaf p P inode k0 i0 e n) (hm : t m = some nd) (hn : m ≠ n) :
    ∃ nd', t.link p (P.put inode k0 i0 none) n none m = some nd' ∧ nd'.isDir = nd.isDir := by
  by_cases hp : m = p
  · subst hp
    cases h.dir.symm.trans hm
    exact ⟨_, link_parent _ _ _ hn, rfl⟩
  · exact ⟨nd, by rwa [link_other _ _ _ hp hn], rfl⟩

theorem Leaf.keeps (h : t.Leaf p P inode k0 i0 e n) (hc : t.Child d k i x) (hx : x.iNo.toNat ≠ n) :
    (t.link p (P.put inode k0 i0 none) n none).Child d k i x := by
  refine h.child_iff.mpr ⟨hc, ?_⟩
  rintro ⟨rfl, rfl, rfl⟩
  obtain ⟨nd, hnd, -, hent⟩ := hc.1
  cases h.dir.symm.trans hnd
  cases h.ent.2.symm.trans hent
  exact hx h.no

theorem Ok.remove (hok : t.Ok) (h : t.Leaf p P inode k0 i0 e n) : (t.link p (P.put inode k0 i0 none) n none).Ok := by
  have hz : n ≠ 0 := h.no ▸ (hok.leads h.child).1
  have hput : ∀ i < 2, (P.put inode k0 i0 none).ents 0 i = P.ents 0 i := fun i hi =>
    if_neg fun hc => h.child.2 ⟨hc.1.symm, by omega⟩
  have hpa : ∀ {d q}, d ≠ n → t.Parent q d → (t.link p (P.put inode k0 i0 none) n none).Parent q d := by
    rintro d q hd (h0 | ⟨k, i, x, hc, hx⟩)
    · exact .inl h0
    · exact .inr ⟨k, i, x, h.keeps hc (hx ▸ hd), hx⟩
  have hbyte : ∀ {m nd}, t.link p (P.put inode k0 i0 none) n none m = some nd → m < 256 := by
    intro m nd hm
    rcases h.cases hm with ⟨rfl, -⟩ | ⟨-, -, hm⟩
    · exact hok.byte h.dir
    · exact hok.byte hm
  refine ⟨⟨?_, fun hm => Nat.lt_trans (hbyte hm) (by decide), ?_, ?_, ?_, ?_, ?_, ?_⟩, hbyte, ?_, ?_⟩
  · obtain ⟨nd, hnd, hdir⟩ := hok.root
    obtain ⟨nd', hnd', hs⟩ := h.node hnd hz.symm
    exact ⟨nd', hnd', hs.trans hdir⟩
  · intro d nd hd hdir
    rcases h.cases hd with ⟨rfl, rfl⟩ | ⟨-, -, hd⟩
    · rw [hput 0 (by decide)]
      exact hok.dot h.dir hdir
    · exact hok.dot hd hdir
  · intro d nd hd hdir
    rcases h.cases hd with ⟨rfl, rfl⟩ | ⟨hn, -, hd⟩
    · obtain ⟨q, hq, hpar⟩ := hok.dotDot h.dir hdir
      exact ⟨q, by rwa [hput 1 (by decide)], hpa h.ne hpar⟩
    · obtain ⟨q, hq, hpar⟩ := hok.dotDot hd hdir
      exact ⟨q, hq, hpa hn hpar⟩
  · intro d k i x hc
    exact hok.names (h.child_iff.mp hc).1
  · intro d k i x hc
    obtain ⟨hc, hne⟩ := h.child_iff.mp hc
    obtain ⟨h0, nd, hnd, ht⟩ := hok.leads hc
    have hn : x.iNo.toNat ≠ n := fun he => hne (hok.unique hc h.child (he.trans h.no.symm))
    obtain ⟨nd', hnd', hs⟩ := h.node hnd hn
    exact ⟨h0, nd', hnd', by rw [ht, Node.fileType, Node.fileType, hs]⟩
  · intro d k i x d' k' i' x' hc hc' hno
    exact hok.unique (h.child_iff.mp hc).1 (h.child_iff.mp hc').1 hno
  · -- a path to another node does not pass the one that is gone
    have hbe : ∀ {m}, t.Below m → m ≠ n → (t.link p (P.put inode k0 i0 none) n none).Below m := by
      intro m hb
      induction hb with
      | root => exact fun _ => .root
      | child _ hc ih =>
        intro hm
        exact .child (ih fun he => h.leaf _ _ _ (he ▸ hc)) (h.keeps hc hm)
    intro m nd hm
    rcases h.cases hm with ⟨rfl, -⟩ | ⟨hn, -, hm⟩
    · exact hbe (hok.below h.dir) h.ne
    · exact hbe (hok.below hm) hn
  · intro d k i x hx
    by_cases hdot : k = 0 ∧ i < 2
    · omega
    · exact hok.range (h.child_iff.mp ⟨hx, hdot⟩).1.1
  · intro d nd hd hdir
    rcases h.cases hd with ⟨rfl, rfl⟩ | ⟨-, -, hd⟩
    · have hca := clear_card inode (hok.range h.child.1) h.ent.2
      have hsi := hok.size h.dir hdir
      have := h.size
      show inode.iSize.toNat = _
      omega
    · exact hok.size hd hdir

end

end Tree

end OperateSystem
