import OperateSystem.DirDelete
import OperateSystem.FsSearch
import OperateSystem.Tree

/-!
# The tree on disk

`Repr` relates a volume to the tree it stores: the inode table holds the inode
of every node, the blocks of different nodes are different, and the live slots
of a directory are its entries. A node that an operation does not touch stays
as it is.
-/

namespace OperateSystem

open Function

section
variable {part : Partition} {b : Build} {vol vol' : Volume part} {T U N : Set Nat}
variable {i i' : Inode} {disk disk' : Mem} {lba : Nat} {nd : Node}

/-! ## Inodes in memory and on disk -/

theorem sec_of_pure (h : i.pure = i'.pure) (k : Nat) : i.sec k = i'.sec k := by
  have hs : i.pure.iSectors = i'.pure.iSectors := by rw [h]
  replace hs : i.iSectors = i'.iSectors := hs
  unfold Inode.sec
  rw [hs]

theorem slotAddr_of_pure (h : i.pure = i'.pure) (disk : Mem) : slotAddr disk i = slotAddr disk i' := by
  funext j
  unfold slotAddr memLayout tableOf
  simp only [sec_of_pure h]

theorem pure_pure (i : Inode) : i.pure.pure = i.pure := rfl

theorem DirOk.of_pure (h : DirOk vol i) (hi : i'.pure = i.pure) : DirOk vol i' := by
  have ha := slotAddr_of_pure hi vol.disk
  exact ⟨by rw [ha]; exact h.blocks, by rw [ha]; exact h.entries, by rw [ha]; exact h.distinct⟩

/-! ## Nodes -/

def owned (disk : Mem) (i : Inode) : Set Nat := { lba | ∃ j ≤ 140, slotAddr disk i j ≠ 0 ∧ (slotAddr disk i j).toNat = lba }

theorem owned_of_addr (h : ∀ j ≤ 140, slotAddr disk' i' j = slotAddr disk i j) :
    owned disk' i' = owned disk i := by
  ext lba
  constructor
  · rintro ⟨j, hj, hne, rfl⟩
    rw [h j hj] at hne ⊢
    exact ⟨j, hj, hne, rfl⟩
  · rintro ⟨j, hj, hne, rfl⟩
    rw [← h j hj] at hne ⊢
    exact ⟨j, hj, hne, rfl⟩

structure StoresNode (vol : Volume part) (nd : Node) : Prop where
  blocks : DirBlocks vol (slotAddr vol.disk nd.inode)
  dir : nd.isDir = true → DirOk vol nd.inode ∧ ∀ k i, liveAt vol.disk (slotAddr vol.disk nd.inode) k i = nd.ents k i

theorem StoresNode.used (h : StoresNode vol nd) (hl : lba ∈ owned vol.disk nd.inode) :
    part.dataStartLba ≤ lba ∧ vol.Used lba := by
  obtain ⟨j, hj, hne, rfl⟩ := hl
  exact ⟨(h.blocks.inData j hj hne).1, h.blocks.used j hj hne⟩

theorem liveAt_congr {l l' : Blocks} (hl : ∀ k < 140, l' k = l k)
    (hs : ∀ k < 140, l k ≠ 0 → ∀ j < 512, disk' (512 * (l k).toNat + j) = disk (512 * (l k).toNat + j))
    (k i : Nat) :
    liveAt disk' l' k i = liveAt disk l k i := by
  unfold liveAt
  by_cases hk : k < 140 ∧ i < 21 ∧ l k ≠ 0
  · rw [hl k hk.1, entryAt_congr hk.2.1 (hl k hk.1) (hs k hk.1 hk.2.2)]
  · have h1 : ¬ (k < 140 ∧ i < 21 ∧ l' k ≠ 0 ∧ (entryAt disk' l' k i).fType ≠ 0) := fun h =>
      hk ⟨h.1, h.2.1, hl k h.1 ▸ h.2.2.1⟩
    have h2 : ¬ (k < 140 ∧ i < 21 ∧ l k ≠ 0 ∧ (entryAt disk l k i).fType ≠ 0) := fun h => hk ⟨h.1, h.2.1, h.2.2.1⟩
    rw [if_neg h1, if_neg h2]

theorem StoresNode.frame (h : StoresNode vol nd) (ht : Touched vol vol' T U N)
    (hown : ∀ lba ∈ owned vol.disk nd.inode, lba ∉ T ∧ lba ∉ U) :
    StoresNode vol' nd ∧ owned vol'.disk nd.inode = owned vol.disk nd.inode := by
  have hs : ∀ j ≤ 140, slotAddr vol.disk nd.inode j ≠ 0 → ∀ x < 512,
      vol'.disk (512 * (slotAddr vol.disk nd.inode j).toNat + x) = vol.disk (512 * (slotAddr vol.disk nd.inode j).toNat + x) :=
    fun j hj hne => ht.data _ (h.blocks.inData j hj hne).1 (hown _ ⟨j, hj, hne, rfl⟩).1
  have htab : slotAddr vol.disk nd.inode 140 = nd.inode.sec 12 := memLayout_table _ _
  have ha := slotAddr_congr (fun _ => rfl) fun h12 => htab ▸ hs 140 le_rfl (htab ▸ h12)
  have hb : DirBlocks vol' (slotAddr vol'.disk nd.inode) := by
    refine ⟨fun k hk hne => ?_, fun k hk hne => ?_, fun k hk hne => ?_, fun j hj k hk hne he => ?_⟩
    · rw [ha k hk] at hne ⊢
      exact h.blocks.inData k hk hne
    · rw [ha k hk] at hne ⊢
      exact h.blocks.onDisk k hk hne
    · rw [ha k hk] at hne ⊢
      exact (ht.used _ (hown _ ⟨k, hk, hne, rfl⟩).2).mpr (h.blocks.used k hk hne)
    · rw [ha j hj] at hne he
      rw [ha k hk] at he
      exact h.blocks.inj j hj k hk hne he
  have hl := liveAt_congr (fun k hk => ha k (by omega)) fun k (hk : k < 140) => hs k (by omega)
  refine ⟨⟨hb, fun hdir => ?_⟩, owned_of_addr ha⟩
  obtain ⟨hok, hen⟩ := h.dir hdir
  refine ⟨⟨hb, fun k hk i hi hne => ?_, fun {k i k' i' x y} hx hy => ?_⟩, fun k i => (hl k i).trans (hen k i)⟩
  · rw [ha k (by omega)] at hne
    rw [entryAt_congr hi (ha k (by omega)) (hs k (by omega) hne)]
    exact hok.entries k hk i hi hne
  · rw [hl] at hx hy
    exact hok.distinct hx hy

structure Repr (vol : Volume part) (t : Tree) : Prop where
  small : ∀ {n nd}, t n = some nd → n < 256
  number : ∀ {n nd}, t n = some nd → nd.inode.iNo = .ofNat n
  taken : ∀ {n nd}, t n = some nd → vol.inodeBitmap.bit n = true
  stored : ∀ {n nd}, t n = some nd → Inode.ofMem vol.disk (part.inodeAddr n) = nd.inode
  holds : ∀ {n nd}, t n = some nd → StoresNode vol nd
  apart : ∀ {n m nd md lba}, t n = some nd → t m = some md → lba ∈ owned vol.disk nd.inode → lba ∈ owned vol.disk md.inode → n = m

theorem Repr.frame {t : Tree} (h : Repr vol t) (ht : Touched vol vol' T U N)
    (hown : ∀ {n nd}, t n = some nd → n ∉ N ∧ ∀ lba ∈ owned vol.disk nd.inode, lba ∉ T ∧ lba ∉ U) : Repr vol' t := by
  have hs : ∀ {n nd}, t n = some nd → owned vol'.disk nd.inode = owned vol.disk nd.inode := fun hn =>
    ((h.holds hn).frame ht (hown hn).2).2
  refine ⟨h.small, h.number, fun hn => ?_, fun hn => ?_, fun hn => ((h.holds hn).frame ht (hown hn).2).1,
    fun hn hm hl hl' => ?_⟩
  · exact (ht.bits _ (hown hn).1).trans (h.taken hn)
  · have := h.small hn
    exact (ht.table _ (by omega) (hown hn).1).trans (h.stored hn)
  · rw [hs hn] at hl
    rw [hs hm] at hl'
    exact h.apart hn hm hl hl'

/-! ## `sync_dir_entry` -/

variable {inode : Inode} {e : DirEntry} {st : DirWriting part} {ioBuf : Mem}

theorem putEntry_touched {k : Nat} {buf : Mem} {st' : DirWriting part} (h : putEntry b k buf st = .ok (st', true))
    (hl : part.dataStartLba ≤ (st.all k).toNat) : Touched st.vol st'.vol {(st.all k).toNat} U N := by
  obtain ⟨d, hd, h⟩ := bind_ok.mp h
  cases h
  exact .sector hl (ideWrite_ok hd) rfl rfl

structure Inserted (vol : Volume part) (inode : Inode) (e : DirEntry) (st : DirWriting part) (a k0 i0 : Nat) : Prop where
  placed : Placed vol inode st.vol st.inode e k0 i0 fun _ => True
  block : a ∈ owned vol.disk inode ∨ ¬ vol.Used a
  touched : Touched vol st.vol {a} { x | x = a ∧ ¬ vol.Used a } ∅
  keeps : ∀ x, vol.Used x → st.vol.Used x
  owned : owned st.vol.disk st.inode ⊆ OperateSystem.owned vol.disk inode ∪ { x | x = a ∧ ¬ vol.Used a }
  iNo : st.inode.iNo = inode.iNo

theorem syncDirEntry_inserted (hf : part.Formatted) (h : DirBlocks vol (slotAddr vol.disk inode))
    (hr : syncDirEntry .debug vol inode e ioBuf = .ok (st, true)) (hfu : ¬ DirectFull vol.disk inode) :
    ∃ a k0 i0, Inserted vol inode e st a k0 i0 := by
  cases syncDirEntry_end hr with
  | @free k i _ hk hi hl hfr hput =>
    obtain ⟨-, had⟩ := putEntry_addr h hk hl hput
    obtain ⟨-, -, hb, hin⟩ := putEntry_ok hput
    have hsec : slotAddr vol.disk inode k = inode.sec k := slotAddr_low hk
    have hne : slotAddr vol.disk inode k ≠ 0 := by rwa [hsec]
    have hmem : (slotAddr vol.disk inode k).toNat ∈ OperateSystem.owned vol.disk inode := ⟨k, by omega, hne, rfl⟩
    have hall : directBlocks inode k = slotAddr vol.disk inode k := by rw [directBlocks_apply, if_pos hk, hsec]
    have ht := putEntry_touched (U := ∅) (N := ∅) hput (by
      show _ ≤ (directBlocks inode k).toNat
      rw [hall]
      exact (h.inData k (by omega) hne).1)
    refine ⟨(slotAddr vol.disk inode k).toNat, k, i, ⟨.of_free h hk hi hl hfr hput, .inl hmem, ?_, fun x hx => ?_, ?_, ?_⟩⟩
    · have ht : Touched vol st.vol {(directBlocks inode k).toNat} ∅ ∅ := ht
      rw [hall] at ht
      exact ht.mono (Set.Subset.refl _) (Set.empty_subset _) (Set.Subset.refl _)
    · rwa [used_congr hb]
    · rw [owned_of_addr had]
      exact Set.subset_union_left
    · rw [hin]
  | @add k _ hk hz hf' hadd =>
    cases addBlock_end hk hadd with
    | table => exact absurd (hf' rfl) hfu
    | @direct _ lba vol2 _ hk hta hput =>
      have ha := hta.allocated
      obtain ⟨-, had⟩ := newBlock_addr h hk ha hput
      obtain ⟨-, -, hb, hin⟩ := putEntry_ok hput
      have hn := ha.inData.toNat_ofNat
      have hset : (directBlocks inode).set k (.ofNat lba) k = .ofNat lba := update_self ..
      have hfr := ha.free
      have ht := putEntry_touched (U := {lba}) (N := ∅) hput (by
        show _ ≤ ((directBlocks inode).set k (.ofNat lba) k).toNat
        rw [hset, hn]
        exact ha.inData.1)
      have ht : Touched vol2 st.vol {((directBlocks inode).set k (.ofNat lba) k).toNat} {lba} ∅ := ht
      rw [hset, hn] at ht
      refine ⟨lba, k, 0, ⟨.of_direct h hk (hz hk) ha hput, .inr hfr, ?_, fun x hx => ?_, ?_, ?_⟩⟩
      · obtain ⟨vol1, hal, hs⟩ := hta
        refine ((Touched.alloc hf hal hs).trans ht).mono (Set.Subset.refl _) ?_ (Set.Subset.refl _)
        rintro x rfl
        exact ⟨rfl, hfr⟩
      · rw [used_congr hb]
        exact (ha.used x).mpr (.inl hx)
      · rintro x ⟨j, hj, hne, rfl⟩
        rw [had j hj] at hne ⊢
        unfold Blocks.set at hne ⊢
        by_cases hjk : j = k
        · subst hjk
          rw [update_self, hn]
          exact .inr ⟨rfl, hfr⟩
        · rw [update_of_ne hjk] at hne ⊢
          exact .inl ⟨j, hj, hne, rfl⟩
      · rw [hin]
        rfl

structure Spare (vol : Volume part) (t : Tree) (n : Nat) (new : Node) : Prop where
  free : t n = none
  small : n < 256
  taken : vol.inodeBitmap.bit n = true
  number : new.inode.iNo = .ofNat n
  node : StoresNode vol new
  apart : ∀ {m md}, t m = some md → ∀ lba ∈ owned vol.disk md.inode, lba ∉ owned vol.disk new.inode

variable {t : Tree} {p n a k0 i0 : Nat} {P new : Node}

theorem Inserted.node (h : Inserted vol inode e st a k0 i0) (hp : StoresNode vol P) (hdir : P.isDir = true)
    (hi : inode.pure = P.inode.pure) (he : e.Live) (hn : ∀ {k i x}, P.ents k i = some x → x.name ≠ e.name) :
    StoresNode st.vol (P.put st.inode.pure k0 i0 (some e)) := by
  obtain ⟨hok, hen⟩ := hp.dir hdir
  have hl : ∀ k i, liveAt vol.disk (slotAddr vol.disk inode) k i = P.ents k i := fun k i => by
    rw [slotAddr_of_pure hi]
    exact hen k i
  have hok' := h.placed.dirOk (hok.of_pure hi) he fun {k i x} hx => hn ((hl k i).symm.trans hx)
  have ha : slotAddr st.vol.disk st.inode.pure = slotAddr st.vol.disk st.inode := slotAddr_of_pure (pure_pure _) _
  refine ⟨?_, fun _ => ⟨hok'.of_pure (pure_pure _), fun k i => ?_⟩⟩
  · show DirBlocks st.vol (slotAddr st.vol.disk st.inode.pure)
    exact h.placed.blocks
  · show liveAt st.vol.disk (slotAddr st.vol.disk st.inode.pure) k i = if k = k0 ∧ i = i0 then some e else P.ents k i
    rw [ha, ← hl]
    refine Option.ext fun x => (h.placed.live_iff he.1).trans ?_
    by_cases hki : k = k0 ∧ i = i0
    · obtain ⟨rfl, rfl⟩ := hki
      simp [eq_comm]
    · have hnot : ¬ (k = k0 ∧ i = i0 ∧ x = e) := fun hc => hki ⟨hc.1, hc.2.1⟩
      rw [if_neg hki]
      simp only [hki, not_false_eq_true, true_and, hnot, false_or]

theorem Inserted.slot (h : Inserted vol inode e st a k0 i0) (hp : StoresNode vol P) (hdir : P.isDir = true)
    (hi : inode.pure = P.inode.pure) : P.ents k0 i0 = none ∧ k0 < 140 ∧ i0 < 21 := by
  refine ⟨Option.eq_none_iff_forall_ne_some.mpr fun x hx => ?_, h.placed.index⟩
  rw [← (hp.dir hdir).2, ← slotAddr_of_pure hi] at hx
  exact h.placed.old_slot trivial hx ⟨rfl, rfl⟩

theorem Repr.insert (h : Repr vol t) (hs : Spare vol t n new) (hp : t p = some P) (hdir : P.isDir = true)
    (hi : inode.pure = P.inode.pure) (hins : Inserted vol inode e st a k0 i0) (he : e.Live)
    (hna : ∀ {k i x}, P.ents k i = some x → x.name ≠ e.name) (ht : Touched st.vol vol' ∅ ∅ {p, n})
    (hbi : vol'.inodeBitmap = st.vol.inodeBitmap) (hsp : Inode.ofMem vol'.disk (part.inodeAddr p) = st.inode.pure)
    (hsn : Inode.ofMem vol'.disk (part.inodeAddr n) = new.inode) :
    Repr vol' (t.link p (P.put st.inode.pure k0 i0 (some e)) n (some new)) := by
  have hpn : p ≠ n := fun e => by
    have := hs.free
    rw [← e, hp] at this
    cases this
  have hown : owned vol.disk inode = owned vol.disk P.inode := owned_of_addr fun j _ => by rw [slotAddr_of_pure hi]
  have hbit : ∀ m, vol'.inodeBitmap.bit m = vol.inodeBitmap.bit m := fun m => by
    rw [hbi]
    exact hins.touched.bits m (Set.notMem_empty m)
  -- the sector that is written belongs to the parent or to nobody
  have ho : ∀ {m md}, t m = some md → m ≠ p → ∀ lba ∈ owned vol.disk md.inode, lba ≠ a := by
    rintro m md hm hne lba hl rfl
    rcases hins.block with hb | hb
    · exact hne (h.apart hm hp hl (hown ▸ hb))
    · exact hb ((h.holds hm).used hl).2
  have hnw : ∀ lba ∈ owned vol.disk new.inode, lba ≠ a := by
    rintro lba hl rfl
    rcases hins.block with hb | hb
    · exact hs.apart hp lba (hown ▸ hb) hl
    · exact hb (hs.node.used hl).2
  have hn1 : ∀ {nd : Node}, StoresNode vol nd → (∀ lba ∈ owned vol.disk nd.inode, lba ≠ a) →
      StoresNode vol' nd ∧ owned vol'.disk nd.inode = owned vol.disk nd.inode := fun hnd hne => by
    obtain ⟨h1, e1⟩ := hnd.frame hins.touched fun lba hl => ⟨hne lba hl, fun hu => hne lba hl hu.1⟩
    obtain ⟨h2, e2⟩ := h1.frame ht fun lba _ => ⟨Set.notMem_empty lba, Set.notMem_empty lba⟩
    exact ⟨h2, e2.trans e1⟩
  obtain ⟨hP, hPo⟩ := (hins.node (h.holds hp) hdir hi he hna).frame ht fun lba _ =>
    ⟨Set.notMem_empty lba, Set.notMem_empty lba⟩
  have hPs : owned vol'.disk st.inode.pure ⊆ owned vol.disk P.inode ∪ { x | ¬ vol.Used x } := by
    intro lba hl
    have e1 : owned vol'.disk st.inode.pure = owned st.vol.disk st.inode.pure := hPo
    rw [e1, owned_of_addr fun j _ => by rw [slotAddr_of_pure (pure_pure st.inode)]] at hl
    rcases hins.owned hl with hl | ⟨rfl, hu⟩
    · exact .inl (hown ▸ hl)
    · exact .inr hu
  -- where the blocks of a node come from
  have hsrc : ∀ {m nd}, t.link p (P.put st.inode.pure k0 i0 (some e)) n (some new) m = some nd →
      ∀ lba ∈ owned vol'.disk nd.inode, (m = n ∧ lba ∈ owned vol.disk new.inode) ∨
        (∃ md, t m = some md ∧ lba ∈ owned vol.disk md.inode) ∨ (m = p ∧ ¬ vol.Used lba) := by
    intro m nd hm lba hl
    rcases Tree.link_cases hpn hm with ⟨rfl, e⟩ | ⟨rfl, rfl⟩ | ⟨-, hne, hm⟩
    · cases e
      exact .inl ⟨rfl, (hn1 hs.node hnw).2 ▸ hl⟩
    · rcases hPs hl with hl | hl
      · exact .inr (.inl ⟨P, hp, hl⟩)
      · exact .inr (.inr ⟨rfl, hl⟩)
    · exact .inr (.inl ⟨nd, hm, (hn1 (h.holds hm) (ho hm hne)).2 ▸ hl⟩)
  refine ⟨fun hm => ?_, fun hm => ?_, fun hm => ?_, fun {m nd} hm => ?_, fun hm => ?_, fun hm hm' hl hl' => ?_⟩
  · rcases Tree.link_cases hpn hm with ⟨rfl, -⟩ | ⟨rfl, -⟩ | ⟨-, -, hm⟩
    · exact hs.small
    · exact h.small hp
    · exact h.small hm
  · rcases Tree.link_cases hpn hm with ⟨rfl, e⟩ | ⟨rfl, rfl⟩ | ⟨-, -, hm⟩
    · cases e
      exact hs.number
    · have hno : inode.pure.iNo = P.inode.pure.iNo := by rw [hi]
      exact hins.iNo.trans (hno.trans (h.number hp))
    · exact h.number hm
  · rw [hbit]
    rcases Tree.link_cases hpn hm with ⟨rfl, -⟩ | ⟨rfl, -⟩ | ⟨-, -, hm⟩
    · exact hs.taken
    · exact h.taken hp
    · exact h.taken hm
  · rcases Tree.link_cases hpn hm with ⟨rfl, e⟩ | ⟨rfl, rfl⟩ | ⟨hn, hne, hm⟩
    · cases e
      exact hsn
    · exact hsp
    · have hlt := h.small hm
      have hnot : m ∉ ({p, n} : Set Nat) := by simp [hne, hn]
      rw [ht.table _ (by omega) hnot, hins.touched.table _ (by omega) (Set.notMem_empty _)]
      exact h.stored hm
  · rcases Tree.link_cases hpn hm with ⟨rfl, e⟩ | ⟨rfl, rfl⟩ | ⟨-, hne, hm⟩
    · cases e
      exact (hn1 hs.node hnw).1
    · exact hP
    · exact (hn1 (h.holds hm) (ho hm hne)).1
  · rcases hsrc hm _ hl with ⟨rfl, hl⟩ | ⟨md, hmd, hl⟩ | ⟨rfl, hl⟩ <;>
      rcases hsrc hm' _ hl' with ⟨rfl, hl'⟩ | ⟨md', hmd', hl'⟩ | ⟨rfl, hl'⟩
    · rfl
    · exact absurd hl (hs.apart hmd' _ hl')
    · exact absurd (hs.node.used hl).2 hl'
    · exact absurd hl' (hs.apart hmd _ hl)
    · exact h.apart hmd hmd' hl hl'
    · exact absurd ((h.holds hmd).used hl).2 hl'
    · exact absurd (hs.node.used hl').2 hl
    · exact absurd ((h.holds hmd').used hl').2 hl
    · rfl

/-! ## `delete_dir_entry` -/

variable {inode' : Inode} {drop : Bool} {no : UInt32}

theorem Removed.no_dots (hok : t.Ok) (hp : t p = some P) (hdir : P.isDir = true) (hn : StoresNode vol P) (hi : inode.pure = P.inode.pure)
    (h : Removed vol inode vol' inode' k0 i0 drop) (hc : t.Child p k0 i0 e) (hd : drop = true) {i : Nat} (hlt : i < 21) (hne : i ≠ i0) :
    (entryAt vol.disk (slotAddr vol.disk inode) k0 i).fType = 0 := by
  have hind := h.index
  have hent : ∀ {j}, j < 21 → (entryAt vol.disk (slotAddr vol.disk inode) k0 j).fType ≠ 0 →
      t.Entry p k0 j (entryAt vol.disk (slotAddr vol.disk inode) k0 j) := fun hj ht => by
    refine ⟨P, hp, hdir, ?_⟩
    rw [← (hn.dir hdir).2, ← slotAddr_of_pure hi]
    exact liveAt_eq_some.mpr ⟨hind.1, hj, hind.2.2, ht, rfl⟩
  by_contra ht
  have hna := h.alone hd i hlt hne ht
  obtain ⟨hk, -⟩ := (hok.dot_slot (hent hlt ht)).mp (.inr hna)
  -- the first block also has the entry with the other dot
  have hdot := hok.dot hp hdir
  rw [← (hn.dir hdir).2, ← slotAddr_of_pure hi] at hdot
  obtain ⟨-, -, -, ht0, hdot⟩ := liveAt_eq_some.mp hdot
  have h0 : (0 : Nat) ≠ i0 := fun e => hc.2 ⟨hk, by omega⟩
  have hn0 := h.alone hd 0 (by decide) h0 (by rw [hk, hdot]; exact ht0)
  rw [hk, hdot] at hn0
  exact absurd (hn0.symm.trans (dotEntry_name _)) (by decide)

theorem Removed.node (h : Removed vol inode vol' inode' k0 i0 drop) (hn : StoresNode vol P) (hdir : P.isDir = true)
    (hi : inode.pure = P.inode.pure)
    (hdo : drop = true → ∀ i < 21, i ≠ i0 → (entryAt vol.disk (slotAddr vol.disk inode) k0 i).fType = 0) :
    StoresNode vol' (P.put inode'.pure k0 i0 none) := by
  obtain ⟨hok, he⟩ := hn.dir hdir
  have hok := hok.of_pure hi
  have ha : slotAddr vol'.disk inode'.pure = slotAddr vol'.disk inode' := slotAddr_of_pure (pure_pure _) _
  have hb := h.blocks hok.blocks
  have hl := h.live hdo
  have hok' : DirOk vol' inode' := by
    refine ⟨hb, fun k hk i hlt hne => ?_, fun {k i k' i' x y} hx hy hna => ?_⟩
    · by_cases hki : k = k0 ∧ i = i0
      · obtain ⟨rfl, rfl⟩ := hki
        cases hd : drop with
        | true =>
          rw [h.addr k (by omega), if_pos ⟨hd, rfl⟩] at hne
          exact absurd rfl hne
        | false => exact .inl (h.cleared hd)
      · rw [h.kept k hk i hlt hne hki]
        rw [h.addr k (by omega)] at hne
        split at hne
        · exact absurd rfl hne
        · exact hok.entries k hk i hlt hne
    · rw [hl] at hx hy
      split at hx
      · cases hx
      · split at hy
        · cases hy
        · exact hok.distinct hx hy hna
  refine ⟨?_, fun _ => ⟨hok'.of_pure (pure_pure _), fun k i => ?_⟩⟩
  · show DirBlocks vol' (slotAddr vol'.disk inode'.pure)
    exact hb
  · show liveAt vol'.disk (slotAddr vol'.disk inode'.pure) k i = if k = k0 ∧ i = i0 then none else P.ents k i
    rw [ha, hl, slotAddr_of_pure hi, he]

theorem Removed.owned_sub (h : Removed vol inode vol' inode' k0 i0 drop) : owned vol'.disk inode'.pure ⊆ owned vol.disk inode := by
  rintro lba ⟨j, hj, hne, rfl⟩
  rw [slotAddr_of_pure (pure_pure inode')] at hne ⊢
  rw [h.addr j hj] at hne ⊢
  split at hne
  · exact absurd rfl hne
  · rename_i hnot
    rw [if_neg hnot]
    exact ⟨j, hj, hne, rfl⟩

theorem Repr.clear (h : Repr vol t) (hp : t p = some P) (hdir : P.isDir = true) (hi : inode.pure = P.inode.pure)
    (hrem : Removed vol inode vol' inode' k0 i0 drop)
    (hdo : drop = true → ∀ i < 21, i ≠ i0 → (entryAt vol.disk (slotAddr vol.disk inode) k0 i).fType = 0) :
    Repr vol' (update t p (some (P.put inode'.pure k0 i0 none))) := by
  have hs := h.small hp
  have hno : inode.iNo = .ofNat p := by
    have hpu : inode.pure.iNo = P.inode.pure.iNo := by rw [hi]
    exact hpu.trans (h.number hp)
  have hmod : inode.iNo.toNat % 256 = p := by
    rw [hno, Tree.ofNat_toNat_small (Nat.lt_trans hs (by decide))]
    exact Nat.mod_eq_of_lt hs
  have hown : owned vol.disk inode = owned vol.disk P.inode := owned_of_addr fun j _ => by rw [slotAddr_of_pure hi]
  have ha : (slotAddr vol.disk inode k0).toNat ∈ owned vol.disk P.inode := hown ▸ ⟨k0, by have := hrem.index.1; omega, hrem.index.2.2, rfl⟩
  have ho : ∀ {m md}, t m = some md → m ≠ p → StoresNode vol' md ∧ owned vol'.disk md.inode = owned vol.disk md.inode :=
    fun hm hne => (h.holds hm).frame hrem.touched fun lba hl =>
      ⟨fun e => hne (h.apart hm hp hl (Set.mem_singleton_iff.mp e ▸ ha)), fun e => hne (h.apart hm hp hl (Set.mem_singleton_iff.mp e ▸ ha))⟩
  have hc : ∀ {m nd}, update t p (some (P.put inode'.pure k0 i0 none)) m = some nd →
      (m = p ∧ nd = P.put inode'.pure k0 i0 none) ∨ (m ≠ p ∧ t m = some nd) := fun {m nd} hm => by
    by_cases hmp : m = p
    · rw [hmp, update_self, Option.some.injEq] at hm
      exact .inl ⟨hmp, hm.symm⟩
    · rw [update_of_ne hmp] at hm
      exact .inr ⟨hmp, hm⟩
  have hn : ∀ {m}, m ≠ p → m ∉ ({inode.iNo.toNat % 256} : Set Nat) := fun hne => by
    rw [hmod]
    exact hne
  have hP := hown ▸ hrem.owned_sub
  -- every block was the node's before
  have hsrc : ∀ {m nd lba}, update t p (some (P.put inode'.pure k0 i0 none)) m = some nd → lba ∈ owned vol'.disk nd.inode →
      ∃ md, t m = some md ∧ lba ∈ owned vol.disk md.inode := fun hm hl => by
    rcases hc hm with ⟨rfl, rfl⟩ | ⟨hne, hm⟩
    · exact ⟨P, hp, hP hl⟩
    · exact ⟨_, hm, (ho hm hne).2 ▸ hl⟩
  refine ⟨fun hm => ?_, fun hm => ?_, fun hm => ?_, fun hm => ?_, fun hm => ?_, fun hm hm' hl hl' => ?_⟩
  · rcases hc hm with ⟨rfl, -⟩ | ⟨-, hm⟩
    · exact hs
    · exact h.small hm
  · rcases hc hm with ⟨rfl, rfl⟩ | ⟨-, hm⟩
    · exact hrem.iNo.trans hno
    · exact h.number hm
  · rw [hrem.inodeBitmap]
    rcases hc hm with ⟨rfl, -⟩ | ⟨-, hm⟩
    · exact h.taken hp
    · exact h.taken hm
  · rcases hc hm with ⟨rfl, rfl⟩ | ⟨hne, hm⟩
    · have hst := hrem.stored
      rwa [hmod] at hst
    · have := h.small hm
      rw [hrem.touched.table _ (by omega) (hn hne)]
      exact h.stored hm
  · rcases hc hm with ⟨rfl, rfl⟩ | ⟨hne, hm⟩
    · exact hrem.node (h.holds hp) hdir hi hdo
    · exact (ho hm hne).1
  · obtain ⟨md, hmd, hl⟩ := hsrc hm hl
    obtain ⟨md', hmd', hl'⟩ := hsrc hm' hl'
    exact h.apart hmd hmd' hl hl'

/-! ## `inode_release` -/

theorem freeBlock_touched (hf : part.Formatted) {a : UInt32} (ha : part.InData a.toNat) (h : freeBlock b vol a = .ok vol')
    (hU : a.toNat ∈ U) : Touched vol vol' T U N := by
  obtain ⟨_, -, h⟩ := bind_ok.mp h
  exact (clearBlock_ok hf ha h).1.mono (Set.Subset.refl _) (Set.singleton_subset_iff.mpr hU) (Set.Subset.refl _)

theorem freeBlocks_touched (hf : part.Formatted) {all : Blocks} : ∀ (n k : Nat) (vol vol' : Volume part),
    freeBlocks b all n k vol = .ok vol' →
    (∀ j, k ≤ j → j < k + n → all j ≠ 0 → part.InData (all j).toNat ∧ (all j).toNat ∈ U) →
    Touched vol vol' T U N
  | 0, k, vol, vol', h, _ => by
    cases h
    exact .refl _
  | n + 1, k, vol, vol', h, hall => by
    have hr := fun j (h1 : k + 1 ≤ j) (h2 : j < k + 1 + n) => hall j (by omega) (by omega)
    unfold freeBlocks at h
    split at h
    · rename_i hne
      obtain ⟨vol1, h1, h⟩ := bind_ok.mp h
      obtain ⟨hin, hU⟩ := hall k le_rfl (by omega) hne
      exact (freeBlock_touched hf hin h1 hU).trans (freeBlocks_touched hf n (k + 1) vol1 vol' h hr)
    · exact freeBlocks_touched hf n (k + 1) vol vol' h hr

theorem releaseVol_touched (hf : part.Formatted) (hb : DirBlocks vol (slotAddr vol.disk inode)) (hn : no.toNat < 256)
    (h : releaseVol .debug vol inode no = .ok vol') : Touched vol vol' ∅ (owned vol.disk inode) {no.toNat} := by
  unfold releaseVol releaseVolVia at h
  simp only [bind_ok] at h
  obtain ⟨⟨all, cnt, vol1⟩, ht, vol2, hbl, vol3, hs, disk, hdel, h⟩ := h
  cases h
  have hc : ∀ j < 12, copySectors inode 12 0 (fun _ => 0) j = slotAddr vol.disk inode j := fun j hj => by
    rw [copySectors_apply, if_pos (by omega), slotAddr_low hj]
  have htab : slotAddr vol.disk inode 140 = inode.sec 12 := memLayout_table _ _
  have hmem : ∀ j ≤ 140, slotAddr vol.disk inode j ≠ 0 →
      part.InData (slotAddr vol.disk inode j).toNat ∧ (slotAddr vol.disk inode j).toNat ∈ owned vol.disk inode :=
    fun j hj hne => ⟨hb.inData j hj hne, j, hj, hne, rfl⟩
  -- the table first, then the blocks it lists
  have hfi : Touched vol vol1 ∅ (owned vol.disk inode) {no.toNat} ∧ cnt ≤ 140 ∧
      ∀ j < cnt, all j = slotAddr vol.disk inode j := by
    unfold freeTable at ht
    split at ht
    · rename_i h12
      simp only [bind_ok] at ht
      obtain ⟨all', hl, vol', hfr, ht⟩ := ht
      cases ht
      obtain ⟨hin, hU⟩ := hmem 140 le_rfl h12
      refine ⟨freeBlock_touched hf hin hfr hU, le_rfl, fun j hj => ?_⟩
      by_cases hj' : j < 12
      · rw [loadTable_low hl hj', hc j hj']
      · rw [loadTable_mid (htab ▸ h12) hl j (by omega) hj, slotAddr, memLayout_mid _ _ (by omega) hj]
    · cases ht
      exact ⟨.refl _, by decide, hc⟩
  obtain ⟨ht1, hcnt, hall⟩ := hfi
  have hbl : freeBlocks .debug all cnt 0 vol1 = .ok vol2 := hbl
  have ht2 : Touched vol1 vol2 ∅ (owned vol.disk inode) {no.toNat} := freeBlocks_touched hf cnt 0 vol1 vol2 hbl fun j _ hj hne => by
    rw [hall j (by omega)] at hne ⊢
    exact hmem j (by omega) hne
  have ht3 : Touched vol2 ⟨vol2.disk, vol2.blockBitmap, bitmapSet vol2.inodeBitmap no.toNat false, vol2.block_len⟩ ∅ (owned vol.disk inode)
      {no.toNat} := .inodeBit rfl rfl rfl
  obtain ⟨ht4, -⟩ := Touched.inodeBitmapSync (T := ∅) (U := owned vol.disk inode) (N := {no.toNat}) hf (by omega) hs
  rw [unbounded_delete, inodeDelete_spec part _ _ (by omega), Except.ok.injEq] at hdel
  have ht5 : Touched vol3 ⟨disk, vol3.blockBitmap, vol3.inodeBitmap, vol3.block_len⟩ ∅ (owned vol.disk inode) {no.toNat} :=
    .inode (by omega) (hdel.symm.trans (fill_eq_blit _ _ _ _)) rfl rfl
  exact (((ht1.trans ht2).trans ht3).trans ht4).trans ht5

theorem Repr.release (hf : part.Formatted) (h : Repr vol t) (hn : t no.toNat = some nd)
    (hi : inode.pure = nd.inode.pure) (hr : releaseVol .debug vol inode no = .ok vol') :
    Repr vol' (update t no.toNat none) := by
  have ha := slotAddr_of_pure hi vol.disk
  have hown : owned vol.disk inode = owned vol.disk nd.inode := owned_of_addr fun j _ => by rw [ha]
  have ht := releaseVol_touched hf (by rw [ha]; exact (h.holds hn).blocks) (h.small hn) hr
  rw [hown] at ht
  have hold : ∀ {m md}, update t no.toNat none m = some md → m ≠ no.toNat ∧ t m = some md := fun {m md} hm => by
    by_cases hmn : m = no.toNat
    · rw [hmn, update_self] at hm
      cases hm
    · rw [update_of_ne hmn] at hm
      exact ⟨hmn, hm⟩
  have hsub : Repr vol (update t no.toNat none) :=
    ⟨fun hm => h.small (hold hm).2, fun hm => h.number (hold hm).2, fun hm => h.taken (hold hm).2, fun hm => h.stored (hold hm).2,
      fun hm => h.holds (hold hm).2, fun hm hm' => h.apart (hold hm).2 (hold hm').2⟩
  refine hsub.frame ht fun hm => ⟨(hold hm).1, fun lba hl => ⟨Set.notMem_empty lba, fun hl' => ?_⟩⟩
  exact (hold hm).1 (h.apart (hold hm).2 hn hl hl')

/-! ## New nodes -/

def fileNode (n : Nat) : Node := ⟨inodeInit (.ofNat n), false, fun _ _ => none⟩

def dirNode (n p lba : Nat) : Node :=
  ⟨{ (inodeInit (.ofNat n)).setSec 0 (.ofNat lba) with iSize := 2 * .ofNat dirEntrySize }, true, newEnts n p⟩

theorem slotAddr_eq_zero {j : Nat} (h12 : i.sec 12 = 0) (hj : i.sec j = 0) : slotAddr disk i j = 0 := by
  unfold slotAddr memLayout tableOf
  rw [h12, hj]
  simp

theorem fileNode_owned (disk : Mem) (n : Nat) : owned disk (fileNode n).inode = ∅ := by
  refine Set.eq_empty_iff_forall_notMem.mpr ?_
  rintro lba ⟨j, -, hne, -⟩
  have hz : ∀ k, (fileNode n).inode.sec k = 0 := fun k => by
    unfold Inode.sec
    split <;> rfl
  exact hne (slotAddr_eq_zero (hz 12) (hz j))

theorem fileNode_stored (vol : Volume part) (n : Nat) : StoresNode vol (fileNode n) := by
  have hz : ∀ j ≤ 140, slotAddr vol.disk (fileNode n).inode j = 0 := fun j hj => by
    by_contra hne
    have hmem : (slotAddr vol.disk (fileNode n).inode j).toNat ∈ owned vol.disk (fileNode n).inode := ⟨j, hj, hne, rfl⟩
    rw [fileNode_owned] at hmem
    exact hmem
  refine ⟨⟨fun k hk hne => ?_, fun k hk hne => ?_, fun k hk hne => ?_, fun k hk _ _ hne => ?_⟩, nofun⟩ <;>
    exact absurd (hz k hk) hne

theorem Repr.alloc (h : Repr vol t) (ha : inodeBitmapAlloc b vol = .ok (some n, vol')) :
    t n = none ∧ Repr vol' t ∧ vol'.inodeBitmap.bit n = true := by
  obtain ⟨hbit, hset⟩ := inodeBitmapAlloc_some ha
  obtain ⟨hdi, hb⟩ := inodeBitmapAlloc_ok ha
  have hf : t n = none := by
    cases hn : t n with
    | none => rfl
    | some nd =>
      have := h.taken hn
      rw [hbit] at this
      cases this
  have ht : Touched vol vol' ∅ ∅ {n} := .inodeBit hdi hb hset
  refine ⟨hf, h.frame ht fun {m nd} hm => ⟨fun e => ?_, fun lba _ => ⟨Set.notMem_empty lba, Set.notMem_empty lba⟩⟩, ?_⟩
  · rw [Set.mem_singleton_iff.mp e, hf] at hm
    cases hm
  · rw [hset, bit_bitmapSet, if_pos rfl]

theorem Spare.file (h : Repr vol t) (hn : n < 256) (ha : inodeBitmapAlloc b vol = .ok (some n, vol')) : Spare vol' t n (fileNode n) := by
  obtain ⟨hf, -, hbit⟩ := h.alloc ha
  refine ⟨hf, hn, hbit, rfl, fileNode_stored _ _, fun _ lba _ hl => ?_⟩
  rw [fileNode_owned] at hl
  exact hl

/-! ## The first block of a directory -/

theorem dirNode_addr (disk : Mem) (n p lba : Nat) (j : Nat) :
    slotAddr disk (dirNode n p lba).inode j = if j = 0 then .ofNat lba else 0 := by
  have hsec : ∀ k, (dirNode n p lba).inode.sec k = if k = 0 then .ofNat lba else 0 := fun k => by
    show ((inodeInit (.ofNat n)).setSec 0 (.ofNat lba)).sec k = _
    rw [sec_setSec _ _ _ _ (by decide)]
    refine if_congr Iff.rfl rfl ?_
    unfold Inode.sec
    split <;> rfl
  by_cases hj : j = 0
  · rw [hj, slotAddr_low (by decide), hsec]
  · rw [if_neg hj]
    exact slotAddr_eq_zero ((hsec 12).trans (if_neg (by decide))) ((hsec j).trans (if_neg hj))

theorem ftDirectory_ne_zero : ftDirectory ≠ 0 := by decide

theorem dotEntry_live (no : UInt32) : (dotEntry no).Live :=
  ⟨ftDirectory_ne_zero, show (46 : UInt8) ≠ 0 by decide, 1, rfl⟩

theorem dotDotEntry_live (no : UInt32) : (dotDotEntry no).Live :=
  ⟨ftDirectory_ne_zero, show (46 : UInt8) ≠ 0 by decide, 2, rfl⟩

theorem dotEntries_entry {no1 no2 : UInt32}
    (hd : disk' = blit disk (512 * lba) (dotEntries no1 no2) 0 (512 * 1)) :
    DirEntry.ofMem disk' (512 * lba + dirEntrySize * 0) = dotEntry no1 ∧
      DirEntry.ofMem disk' (512 * lba + dirEntrySize * 1) = dotDotEntry no2 ∧
      ∀ i, 2 ≤ i → i < 21 → (DirEntry.ofMem disk' (512 * lba + dirEntrySize * i)).Free := by
  subst hd
  unfold dotEntries dirEntrySize
  refine ⟨?_, ?_, fun i h1 h2 => ?_⟩
  · refine Eq.trans (DirEntry.ofMem_congr fun j hj => ?_) (DirEntry.ofMem_toMem (dotEntry no1))
    rw [blit_in (by omega) (by omega), blit_out (by omega), blit_in (by omega) (by omega)]
    congr 1
    omega
  · refine Eq.trans (DirEntry.ofMem_congr fun j hj => ?_) (DirEntry.ofMem_toMem (dotDotEntry no2))
    rw [blit_in (by omega) (by omega), blit_in (by omega) (by omega)]
    congr 1
    omega
  · refine DirEntry.free_of_zero fun j hj => ?_
    rw [blit_in (by omega) (by omega), blit_out (by omega), blit_out (by omega)]

theorem dirNode_stored (hin : part.InData lba) (hle : lba ≤ maxLba) (hu : vol.Used lba)
    (hd : vol.disk = blit disk (512 * lba) (dotEntries (.ofNat n) (.ofNat p)) 0 (512 * 1)) :
    StoresNode vol (dirNode n p lba) := by
  have hto := hin.toNat_ofNat
  have ha := dirNode_addr vol.disk n p lba
  have hne0 := (show part.InData (UInt32.ofNat lba).toNat by rw [hto]; exact hin).ne_zero
  have hz : ∀ {j}, slotAddr vol.disk (dirNode n p lba).inode j ≠ 0 → j = 0 := fun {j} hne => by
    by_contra hj
    rw [ha, if_neg hj] at hne
    exact hne rfl
  obtain ⟨h0, h1, hf⟩ := dotEntries_entry hd
  have hen : ∀ i, entryAt vol.disk (slotAddr vol.disk (dirNode n p lba).inode) 0 i =
      .ofMem vol.disk (512 * lba + dirEntrySize * i) := fun i => by
    unfold entryAt
    rw [ha, if_pos rfl, hto]
  have hb : DirBlocks vol (slotAddr vol.disk (dirNode n p lba).inode) := by
    refine ⟨fun k _ hne => ?_, fun k _ hne => ?_, fun k _ hne => ?_, fun j _ k _ hne he => ?_⟩
    · rw [hz hne, ha, if_pos rfl, hto]
      exact hin
    · rw [hz hne, ha, if_pos rfl, hto]
      exact hle
    · rw [hz hne, ha, if_pos rfl, hto]
      exact hu
    · exact (hz hne).trans (hz (he ▸ hne)).symm
  have hl : ∀ k i, liveAt vol.disk (slotAddr vol.disk (dirNode n p lba).inode) k i = newEnts n p k i := fun k i => by
    unfold liveAt newEnts
    by_cases hk : k = 0
    · subst hk
      rw [hen]
      rcases (show i = 0 ∨ i = 1 ∨ 2 ≤ i by omega) with rfl | rfl | hi
      · rw [h0, if_pos ⟨by decide, by decide, by rw [ha, if_pos rfl]; exact hne0, (dotEntry_live _).1⟩, if_pos ⟨rfl, rfl⟩]
      · rw [h1, if_pos ⟨by decide, by decide, by rw [ha, if_pos rfl]; exact hne0, (dotDotEntry_live _).1⟩, if_neg (by decide),
          if_pos ⟨rfl, rfl⟩]
      · rw [if_neg fun hc => hc.2.2.2 (hf i hi hc.2.1).1, if_neg (by omega), if_neg (by omega)]
    · rw [if_neg fun hc => hk (hz hc.2.2.1), if_neg fun hc => hk hc.1, if_neg fun hc => hk hc.1]
  refine ⟨hb, fun _ => ⟨⟨hb, fun k hk i hi hne => ?_, fun {k i k' i' x y} hx hy hn => ?_⟩, hl⟩⟩
  · rw [hz hne, hen]
    rcases (show i = 0 ∨ i = 1 ∨ 2 ≤ i by omega) with rfl | rfl | hi'
    · rw [h0]
      exact .inr (dotEntry_live _)
    · rw [h1]
      exact .inr (dotDotEntry_live _)
    · exact .inl (hf i hi' hi)
  · rw [hl] at hx hy
    have hdo : dot ≠ dotDot := by decide
    obtain ⟨rfl, ⟨rfl, ex⟩ | ⟨rfl, ex⟩⟩ := Tree.newEnts_cases hx <;> obtain ⟨rfl, ⟨rfl, ey⟩ | ⟨rfl, ey⟩⟩ := Tree.newEnts_cases hy
    · exact ⟨rfl, rfl⟩
    · exact absurd (ex.symm.trans (hn.trans ey)) hdo
    · exact absurd (ey.symm.trans (hn.symm.trans ex)) hdo
    · exact ⟨rfl, rfl⟩

theorem Spare.dir (hf : part.Formatted) {vol1 vol2 vol3 : Volume part} (h : Repr vol t) (hn : n < 256)
    (ha : inodeBitmapAlloc b vol = .ok (some n, vol1))
    (hb : blockBitmapAlloc b vol1 = .ok (some lba, vol2))
    (hs : bitmapSync b vol2 (lba - part.dataStartLba) .blockBitmap = .ok vol3)
    (hw : ideWrite .debug vol3.disk lba (dotEntries (.ofNat n) (.ofNat p)) 1 = .ok disk) :
    Repr ⟨disk, vol3.blockBitmap, vol3.inodeBitmap, vol3.block_len⟩ t ∧
      Spare ⟨disk, vol3.blockBitmap, vol3.inodeBitmap, vol3.block_len⟩ t n (dirNode n p lba) := by
  obtain ⟨hf1, h1, hbit⟩ := h.alloc ha
  have hnew := TakesBlock.allocated ⟨vol2, hb, hs⟩
  have ht1 : Touched vol1 vol3 {lba} {lba} ∅ := .alloc hf hb hs
  have ht2 : Touched vol3 ⟨disk, vol3.blockBitmap, vol3.inodeBitmap, vol3.block_len⟩ {lba} {lba} ∅ :=
    .sector hnew.inData.1 (ideWrite_ok hw) rfl rfl
  have ht := ht1.trans ht2
  -- no node has the new block
  have hown : ∀ {m md}, t m = some md → ∀ x ∈ owned vol1.disk md.inode, x ≠ lba := by
    rintro m md hm x hx rfl
    exact hnew.free ((h1.holds hm).used hx).2
  have hfr : ∀ {m md}, t m = some md → m ∉ (∅ : Set Nat) ∧ ∀ x ∈ owned vol1.disk md.inode, x ∉ ({lba} : Set Nat) ∧ x ∉ ({lba} : Set Nat) :=
    fun hm => ⟨Set.notMem_empty _, fun x hx => ⟨hown hm x hx, hown hm x hx⟩⟩
  refine ⟨h1.frame ht hfr, ⟨hf1, hn, ?_, rfl, ?_, fun {m md} hm x hx hx' => ?_⟩⟩
  · exact (ht.bits n (Set.notMem_empty n)).trans hbit
  · exact dirNode_stored hnew.inData (ideWrite_le hw) ((hnew.used lba).mpr (.inr rfl)) (ideWrite_ok hw)
  · rw [((h1.holds hm).frame ht (hfr hm).2).2] at hx
    obtain ⟨j, -, hne, rfl⟩ := hx'
    rw [dirNode_addr] at hne
    split at hne
    · rename_i hj
      rw [dirNode_addr, if_pos hj, hnew.inData.toNat_ofNat] at hx
      exact hown hm _ hx rfl
    · exact hne rfl

end

end OperateSystem
