import OperateSystem.Accounting
import OperateSystem.TreeDisk

/-!
# A directory as a set of entries

What a directory is for is a finite set of entries under different inode numbers,
beside the two dots. `sync_dir_entry` and `delete_dir_entry` keep it in blocks
with holes: an insertion takes the first free slot or the first free block index,
and a deletion gives a block back when it empties it. As long as the direct blocks
suffice, what they do to the blocks is what `insert` and `delete` do to the set.
-/

namespace OperateSystem

open List

/-! ## Sets of entries -/

structure Listing where
  entries : List DirEntry
  counted : ∀ x ∈ entries, x.Counted
  nodup : (entries.map (·.iNo)).Nodup

namespace Listing

variable {L : Listing} {e x : DirEntry}

def Lists (L : Listing) (no : UInt32) : Prop := ∃ x ∈ L.entries, x.iNo = no

theorem counted_cons (hc : e.Counted) : ∀ x ∈ e :: L.entries, x.Counted :=
  forall_mem_cons.mpr ⟨hc, L.counted⟩

theorem nodup_cons (hnew : ¬ L.Lists e.iNo) : ((e :: L.entries).map (·.iNo)).Nodup := by
  rw [map_cons, List.nodup_cons, mem_map]
  exact ⟨hnew, L.nodup⟩

theorem counted_filter (no : UInt32) : ∀ x ∈ L.entries.filter (·.iNo ≠ no), x.Counted :=
  fun x hx => L.counted x (mem_of_mem_filter hx)

theorem nodup_filter (no : UInt32) : ((L.entries.filter (·.iNo ≠ no)).map (·.iNo)).Nodup :=
  L.nodup.sublist (filter_sublist.map _)

def empty : Listing := ⟨[], forall_mem_nil _, nodup_nil⟩

def insert (L : Listing) (e : DirEntry) (hc : e.Counted) (hnew : ¬ L.Lists e.iNo) : Listing :=
  ⟨e :: L.entries, counted_cons hc, nodup_cons hnew⟩

def delete (L : Listing) (no : UInt32) : Listing := ⟨L.entries.filter (·.iNo ≠ no), counted_filter no, nodup_filter no⟩

theorem perm_delete (hx : x ∈ L.entries) : L.entries.Perm (x :: (L.delete x.iNo).entries) := by
  have hne : x ∉ (L.delete x.iNo).entries := fun h => by simpa using (mem_filter.mp h).2
  refine (perm_ext_iff_of_nodup (L.nodup.of_map _) (List.nodup_cons.mpr ⟨hne, (L.delete x.iNo).nodup.of_map _⟩)).mpr fun y => ?_
  rw [mem_cons]
  constructor
  · intro hy
    by_cases hyx : y.iNo = x.iNo
    · exact .inl (inj_on_of_nodup_map L.nodup hy hx hyx)
    · exact .inr (mem_filter.mpr ⟨hy, by simpa using hyx⟩)
  · rintro (rfl | hy)
    · exact hx
    · exact mem_of_mem_filter hy

end Listing

/-! ## The slots -/

def childSlots : List (Nat × Nat) := dirSlots.filter fun q => ¬ (q.1 = 0 ∧ q.2 < 2)

theorem mem_childSlots {q : Nat × Nat} : q ∈ childSlots ↔ (q.1 < 140 ∧ q.2 < 21) ∧ ¬ (q.1 = 0 ∧ q.2 < 2) := by
  unfold childSlots
  rw [mem_filter, mem_dirSlots, decide_eq_true_eq]

theorem childSlots_nodup : childSlots.Nodup := dirSlots_nodup.filter _

theorem dirSlots_perm : dirSlots.Perm ((0, 0) :: (0, 1) :: childSlots) := by
  have hn : ((0, 0) :: (0, 1) :: childSlots).Nodup := by
    rw [List.nodup_cons, List.nodup_cons, mem_cons, mem_childSlots, mem_childSlots]
    exact ⟨by simp, by simp, childSlots_nodup⟩
  refine (perm_ext_iff_of_nodup dirSlots_nodup hn).mpr fun ⟨k, i⟩ => ?_
  rw [mem_cons, mem_cons, mem_childSlots, mem_dirSlots, Prod.mk.injEq, Prod.mk.injEq]
  omega

namespace DirState

variable {part : Partition} {s : DirState part} {n p : Nat} {L : Listing} {e : DirEntry} {no : UInt32} {ioBuf : Mem}
variable {x : DirEntry} {i k : Nat} {q : Nat × Nat}
  {st : DirWriting part}

def after (st : DirWriting part) : DirState part := ⟨st.vol, st.inode⟩

def addr (s : DirState part) : Blocks := slotAddr s.vol.disk s.inode

def live (s : DirState part) (q : Nat × Nat) : Option DirEntry := liveAt s.vol.disk s.addr q.1 q.2

def entries (s : DirState part) : List DirEntry := liveEntries s.vol.disk s.addr

structure Inv (s : DirState part) (n p : Nat) (L : Listing) : Prop where
  blocks : DirBlocks s.vol s.addr
  table : s.inode.sec 12 = 0
  dot : s.live (0, 0) = some (dotEntry (.ofNat n))
  dotDot : s.live (0, 1) = some (dotDotEntry (.ofNat p))
  children : (childSlots.filterMap s.live).Perm L.entries
  size : s.inode.iSize.toNat = 24 * (L.entries.length + 2)
  few : L.entries.length + 2 ≤ 252
  filled : ∀ k < 140, 0 < k → s.addr k ≠ 0 → ∃ i < 21, (s.live (k, i)).isSome

theorem Inv.entries_perm (h : s.Inv n p L) :
    s.entries.Perm (dotEntry (.ofNat n) :: dotDotEntry (.ofNat p) :: L.entries) := by
  have hpe := dirSlots_perm.filterMap s.live
  rw [filterMap_cons_some h.dot, filterMap_cons_some h.dotDot] at hpe
  exact hpe.trans ((h.children.cons _).cons _)

theorem Inv.mem_listing (h : s.Inv n p L) (hx : s.live q = some x) (hq : ¬ (q.1 = 0 ∧ q.2 < 2)) :
    x ∈ L.entries := by
  obtain ⟨hk, hi, -⟩ := liveAt_eq_some.mp hx
  exact h.children.mem_iff.mp (mem_filterMap.mpr ⟨q, mem_childSlots.mpr ⟨⟨hk, hi⟩, hq⟩, hx⟩)

theorem Inv.not_dots (h : s.Inv n p L) (hx : s.live q = some x) (hc : x.Counted) :
    ¬ (q.1 = 0 ∧ q.2 < 2) := by
  obtain ⟨k, i⟩ := q
  rintro ⟨rfl, hi⟩
  rcases (show i = 0 ∨ i = 1 by have : i < 2 := hi; omega) with rfl | rfl
  · rw [h.dot] at hx
    cases hx
    exact hc.2.1 (dotEntry_name _)
  · rw [h.dotDot] at hx
    cases hx
    exact hc.2.2 (dotDotEntry_name _)

theorem Inv.not_full (h : s.Inv n p L) (hfew : L.entries.length + 2 < 252) : ¬ DirectFull s.vol.disk s.inode := by
  intro hf
  have hs : ∀ q ∈ List.range 12 ×ˢ List.range 21, (s.live q).isSome := fun ⟨k, i⟩ hq => by
    rw [mem_product, mem_range, mem_range] at hq
    obtain ⟨hne, ht⟩ := hf k hq.1
    have ha : slotAddr s.vol.disk s.inode k = s.inode.sec k := slotAddr_low hq.1
    have hl : s.live (k, i) = some (entryAt s.vol.disk s.addr k i) :=
      liveAt_eq_some.mpr ⟨by have := hq.1; omega, hq.2, by rw [addr, ha]; exact hne, ht i hq.2, rfl⟩
    rw [hl]
    rfl
  have hsub : (List.range 12 ×ˢ List.range 21).Sublist dirSlots := by
    have hr : (List.range 12).Sublist (List.range 140) := range_sublist.mpr (by decide)
    exact hr.flatMap fun k => (List.range 21).map (Prod.mk k)
  have hlen := (hsub.filterMap s.live).length_le
  rw [filterMap_length_eq_length.mpr hs] at hlen
  have hall : (dirSlots.filterMap s.live).length = L.entries.length + 2 := h.entries_perm.length_eq
  rw [hall, length_product, length_range, length_range] at hlen
  omega

/-! ## The calls -/

theorem Inv.sync (h : s.Inv n p L) (hc : e.Counted) (hnew : ¬ L.Lists e.iNo) (hfew : L.entries.length + 3 ≤ 252)
    (hr : syncDirEntry .debug s.vol s.inode e ioBuf = .ok (st, true)) : (after st).Inv n p (L.insert e hc hnew) := by
  obtain ⟨k0, i0, ha, hk0, hp⟩ := syncDirEntry_direct h.blocks (h.not_full (by omega)) hr
  have hli : ∀ q, (after st).live q = if q.1 = k0 ∧ q.2 = i0 then some e else s.live q := fun q => hp.live hc.1 q.1 q.2
  have hs : (after st).live (k0, i0) = some e := by rw [hli, if_pos ⟨rfl, rfl⟩]
  have ho : ∀ q, q ≠ (k0, i0) → (after st).live q = s.live q := fun ⟨k, i⟩ hq => by
    rw [hli, if_neg (by simpa using hq)]
  have hold : s.live (k0, i0) = none := by
    cases hx : s.live (k0, i0) with
    | none => rfl
    | some x => exact absurd ⟨rfl, rfl⟩ (hp.old_slot trivial hx)
  have hne : ∀ {q x}, s.live q = some x → q ≠ (k0, i0) := fun {q x} hx e => by
    rw [e, hold] at hx
    cases hx
  have hsl : (k0, i0) ∈ childSlots := by
    refine mem_childSlots.mpr ⟨hp.index, fun ⟨hk, hi⟩ => ?_⟩
    rcases (show i0 = 0 ∨ i0 = 1 by have : i0 < 2 := hi; omega) with rfl | rfl
    · exact hne h.dot (by rw [show k0 = 0 from hk])
    · exact hne h.dotDot (by rw [show k0 = 0 from hk])
  refine ⟨hp.blocks, ?_, ?_, ?_, ?_, ?_, hfew, fun k hk hpos hl => ?_⟩
  · have := ha 140 le_rfl (by omega)
    exact this.trans h.table
  · rw [ho _ (hne h.dot), h.dot]
  · rw [ho _ (hne h.dotDot), h.dotDot]
  · exact (filterMap_perm_fill childSlots_nodup hsl hs hold ho).trans (h.children.cons e)
  · have hsi := h.size
    show st.inode.iSize.toNat = 24 * (L.entries.length + 1 + 2)
    rw [hp.size, UInt32.toNat_add, hsi]
    show (24 * (L.entries.length + 2) + 24) % 2 ^ 32 = _
    omega
  · by_cases hkk : k = k0
    · exact ⟨i0, hp.index.2, by rw [hkk, hs]; rfl⟩
    · have hl' : s.addr k ≠ 0 := by
        rw [addr, ← ha k (by omega) hkk]
        exact hl
      obtain ⟨i, hi, hso⟩ := h.filled k hk hpos hl'
      exact ⟨i, hi, by rwa [ho _ fun e => hkk (congrArg Prod.fst e)]⟩

theorem Inv.slot_of_lists (h : s.Inv n p L) (hno : L.Lists no) : ∃ k i, k < 140 ∧ i < 21 ∧ s.addr k ≠ 0 ∧ Hit s.vol.disk s.addr no k i := by
  obtain ⟨x, hx, rfl⟩ := hno
  obtain ⟨⟨k, i⟩, -, hl⟩ := mem_filterMap.mp (h.children.mem_iff.mpr hx)
  obtain ⟨hk, hi, hne, -, he⟩ := liveAt_eq_some.mp hl
  refine ⟨k, i, hk, hi, hne, ?_⟩
  unfold Hit
  rw [he]
  exact ⟨L.counted x hx, rfl⟩

theorem live_of_hit (hk : k < 140) (hi : i < 21) (hne : s.addr k ≠ 0)
    (hhit : Hit s.vol.disk s.addr no k i) :
    s.live (k, i) = some (entryAt s.vol.disk s.addr k i) :=
  liveAt_eq_some.mpr ⟨hk, hi, hne, hhit.1.1, rfl⟩

theorem Inv.hit_unique (h : s.Inv n p L) {k' i' : Nat} (hk : k < 140) (hi : i < 21) (hne : s.addr k ≠ 0)
    (hhit : Hit s.vol.disk s.addr no k i) (hk' : k' < 140) (hi' : i' < 21) (hne' : s.addr k' ≠ 0)
    (hhit' : Hit s.vol.disk s.addr no k' i') : (k, i) = (k', i') := by
  have hx := live_of_hit hk hi hne hhit
  have hy := live_of_hit hk' hi' hne' hhit'
  have hn := ((h.children.map (·.iNo)).nodup_iff).mpr L.nodup
  refine filterMap_slot_unique hn (mem_childSlots.mpr ⟨⟨hk, hi⟩, h.not_dots hx hhit.1⟩)
    (mem_childSlots.mpr ⟨⟨hk', hi'⟩, h.not_dots hy hhit'.1⟩) hx hy (hhit.2.trans hhit'.2.symm)

theorem Inv.delete (hf : part.Formatted) (h : s.Inv n p L) (hno : L.Lists no) {rounds : Nat} {ok : Bool}
    (hr : deleteDirEntry .debug rounds s.vol s.inode no ioBuf = .ok (some (st, ok))) :
    ok = true ∧ (after st).Inv n p (L.delete no) ∧
      ∀ k < 12, s.inode.sec k ≠ 0 → st.inode.sec k = 0 → ¬ st.vol.Used (s.inode.sec k).toNat := by
  obtain ⟨k, i, hk, hi, hne, hhit⟩ := h.slot_of_lists hno
  rcases deleteDirEntry_removed hf h.blocks hr with ⟨-, -, -, hn⟩ | ⟨rfl, k0, i0, drop, hhit0, hrem⟩
  · exact absurd hhit (hn k hk i hi hne)
  obtain ⟨hk0, hi0, hne0⟩ := hrem.index
  have hx := live_of_hit hk0 hi0 hne0 hhit0
  generalize hxe : entryAt s.vol.disk s.addr k0 i0 = x at hx
  have hxc : x.Counted ∧ x.iNo = no := hxe ▸ hhit0
  have hs := h.not_dots hx hxc.1
  have hmem := h.mem_listing hx hs
  -- a block that is given back holds no other entry
  have hdo : drop = true → ∀ j < 21, j ≠ i0 → (entryAt s.vol.disk (slotAddr s.vol.disk s.inode) k0 j).fType = 0 := by
    intro hd j hj hji
    by_contra ht
    have hli : s.live (k0, j) = some (entryAt s.vol.disk s.addr k0 j) := liveAt_eq_some.mpr ⟨hk0, hj, hne0, ht, rfl⟩
    have hna := hrem.alone hd j hj hji ht
    by_cases hz : k0 = 0
    · subst hz
      obtain ⟨-, -, -, ht0, he0⟩ := liveAt_eq_some.mp h.dot
      have hdot := hrem.alone hd 0 (by decide) (fun e => hs ⟨rfl, by rw [← e]; decide⟩) (he0 ▸ ht0)
      rw [show entryAt s.vol.disk (slotAddr s.vol.disk s.inode) 0 0 = _ from he0, dotEntry_name] at hdot
      exact absurd hdot (by decide)
    · exact (L.counted _ (h.mem_listing hli fun hc => hz hc.1)).2.2 hna
  have hli : ∀ q, (after st).live q = if q.1 = k0 ∧ q.2 = i0 then none else s.live q := fun q => hrem.live hdo q.1 q.2
  have hse : (after st).live (k0, i0) = none := by rw [hli, if_pos ⟨rfl, rfl⟩]
  have ho : ∀ q, q ≠ (k0, i0) → s.live q = (after st).live q := fun ⟨k, i⟩ hq => by
    rw [hli, if_neg (by simpa using hq)]
  have hpe := filterMap_perm_fill childSlots_nodup (mem_childSlots.mpr ⟨⟨hk0, hi0⟩, hs⟩) hx hse ho
  have hdel := hxc.2 ▸ L.perm_delete hmem
  have hlen := hdel.length_eq
  rw [length_cons] at hlen
  refine ⟨rfl, ⟨hrem.blocks h.blocks, ?_, ?_, ?_, ?_, ?_, ?_, fun k hk hpos hl => ?_⟩, fun k hk hl hz => ?_⟩
  · have := hrem.addr 140 le_rfl
    rw [if_neg (by omega), slotAddr, slotAddr, memLayout_table, memLayout_table] at this
    exact this.trans h.table
  · rw [← ho _ fun e => hs (e ▸ ⟨rfl, by decide⟩), h.dot]
  · rw [← ho _ fun e => hs (e ▸ ⟨rfl, by decide⟩), h.dotDot]
  · exact ((hpe.symm.trans h.children).trans hdel).cons_inv
  · have hsi := h.size
    show st.inode.iSize.toNat = _
    rw [hrem.size.2, UInt32.toNat_sub_of_le]
    · rw [hsi]
      show 24 * (L.entries.length + 2) - 24 = _
      omega
    · exact hrem.size.1
  · have hfew := h.few
    omega
  · by_cases hkk : drop = true ∧ k = k0
    · have hl : slotAddr st.vol.disk st.inode k ≠ 0 := hl
      rw [hrem.addr k (by omega), if_pos hkk] at hl
      exact absurd rfl hl
    · have hl' : s.addr k ≠ 0 := by
        have hl : slotAddr st.vol.disk st.inode k ≠ 0 := hl
        rwa [hrem.addr k (by omega), if_neg hkk] at hl
      by_cases hk' : k = k0
      · -- the block stays because of another entry
        subst hk'
        have hke : drop = false := by simpa using hkk
        obtain ⟨j, hj, hji, ht⟩ := hrem.rest hke
        refine ⟨j, hj, ?_⟩
        rw [← ho _ fun e => hji (congrArg Prod.snd e)]
        rw [show s.live (k, j) = some (entryAt s.vol.disk s.addr k j) from liveAt_eq_some.mpr ⟨hk, hj, hl', ht, rfl⟩]
        rfl
      · obtain ⟨j, hj, hso⟩ := h.filled k hk hpos hl'
        exact ⟨j, hj, by rwa [← ho _ fun e => hk' (congrArg Prod.fst e)]⟩
  · have hl' : slotAddr s.vol.disk s.inode k = s.inode.sec k := slotAddr_low hk
    have hz' : slotAddr st.vol.disk st.inode k = st.inode.sec k := slotAddr_low hk
    have ha := hrem.addr k (by omega)
    rw [hz', hz, hl'] at ha
    intro hu
    refine ((hrem.used _).mp hu).2 ?_
    by_cases hkk : drop = true ∧ k = k0
    · exact ⟨hkk.1, by rw [← hkk.2, hl']⟩
    · rw [if_neg hkk] at ha
      exact absurd ha.symm hl

theorem Inv.sync_sec (h : s.Inv n p L) (hfew : L.entries.length + 3 ≤ 252)
    (hr : syncDirEntry .debug s.vol s.inode e ioBuf = .ok (st, true)) (hk : k < 12)
    (hl : s.inode.sec k ≠ 0) :
    st.inode.sec k ≠ 0 := by
  obtain ⟨k0, i0, ha, -, hp⟩ := syncDirEntry_direct h.blocks (h.not_full (by omega)) hr
  have hlow : slotAddr s.vol.disk s.inode k = s.inode.sec k := slotAddr_low hk
  have hlow' : slotAddr st.vol.disk st.inode k = st.inode.sec k := slotAddr_low hk
  rw [← hlow']
  by_cases hkk : k = k0
  · rw [hkk]
    exact hp.slot.1
  · rw [ha k (by omega) hkk, hlow]
    exact hl

theorem Inv.sync_total (h : s.Inv n p L) (hfew : L.entries.length + 3 ≤ 252) (hr : s.vol.HasBlock) (e : DirEntry) (ioBuf : Mem) :
    ∃ st, syncDirEntry .debug s.vol s.inode e ioBuf = .ok (st, true) := by
  refine syncDirEntry_total h.blocks hr (h.not_full (by omega)) ?_ ioBuf
  rw [h.size]
  exact Nat.mul_mod_right 24 _

theorem Inv.direct (h : s.Inv n p L) (hk : k < 140) (hne : s.addr k ≠ 0) : k < 12 := by
  by_contra hc
  refine hne ?_
  rw [addr, slotAddr, memLayout_mid _ _ (by omega) hk, tableOf, if_pos h.table]

theorem Inv.delete_total (h : s.Inv n p L) (rounds : Nat) (no : UInt32) (ioBuf : Mem) :
    ∃ r, deleteDirEntry .debug rounds s.vol s.inode no ioBuf = .ok (some r) := by
  unfold deleteDirEntry deleteDirEntryVia
  obtain ⟨all, hall⟩ := allBlocks_total .debug s.vol.disk fun h12 => absurd h.table h12
  have ha := allBlocks_spec hall
  rw [hall, ok_bind]
  have hhit : ∀ {k i}, k < 140 → Hit s.vol.disk all no k i → Hit s.vol.disk s.addr no k i := fun hk hhit => by
    unfold Hit entryAt at hhit ⊢
    rwa [ha _ hk] at hhit
  refine deleteBlocks_total (fun k hk hne => ?_) (fun k hk hne i hi i' hi' h1 h2 => ?_) ?_ (fun k hk hne i hi _ _ => ?_) 140 0 ioBuf rfl
  · rw [ha k hk] at hne ⊢
    exact ⟨h.blocks.inData k (by omega) hne, h.blocks.onDisk k (by omega) hne⟩
  · rw [ha k hk] at hne
    exact congrArg Prod.snd (h.hit_unique hk hi hne (hhit hk h1) hk hi' hne (hhit hk h2))
  · rw [h.size]
    unfold dirEntrySize
    omega
  · rw [ha k hk] at hne
    exact h.direct hk hne

/-! ## Empty directories -/

theorem Inv.size_word (h : s.Inv n p L) : s.inode.iSize = .ofNat dirEntrySize * 2 ↔ L.entries = [] := by
  have hs := h.size
  rw [← UInt32.toNat_inj, hs, ← length_eq_zero_iff]
  show 24 * (L.entries.length + 2) = 48 ↔ _
  omega

theorem Inv.sec_of_empty (h : s.Inv n p L) (hL : L.entries = []) (hpos : 1 ≤ k) (hk : k ≤ 12) :
    s.inode.sec k = 0 := by
  by_cases h12 : k = 12
  · exact h12 ▸ h.table
  by_contra hne
  have hlow : slotAddr s.vol.disk s.inode k = s.inode.sec k := slotAddr_low (by omega)
  obtain ⟨i, hi, hs⟩ := h.filled k (by omega) hpos (by rw [addr, hlow]; exact hne)
  obtain ⟨x, hx⟩ := Option.isSome_iff_exists.mp hs
  have hmem := h.mem_listing hx fun hc => by
    omega
  rw [hL] at hmem
  cases hmem

theorem noOtherSectors_ok {inode : Inode} : ∀ (m k : Nat), (∀ j, k ≤ j → j < k + m → inode.sec j = 0) →
    Fs.noOtherSectors .debug inode m k = .ok ()
  | 0, _, _ => rfl
  | m + 1, k, h => by
    unfold Fs.noOtherSectors
    rw [assert_of _ (h k le_rfl (by omega)), ok_bind]
    exact noOtherSectors_ok m (k + 1) fun j h1 h2 => h j (by omega) (by omega)

/-! ## Runs -/

structure NewDir (n p : Nat) (s : DirState part) : Prop where
  formatted : part.Formatted
  blocks : DirBlocks s.vol s.addr
  others : ∀ k, 1 ≤ k → k ≤ 12 → s.inode.sec k = 0
  live : ∀ k i, s.live (k, i) = newEnts n p k i
  size : s.inode.iSize = 48

theorem NewDir.of_dots (hf : part.Formatted) {vol : Volume part} {lba : Nat} (hin : part.InData lba) (hle : lba ≤ maxLba)
    (hu : vol.Used lba) {disk : Mem}
    (hd : vol.disk = blit disk (512 * lba) (dotEntries (.ofNat n) (.ofNat p)) 0 (512 * 1)) :
    NewDir n p ⟨vol, (dirNode n p lba).inode⟩ := by
  have hn := dirNode_stored hin hle hu hd
  obtain ⟨hok, hl⟩ := hn.dir rfl
  refine ⟨hf, hok.blocks, fun k h1 h2 => ?_, hl, rfl⟩
  by_cases h12 : k = 12
  · have := dirNode_addr vol.disk n p lba 140
    exact h12 ▸ this
  · have := dirNode_addr vol.disk n p lba k
    rwa [slotAddr_low (by omega), if_neg (by omega)] at this

theorem NewDir.inv (h : NewDir n p s) : s.Inv n p .empty := by
  refine ⟨h.blocks, h.others 12 (by decide) (by decide), (h.live 0 0).trans rfl, (h.live 0 1).trans rfl, ?_, ?_, by decide, ?_⟩
  · rw [filterMap_eq_nil_iff.mpr fun q hq => ?_]
    · exact List.Perm.refl _
    · rw [show s.live q = newEnts n p q.1 q.2 from h.live q.1 q.2]
      cases hx : newEnts n p q.1 q.2 with
      | none => rfl
      | some x => exact absurd (Tree.newEnts_dot hx) (mem_childSlots.mp hq).2
  · rw [h.size]
    rfl
  · intro k hk hpos hne
    refine absurd ?_ hne
    by_cases hlow : k < 12
    · rw [addr, slotAddr_low hlow]
      exact h.others k hpos (by omega)
    · rw [addr, slotAddr, memLayout_mid _ _ (by omega) hk, tableOf, if_pos (h.others 12 (by decide) (by decide))]

/-- An insertion under a new number with room for it, and the deletion of an entry other than the
dots. -/
inductive DirStep : DirState part × Listing → DirState part × Listing → Prop
  | sync {s : DirState part} {L : Listing} {e : DirEntry} {ioBuf : Mem} {st : DirWriting part} (hc : e.Counted)
    (hnew : ¬ L.Lists e.iNo) (hlive : L.entries.length + 3 ≤ 252)
    (hr : syncDirEntry .debug s.vol s.inode e ioBuf = .ok (st, true)) : DirStep (s, L) (after st, L.insert e hc hnew)
  | delete {s : DirState part} {L : Listing} {no : UInt32} {ioBuf : Mem} {rounds : Nat} {st : DirWriting part} {ok : Bool}
    (hlive : L.Lists no) (hr : deleteDirEntry .debug rounds s.vol s.inode no ioBuf = .ok (some (st, ok))) :
    DirStep (s, L) (after st, L.delete no)

def DirStart (n p : Nat) (x : DirState part × Listing) : Prop := NewDir n p x.1 ∧ x.2 = .empty

theorem inv_of_reach {x : DirState part × Listing} (h : Reach DirStep (DirStart n p) x) : part.Formatted ∧ x.1.Inv n p x.2 := by
  refine h.invariant (P := fun y => part.Formatted ∧ y.1.Inv n p y.2) (fun y hy => ?_) (fun y y' hy hs => ⟨hy.1, ?_⟩)
  · obtain ⟨hnew, he⟩ := hy
    rw [he]
    exact ⟨hnew.formatted, hnew.inv⟩
  · cases hs with
    | sync hc hnew hl hr => exact hy.2.sync hc hnew hl hr
    | delete hl hr => exact (hy.2.delete hy.1 hl hr).2.1

structure Holds (s : DirState part) (n p : Nat) (L : Listing) : Prop where
  live : s.entries.Perm (dotEntry (.ofNat n) :: dotDotEntry (.ofNat p) :: L.entries)
  size : s.inode.iSize.toNat = 24 * s.entries.length
  filled : ∀ k < 140, 0 < k → s.addr k ≠ 0 → ∃ i < 21, (s.live (k, i)).isSome
  empty : ∀ c : CachedInode, c.inode = s.inode → (Fs.dirIsEmpty c = true ↔ L.entries = [])
  removable : L.entries = [] → (∀ k, 1 ≤ k → k ≤ 12 → s.inode.sec k = 0) ∧ Fs.noOtherSectors .debug s.inode 12 1 = .ok ()

theorem Inv.holds (h : s.Inv n p L) : s.Holds n p L := by
  refine ⟨h.entries_perm, ?_, h.filled, fun c hc => ?_, fun hL => ⟨fun k h1 h2 => h.sec_of_empty hL h1 h2, ?_⟩⟩
  · rw [h.entries_perm.length_eq, h.size]
    rfl
  · unfold Fs.dirIsEmpty
    rw [hc, decide_eq_true_eq]
    exact h.size_word
  · exact noOtherSectors_ok 12 1 fun j h1 h2 => h.sec_of_empty hL h1 (by omega)

/-- **Directories refine sets of entries.** In every run the directory holds its dots and what was
inserted and not deleted, each once. -/
theorem directory_refines_listing (h : Reach DirStep (DirStart n p) (s, L)) :
    s.Holds n p L ∧
    (∀ s' L', DirStep (s, L) (s', L') → ∀ k < 13, s.inode.sec k ≠ 0 → s'.inode.sec k = 0 →
      s'.vol.blockBitmap.bit ((s.inode.sec k).toNat - part.dataStartLba) = false) ∧
    (∀ e ioBuf, e.Counted → ¬ L.Lists e.iNo → L.entries.length + 3 ≤ 252 → s.vol.HasBlock →
      ∃ st, syncDirEntry .debug s.vol s.inode e ioBuf = .ok (st, true)) ∧
    ∀ no ioBuf rounds, L.Lists no → ∃ st, deleteDirEntry .debug rounds s.vol s.inode no ioBuf = .ok (some (st, true)) := by
  obtain ⟨hf, hinv⟩ := inv_of_reach h
  refine ⟨hinv.holds, fun s' L' hs k hk hne hz => ?_, fun e ioBuf _ _ hl hro => hinv.sync_total hl hro e ioBuf,
    fun no ioBuf rounds hl => ?_⟩
  · have hk12 : k ≠ 12 := fun e => hne (e ▸ hinv.table)
    have hlow : slotAddr s.vol.disk s.inode k = s.inode.sec k := slotAddr_low (by omega)
    have hin := hinv.blocks.inData k (by omega) (by rw [addr, hlow]; exact hne)
    rw [addr, hlow] at hin
    cases hs with
    | sync hc hnew hl hr => exact absurd hz (hinv.sync_sec hl hr (by omega) hne)
    | delete hl hr =>
      have hfr := (hinv.delete hf hl hr).2.2 k (by omega) hne hz
      unfold Volume.Used at hfr
      rw [and_iff_right hin.1] at hfr
      exact Bool.eq_false_iff.mpr hfr
  · obtain ⟨⟨st, ok⟩, hr⟩ := hinv.delete_total rounds no ioBuf
    obtain ⟨rfl, -⟩ := hinv.delete hf hl hr
    exact ⟨st, hr⟩

theorem firstBit_len : (Bitmap.mk 512 (fun a => if a = 0 then 1 else 0) sector_lt).btmpBytesLen = 512 * samplePart.blockBitmapSects := rfl

def newDirState : DirState samplePart where
  vol := ⟨blit (fun _ => 0) (512 * 612) (dotEntries (.ofNat 1) (.ofNat 0)) 0 (512 * 1),
    ⟨512, fun a => if a = 0 then 1 else 0, sector_lt⟩, ⟨512, fun _ => 0, sector_lt⟩, firstBit_len⟩
  inode := (dirNode 1 0 612).inode

theorem newDirState_new : NewDir 1 0 newDirState :=
  .of_dots ⟨by decide, by decide, by decide⟩ ⟨by decide, by decide⟩ (by decide) ⟨by decide, by decide⟩ rfl

theorem newDirState_room : newDirState.vol.HasBlock := by
  refine ⟨613, { newDirState.vol with blockBitmap := bitmapSet newDirState.vol.blockBitmap 1 true }, ?_, by decide⟩
  have hs : bitmapScan .debug newDirState.vol.blockBitmap 1 = .ok (some 1) := by decide +kernel
  unfold blockBitmapAlloc
  rfl

theorem directory_refines_listing_first : ∃ st : DirWriting samplePart, ∃ L : Listing, L.entries = [sampleEntry 0 0] ∧
    syncDirEntry .debug newDirState.vol newDirState.inode (sampleEntry 0 0) (fun _ => 0) = .ok (st, true) ∧ (after st).Holds 1 0 L := by
  have hc : (sampleEntry 0 0).Counted := by decide
  have hnew : ¬ Listing.empty.Lists (sampleEntry 0 0).iNo := fun ⟨x, hx, _⟩ => by cases hx
  have hs : Reach DirStep (DirStart 1 0) (newDirState, Listing.empty) := .refl ⟨newDirState_new, rfl⟩
  obtain ⟨st, hr⟩ := (directory_refines_listing hs).2.2.1 (sampleEntry 0 0) (fun _ => 0) hc hnew (by decide) newDirState_room
  exact ⟨st, Listing.empty.insert (sampleEntry 0 0) hc hnew, rfl, hr,
    (directory_refines_listing (hs.tail (.sync hc hnew (by decide) hr))).1⟩

/-! ## Deleting behind the table -/

/-- A directory with its dots in the first two slots and entries under different numbers in any
others. -/
structure Whole (s : DirState part) : Prop where
  blocks : DirBlocks s.vol s.addr
  dot : ∃ no, s.live (0, 0) = some (dotEntry no)
  dotDot : ∃ no, s.live (0, 1) = some (dotDotEntry no)
  counted : ∀ {q x}, s.live q = some x → ¬ (q.1 = 0 ∧ q.2 < 2) → x.Counted
  unique : ∀ {q q' x y}, s.live q = some x → s.live q' = some y → ¬ (q.1 = 0 ∧ q.2 < 2) → ¬ (q'.1 = 0 ∧ q'.2 < 2) →
    x.iNo = y.iNo → q = q'
  size : s.inode.iSize.toNat = 24 * s.entries.length

def LastBehindTable (s : DirState part) (no : UInt32) : Prop :=
  ∃ k i, 12 ≤ k ∧ k < 140 ∧ i < 21 ∧ s.addr k ≠ 0 ∧ Hit s.vol.disk s.addr no k i ∧
    ∀ j < 21, j ≠ i → (entryAt s.vol.disk s.addr k j).fType = 0

theorem Whole.hit_unique (h : s.Whole) {k' i' : Nat} (hk : k < 140) (hi : i < 21) (hne : s.addr k ≠ 0)
    (hhit : Hit s.vol.disk s.addr no k i) (hk' : k' < 140) (hi' : i' < 21) (hne' : s.addr k' ≠ 0)
    (hhit' : Hit s.vol.disk s.addr no k' i') : (k, i) = (k', i') := by
  have hdo : ∀ {k i}, k < 140 → i < 21 → s.addr k ≠ 0 → Hit s.vol.disk s.addr no k i → ¬ (k = 0 ∧ i < 2) := by
    rintro k i hk hi hne hhit ⟨rfl, hlt⟩
    have hx := live_of_hit hk hi hne hhit
    rcases (show i = 0 ∨ i = 1 by omega) with rfl | rfl
    · obtain ⟨m, hm⟩ := h.dot
      rw [hm] at hx
      exact hhit.1.2.1 (by rw [← Option.some.inj hx]; exact dotEntry_name m)
    · obtain ⟨m, hm⟩ := h.dotDot
      rw [hm] at hx
      exact hhit.1.2.2 (by rw [← Option.some.inj hx]; exact dotDotEntry_name m)
  exact h.unique (live_of_hit hk hi hne hhit) (live_of_hit hk' hi' hne' hhit') (hdo hk hi hne hhit) (hdo hk' hi' hne' hhit')
    (hhit.2.trans hhit'.2.symm)

theorem Whole.alone (h : s.Whole) (hk : k < 140) (hpos : 12 ≤ k) (hne : s.addr k ≠ 0)
    (ha : Alone s.vol.disk s.addr k i) :
    ∀ j < 21, j ≠ i → (entryAt s.vol.disk s.addr k j).fType = 0 := by
  intro j hj hji
  by_contra ht
  have hl : s.live (k, j) = some (entryAt s.vol.disk s.addr k j) := liveAt_eq_some.mpr ⟨hk, hj, hne, ht, rfl⟩
  have hc := h.counted hl fun hc => by
    omega
  exact hc.2.2 (ha j hj hji ht)

theorem Whole.deleteDirEntry (h : s.Whole) (no : UInt32) (ioBuf : Mem) : ∃ all : Blocks, (∀ k < 140, all k = s.addr k) ∧
    (∀ {k i}, k < 140 → (Hit s.vol.disk all no k i ↔ Hit s.vol.disk s.addr no k i)) ∧
    ∀ rounds, deleteDirEntry .debug rounds s.vol s.inode no ioBuf = deleteBlocks .debug rounds no 140 0 ⟨s.vol, s.inode, all, ioBuf⟩ := by
  have htab : slotAddr s.vol.disk s.inode 140 = s.inode.sec 12 := memLayout_table _ _
  have ho : s.inode.sec 12 ≠ 0 → (s.inode.sec 12).toNat ≤ maxLba := by
    exact h.blocks.onDisk 140 le_rfl
  obtain ⟨all, hall⟩ := allBlocks_total .debug s.vol.disk ho
  have ha := allBlocks_spec hall
  refine ⟨all, ha, fun {k i} hk => ?_, fun rounds => ?_⟩
  · unfold Hit entryAt
    rw [ha k hk]
    rfl
  · unfold OperateSystem.deleteDirEntry deleteDirEntryVia
    rw [hall, ok_bind]

theorem Whole.returns (h : s.Whole) (hl : ¬ s.LastBehindTable no) (rounds : Nat) :
    ∃ r, OperateSystem.deleteDirEntry .debug rounds s.vol s.inode no ioBuf = .ok (some r) := by
  obtain ⟨all, had, hhit, hrun⟩ := h.deleteDirEntry no ioBuf
  rw [hrun]
  have hs : dirEntrySize ≤ s.inode.iSize.toNat := by
    obtain ⟨m, hm⟩ := h.dot
    have hmem : dotEntry m ∈ s.entries := mem_filterMap.mpr ⟨(0, 0), mem_dirSlots.mpr ⟨by decide, by decide⟩, hm⟩
    have := length_pos_of_mem hmem
    rw [h.size]
    unfold dirEntrySize
    omega
  refine deleteBlocks_total (fun k hk hne => ?_) (fun k hk hne i hi i' hi' h1 h2 => ?_) hs (fun k hk hne i hi h1 ha => ?_) 140 0 ioBuf rfl
  · rw [had k hk] at hne ⊢
    exact ⟨h.blocks.inData k (by omega) hne, h.blocks.onDisk k (by omega) hne⟩
  · rw [had k hk] at hne
    exact congrArg Prod.snd (h.hit_unique hk hi hne ((hhit hk).mp h1) hk hi' hne ((hhit hk).mp h2))
  · rw [had k hk] at hne
    by_contra hc
    have ha : Alone s.vol.disk s.addr k i := by
      unfold Alone entryAt at ha ⊢
      rwa [had k hk] at ha
    exact hl ⟨k, i, by omega, hk, hi, hne, (hhit hk).mp h1, h.alone hk (by omega) hne ha⟩

theorem Whole.stuck (h : s.Whole) (hla : s.LastBehindTable no) (rounds : Nat) (r : DirWriting part × Bool) :
    OperateSystem.deleteDirEntry .debug rounds s.vol s.inode no ioBuf ≠ .ok (some r) := by
  intro hr
  obtain ⟨k, i, hk12, hk, hi, hne, hhit0, hf⟩ := hla
  obtain ⟨all, ha, hhit, hrun⟩ := h.deleteDirEntry no ioBuf
  rw [hrun] at hr
  cases deleteBlocks_end 140 0 ioBuf r rfl hr with
  | absent _ _ hn => exact hn k hk (Nat.zero_le k) i hi (by rwa [ha k hk]) ((hhit hk).mpr hhit0)
  | drop hk' hl hc _ hdr _ =>
    rw [ha _ hk'.1] at hl
    obtain ⟨rfl, rfl⟩ := Prod.mk.inj (h.hit_unique hk hi hne hhit0 hk'.1 hk'.2 hl ((hhit hk'.1).mp hc))
    have := (dropBlock_ok hdr).1
    omega
  | clear hk' hl hc hre _ _ =>
    rw [ha _ hk'.1] at hl
    obtain ⟨rfl, rfl⟩ := Prod.mk.inj (h.hit_unique hk hi hne hhit0 hk'.1 hk'.2 hl ((hhit hk'.1).mp hc))
    obtain ⟨j, hj, hji, ht⟩ := hre
    refine ht ?_
    have := hf j hj hji
    unfold entryAt at this ⊢
    rwa [ha k hk]

/-- Block 0 holds the dots, eleven blocks are full and the block behind the table holds
one entry. -/
def crowdedSlots (k i : Nat) : Bool := 1 ≤ k && k < 12 || k = 12 && i = 0

def crowdedDir : DirState samplePart where
  vol := { sampleDirVol crowdedSlots with
    disk := blit (sampleDirDisk crowdedSlots) (512 * 612) (dotEntries (.ofNat 1) (.ofNat 0)) 0 (512 * 1) }
  inode := sampleDirInode 5616

theorem crowded_addr (hk : k ≤ 140) :
    crowdedDir.addr k = slotAddr (sampleDirDisk crowdedSlots) (sampleDirInode 5616) k := by
  refine slotAddr_congr (fun j => rfl) (fun _ t ht => ?_) k hk
  show blit _ _ _ _ _ (512 * 624 + t) = _
  exact blit_out (by omega)

theorem sampleAddr_data (hk : 1 ≤ k) (hk' : k ≤ 12) : 612 < sampleAddr k := by
  unfold sampleAddr
  by_cases h1 : k < 12
  · rw [if_pos h1]
    omega
  · simp [show k = 12 by omega]

theorem crowded_entry (hk : 1 ≤ k) (hk' : k ≤ 12) (hi : i < 21) :
    entryAt crowdedDir.vol.disk crowdedDir.addr k i =
      entryAt (sampleDirDisk crowdedSlots) (slotAddr (sampleDirDisk crowdedSlots) (sampleDirInode 5616)) k i := by
  refine entryAt_congr hi (crowded_addr (by omega)) fun t ht => ?_
  rw [sample_addr_toNat _ _ (by omega)]
  have hne := sampleAddr_data hk hk'
  exact blit_out (by omega)

theorem crowded_first : crowdedDir.addr 0 ≠ 0 ∧ entryAt crowdedDir.vol.disk crowdedDir.addr 0 0 = dotEntry 1 ∧
    entryAt crowdedDir.vol.disk crowdedDir.addr 0 1 = dotDotEntry 0 ∧
    ∀ i, 2 ≤ i → i < 21 → (entryAt crowdedDir.vol.disk crowdedDir.addr 0 i).Free := by
  have ha : (crowdedDir.addr 0).toNat = 612 := by
    rfl
  have hne : crowdedDir.addr 0 ≠ 0 := fun e => by
    rw [e] at ha
    cases ha
  unfold entryAt
  exact ⟨hne, dotEntries_entry rfl⟩

def crowdedEntry (k i : Nat) : Option DirEntry :=
  if k = 0 then if i = 0 then some (dotEntry 1) else if i = 1 then some (dotDotEntry 0) else none
  else if crowdedSlots k i then some (sampleEntry k i) else none

theorem crowdedSlots_bounds (h : crowdedSlots k i = true) : 1 ≤ k ∧ k ≤ 12 := by
  simp only [crowdedSlots, Bool.or_eq_true, Bool.and_eq_true, decide_eq_true_eq] at h
  omega

theorem crowded_live_eq (hk : k < 140) (hi : i < 21) : crowdedDir.live (k, i) = crowdedEntry k i := by
  unfold crowdedEntry
  by_cases hz : k = 0
  · subst hz
    obtain ⟨hne, h0, h1, hf⟩ := crowded_first
    by_cases hi0 : i = 0
    · subst hi0
      exact liveAt_eq_some.mpr ⟨hk, hi, hne, (dotEntry_live 1).1, h0⟩
    rw [if_neg hi0]
    by_cases hi1 : i = 1
    · subst hi1
      exact liveAt_eq_some.mpr ⟨hk, hi, hne, (dotDotEntry_live 0).1, h1⟩
    rw [if_neg hi1]
    exact if_neg fun h => h.2.2.2 (hf i (by omega) hi).1
  rw [if_neg hz]
  by_cases hu : crowdedSlots k i = true
  · obtain ⟨hpos, hk12⟩ := crowdedSlots_bounds hu
    have he := crowded_entry hpos hk12 hi
    rw [sample_entry _ _ hk12 hi hu] at he
    rw [if_pos hu]
    refine liveAt_eq_some.mpr ⟨hk, hi, ?_, (sampleEntry_live (by omega)).1, he⟩
    rw [crowded_addr (by omega)]
    intro hze
    have ha := sample_addr_toNat crowdedSlots 5616 (Nat.le_of_lt hk)
    rw [hze] at ha
    exact absurd ha (Nat.ne_of_lt (Nat.lt_trans (by decide) (sampleAddr_data hpos hk12)))
  · rw [if_neg hu]
    refine if_neg fun h => ?_
    have hk12 : k ≤ 12 := sample_allocated _ _ hk (crowded_addr (Nat.le_of_lt hk) ▸ h.2.2.1)
    refine h.2.2.2 ?_
    rw [crowded_entry (by omega) hk12 hi]
    exact (sample_free _ _ hk12 hi (Bool.eq_false_iff.mpr hu)).1

theorem crowded_live (hx : crowdedDir.live q = some x) (hq : ¬ (q.1 = 0 ∧ q.2 < 2)) :
    q.1 ≤ 12 ∧ q.2 < 21 ∧ x = sampleEntry q.1 q.2 := by
  obtain ⟨k, i⟩ := q
  obtain ⟨hk, hi, -⟩ := liveAt_eq_some.mp hx
  rw [crowded_live_eq hk hi] at hx
  unfold crowdedEntry at hx
  split at hx
  next hz =>
    rw [if_neg fun e => hq ⟨hz, by omega⟩, if_neg fun e => hq ⟨hz, by omega⟩] at hx
    cases hx
  split at hx
  next hu =>
    cases hx
    exact ⟨(crowdedSlots_bounds hu).2, hi, rfl⟩
  cases hx

theorem sampleEntry_counted (hk : k ≤ 12) (hi : i < 21) : (sampleEntry k i).Counted := by
  have hn := sampleEntry_name k (by omega) i hi
  refine ⟨(sampleEntry_live (by omega)).1, fun h => ?_, fun h => ?_⟩
  · rw [hn] at h
    exact absurd (congrArg List.length h) (by simp [dot])
  · rw [hn] at h
    have hf := (List.cons.inj h).1
    have hne : ∀ k ≤ 12, UInt8.ofNat (k + 1) ≠ 46 := by decide
    exact hne k hk hf

theorem crowded_size : crowdedDir.inode.iSize.toNat = 24 * crowdedDir.entries.length := by
  have he : crowdedDir.entries = dirSlots.filterMap fun q => crowdedEntry q.1 q.2 := by
    refine filterMap_congr fun q hq => ?_
    obtain ⟨hk, hi⟩ := mem_dirSlots.mp hq
    exact crowded_live_eq hk hi
  rw [he]
  decide +kernel

theorem crowded_whole : crowdedDir.Whole := by
  obtain ⟨hne, h0, h1, -⟩ := crowded_first
  refine ⟨(sample_dirOk crowdedSlots 5616).blocks.restrict (fun j hj _ => crowded_addr hj) fun _ hx => hx,
    ⟨1, liveAt_eq_some.mpr ⟨by decide, by decide, hne, (dotEntry_live 1).1, h0⟩⟩,
    ⟨0, liveAt_eq_some.mpr ⟨by decide, by decide, hne, (dotDotEntry_live 0).1, h1⟩⟩, ?_, ?_, crowded_size⟩
  · intro q x hx hq
    obtain ⟨hk, hi, rfl⟩ := crowded_live hx hq
    exact sampleEntry_counted hk hi
  · intro q q' x y hx hy hq hq' he
    obtain ⟨hk, hi, rfl⟩ := crowded_live hx hq
    obtain ⟨hk', hi', rfl⟩ := crowded_live hy hq'
    have hno : 21 * q.1 + q.2 = 21 * q'.1 + q'.2 := by
      have := congrArg UInt32.toNat he
      unfold sampleEntry at this
      rw [UInt32.toNat_ofNat_of_lt' (by show _ < 2 ^ 32; omega), UInt32.toNat_ofNat_of_lt' (by show _ < 2 ^ 32; omega)] at this
      exact this
    exact Prod.ext (by omega) (by omega)

theorem crowded_last : crowdedDir.LastBehindTable 252 := by
  have ha : crowdedDir.addr 12 ≠ 0 := by
    decide
  refine ⟨12, 0, le_rfl, by decide, by decide, ha, ?_, fun j hj hne => ?_⟩
  · unfold Hit
    decide
  · rw [crowded_entry (by decide) (by decide) hj]
    exact (sample_free _ _ (by decide) hj (by simp [crowdedSlots, hne])).1

/-- **`delete_dir_entry` returns** unless the entry is the last one in a block behind the
table. -/
theorem delete_dir_entry_returns_iff (h : s.Whole) :
    (∃ rounds r, OperateSystem.deleteDirEntry .debug rounds s.vol s.inode no ioBuf = .ok (some r)) ↔ ¬ s.LastBehindTable no := by
  constructor
  · rintro ⟨rounds, r, hr⟩ hl
    exact h.stuck hl rounds r hr
  · intro hl
    obtain ⟨r, hr⟩ := h.returns hl 0
    exact ⟨0, r, hr⟩

theorem delete_dir_entry_returns_crowded : crowdedDir.Whole ∧ ¬ crowdedDir.LastBehindTable 21 ∧
    ∃ rounds r, OperateSystem.deleteDirEntry .debug rounds crowdedDir.vol crowdedDir.inode 21 (fun _ => 0) = .ok (some r) := by
  have hl : ¬ crowdedDir.LastBehindTable 21 := by
    rintro ⟨k, i, hk12, hk, hi, hne, hhit, -⟩
    obtain ⟨hk', -, e⟩ := crowded_live (live_of_hit hk hi hne hhit) fun h => absurd (hk12.trans_eq h.1) (by decide)
    obtain rfl := hk'.antisymm hk12
    have hno := hhit.2
    rw [e] at hno
    have hall : ∀ i < 21, (sampleEntry 12 i).iNo ≠ 21 := by decide
    exact hall i hi hno
  exact ⟨crowded_whole, hl, (delete_dir_entry_returns_iff crowded_whole).mpr hl⟩

/-- The last entry behind the table: the call does not return. -/
theorem delete_dir_entry_stuck : crowdedDir.Whole ∧
    ∀ rounds r, OperateSystem.deleteDirEntry .debug rounds crowdedDir.vol crowdedDir.inode 252 (fun _ => 0) ≠ .ok (some r) :=
  ⟨crowded_whole, crowded_whole.stuck crowded_last⟩

end DirState

end OperateSystem
