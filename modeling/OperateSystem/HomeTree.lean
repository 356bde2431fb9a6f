import OperateSystem.FsRun
import OperateSystem.TreeDisk

/-!
# The tree of a sample volume

The directory `/a` with the file `/a/f` as a tree, and that the sample volume stores it.
-/

namespace OperateSystem
variable {d i k n : Nat}

def homeNode (n : Nat) : Node := ⟨homeInode n, n < 2, fun k i => if n < 2 ∧ k = 0 ∧ i < 3 then some (homeEntry n i) else none⟩

def homeTree : Tree := fun n => if n < 3 then some (homeNode n) else none

theorem homeTree_some {nd : Node} (h : homeTree n = some nd) : n < 3 ∧ nd = homeNode n := by
  unfold homeTree at h
  split at h
  · rename_i hn
    cases h
    exact ⟨hn, rfl⟩
  · cases h

theorem homeTree_entry {e : DirEntry} : homeTree.Entry d k i e ↔ d < 2 ∧ k = 0 ∧ i < 3 ∧ e = homeEntry d i := by
  constructor
  · rintro ⟨nd, hnd, -, hent⟩
    obtain ⟨-, rfl⟩ := homeTree_some hnd
    have hent : (if d < 2 ∧ k = 0 ∧ i < 3 then some (homeEntry d i) else none) = some e := hent
    split at hent
    · rename_i hc
      cases hent
      exact ⟨hc.1, hc.2.1, hc.2.2, rfl⟩
    · cases hent
  · rintro ⟨hd, rfl, hi, rfl⟩
    exact ⟨homeNode d, if_pos (by omega), decide_eq_true hd, if_pos ⟨hd, rfl, hi⟩⟩

theorem homeTree_child {e : DirEntry} : homeTree.Child d k i e ↔ d < 2 ∧ k = 0 ∧ i = 2 ∧ e = homeEntry d 2 := by
  unfold Tree.Child
  rw [homeTree_entry]
  constructor
  · rintro ⟨⟨hd, rfl, hi, rfl⟩, hdot⟩
    obtain rfl : i = 2 := by omega
    exact ⟨hd, rfl, rfl, rfl⟩
  · rintro ⟨hd, rfl, rfl, rfl⟩
    exact ⟨⟨hd, rfl, by decide, rfl⟩, by decide⟩

theorem homeNode_slots (hd : d < 2) : (homeNode d).slots = {(0, 0), (0, 1), (0, 2)} := by
  ext ⟨k, i⟩
  rw [Tree.mem_slots]
  simp only [homeNode, Finset.mem_insert, Finset.mem_singleton, Prod.mk.injEq]
  by_cases hc : d < 2 ∧ k = 0 ∧ i < 3
  · rw [if_pos hc]
    simp only [Option.isSome_some, and_true]
    omega
  · rw [if_neg hc]
    simp only [Option.isSome_none, Bool.false_eq_true, and_false, false_iff]
    omega

theorem homeTree_ok : homeTree.Ok := by
  have hch : ∀ d < 2, homeTree.Child d 0 2 (homeEntry d 2) := fun d hd => homeTree_child.mpr ⟨hd, rfl, rfl, rfl⟩
  have hnu : ∀ d < 2, (homeEntry d 2).iNo.toNat = d + 1 := by decide
  have hbyte : ∀ {n nd}, homeTree n = some nd → n < 256 := by
    intro n nd hn
    have := (homeTree_some hn).1
    omega
  refine ⟨⟨⟨homeNode 0, rfl, rfl⟩, fun hn => Nat.lt_trans (hbyte hn) (by decide), fun hd hdir => ?_,
    fun {d nd} hd hdir => ?_, fun {d k i e} hc => ?_, fun {d k i e} hc => ?_,
    fun {d k i e d' k' i' e'} hc hc' hno => ?_, fun {n nd} hn => ?_⟩, hbyte, fun he => ?_, fun {d nd} hd hdir => ?_⟩
  · obtain ⟨-, rfl⟩ := homeTree_some hd
    exact if_pos ⟨of_decide_eq_true hdir, rfl, by decide⟩
  · obtain ⟨-, rfl⟩ := homeTree_some hd
    have hd : d < 2 := of_decide_eq_true hdir
    refine ⟨0, if_pos ⟨hd, rfl, by decide⟩, ?_⟩
    rcases (show d = 0 ∨ d = 1 by omega) with rfl | rfl
    · exact .inl ⟨rfl, rfl⟩
    · exact .inr ⟨0, 2, _, hch 0 (by decide), rfl⟩
  · obtain ⟨hd, -, -, rfl⟩ := homeTree_child.mp hc
    have hna : ∀ d < 2, (homeEntry d 2).name ≠ dot ∧ (homeEntry d 2).name ≠ dotDot := by decide
    exact hna d hd
  · obtain ⟨hd, -, -, rfl⟩ := homeTree_child.mp hc
    rw [hnu d hd]
    refine ⟨by omega, homeNode (d + 1), if_pos (by omega), ?_⟩
    rcases (show d = 0 ∨ d = 1 by omega) with rfl | rfl <;> rfl
  · obtain ⟨hd, rfl, rfl, rfl⟩ := homeTree_child.mp hc
    obtain ⟨hd', rfl, rfl, rfl⟩ := homeTree_child.mp hc'
    rw [hnu d hd, hnu d' hd'] at hno
    exact ⟨by omega, rfl, rfl⟩
  · have h1 : homeTree.Below 1 := .child .root (hch 0 (by decide))
    have h2 : homeTree.Below 2 := .child h1 (hch 1 (by decide))
    have hn := (homeTree_some hn).1
    rcases (show n = 0 ∨ n = 1 ∨ n = 2 by omega) with rfl | rfl | rfl
    · exact .root
    · exact h1
    · exact h2
  · obtain ⟨-, rfl, hi, -⟩ := homeTree_entry.mp he
    omega
  · obtain ⟨-, rfl⟩ := homeTree_some hd
    have hd : d < 2 := of_decide_eq_true hdir
    have hs : ∀ d < 2, (homeInode d).iSize.toNat = 24 * 3 := by decide
    rw [homeNode_slots hd]
    exact hs d hd

/-! ## On disk -/

theorem homeInode_addr (disk : Mem) (n j : Nat) :
    slotAddr disk (homeInode n) j = if n < 2 ∧ j = 0 then .ofNat (612 + n) else 0 := by
  have hsec : ∀ k, (homeInode n).sec k = if n < 2 ∧ k = 0 then .ofNat (612 + n) else 0 := fun k => by
    unfold Inode.sec homeInode
    split
    · rfl
    · rw [if_neg (by omega)]
  by_cases hc : n < 2 ∧ j = 0
  · rw [if_pos hc, hc.2, slotAddr_low (by decide), hsec, if_pos ⟨hc.1, rfl⟩]
  · rw [if_neg hc]
    exact slotAddr_eq_zero ((hsec 12).trans (if_neg (by omega))) ((hsec j).trans (if_neg hc))

theorem homeDisk_entry (hn : n < 2) (hi : i < 21) :
    DirEntry.ofMem homeDisk (512 * (612 + n) + dirEntrySize * i) = homeEntry n i := by
  refine Eq.trans (DirEntry.ofMem_congr fun j hj => ?_) (DirEntry.ofMem_toMem (homeEntry n i))
  have hs : (512 * (612 + n) + 24 * i + j) / 512 - 612 = n := by omega
  have hsl : (512 * (612 + n) + 24 * i + j) % 512 / 24 = i := by omega
  have hb : (512 * (612 + n) + 24 * i + j) % 512 % 24 = 0 + j := by omega
  unfold homeDisk dirEntrySize
  rw [if_neg (by omega), if_pos (by omega), hs, hsl, hb]

theorem homeDisk_inode (hn : n < 3) : Inode.ofMem homeDisk (samplePart.inodeAddr n) = homeInode n := by
  refine Eq.trans (OperateSystem.ofMem_congr fun j hj => ?_) (OperateSystem.ofMem_toMem (homeInode n))
  have ha : samplePart.inodeAddr n + j = 2048 + (76 * n + j) := Nat.add_assoc _ _ _
  have hi : (2048 + (76 * n + j) - 2048) / 76 = n := by omega
  have hb : (2048 + (76 * n + j) - 2048) % 76 = 0 + j := by omega
  unfold homeDisk
  rw [ha, if_pos (by omega), hi, hb]

theorem homeNode_entry (hn : n < 2) (hi : i < 21) (hk : k = 0) :
    entryAt homeVol.disk (slotAddr homeVol.disk (homeInode n)) k i = homeEntry n i := by
  have hno : ∀ n < 2, (UInt32.ofNat (612 + n)).toNat = 612 + n := by decide
  unfold entryAt
  rw [homeInode_addr, if_pos ⟨hn, hk⟩, hno n hn]
  exact homeDisk_entry hn hi

theorem homeEntry_clear (hi : 3 ≤ i) : homeEntry n i = ⟨fun _ => 0, 0, 0⟩ := by
  unfold homeEntry
  rw [if_neg (by omega), if_neg (by omega), if_neg (by omega)]

theorem homeNode_stored (n : Nat) : StoresNode homeVol (homeNode n) := by
  have hz : ∀ {j}, slotAddr homeVol.disk (homeInode n) j ≠ 0 → n < 2 ∧ j = 0 := fun {j} hne => by
    by_contra hc
    rw [homeInode_addr, if_neg hc] at hne
    exact hne rfl
  have ha : ∀ {j}, slotAddr homeVol.disk (homeInode n) j ≠ 0 →
      samplePart.InData (slotAddr homeVol.disk (homeInode n) j).toNat ∧ (slotAddr homeVol.disk (homeInode n) j).toNat ≤ maxLba ∧
        homeVol.Used (slotAddr homeVol.disk (homeInode n) j).toNat := fun {j} hne => by
    obtain ⟨hn, rfl⟩ := hz hne
    rw [homeInode_addr, if_pos ⟨hn, rfl⟩]
    rcases (show n = 0 ∨ n = 1 by omega) with rfl | rfl
    · exact ⟨⟨by decide, by decide⟩, by decide, by decide, by decide⟩
    · exact ⟨⟨by decide, by decide⟩, by decide, by decide, by decide⟩
  have hb : DirBlocks homeVol (slotAddr homeVol.disk (homeInode n)) := by
    refine ⟨fun k _ hne => (ha hne).1, fun k _ hne => (ha hne).2.1, fun k _ hne => (ha hne).2.2, fun j _ k _ hne he => ?_⟩
    exact (hz hne).2.trans (hz (he ▸ hne)).2.symm
  have hli : ∀ d < 2, ∀ i < 3, (homeEntry d i).Live := by
    have hall : ∀ d < 2, ∀ i < 3, (homeEntry d i).fType ≠ 0 ∧ (homeEntry d i).filename 0 ≠ 0 ∧ ∃ j, (homeEntry d i).filename j = 0 := by decide
    exact hall
  have hen : ∀ k i, liveAt homeVol.disk (slotAddr homeVol.disk (homeInode n)) k i = (homeNode n).ents k i := fun k i => by
    show _ = if n < 2 ∧ k = 0 ∧ i < 3 then some (homeEntry n i) else none
    split
    · rename_i hc
      obtain ⟨hn, rfl, hi⟩ := hc
      refine liveAt_eq_some.mpr ⟨by decide, by omega, ?_, (hli n hn i hi).1, homeNode_entry hn (by omega) rfl⟩
      rw [homeInode_addr, if_pos ⟨hn, rfl⟩]
      rcases (show n = 0 ∨ n = 1 by omega) with rfl | rfl <;> decide
    · rename_i hc
      refine if_neg fun hl => hc ?_
      obtain ⟨hn, rfl⟩ := hz hl.2.2.1
      refine ⟨hn, rfl, ?_⟩
      by_contra hi
      rw [homeNode_entry hn hl.2.1 rfl, homeEntry_clear (by omega)] at hl
      exact hl.2.2.2 rfl
  refine ⟨hb, fun _ => ⟨⟨hb, fun k hk i hi hne => ?_, fun {k i k' i' x y} hx hy hnm => ?_⟩, hen⟩⟩
  · obtain ⟨hn, rfl⟩ := hz hne
    have het : entryAt homeVol.disk (slotAddr homeVol.disk (homeNode n).inode) 0 i = homeEntry n i := homeNode_entry hn hi rfl
    rw [het]
    by_cases hi : i < 3
    · exact .inr (hli n hn i hi)
    · rw [homeEntry_clear (by omega)]
      exact .inl ⟨rfl, rfl⟩
  · have hx : (if n < 2 ∧ k = 0 ∧ i < 3 then some (homeEntry n i) else none) = some x := (hen k i).symm.trans hx
    have hy : (if n < 2 ∧ k' = 0 ∧ i' < 3 then some (homeEntry n i') else none) = some y := (hen k' i').symm.trans hy
    split at hx
    · rename_i hc
      split at hy
      · rename_i hc'
        cases hx
        cases hy
        have hna : ∀ d < 2, ∀ i < 3, ∀ j < 3, (homeEntry d i).name = (homeEntry d j).name → i = j := by decide
        exact ⟨hc.2.1.trans hc'.2.1.symm, hna n hc.1 i hc.2.2 i' hc'.2.2 hnm⟩
      · cases hy
    · cases hx

theorem homeVol_repr : Repr homeVol homeTree := by
  have hown : ∀ {n lba}, lba ∈ owned homeVol.disk (homeInode n) → lba = 612 + n := by
    rintro n lba ⟨j, -, hne, rfl⟩
    rw [homeInode_addr] at hne ⊢
    split at hne
    · rename_i hc
      rw [if_pos hc]
      rcases (show n = 0 ∨ n = 1 by omega) with rfl | rfl <;> rfl
    · exact absurd rfl hne
  refine ⟨fun hn => ?_, fun hn => ?_, fun {n nd} hn => ?_, fun hn => ?_, fun hn => ?_, fun {n m nd md lba} hn hm hl hl' => ?_⟩
  · have := (homeTree_some hn).1
    omega
  · obtain ⟨-, rfl⟩ := homeTree_some hn
    rfl
  · have hn := (homeTree_some hn).1
    rcases (show n = 0 ∨ n = 1 ∨ n = 2 by omega) with rfl | rfl | rfl <;> decide
  · obtain ⟨hlt, rfl⟩ := homeTree_some hn
    exact homeDisk_inode hlt
  · obtain ⟨-, rfl⟩ := homeTree_some hn
    exact homeNode_stored _
  · obtain ⟨-, rfl⟩ := homeTree_some hn
    obtain ⟨-, rfl⟩ := homeTree_some hm
    have h1 := hown hl
    have h2 := hown hl'
    omega

end OperateSystem
