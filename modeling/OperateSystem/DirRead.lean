import OperateSystem.DirDelete

/-!
# Listing a directory

Every call of `dir_read` scans the directory from its first block and passes over
as many entries as `dir_pos` has counted. With a size that counts the live entries
the scan always ends at one, so call after call returns them in order.
-/

namespace OperateSystem

open List

/-! ## Entries in order -/

section
variable {f g : Nat → DirEntry} {i n : Nat}

def usedAmong (f : Nat → DirEntry) (i n : Nat) : List DirEntry :=
  (List.range' i n).filterMap fun j => if (f j).fType ≠ 0 then some (f j) else none

theorem usedAmong_used (h : (f i).fType ≠ 0) : usedAmong f i (n + 1) = f i :: usedAmong f (i + 1) n := by
  unfold usedAmong
  rw [List.range'_succ]
  exact filterMap_cons_some (if_pos h)

theorem usedAmong_free (h : ¬ (f i).fType ≠ 0) : usedAmong f i (n + 1) = usedAmong f (i + 1) n := by
  unfold usedAmong
  rw [List.range'_succ]
  exact filterMap_cons_none (if_neg h)

theorem usedAmong_congr (h : ∀ j, i ≤ j → j < i + n → f j = g j) : usedAmong f i n = usedAmong g i n := by
  refine filterMap_congr fun j hj => ?_
  rw [mem_range'_1] at hj
  rw [h j hj.1 hj.2]

end

section
variable {disk : Mem} {all : Blocks} {iSize dirPos : UInt32} {k n : Nat}

def blockEntries (disk : Mem) (all : Blocks) (k n : Nat) : List DirEntry :=
  (List.range' k n).flatMap fun k => if all k = 0 then [] else usedAmong (entryAt disk all k) 0 21

theorem blockEntries_zero (h : all k = 0) : blockEntries disk all k (n + 1) = blockEntries disk all (k + 1) n := by
  unfold blockEntries
  rw [List.range'_succ, flatMap_cons, if_pos h, nil_append]

theorem blockEntries_succ (h : all k ≠ 0) :
    blockEntries disk all k (n + 1) = usedAmong (entryAt disk all k) 0 21 ++ blockEntries disk all (k + 1) n := by
  unfold blockEntries
  rw [List.range'_succ, flatMap_cons, if_neg h]

theorem blockEntries_all : blockEntries disk all 0 140 = liveEntries disk all := by
  have hl : liveEntries disk all =
      (List.range 140).flatMap fun k => ((List.range 21).map (Prod.mk k)).filterMap fun q => liveAt disk all q.1 q.2 :=
    filterMap_flatMap
  unfold blockEntries
  rw [hl, range_eq_range']
  refine flatMap_congr fun k hk => ?_
  rw [mem_range'_1] at hk
  rw [filterMap_map]
  by_cases hz : all k = 0
  · rw [if_pos hz]
    refine (filterMap_eq_nil_iff.mpr fun i _ => ?_).symm
    exact if_neg fun hc => hc.2.2.1 hz
  · rw [if_neg hz]
    refine filterMap_congr fun i hi => ?_
    rw [mem_range'_1] at hi
    show _ = liveAt disk all k i
    unfold liveAt
    refine if_congr ?_ rfl rfl
    exact ⟨fun ht => ⟨by omega, by omega, hz, ht⟩, fun hc => hc.2.2.2⟩

/-! ## One call -/

def bufEntry (buf : Mem) (i : Nat) : DirEntry := .ofMem buf (dirEntrySize * i)

theorem readSector_spec {buf : Mem} : ∀ (n i : Nat) (cur : UInt32) (j : Nat), dirPos.toNat = cur.toNat + 24 * j →
    (∃ i', readSector .debug buf dirPos n i cur = .ok (.entry i') ∧
      (usedAmong (bufEntry buf) i n)[j]? = some (bufEntry buf i')) ∨
    ∃ cur', readSector .debug buf dirPos n i cur = .ok (.past cur') ∧
      (usedAmong (bufEntry buf) i n).length ≤ j ∧
      dirPos.toNat = cur'.toNat + 24 * (j - (usedAmong (bufEntry buf) i n).length)
  | 0, i, cur, j, h => .inr ⟨cur, rfl, Nat.zero_le j, h⟩
  | n + 1, i, cur, j, h => by
    unfold readSector
    by_cases ht : (bufEntry buf i).fType ≠ 0
    · rw [if_pos (by exact ht), usedAmong_used ht]
      cases j with
      | zero =>
        have hcur : cur = dirPos := UInt32.toNat.inj (by omega)
        refine .inl ⟨i, ?_, rfl⟩
        rw [if_neg (by rw [hcur]; exact UInt32.lt_irrefl dirPos), assert_of _ hcur]
        rfl
      | succ j =>
        have hlt : cur < dirPos := UInt32.lt_iff_toNat_lt.mpr (by omega)
        have hb := dirPos.toNat_lt
        have hn : dirPos.toNat = (cur + .ofNat dirEntrySize).toNat + 24 * j := by
          rw [UInt32.toNat_add]
          show _ = (cur.toNat + 24) % 2 ^ 32 + 24 * j
          omega
        rw [if_pos hlt, List.getElem?_cons_succ, length_cons]
        rcases readSector_spec n (i + 1) _ j hn with he | ⟨cur', hr, hlen, hpos⟩
        · exact .inl he
        · refine .inr ⟨cur', hr, Nat.succ_le_succ hlen, ?_⟩
          rw [Nat.add_sub_add_right]
          exact hpos
    · rw [if_neg (by exact ht), usedAmong_free ht]
      exact readSector_spec n (i + 1) cur j h

theorem readBlocks_spec : ∀ (n k : Nat) (cur : UInt32) (d : DirHandle) (j : Nat), d.dirPos < iSize →
    (∀ i, k ≤ i → i < k + n → all i ≠ 0 → (all i).toNat ≤ maxLba) → d.dirPos.toNat = cur.toNat + 24 * j →
    j < (blockEntries disk all k n).length →
    ∃ buf, readBlocks .debug disk all iSize n k cur d =
      .ok (⟨d.dirPos + .ofNat dirEntrySize, buf⟩, (blockEntries disk all k n)[j]?)
  | 0, k, cur, d, j, _, _, _, hj => absurd hj (Nat.not_lt_zero j)
  | n + 1, k, cur, d, j, hlt, hdi, h, hj => by
    have ih := fun cur d j h1 => readBlocks_spec n (k + 1) cur d j h1 fun i h1 h2 => hdi i (by omega) (by omega)
    unfold readBlocks
    rw [if_pos hlt]
    by_cases hz : all k = 0
    · rw [blockEntries_zero hz] at hj ⊢
      rw [if_pos hz]
      exact ih cur d j hlt h hj
    · rw [blockEntries_succ hz] at hj ⊢
      rw [if_neg hz, ideRead_eq _ _ (hdi k le_rfl (by omega) hz) (by decide), ok_bind]
      generalize hbuf : blit (fill d.dirBuf 0 512 0) 0 disk (512 * (all k).toNat) (512 * 1) = buf
      have hs : usedAmong (bufEntry buf) 0 (512 / dirEntrySize) = usedAmong (entryAt disk all k) 0 21 :=
        usedAmong_congr fun i _ hi => by
          rw [← hbuf]
          exact sector_entry (by simpa [dirEntrySize] using hi)
      rcases readSector_spec (512 / dirEntrySize) 0 cur j h with ⟨i, hr, he⟩ | ⟨cur', hr, hlen, hpos⟩
      · rw [hr, ok_bind]
        rw [hs] at he
        refine ⟨buf, ?_⟩
        rw [List.getElem?_append_left (List.getElem?_eq_some_iff.mp he).1, he]
        rfl
      · rw [hr, ok_bind]
        rw [hs] at hlen hpos
        rw [length_append] at hj
        rw [List.getElem?_append_right hlen]
        exact ih cur' { d with dirBuf := buf } _ hlt hpos (by omega)

end

/-! ## Call after call -/

section
variable {disk : Mem} {inode : Inode}

theorem dirRead_spec (hdi : ∀ k ≤ 140, slotAddr disk inode k ≠ 0 → (slotAddr disk inode k).toNat ≤ maxLba)
    (hs : inode.iSize.toNat = 24 * (liveEntries disk (slotAddr disk inode)).length) (d : DirHandle) {j : Nat}
    (hpos : d.dirPos.toNat = 24 * min j (liveEntries disk (slotAddr disk inode)).length) :
    ∃ d', dirRead .debug disk inode d = .ok (d', (liveEntries disk (slotAddr disk inode))[j]?) ∧
      d'.dirPos.toNat = 24 * min (j + 1) (liveEntries disk (slotAddr disk inode)).length := by
  have htab : slotAddr disk inode 140 = inode.sec 12 := memLayout_table _ _
  have ho : inode.sec 12 ≠ 0 → (inode.sec 12).toNat ≤ maxLba := by
    rw [← htab]
    exact hdi 140 le_rfl
  obtain ⟨all, hall⟩ := allBlocks_total .debug disk ho
  have ha := allBlocks_spec hall
  have hl : liveEntries disk all = liveEntries disk (slotAddr disk inode) := by
    unfold liveEntries
    refine filterMap_congr fun q hq => ?_
    unfold liveAt entryAt
    rw [ha q.1 (mem_dirSlots.mp hq).1]
  unfold dirRead
  rw [hall, ok_bind]
  by_cases hj : j < (liveEntries disk (slotAddr disk inode)).length
  · have hlt : d.dirPos < inode.iSize := UInt32.lt_iff_toNat_lt.mpr (by omega)
    have hon : ∀ i, 0 ≤ i → i < 0 + 140 → all i ≠ 0 → (all i).toNat ≤ maxLba := fun i _ hi hne => by
      rw [ha i (by omega)] at hne ⊢
      exact hdi i (by omega) hne
    have hcur : d.dirPos.toNat = (0 : UInt32).toNat + 24 * j := by
      rw [hpos, Nat.min_eq_left (Nat.le_of_lt hj)]
      exact (Nat.zero_add _).symm
    have hm : j < (blockEntries disk all 0 140).length := by
      rw [blockEntries_all, hl]
      exact hj
    obtain ⟨buf, hr⟩ := readBlocks_spec 140 0 0 d j hlt hon hcur hm
    rw [blockEntries_all, hl] at hr
    refine ⟨_, hr, ?_⟩
    have hb := inode.iSize.toNat_lt
    show (d.dirPos + .ofNat dirEntrySize).toNat = _
    rw [UInt32.toNat_add, hpos]
    show (24 * min j _ + 24) % 2 ^ 32 = _
    omega
  · have hge : ¬ d.dirPos < inode.iSize := fun hlt => by
      have := UInt32.lt_iff_toNat_lt.mp hlt
      omega
    refine ⟨d, ?_, by omega⟩
    unfold readBlocks
    rw [if_neg hge, List.getElem?_eq_none (by omega), pure_ok]

theorem readdirs_spec (hdi : ∀ k ≤ 140, slotAddr disk inode k ≠ 0 → (slotAddr disk inode k).toNat ≤ maxLba)
    (hs : inode.iSize.toNat = 24 * (liveEntries disk (slotAddr disk inode)).length) :
    ∀ (m j : Nat) (d : DirHandle), d.dirPos.toNat = 24 * min j (liveEntries disk (slotAddr disk inode)).length →
      ∃ d', readdirs .debug disk inode m d = .ok (d', (List.range' j m).map fun i => (liveEntries disk (slotAddr disk inode))[i]?)
  | 0, j, d, _ => ⟨d, rfl⟩
  | m + 1, j, d, hpos => by
    obtain ⟨d1, hr, hpos1⟩ := dirRead_spec hdi hs d hpos
    obtain ⟨d2, hre⟩ := readdirs_spec hdi hs m (j + 1) d1 hpos1
    refine ⟨d2, ?_⟩
    unfold readdirs sysReaddir
    rw [hr, ok_bind]
    dsimp only
    rw [hre, ok_bind, List.range'_succ, map_cons]
    rfl

/-- **After `sys_rewinddir`, `sys_readdir` returns the live entries in order**, and
`NULL` from then on. -/
theorem readdir_lists_live_entries (hdisk : ∀ k ≤ 140, slotAddr disk inode k ≠ 0 → (slotAddr disk inode k).toNat ≤ maxLba)
    (hsize : inode.iSize.toNat = 24 * (liveEntries disk (slotAddr disk inode)).length) (d : DirHandle) (m : Nat) :
    ∃ d', readdirs .debug disk inode m (sysRewinddir d) =
      .ok (d', (List.range m).map fun i => (liveEntries disk (slotAddr disk inode))[i]?) := by
  rw [range_eq_range']
  exact readdirs_spec hdisk hsize m 0 (sysRewinddir d) (by rw [Nat.zero_min]; rfl)

end

def sparseSlots (k i : Nat) : Bool := k = 3 && i = 5 || k = 12 && i = 0

theorem readdir_lists_sparse_entries : ∃ L : List DirEntry, L.length = 2 ∧
    ∃ d', readdirs .debug (sampleDirDisk sparseSlots) (sampleDirInode 48) 3 (sysRewinddir ⟨7, fun _ => 0⟩) =
      .ok (d', (List.range 3).map fun i => L[i]?) := by
  have hlen : (liveEntries (sampleDirDisk sparseSlots) (slotAddr (sampleDirDisk sparseSlots) (sampleDirInode 48))).length = 2 := by
    rw [← blockEntries_all]
    decide +kernel
  have hdi : ∀ k ≤ 140, slotAddr (sampleDirDisk sparseSlots) (sampleDirInode 48) k ≠ 0 →
      (slotAddr (sampleDirDisk sparseSlots) (sampleDirInode 48) k).toNat ≤ maxLba := (sample_dirOk sparseSlots 48).blocks.onDisk
  exact ⟨_, hlen, readdir_lists_live_entries hdi (by rw [hlen]; rfl) ⟨7, fun _ => 0⟩ 3⟩

end OperateSystem
