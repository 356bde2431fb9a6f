import OperateSystem.FileBlocks
import OperateSystem.Format

/-!
# The layout and the block bitmap of a formatted partition

The regions of a formatted partition follow each other without a gap and fit in it.
The block bitmap has one bit too many cleared, unless it fills its sectors.
-/

namespace OperateSystem

open Function

/-! ## Long transfers -/

theorem blit_extend (m src : Mem) {a a' s s' n l : Nat} (ha : a' = a + n) (hs : s' = s + n) :
    blit (blit m a src s n) a' src s' l = blit m a src s (n + l) := by
  subst ha hs
  funext k
  by_cases h1 : a ≤ k ∧ k < a + n
  · rw [blit_out (by omega), blit_in h1.1 h1.2, blit_in (by omega) (by omega)]
  · by_cases h2 : a + n ≤ k ∧ k < a + n + l
    · rw [blit_in h2.1 h2.2, blit_in (by omega) (by omega)]
      congr 1
      omega
    · rw [blit_out (by omega), blit_out (by omega), blit_out (by omega)]

theorem blit_shift (m src : Mem) (a n l : Nat) : blit m a (fun k => src (n + k)) 0 l = blit m a src n l := by
  funext k
  simp only [blit, Nat.zero_add]

theorem blit_none (m src : Mem) (a s : Nat) : blit m a src s 0 = m := funext fun _ => blit_out (by omega)

section
variable {b : Build} {disk disk' buf : Mem} {lba secCnt : UInt32}

theorem secsOp_spec {d n : UInt32} (hlt : d < n) (hd : d.toNat ≤ maxLba + 256) :
    0 < (if d + 256 ≤ n then 256 else n - d).toNat ∧ (d + (if d + 256 ≤ n then 256 else n - d)).toNat ≤ n.toNat ∧
      (d + (if d + 256 ≤ n then 256 else n - d)).toNat = d.toNat + (if d + 256 ≤ n then 256 else n - d).toNat ∧
      (if d + 256 ≤ n then 256 else n - d).toNat ≤ 256 := by
  have hn := n.toNat_lt
  rw [UInt32.lt_iff_toNat_lt] at hlt
  have hadd : (d + 256).toNat = d.toNat + 256 :=
    toNat_add_ofNat (n := 256) (by simp only [maxLba] at hd; omega)
  split
  · rename_i h
    rw [UInt32.le_iff_toNat_le, hadd] at h
    have h256 : (256 : UInt32).toNat = 256 := rfl
    omega
  · rename_i h
    rw [UInt32.le_iff_toNat_le, hadd] at h
    have hsub : (n - d).toNat = n.toNat - d.toNat := UInt32.toNat_sub_of_le _ _ (UInt32.le_iff_toNat_le.mpr (by omega))
    rw [UInt32.toNat_add, hsub]
    omega

theorem ideWriteLoop_ok : ∀ (n : Nat) (d : UInt32) (disk : Mem), secCnt.toNat ≤ d.toNat + n → d.toNat ≤ secCnt.toNat →
    lba.toNat + d.toNat ≤ maxLba + 256 → ideWriteLoop .debug lba buf secCnt n d (blit disk (512 * lba.toNat) buf 0 (512 * d.toNat)) = .ok disk' →
    disk' = blit disk (512 * lba.toNat) buf 0 (512 * secCnt.toNat) ∧ lba.toNat + secCnt.toNat ≤ maxLba + 256
  | 0, d, disk, hn, hd, hle, h => by
    have hdo : d.toNat = secCnt.toNat := by omega
    cases h
    rw [hdo] at hle ⊢
    exact ⟨rfl, hle⟩
  | n + 1, d, disk, hn, hd, hle, h => by
    unfold ideWriteLoop at h
    split at h
    · rename_i hlt
      obtain ⟨hpos, hne, hsum, hop⟩ := secsOp_spec hlt (by omega)
      dsimp only at h
      generalize (if d + 256 ≤ secCnt then 256 else secCnt - d) = op at *
      obtain ⟨disk1, hw, h⟩ := bind_ok.mp h
      -- the transfer starts on the disk, so its address has not wrapped around
      have hlba : (lba + d).toNat ≤ maxLba := by
        simp only [ideWrite, bind_ok, assert_debug_ok] at hw
        exact hw.choose_spec.1
      have hadd : (lba + d).toNat = lba.toNat + d.toNat :=
        toNat_add_of_lt (by simp only [maxLba] at hle; omega)
      have hdi := ideWrite_ok hw
      rw [hadd, blit_shift, blit_extend _ _ (Nat.mul_add ..) (Nat.zero_add _).symm, ← Nat.mul_add, ← hsum] at hdi
      rw [hdi] at h
      exact ideWriteLoop_ok n _ disk (by omega) hne (by omega) h
    · rename_i hge
      have hdo : d.toNat = secCnt.toNat := by
        rw [UInt32.lt_iff_toNat_lt] at hge
        omega
      cases h
      rw [hdo] at hle ⊢
      exact ⟨rfl, hle⟩

theorem ideWriteAll_ok (h : ideWriteAll .debug disk lba buf secCnt = .ok disk') :
    disk' = blit disk (512 * lba.toNat) buf 0 (512 * secCnt.toNat) ∧ lba.toNat + secCnt.toNat ≤ maxLba + 256 ∧ 0 < secCnt.toNat := by
  simp only [ideWriteAll, bind_ok, assert_debug_ok] at h
  obtain ⟨_, hlba, _, hpos, h⟩ := h
  have hn : blit disk (512 * lba.toNat) buf 0 (512 * (0 : UInt32).toNat) = disk := blit_none ..
  rw [← hn] at h
  obtain ⟨hdi, hle⟩ := ideWriteLoop_ok _ 0 disk (Nat.le_add_left _ _) (Nat.zero_le _) (by have : (0 : UInt32).toNat = 0 := rfl; omega) h
  exact ⟨hdi, hle, UInt32.lt_iff_toNat_lt.mp hpos⟩

theorem ideWriteLoop_total : ∀ (n : Nat) (d : UInt32) (disk : Mem), d.toNat ≤ secCnt.toNat →
    lba.toNat + secCnt.toNat ≤ maxLba + 1 → ∃ disk', ideWriteLoop b lba buf secCnt n d disk = .ok disk'
  | 0, _, disk, _, _ => ⟨disk, rfl⟩
  | n + 1, d, disk, hd, hle => by
    unfold ideWriteLoop
    split
    · rename_i hlt
      obtain ⟨hpos, hn, -⟩ := secsOp_spec hlt (by omega)
      have hadd : (lba + d).toNat = lba.toNat + d.toNat :=
        toNat_add_of_lt (by simp only [maxLba] at hle; omega)
      have hon : (lba + d).toNat ≤ maxLba := by
        rw [UInt32.lt_iff_toNat_lt] at hlt
        omega
      dsimp only
      rw [ideWrite_eq _ _ hon hpos, ok_bind]
      exact ideWriteLoop_total n _ _ hn hle
    · exact ⟨disk, rfl⟩

theorem ideWriteAll_total (b : Build) (disk : Mem) (lba : UInt32) (buf : Mem) (secCnt : UInt32) (hpos : 0 < secCnt.toNat)
    (hle : lba.toNat + secCnt.toNat ≤ maxLba + 1) :
    ∃ disk', ideWriteAll b disk lba buf secCnt = .ok disk' := by
  have hcnt : 0 < secCnt := UInt32.lt_iff_toNat_lt.mpr hpos
  unfold ideWriteAll
  rw [assert_of _ (show lba.toNat ≤ maxLba by omega), ok_bind, assert_of _ hcnt, ok_bind]
  exact ideWriteLoop_total _ 0 disk (Nat.zero_le _) hle

end

/-! ## The layout -/

theorem divRoundUp_toNat (x : UInt32) : (divRoundUp x bitsPerSector).toNat = (x.toNat + 4095) % 2 ^ 32 / 4096 := by
  have hs : bitsPerSector.toNat = 4096 := rfl
  have hone : (1 : UInt32).toNat = 1 := rfl
  unfold divRoundUp
  rw [UInt32.toNat_div, UInt32.toNat_sub, UInt32.toNat_add, hs, hone]
  omega

section
variable {start cnt : UInt32}

theorem freeSects_toNat (h : usedSects ≤ cnt) : (freeSects cnt).toNat = cnt.toNat - 611 := UInt32.toNat_sub_of_le _ _ h

theorem format_counts (hu : usedSects ≤ cnt) (hcnt : cnt.toNat < 2 ^ 31) :
    (blockBitmapBitLen cnt).toNat = cnt.toNat - 611 - (cnt.toNat - 611 + 4095) / 4096 ∧
      (blockBitmapSects cnt).toNat = ((blockBitmapBitLen cnt).toNat + 4095) / 4096 := by
  have hf := freeSects_toNat hu
  have hest : (divRoundUp (freeSects cnt) bitsPerSector).toNat = (cnt.toNat - 611 + 4095) / 4096 := by
    rw [divRoundUp_toNat, hf]
    omega
  have hlen : (blockBitmapBitLen cnt).toNat = cnt.toNat - 611 - (cnt.toNat - 611 + 4095) / 4096 := by
    unfold blockBitmapBitLen
    rw [UInt32.toNat_sub_of_le _ _ (UInt32.le_iff_toNat_le.mpr (by omega)), hest, hf]
  refine ⟨hlen, ?_⟩
  unfold blockBitmapSects
  rw [divRoundUp_toNat]
  omega

theorem format_addresses (hcnt : cnt.toNat < 2 ^ 31) (hsum : start.toNat + cnt.toNat < 2 ^ 32) (hu : usedSects ≤ cnt) :
    (superBlock start cnt).blockBitmapLba.toNat = start.toNat + 2 ∧
      (superBlock start cnt).inodeBitmapLba.toNat = start.toNat + 2 + (blockBitmapSects cnt).toNat ∧
      (superBlock start cnt).inodeTableLba.toNat = start.toNat + 2 + (blockBitmapSects cnt).toNat + 1 ∧
      (superBlock start cnt).dataStartLba.toNat = start.toNat + 2 + (blockBitmapSects cnt).toNat + 1 + 608 := by
  have h611 : 611 ≤ cnt.toNat := UInt32.le_iff_toNat_le.mp hu
  obtain ⟨hlen, hs⟩ := format_counts hu hcnt
  have hb : (start + 2).toNat = start.toNat + 2 := toNat_add_ofNat (n := 2) (by omega)
  have hi : (start + 2 + blockBitmapSects cnt).toNat = start.toNat + 2 + (blockBitmapSects cnt).toNat := by
    rw [toNat_add_of_lt (by omega), hb]
  have ht : (start + 2 + blockBitmapSects cnt + inodeBitmapSects).toNat = start.toNat + 2 + (blockBitmapSects cnt).toNat + 1 :=
    hi ▸ toNat_add_ofNat (n := 1) (by omega)
  have hda : (start + 2 + blockBitmapSects cnt + inodeBitmapSects + inodeTableSects).toNat =
      start.toNat + 2 + (blockBitmapSects cnt).toNat + 1 + 608 :=
    ht ▸ toNat_add_ofNat (n := 608) (by omega)
  exact ⟨hb, hi, ht, hda⟩

theorem free_blocks (hu : usedSects ≤ cnt) (hf : divRoundUp (freeSects cnt) bitsPerSector < freeSects cnt) :
    (cnt.toNat - 611 + 4095) / 4096 < cnt.toNat - 611 := by
  rw [UInt32.lt_iff_toNat_lt, divRoundUp_toNat, freeSects_toNat hu] at hf
  omega

/-- **The regions of a formatted partition** follow each other and lie in the partition, and the
bitmap has a bit for every block. -/
theorem format_layout (hcnt : cnt.toNat < 2 ^ 31) (hsum : start.toNat + cnt.toNat < 2 ^ 32) (hused : usedSects ≤ cnt)
    (hfree : divRoundUp (freeSects cnt) bitsPerSector < freeSects cnt) :
    0 < (blockBitmapBitLen cnt).toNat ∧
      (superBlock start cnt).blockBitmapLba.toNat = start.toNat + 1 + 1 ∧
      (superBlock start cnt).inodeBitmapLba.toNat =
        (superBlock start cnt).blockBitmapLba.toNat + (superBlock start cnt).blockBitmapSects.toNat ∧
      (superBlock start cnt).inodeTableLba.toNat =
        (superBlock start cnt).inodeBitmapLba.toNat + (superBlock start cnt).inodeBitmapSects.toNat ∧
      (superBlock start cnt).dataStartLba.toNat =
        (superBlock start cnt).inodeTableLba.toNat + (superBlock start cnt).inodeTableSects.toNat ∧
      (superBlock start cnt).inodeBitmapSects = 1 ∧ (superBlock start cnt).inodeTableSects = 608 ∧
      (blockBitmapBitLen cnt).toNat ≤ 4096 * (superBlock start cnt).blockBitmapSects.toNat ∧
      (superBlock start cnt).dataStartLba.toNat + (blockBitmapBitLen cnt).toNat ≤ start.toNat + cnt.toNat := by
  have hbl := free_blocks hused hfree
  obtain ⟨hlen, hs⟩ := format_counts hused hcnt
  obtain ⟨hb, hi, ht, hda⟩ := format_addresses hcnt hsum hused
  have hf : (superBlock start cnt).blockBitmapSects.toNat = (blockBitmapSects cnt).toNat := rfl
  have hone : (superBlock start cnt).inodeBitmapSects.toNat = 1 := rfl
  have h608 : (superBlock start cnt).inodeTableSects.toNat = 608 := rfl
  exact ⟨by omega, hb, by omega, by omega, by omega, rfl, rfl, by omega, by omega⟩

theorem format_layout_smallest : (613 : UInt32).toNat < 2 ^ 31 ∧ 0 < (blockBitmapBitLen 613).toNat ∧
    (superBlock 63 613).dataStartLba.toNat + (blockBitmapBitLen 613).toNat ≤ 63 + 613 := by
  obtain ⟨hpos, -, -, -, -, -, -, -, hda⟩ := @format_layout 63 613 (by decide) (by decide) (by decide) (by decide)
  exact ⟨by decide, hpos, hda⟩

/-- **A formatted partition** is one that the file system works on. -/
theorem format_partition (hu : usedSects ≤ cnt) (hf : divRoundUp (freeSects cnt) bitsPerSector < freeSects cnt)
    (hon : start.toNat + cnt.toNat ≤ maxLba + 1) : ∃ part : Partition, part.Formatted ∧ part.startLba = start.toNat ∧
      part.secCnt = cnt.toNat ∧ part.blockBitmapLba = (superBlock start cnt).blockBitmapLba.toNat ∧
      part.blockBitmapSects = (superBlock start cnt).blockBitmapSects.toNat ∧
      part.inodeBitmapLba = (superBlock start cnt).inodeBitmapLba.toNat ∧
      part.inodeTableLba = (superBlock start cnt).inodeTableLba.toNat ∧ part.dataStartLba = (superBlock start cnt).dataStartLba.toNat := by
  have hdi : maxLba = 163839 := rfl
  have hbc := free_blocks hu hf
  obtain ⟨hlen, hs⟩ := format_counts hu (by omega)
  obtain ⟨hbl, hin, ht, hda⟩ := @format_addresses start cnt (by omega) (by omega) hu
  have hfi : (superBlock start cnt).blockBitmapSects.toNat = (blockBitmapSects cnt).toNat := rfl
  let part : Partition :=
    { startLba := start.toNat
      secCnt := cnt.toNat
      blockBitmapLba := (superBlock start cnt).blockBitmapLba.toNat
      blockBitmapSects := (superBlock start cnt).blockBitmapSects.toNat
      inodeBitmapLba := (superBlock start cnt).inodeBitmapLba.toNat
      inodeTableLba := (superBlock start cnt).inodeTableLba.toNat
      dataStartLba := (superBlock start cnt).dataStartLba.toNat
      block_bitmap_below := by omega
      inode_bitmap_below := by omega
      inode_table_below := by omega
      data_in_part := by omega
      data_on_disk := by omega }
  have hb : 0 < (superBlock start cnt).blockBitmapLba.toNat := by omega
  have hi : (superBlock start cnt).blockBitmapLba.toNat + (superBlock start cnt).blockBitmapSects.toNat ≤
      (superBlock start cnt).inodeBitmapLba.toNat := by omega
  have ht : (superBlock start cnt).inodeBitmapLba.toNat + 1 ≤ (superBlock start cnt).inodeTableLba.toNat := by omega
  exact ⟨part, ⟨hb, hi, ht⟩, rfl, rfl, rfl, rfl, rfl, rfl, rfl⟩

theorem format_partition_smallest : ∃ part : Partition, part.Formatted ∧ part.startLba = 63 ∧ part.secCnt = 613 := by
  obtain ⟨part, hf, hs, hc, -⟩ := @format_partition 63 613 (by decide) (by decide) (by decide)
  exact ⟨part, hf, hs, hc⟩

end

/-! ## The block bitmap -/

def diskBit (disk : Mem) (lba i : Nat) : Bool := (disk (512 * lba + i / 8)).toBitVec.getLsbD (i % 8)

def ExactBitmap (disk : Mem) (lba sects bitLen : Nat) : Prop :=
  diskBit disk lba 0 = true ∧ (∀ i, 1 ≤ i → i < bitLen → diskBit disk lba i = false) ∧
    ∀ i, bitLen ≤ i → i < 4096 * sects → diskBit disk lba i = true

theorem clearBits_last : ∀ k < 8, ∀ j < 8, (clearBits (k + 1) 0 0xff).toBitVec.getLsbD j = decide (k < j) := by decide

theorem blockBitmapBuf_ok {bitLen : UInt32} {bufSize : Nat} {buf : Mem} (h : blockBitmapBuf bitLen bufSize = .ok buf) :
    bitLen.toNat / 8 < bufSize ∧ (∀ k < bitLen.toNat / 8, buf k = if k = 0 then 1 else 0) ∧
      buf (bitLen.toNat / 8) = clearBits (bitLen.toNat % 8 + 1) 0 0xff := by
  obtain ⟨_, hin, h⟩ := bind_ok.mp h
  have hin := inBounds_ok.mp hin
  cases h
  refine ⟨by omega, fun k hk => ?_, ?_⟩
  · rw [update_of_ne (by omega), fill_out (by omega)]
    by_cases hz : k = 0
    · rw [hz, update_self, if_pos rfl]
    · rw [update_of_ne hz, if_neg hz]
  · rw [update_self, fill_in (by omega) (by omega)]

section
variable {start cnt : UInt32} {disk disk' pad : Mem}

theorem used_le_of_buf {buf : Mem} (h : blockBitmapBuf (blockBitmapBitLen cnt) (formatBufSize (superBlock start cnt)).toNat = .ok buf) :
    usedSects ≤ cnt := by
  by_contra hlt
  have hlt : cnt.toNat < 611 := by
    rw [UInt32.le_iff_toNat_le] at hlt
    exact Nat.lt_of_not_le hlt
  have hf : (freeSects cnt).toNat = 2 ^ 32 - 611 + cnt.toNat := by
    unfold freeSects
    rw [UInt32.toNat_sub, show usedSects.toNat = 611 from rfl]
    omega
  have hlen : (blockBitmapBitLen cnt).toNat = 2 ^ 32 - 611 + cnt.toNat := by
    unfold blockBitmapBitLen
    rw [UInt32.toNat_sub, divRoundUp_toNat, hf]
    omega
  have hs : blockBitmapSects cnt = 0 := by
    apply UInt32.toNat.inj
    rw [blockBitmapSects, divRoundUp_toNat, hlen]
    exact Nat.div_eq_of_lt (by omega)
  have hsi : formatBufSize (superBlock start cnt) = 608 * 512 := by
    unfold formatBufSize superBlock
    dsimp only
    rw [hs]
    rfl
  have hbuf := (blockBitmapBuf_ok h).1
  have h608 : (608 * 512 : UInt32).toNat = 311296 := rfl
  rw [hsi] at hbuf
  omega

theorem partitionFormat_bitmap (h : partitionFormat .debug disk start cnt pad = .ok disk') : ∃ buf,
    blockBitmapBuf (blockBitmapBitLen cnt) (formatBufSize (superBlock start cnt)).toNat = .ok buf ∧
    (∀ k < 512 * (blockBitmapSects cnt).toNat, disk' (512 * (superBlock start cnt).blockBitmapLba.toNat + k) = buf k) ∧
    (superBlock start cnt).dataStartLba.toNat = (superBlock start cnt).blockBitmapLba.toNat + (blockBitmapSects cnt).toNat + 609 := by
  simp only [partitionFormat, bind_ok] at h
  obtain ⟨disk1, -, buf, hbuf, disk2, hb, disk3, hi, disk4, ht, hr⟩ := h
  have hone : (superBlock start cnt).inodeBitmapSects.toNat = 1 := rfl
  have h608 : (superBlock start cnt).inodeTableSects.toNat = 608 := rfl
  obtain ⟨hb, hle2, -⟩ := ideWriteAll_ok hb
  obtain ⟨hi, hle3, -⟩ := ideWriteAll_ok hi
  obtain ⟨ht, hle4, -⟩ := ideWriteAll_ok ht
  obtain ⟨hr, -, -⟩ := ideWriteAll_ok hr
  have hs : (superBlock start cnt).blockBitmapSects = blockBitmapSects cnt := rfl
  have hI : (superBlock start cnt).inodeBitmapLba = (superBlock start cnt).blockBitmapLba + (superBlock start cnt).blockBitmapSects := rfl
  have hT : (superBlock start cnt).inodeTableLba = (superBlock start cnt).inodeBitmapLba + (superBlock start cnt).inodeBitmapSects := rfl
  have hD : (superBlock start cnt).dataStartLba = (superBlock start cnt).inodeTableLba + (superBlock start cnt).inodeTableSects := rfl
  generalize superBlock start cnt = sb at *
  rw [hs] at hle2 hI hb
  simp only [maxLba] at hle2 hle3 hle4
  -- no address wraps around, as every transfer lies on the disk
  have hI : sb.inodeBitmapLba.toNat = sb.blockBitmapLba.toNat + (blockBitmapSects cnt).toNat := by
    rw [hI, toNat_add_of_lt (by omega)]
  have hT : sb.inodeTableLba.toNat = sb.inodeBitmapLba.toNat + 1 := by
    rw [hT, UInt32.toNat_add, hone]
    exact Nat.mod_eq_of_lt (by omega)
  have hD : sb.dataStartLba.toNat = sb.inodeTableLba.toNat + 608 := by
    rw [hD, UInt32.toNat_add, h608]
    exact Nat.mod_eq_of_lt (by omega)
  refine ⟨buf, hbuf, fun k hk => ?_, by omega⟩
  rw [hr, blit_out (by omega), ht, blit_out (by omega), hi, blit_out (by omega), hb, blit_in (by omega) (by omega)]
  congr 1
  omega

theorem formatBufSize_eq (h : (blockBitmapSects cnt).toNat < 608) : (formatBufSize (superBlock start cnt)).toNat = 512 * 608 := by
  have hlt : ¬ blockBitmapSects cnt ≥ inodeTableSects := by
    rw [ge_iff_le, UInt32.le_iff_toNat_le]
    exact Nat.not_le.mpr h
  have hone : ¬ inodeBitmapSects ≥ inodeTableSects := by decide
  have hmax : ¬ (if blockBitmapSects cnt ≥ inodeBitmapSects then blockBitmapSects cnt else inodeBitmapSects) ≥ inodeTableSects := by
    split
    · exact hlt
    · exact hone
  unfold formatBufSize superBlock
  dsimp only
  rw [if_neg hmax]
  rfl

theorem partitionFormat_total (b : Build) (disk pad : Mem) (hu : usedSects ≤ cnt) (hf : divRoundUp (freeSects cnt) bitsPerSector < freeSects cnt)
    (hon : start.toNat + cnt.toNat ≤ maxLba + 1) : ∃ disk', partitionFormat b disk start cnt pad = .ok disk' := by
  have hdi : maxLba = 163839 := rfl
  have hbl := free_blocks hu hf
  obtain ⟨hlen, hs⟩ := format_counts hu (by omega)
  obtain ⟨hb, hi, ht, hda⟩ := @format_addresses start cnt (by omega) (by omega) hu
  have hfi : (superBlock start cnt).blockBitmapSects.toNat = (blockBitmapSects cnt).toNat := rfl
  have hsu : (start + 1).toNat = start.toNat + 1 := toNat_add_ofNat (n := 1) (by omega)
  have ho : (1 : UInt32).toNat = 1 := rfl
  have hr : (608 : UInt32).toNat = 608 := rfl
  have hone : (superBlock start cnt).inodeBitmapSects = 1 := rfl
  have h608 : (superBlock start cnt).inodeTableSects = 608 := rfl
  unfold partitionFormat
  dsimp only
  rw [hone, h608]
  obtain ⟨disk1, h1⟩ := ideWriteAll_total b disk (start + 1) ((superBlock start cnt).toMem pad) 1 (by omega) (by omega)
  rw [h1, ok_bind]
  obtain ⟨buf, hbuf⟩ : ∃ buf, blockBitmapBuf (blockBitmapBitLen cnt) (formatBufSize (superBlock start cnt)).toNat = .ok buf := by
    unfold blockBitmapBuf
    dsimp only
    rw [formatBufSize_eq (by omega), inBounds_of (by omega)]
    exact ⟨_, rfl⟩
  rw [hbuf, ok_bind]
  obtain ⟨disk2, h2⟩ := ideWriteAll_total b disk1 (superBlock start cnt).blockBitmapLba buf (superBlock start cnt).blockBitmapSects (by omega) (by omega)
  rw [h2, ok_bind]
  obtain ⟨disk3, h3⟩ := ideWriteAll_total b disk2 (superBlock start cnt).inodeBitmapLba (update (fun _ => 0) 0 1) 1 (by omega) (by omega)
  rw [h3, ok_bind]
  obtain ⟨disk4, h4⟩ := ideWriteAll_total b disk3 (superBlock start cnt).inodeTableLba
    (blit (fun _ => 0) 0 (rootInode (superBlock start cnt)).toMem 0 inodeSize) 608 (by omega) (by omega)
  rw [h4, ok_bind]
  exact ideWriteAll_total b disk4 _ (dotEntries 0 0) 1 (by omega) (by omega)

/-- **The block bitmap of a formatted partition** describes its blocks iff it fills its sectors.
-/
theorem format_block_bitmap_iff (hcnt : cnt.toNat < 2 ^ 31) (hpos : 0 < blockBitmapBitLen cnt)
    (h : partitionFormat .debug disk start cnt pad = .ok disk') :
    (ExactBitmap disk' (superBlock start cnt).blockBitmapLba.toNat (superBlock start cnt).blockBitmapSects.toNat (blockBitmapBitLen cnt).toNat ↔
      (blockBitmapBitLen cnt).toNat % 4096 = 0) ∧
    ((blockBitmapBitLen cnt).toNat % 4096 = 0 → ∀ (part : Partition) (vol vol' : Volume part) (lba : Nat),
      part.dataStartLba = (superBlock start cnt).dataStartLba.toNat →
      part.blockBitmapSects = (superBlock start cnt).blockBitmapSects.toNat →
      blockBitmapAlloc .debug vol = .ok (some lba, vol') → part.dataStartLba ≤ lba ∧ lba < start.toNat + cnt.toNat) := by
  obtain ⟨buf, hbuf, hdi, hda⟩ := partitionFormat_bitmap h
  have hu := used_le_of_buf hbuf
  have h611 := UInt32.le_iff_toNat_le.mp hu
  obtain ⟨hlen, hs⟩ := format_counts hu hcnt
  obtain ⟨-, hfr, hl⟩ := blockBitmapBuf_ok hbuf
  have hpos := UInt32.lt_iff_toNat_lt.mp hpos
  have hfi : (superBlock start cnt).blockBitmapSects.toNat = (blockBitmapSects cnt).toNat := rfl
  have hst : (superBlock start cnt).blockBitmapLba.toNat ≤ start.toNat + 2 := by
    show (start + 2).toNat ≤ _
    rw [UInt32.toNat_add]
    exact Nat.mod_le _ _
  rw [hfi]
  generalize (blockBitmapBitLen cnt).toNat = bitLen at *
  generalize (blockBitmapSects cnt).toNat = sects at *
  have hbit : ∀ i < 4096 * sects, diskBit disk' (superBlock start cnt).blockBitmapLba.toNat i = (buf (i / 8)).toBitVec.getLsbD (i % 8) :=
    fun i hi => by rw [diskBit, hdi _ (by omega)]
  -- the bits in front of the last byte
  have hlow : ∀ i, i / 8 < bitLen / 8 → (buf (i / 8)).toBitVec.getLsbD (i % 8) = decide (i = 0) := fun i hi => by
    rw [hfr _ hi]
    by_cases hz : i / 8 = 0
    · have hb : ∀ j < 8, (1 : UInt8).toBitVec.getLsbD j = decide (j = 0) := by decide
      rw [if_pos hz, hb _ (Nat.mod_lt _ (by omega))]
      exact decide_eq_decide.mpr (by omega)
    · rw [if_neg hz]
      simp
      omega
  refine ⟨⟨fun he => ?_, fun hf => ?_⟩, fun hf part vol vol' lba hD hS ha => ?_⟩
  · by_contra hf
    -- the bit behind the last block
    have hin : bitLen < 4096 * sects := by omega
    have hset := he.2.2 bitLen le_rfl hin
    rw [hbit _ hin, hl, clearBits_last _ (Nat.mod_lt _ (by omega)) _ (Nat.mod_lt _ (by omega))] at hset
    simp at hset
  · refine ⟨?_, fun i hi hlt => ?_, fun i hle hlt => absurd hlt (by omega)⟩
    · rw [hbit 0 (by omega), hlow 0 (by omega)]
      rfl
    · rw [hbit i (by omega), hlow i (by omega)]
      exact decide_eq_false (by omega)
  · obtain ⟨-, ⟨hle, hlt⟩, -⟩ := blockBitmapAlloc_spec ha
    rw [hS] at hlt
    exact ⟨hle, by omega⟩

end

theorem format_block_bitmap_full : ∃ disk', partitionFormat .debug (fun _ => 0) 63 4709 (fun _ => 0) = .ok disk' ∧
    blockBitmapBitLen 4709 = 4096 ∧ ExactBitmap disk' 65 1 4096 := by
  obtain ⟨disk', h⟩ := @partitionFormat_total 63 4709 .debug (fun _ => 0) (fun _ => 0) (by decide) (by decide) (by decide)
  exact ⟨disk', h, by decide, (format_block_bitmap_iff (by decide) (by decide) h).1.mpr (by decide)⟩

def takenVol (disk : Mem) : Volume samplePart where
  disk := disk
  blockBitmap := ⟨512, fun k => if k < 500 then 0xff else disk (512 * 2 + k), sector_lt⟩
  inodeBitmap := ⟨512, fun _ => 0, sector_lt⟩
  block_len := rfl

/-- On a partition with 4000 blocks bit 4000 is free, and `block_bitmap_alloc` returns the sector
behind the partition for it. -/
theorem format_frees_sector_behind : ∃ disk' vol', partitionFormat .debug (fun _ => 0) 0 4612 (fun _ => 0) = .ok disk' ∧
    blockBitmapBitLen 4612 = 4000 ∧ diskBit disk' 2 4000 = false ∧ ¬ ExactBitmap disk' 2 1 4000 ∧
    blockBitmapAlloc .debug (takenVol disk') = .ok (some (0 + 4612), vol') := by
  have hrun : (partitionFormat .debug (fun _ => 0) 0 4612 (fun _ => 0)).toOption.any (fun disk' =>
      !diskBit disk' 2 4000 && (blockBitmapAlloc .debug (takenVol disk')).toOption.any (·.1 = some 4612)) = true := by decide +kernel
  obtain ⟨disk', hf, hrun⟩ := exists_of_any hrun
  obtain ⟨hbit, ha⟩ := Bool.and_eq_true_iff.mp hrun
  obtain ⟨⟨lba, vol'⟩, ha, hlba⟩ := exists_of_any ha
  have hbit : diskBit disk' 2 4000 = false := by simpa using hbit
  refine ⟨disk', vol', hf, by decide, hbit, fun he => ?_, ?_⟩
  · have hset := he.2.2 4000 le_rfl (by decide)
    rw [hbit] at hset
    cases hset
  · have hlba : lba = some 4612 := of_decide_eq_true hlba
    rw [ha, hlba]

end OperateSystem
