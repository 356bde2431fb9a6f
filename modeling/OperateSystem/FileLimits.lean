import OperateSystem.BitmapScan
import OperateSystem.FileRunSound

/-!
# The limits of `file_write` and `file_read`

A file has at most 140 blocks of 512 bytes, that is 71680 bytes. Where the
partition has the blocks, a write that stays below that limit returns, and so does
a read that ends before the last block; the assertions of the two functions reject
what lies between. Both functions add the count to a size or a position in 32 bits
before they compare, so a large count can get past the comparison.
-/

namespace OperateSystem

open Function

section
variable {part : Partition} {base : Nat → Prop} {own : UInt32 × Nat → Option Nat} {no : UInt32} {vol : Volume part}
variable {l : Blocks} {i : Inode} {count pos : UInt32}

/-! ## Allocation succeeds -/

structure Reserved (part : Partition) (base : Nat → Prop) : Prop where
  root : base part.dataStartLba
  tail : ∀ lba, part.InData lba → maxLba < lba → base lba

theorem Books.slot_le (h : Books base own no vol l) (hr : Reserved part base) {j : Nat} (hj : j ≤ 140) :
    (l j).toNat ≤ maxLba := by
  by_cases hz : l j = 0
  · rw [hz]
    exact Nat.zero_le _
  · by_contra hlt
    have hown : withFile own no l (no, j) = some (l j).toNat := by rw [withFile_self, slotOwner_some hj hz]
    exact h.fresh hown (hr.tail _ (h.slot_inData hj hz) (by omega))

theorem Books.alloc_le {b : Build} {vol' : Volume part} {lba : Nat} (h : Books base own no vol l)
    (hr : Reserved part base) (ha : blockBitmapAlloc b vol = .ok (some lba, vol')) :
    lba ≤ maxLba ∧ lba ≠ part.dataStartLba := by
  obtain ⟨hf, hin, -, -⟩ := blockBitmapAlloc_spec ha
  have hba : ¬ base lba := fun hb => hf ((h.used_iff lba).mpr (.inl hb))
  refine ⟨?_, fun he => hba (he ▸ hr.root)⟩
  by_contra hlt
  exact hba (hr.tail lba hin (by omega))

theorem blockBitmapAlloc_total (b : Build) (h : vol.blockBitmap.freeBits ≠ []) :
    ∃ lba vol', blockBitmapAlloc b vol = .ok (some lba, vol') := by
  obtain ⟨s, hs⟩ := bitmapScan_free b h
  unfold blockBitmapAlloc
  rw [hs, ok_bind]
  exact ⟨_, _, rfl⟩

theorem blockBitmapAlloc_sync (h : 0 < vol.blockBitmap.freeBits.length) :
    ∃ lba vol1 vol2, blockBitmapAlloc .debug vol = .ok (some lba, vol1) ∧
      bitmapSync .debug vol1 (lba - part.dataStartLba) .blockBitmap = .ok vol2 ∧
      vol2.blockBitmap = vol1.blockBitmap ∧ vol1.blockBitmap.freeBits.length + 1 = vol.blockBitmap.freeBits.length := by
  obtain ⟨lba, vol1, ha⟩ := blockBitmapAlloc_total .debug (List.ne_nil_of_length_pos h)
  obtain ⟨-, hin, -, -⟩ := blockBitmapAlloc_spec ha
  have h1 := hin.1
  have h2 := hin.2
  obtain ⟨vol2, hs⟩ := bitmapSync_total vol1 (show lba - part.dataStartLba < 4096 * part.blockBitmapSects by omega)
  refine ⟨lba, vol1, vol2, ha, hs, (bitmapSync_ok hs).2.1, ?_⟩
  rw [(blockBitmapAlloc_ok ha).1, List.length_cons]

/-! ## `file_write` returns -/

theorem firstBlock_total (st : Writing part) (hb : Books base own no st.vol l)
    (hr : Reserved part base)
    (hf : (if st.inode.sec 0 = 0 then 1 else 0) ≤ st.vol.blockBitmap.freeBits.length) :
    ∃ st', firstBlock .debug st = .ok (st', true) ∧
      st.vol.blockBitmap.freeBits.length ≤ st'.vol.blockBitmap.freeBits.length + if st.inode.sec 0 = 0 then 1 else 0 := by
  unfold firstBlock
  by_cases h0 : st.inode.sec 0 = 0
  · rw [if_pos h0] at hf
    obtain ⟨lba, vol1, vol2, ha, hs, hbm, hlen⟩ := blockBitmapAlloc_sync hf
    obtain ⟨-, hne⟩ := hb.alloc_le hr ha
    have hin := (blockBitmapAlloc_spec ha).2.1.1
    simp only [if_pos h0]
    rw [ha, ok_bind]
    dsimp only
    rw [assert_of _ (by omega), ok_bind, hs, ok_bind]
    refine ⟨_, rfl, ?_⟩
    rw [hbm]
    omega
  · simp only [if_neg h0]
    exact ⟨st, rfl, le_rfl⟩

theorem growBlocks_total : ∀ (n k : Nat) (st : Writing part), n ≤ st.vol.blockBitmap.freeBits.length → k + n ≤ 140 →
    (∀ j, k ≤ j → j < 12 → st.inode.sec j = 0) → ∃ st', growBlocks .debug n k st = .ok (st', true)
  | 0, k, st, _, _, _ => ⟨st, rfl⟩
  | n + 1, k, st, hf, hk, hz => by
    obtain ⟨lba, vol1, vol2, ha, hs, hbm, hlen⟩ := blockBitmapAlloc_sync (show 0 < st.vol.blockBitmap.freeBits.length by omega)
    -- the inode changes below index 12 only, and there the slot was empty
    have hset : ∃ i, setDirect .debug st.inode k (.ofNat lba) = .ok i ∧ ∀ j, k + 1 ≤ j → j < 12 → i.sec j = 0 := by
      unfold setDirect
      by_cases h12 : k < 12
      · rw [if_pos h12, assert_of _ (hz k le_rfl h12)]
        refine ⟨_, rfl, fun j h1 h2 => ?_⟩
        rw [sec_setSec _ _ _ _ (by omega), if_neg (by omega)]
        exact hz j (by omega) h2
      · rw [if_neg h12]
        exact ⟨_, rfl, fun j h1 h2 => hz j (by omega) h2⟩
    obtain ⟨i, hi, hr⟩ := hset
    unfold growBlocks
    rw [ha, ok_bind]
    dsimp only
    rw [hi, ok_bind, inBounds_of (by omega), ok_bind, hs, ok_bind]
    apply growBlocks_total n (k + 1)
    · rw [hbm]
      omega
    · omega
    · exact hr

theorem growBlocks_table {b : Build} : ∀ (n k : Nat) (st st' : Writing part) (r : Bool), growBlocks b n k st = .ok (st', r) →
    st'.inode.sec 12 = st.inode.sec 12
  | 0, k, st, st', r, h => by cases h; rfl
  | n + 1, k, st, st', r, h => by
    obtain ⟨⟨a, vol1⟩, -, h⟩ := bind_ok.mp h
    obtain _ | lba := a
    · cases h; rfl
    obtain ⟨i, hi, h⟩ := bind_ok.mp h
    obtain ⟨-, -, h⟩ := bind_ok.mp h
    obtain ⟨vol2, -, h⟩ := bind_ok.mp h
    rw [growBlocks_table n _ _ st' r h]
    unfold setDirect at hi
    split at hi
    · obtain ⟨-, -, hi⟩ := bind_ok.mp hi
      cases hi
      rw [sec_setSec _ _ _ _ (by omega), if_neg (by omega)]
    · cases hi
      rfl

theorem loadTable_total (disk : Mem) {lba : UInt32} (all : Blocks) (h : lba.toNat ≤ maxLba) :
    ∃ all', loadTable .debug disk lba all = .ok all' := by
  unfold loadTable
  rw [ideRead_eq _ _ h (by decide)]
  exact ⟨_, rfl⟩

theorem storeTable_total (disk : Mem) {lba : UInt32} (all : Blocks) (h : lba.toNat ≤ maxLba) :
    ∃ disk', storeTable .debug disk lba all = .ok disk' := by
  unfold storeTable
  rw [ideWrite_eq _ _ h (by decide)]
  exact ⟨_, rfl⟩

def growth (has will : Nat) : Nat := will - has + if has ≤ 12 ∧ 12 < will then 1 else 0

theorem collectBlocks_total {st : Writing part} {has : Nat} (will : Nat) (hl : Laid (slotAddr st.vol.disk st.inode) has)
    (hb : Books base own no st.vol (slotAddr st.vol.disk st.inode)) (hr : Reserved part base) (hpos : 1 ≤ has)
    (hle : has ≤ will) (hw : will ≤ 140) (hf : growth has will ≤ st.vol.blockBitmap.freeBits.length) :
    ∃ st', collectBlocks .debug st has will = .ok (st', true) := by
  have ht : st.inode.sec 12 ≠ 0 ↔ 12 < has := by rw [← hl.table, slotAddr, memLayout_table]
  have htable_le : (st.inode.sec 12).toNat ≤ maxLba := by
    have := hb.slot_le hr le_rfl
    rwa [slotAddr, memLayout_table] at this
  have hz : ∀ j, has ≤ j → j < 12 → st.inode.sec j = 0 := fun j h1 h2 => by
    by_contra hne
    rw [← memLayout_low st.inode (tableOf st.vol.disk st.inode) h2] at hne
    have := (hl.data j (by omega)).mp hne
    omega
  unfold growth at hf
  unfold collectBlocks
  by_cases heq : will = has
  · rw [if_pos heq]
    by_cases hlow : will ≤ 12
    · rw [if_pos hlow]
      unfold keepBlock
      rw [inBounds_of (by omega)]
      exact ⟨_, rfl⟩
    · obtain ⟨all, hlo⟩ := loadTable_total st.vol.disk st.all htable_le
      rw [if_neg hlow, assert_of _ (ht.mpr (by omega)), ok_bind, hlo]
      exact ⟨_, rfl⟩
  rw [if_neg heq]
  by_cases hlow : will ≤ 12
  · have hla : st.inode.sec (has - 1) ≠ 0 := by
      rw [← memLayout_low st.inode (tableOf st.vol.disk st.inode) (by omega)]
      exact (hl.data _ (by omega)).mpr (by omega)
    rw [if_pos hlow, inBounds_of (by omega), ok_bind, assert_of _ hla, ok_bind]
    unfold keepBlock
    rw [inBounds_of (by omega)]
    exact growBlocks_total _ _ _ (by dsimp only; omega) (by omega) hz
  rw [if_neg hlow]
  by_cases hc : has ≤ 12
  · -- the table's block comes first
    rw [if_pos (by omega)] at hf
    obtain ⟨lba, vol1, -, ha, -, -, hlen⟩ := blockBitmapAlloc_sync (show 0 < st.vol.blockBitmap.freeBits.length by omega)
    have hlba : (UInt32.ofNat lba).toNat ≤ maxLba := by
      rw [(blockBitmapAlloc_spec ha).2.1.toNat_ofNat]
      exact (hb.alloc_le hr ha).1
    obtain ⟨st2, hg⟩ := growBlocks_total (will - has) has ⟨vol1, st.inode.setSec 12 (.ofNat lba), st.fdPos,
      st.all.set (has - 1) (st.inode.sec (has - 1))⟩ (by dsimp only; omega) (by omega) fun j h1 h2 => by
        rw [sec_setSec _ _ _ _ (by omega), if_neg (by omega)]
        exact hz j h1 h2
    have h12 := growBlocks_table _ _ _ _ _ hg
    rw [sec_setSec _ _ _ _ (by omega), if_pos rfl] at h12
    obtain ⟨disk, hs⟩ := storeTable_total st2.vol.disk st2.all (h12 ▸ hlba)
    rw [if_pos hc]
    unfold keepBlock
    rw [inBounds_of (by omega), ok_bind, pure_ok, ok_bind]
    rw [ha, ok_bind]
    dsimp only
    rw [assert_of _ (by by_contra hne; have := ht.mp hne; omega), ok_bind, hg, ok_bind]
    rw [if_pos rfl, hs]
    exact ⟨_, rfl⟩
  · obtain ⟨all, hlo⟩ := loadTable_total st.vol.disk st.all htable_le
    obtain ⟨st2, hg⟩ := growBlocks_total (will - has) has { st with all } (by dsimp only; omega) (by omega) hz
    have h12 := growBlocks_table _ _ _ _ _ hg
    obtain ⟨disk, hs⟩ := storeTable_total st2.vol.disk st2.all (h12 ▸ htable_le)
    rw [if_neg hc, assert_of _ (ht.mpr (by omega)), ok_bind, hlo, ok_bind, hg, ok_bind]
    dsimp only
    rw [if_pos rfl, hs]
    exact ⟨_, rfl⟩

theorem writeData_total (buf : Mem) {count : Nat} : ∀ (fuel w : Nat) (first : Bool) (st : Writing part),
    st.inode.iSize.toNat + (count - w) < 71680 → (∀ j, st.inode.iSize.toNat / 512 ≤ j →
      j ≤ (st.inode.iSize.toNat + (count - w)) / 512 → (st.all j).toNat ≤ maxLba) →
    ∃ st', writeData .debug buf count fuel w first st = .ok st'
  | 0, w, first, st, _, _ => ⟨st, rfl⟩
  | fuel + 1, w, first, st, hs, hall => by
    unfold writeData
    by_cases hlt : w < count
    · have hsec := hall _ le_rfl (by omega)
      rw [if_pos hlt]
      dsimp only
      rw [inBounds_of (by omega), ok_bind]
      generalize hc : min (count - w) (512 - st.inode.iSize.toNat % 512) = c
      have hbuf : ∃ io, roundBuf .debug st.vol.disk (st.all (st.inode.iSize.toNat / 512)).toNat first = .ok io := by
        unfold roundBuf
        cases first with
        | false => exact ⟨_, rfl⟩
        | true =>
          rw [if_pos rfl, ideRead_eq _ _ hsec (by decide)]
          exact ⟨_, rfl⟩
      obtain ⟨io, hio⟩ := hbuf
      have hn : (st.inode.iSize + .ofNat c).toNat = st.inode.iSize.toNat + c := toNat_add_ofNat (by omega)
      rw [hio, ok_bind, ideWrite_eq _ _ hsec (by decide), ok_bind]
      apply writeData_total buf fuel
      · rw [hn]
        omega
      · rw [hn]
        exact fun j h1 h2 => hall j (by omega) (by omega)
    · rw [if_neg hlt]
      exact ⟨st, rfl⟩

def newBlocks (i : Inode) (count : Nat) : Nat :=
  (if i.sec 0 = 0 then 1 else 0) + growth (i.iSize.toNat / 512 + 1) ((i.iSize.toNat + count) / 512 + 1)

theorem writeBlocks_total {F : Mem} (pos count : UInt32) (buf : Mem) (hinv : FileInv vol.disk i F)
    (hb : Books base own no vol (slotAddr vol.disk i)) (hr : Reserved part base)
    (hs : i.iSize.toNat + count.toNat < 71680)
    (hf : newBlocks i count.toNat ≤ vol.blockBitmap.freeBits.length) :
    ∃ st, writeBlocks .debug vol i pos buf count ⟨true, true⟩ = .ok (st, true) := by
  have hsum : (i.iSize + count).toNat = i.iSize.toNat + count.toNat := toNat_add_of_lt (by omega)
  unfold newBlocks at hf
  obtain ⟨st1, h1, hlen⟩ := firstBlock_total ⟨vol, i, pos, fun _ => 0⟩ hb hr (by dsimp only; omega)
  obtain ⟨hid1, hall1⟩ := firstBlock_sameId h1
  obtain ⟨hl1, hb1, -, -⟩ := firstBlock_spec h1 hinv.laid (fun h0 => by have := hinv.empty h0; omega) hb
  obtain ⟨st2, h2⟩ := collectBlocks_total ((i.iSize.toNat + count.toNat) / 512 + 1) hl1 hb1 hr (by omega)
    (by omega) (by omega) (by dsimp only at hlen; omega)
  have hc := collectBlocks_spec hl1 hb1 hall1 (by omega) (by omega) (by omega) h2
  have hs2 : st2.inode.iSize = i.iSize := (collectBlocks_sameId h2).2.trans hid1.2
  obtain ⟨st3, h3⟩ := writeData_total buf count.toNat 0 true { st2 with fdPos := st2.inode.iSize - 1 }
    (show st2.inode.iSize.toNat + (count.toNat - 0) < 71680 by rw [hs2]; omega) fun j hj hj' => by
      rw [hs2] at hj hj'
      rw [hc.all j (by omega) (by omega)]
      exact hc.books.slot_le hr (by omega)
  unfold writeBlocks
  rw [if_neg (by omega), if_neg (by simp), h1, ok_bind]
  dsimp only
  rw [if_neg (by simp), hsum, assert_of _ (by omega), ok_bind, h2, ok_bind]
  rw [if_neg (by simp), h3, ok_bind]
  exact ⟨_, rfl⟩

/-! ## `file_read` returns -/

theorem collectRead_total (disk : Mem) (s : Nat) {e : Nat} (ht : 12 ≤ e → i.sec 12 ≠ 0)
    (hle : (i.sec 12).toNat ≤ maxLba) : ∃ all, collectRead .debug disk i s e = .ok all := by
  unfold collectRead
  by_cases heq : s = e
  · rw [if_pos heq, assert_of _ heq.symm, ok_bind]
    by_cases h12 : e < 12
    · rw [if_pos h12]
      exact ⟨_, rfl⟩
    · rw [if_neg h12]
      exact loadTable_total _ _ hle
  rw [if_neg heq]
  by_cases h12 : e < 12
  · rw [if_pos h12]
    exact ⟨_, rfl⟩
  rw [if_neg h12]
  have hne := ht (by omega)
  split
  · rw [assert_of _ hne, ok_bind]
    exact loadTable_total _ _ hle
  · rw [assert_of _ hne, ok_bind]
    exact loadTable_total _ _ hle

theorem readData_total (disk : Mem) (all : Blocks) (size : Nat) : ∀ (fuel w : Nat) (pos : UInt32) (buf : Mem),
    pos.toNat + (size - w) ≤ 71680 → (∀ j, pos.toNat / 512 ≤ j → 512 * j < pos.toNat + (size - w) → (all j).toNat ≤ maxLba) →
    ∃ r, readData .debug disk all size fuel w pos buf = .ok r
  | 0, w, pos, buf, _, _ => ⟨_, rfl⟩
  | fuel + 1, w, pos, buf, hs, hall => by
    unfold readData
    by_cases hlt : w < size
    · rw [if_pos hlt]
      dsimp only
      rw [inBounds_of (by omega), ok_bind, ideRead_eq _ _ (hall _ le_rfl (by omega)) (by decide), ok_bind]
      generalize hc : min (size - w) (512 - pos.toNat % 512) = c
      have hn : (pos + .ofNat c).toNat = pos.toNat + c := toNat_add_ofNat (by omega)
      apply readData_total disk all size fuel
      · omega
      · exact fun j h1 h2 => hall j (by omega) (by omega)
    · rw [if_neg hlt]
      exact ⟨_, rfl⟩

theorem fileRead_late {disk : Mem} (buf : Mem) (hs : i.iSize.toNat ≤ 71680)
    (hin : pos.toNat + count.toNat ≤ i.iSize.toNat) (hl : 71168 ≤ pos.toNat + count.toNat) :
    fileRead .debug disk i pos buf count ⟨true, true⟩ =
      .error (.assertion "block_read_start_idx < 139 && block_read_end_idx < 139") := by
  have hsum : (pos + count).toNat = pos.toNat + count.toNat := toNat_add_of_lt (by omega)
  have hle : ¬ pos + count > i.iSize := by
    rw [gt_iff_lt, UInt32.lt_iff_toNat_lt, hsum]
    omega
  unfold fileRead
  dsimp only
  rw [if_neg hle, if_neg (fun h => hle h.1), if_neg (by simp), hsum]
  unfold assert
  rw [if_neg (by omega)]
  rfl

theorem fileRead_total {disk F : Mem} (buf : Mem) (hinv : FileInv disk i F)
    (hon : ∀ j ≤ 140, (slotAddr disk i j).toNat ≤ maxLba)
    (hin : pos.toNat + count.toNat ≤ i.iSize.toNat) (hend : pos.toNat + count.toNat < 71168) :
    ∃ r, fileRead .debug disk i pos buf count ⟨true, true⟩ = .ok r ∧ r.ret = some count.toNat ∧
      ∀ k < count.toNat, r.buf k = F (pos.toNat + k) := by
  have hsum : (pos + count).toNat = pos.toNat + count.toNat := toNat_add_of_lt (by omega)
  have hle : ¬ pos + count > i.iSize := by
    rw [gt_iff_lt, UInt32.lt_iff_toNat_lt, hsum]
    omega
  have ht : 12 ≤ (pos.toNat + count.toNat) / 512 → i.sec 12 ≠ 0 := fun h12 => by
    have hl := hinv.laid
    rw [if_neg (fun h0 => by have := hinv.empty h0; omega)] at hl
    have := hl.table.mpr (by omega)
    rwa [slotAddr, memLayout_table] at this
  obtain ⟨all, hcol⟩ := collectRead_total disk (pos.toNat / 512) ht hinv.table_le
  -- where something is read, the addresses are the file's
  have hall : ∀ j, pos.toNat / 512 ≤ j → 512 * j < pos.toNat + count.toNat → all j = slotAddr disk i j := fun j h1 h2 => by
    have hl := hinv.laid
    rw [if_neg (fun h0 => by have := hinv.empty h0; omega)] at hl
    exact collectRead_spec hl (by omega) (by omega) hcol j h1 (by omega)
  obtain ⟨⟨buf', pos'⟩, hr⟩ := readData_total disk all count.toNat count.toNat 0 pos buf (by omega) fun j h1 h2 => by
    rw [hall j h1 (by omega)]
    exact hon j (by omega)
  obtain ⟨-, hb, -⟩ := readData_spec (p := pos.toNat) (by omega) hall (fun k hk => hinv.holds k (by omega)) _ _ _ _ _ _ hr (by omega)
    (by omega) rfl
  refine ⟨⟨some count.toNat, buf', pos'⟩, ?_, rfl, fun k hk => hb k (Nat.zero_le k) hk⟩
  unfold fileRead
  dsimp only
  rw [if_neg hle, if_neg (fun h => hle h.1), if_neg (by simp), hsum, assert_of _ (by omega), ok_bind, hcol, ok_bind, hr]
  rfl

theorem fileWrite_limit (buf : Mem) (hb : Books base own no vol l) (hr : Reserved part base)
    (hs : i.iSize.toNat + count.toNat = 71680)
    (hf : newBlocks i count.toNat ≤ vol.blockBitmap.freeBits.length) :
    fileWrite .debug vol i pos buf count ⟨true, true⟩ = .error (.assertion "file_will_use_blocks <= 140") := by
  have hsum : (i.iSize + count).toNat = 71680 := by rw [UInt32.toNat_add]; omega
  unfold newBlocks at hf
  obtain ⟨st, hst, -⟩ := firstBlock_total ⟨vol, i, pos, fun _ => 0⟩ hb hr (by dsimp only; omega)
  unfold fileWrite fileWriteVia writeBlocks
  rw [if_neg (by omega), if_neg (by simp), hst, ok_bind]
  dsimp only
  rw [if_neg (by simp), hsum]
  rfl

/-- **Admissible sizes.** A write up to the limit of 71680 bytes returns iff it stays below the
limit and the inode lies in one sector, and a read inside the file delivers the bytes iff it ends
before the last block. -/
theorem admissible_sizes_iff {i : Inode} {F : Mem} (pos count : UInt32) (buf : Mem) (hinv : FileInv vol.disk i F)
    (hbooks : Books base own no vol (slotAddr vol.disk i)) (hr : Reserved part base)
    (hsize : i.iSize.toNat + count.toNat ≤ 71680) (hfree : newBlocks i count.toNat ≤ vol.blockBitmap.freeBits.length) :
    ((∃ st, fileWrite .debug vol i pos buf count ⟨true, true⟩ = .ok (st, some count.toNat)) ↔
      i.iSize.toNat + count.toNat < 71680 ∧ ¬ Straddles (i.iNo.toNat % 256)) ∧
    ∀ st, fileWrite .debug vol i pos buf count ⟨true, true⟩ = .ok (st, some count.toNat) →
      ∀ (start n : UInt32) (out : Mem), start.toNat + n.toNat ≤ st.inode.iSize.toNat →
        ((∃ r, fileRead .debug st.vol.disk st.inode start out n ⟨true, true⟩ = .ok r ∧ r.ret = some n.toNat ∧
          ∀ k < n.toNat, r.buf k = blit F i.iSize.toNat buf 0 count.toNat (start.toNat + k)) ↔
        start.toNat + n.toNat < 71168) := by
  refine ⟨?_, fun st h start n out hin => ?_⟩
  · by_cases hlt : i.iSize.toNat + count.toNat < 71680
    · obtain ⟨st, hst⟩ := writeBlocks_total pos count buf hinv hbooks hr hlt hfree
      rw [fileWrite_synced hst]
      by_cases hs : Straddles (i.iNo.toNat % 256)
      · simp [hs]
      · simp [hs, hlt]
    · rw [fileWrite_limit buf hbooks hr (by omega) hfree]
      simp [hlt]
  · obtain ⟨-, happ⟩ := fileWrite_spec hinv hbooks h
    refine ⟨fun ⟨r, hr', _⟩ => ?_, fun hlt => ?_⟩
    · by_contra hge
      rw [fileRead_late out happ.inv.size_le hin (by omega)] at hr'
      cases hr'
    · exact fileRead_total out happ.inv (fun j hj => happ.books.slot_le hr hj) hin hlt

end

theorem sampleFs_books {i : Inode} (h : i.Empty) :
    Books sampleFs.vol.Used (fun _ => none) 7 sampleFs.vol (slotAddr sampleFs.vol.disk i) := by
  have hown : withFile (fun _ => none) 7 (slotAddr sampleFs.vol.disk i) = fun _ => none := by
    funext k
    unfold withFile
    rw [slotOwner_of_empty h, ite_self]
  unfold Books
  rw [hown]
  exact Accounted.start _ _

theorem sampleFs_reserved : Reserved samplePart sampleFs.vol.Used := by
  refine ⟨⟨le_rfl, by decide⟩, fun lba hin hlt => ?_⟩
  have hend := hin.2
  have : samplePart.dataStartLba + 4096 * samplePart.blockBitmapSects ≤ maxLba := by decide
  omega

def sampleFile : Inode := ⟨7, 0, 1, 0, fun _ => 0, 0, 0⟩

theorem sampleFile_empty : sampleFile.Empty := ⟨rfl, fun _ => rfl⟩

theorem sampleFs_free (count : Nat) (h : count ≤ 71680) : newBlocks sampleFile count ≤ sampleFs.vol.blockBitmap.freeBits.length := by
  have hlen : 142 ≤ sampleFs.vol.blockBitmap.freeBits.length := by decide +kernel
  have hz : sampleFile.iSize.toNat = 0 := rfl
  unfold newBlocks growth
  split <;> split <;> omega

theorem admissible_sizes_first : (∃ st, fileWrite .debug sampleFs.vol sampleFile 0 sampleBuf 71168 ⟨true, true⟩ =
    .ok (st, some 71168)) ∧ ∀ st, fileWrite .debug sampleFs.vol sampleFile 0 sampleBuf 71168 ⟨true, true⟩ = .ok (st, some 71168) →
      ∃ r, fileRead .debug st.vol.disk st.inode 71000 (fun _ => 0) 100 ⟨true, true⟩ = .ok r ∧ r.ret = some 100 := by
  have hinv : FileInv sampleFs.vol.disk sampleFile fun _ => 0 := .of_empty sampleFile_empty
  have hb := sampleFs_books sampleFile_empty
  obtain ⟨hw, hre⟩ := admissible_sizes_iff 0 71168 sampleBuf hinv hb sampleFs_reserved
    (by decide) (sampleFs_free _ (by decide))
  refine ⟨hw.mpr (by decide), fun st h => ?_⟩
  obtain ⟨-, happ⟩ := fileWrite_spec hinv hb h
  have hs := happ.size
  obtain ⟨r, hr, hret, -⟩ := (hre st h 71000 100 (fun _ => 0) (by rw [hs]; decide)).mpr (by decide)
  exact ⟨r, hr, hret⟩

/-- An empty file cannot take the announced 71680 bytes, and the last block of a file of 71679
bytes cannot be read. -/
theorem admissible_sizes_fail :
    fileWrite .debug sampleFs.vol sampleFile 0 sampleBuf 71680 ⟨true, true⟩ =
      .error (.assertion "file_will_use_blocks <= 140") ∧
    ∃ st, fileWrite .debug sampleFs.vol sampleFile 0 sampleBuf 71679 ⟨true, true⟩ = .ok (st, some 71679) ∧
      fileRead .debug st.vol.disk st.inode 71168 (fun _ => 0) 1 ⟨true, true⟩ =
        .error (.assertion "block_read_start_idx < 139 && block_read_end_idx < 139") := by
  have hinv : FileInv sampleFs.vol.disk sampleFile fun _ => 0 := .of_empty sampleFile_empty
  have hb := sampleFs_books sampleFile_empty
  refine ⟨fileWrite_limit _ hb sampleFs_reserved (by decide) (sampleFs_free _ (by decide)), ?_⟩
  obtain ⟨st1, hw⟩ := writeBlocks_total 0 71679 sampleBuf hinv hb sampleFs_reserved (by decide)
    (sampleFs_free _ (by decide))
  obtain ⟨st, h⟩ : ∃ st, fileWrite .debug sampleFs.vol sampleFile 0 sampleBuf 71679 ⟨true, true⟩ =
      .ok (st, some 71679) := by
    rw [fileWrite_synced hw, if_neg (by decide)]
    exact ⟨_, rfl⟩
  obtain ⟨-, happ⟩ := fileWrite_spec hinv hb h
  have hs := happ.size
  exact ⟨st, h, fileRead_late _ happ.inv.size_le (by rw [hs]; decide) (by decide)⟩

/-! ## Counts that wrap around -/

section
variable {part : Partition} {vol : Volume part} {i : Inode}
variable {r : Bool} {st st' : Writing part}

theorem blockBitmapAlloc_debug {r : Option Nat} {vol' : Volume part} (h : blockBitmapAlloc .debug vol = .ok (r, vol')) : r ≠ none := by
  rintro rfl
  obtain ⟨s, hs, h⟩ := bind_ok.mp h
  cases s with
  | none => exact bitmapScan_one _ hs
  | some i => cases h

theorem firstBlock_debug (h : firstBlock .debug st = .ok (st', r)) : r = true := by
  unfold firstBlock at h
  split at h
  · obtain ⟨⟨a, vol1⟩, ha, h⟩ := bind_ok.mp h
    cases a with
    | none => exact absurd rfl (blockBitmapAlloc_debug ha)
    | some lba =>
      obtain ⟨-, -, h⟩ := bind_ok.mp h
      obtain ⟨vol2, -, h⟩ := bind_ok.mp h
      cases h
      rfl
  · cases h
    rfl

theorem growBlocks_debug : ∀ (n k : Nat) (st st' : Writing part) (r : Bool), growBlocks .debug n k st = .ok (st', r) → r = true
  | 0, k, st, st', r, h => by cases h; rfl
  | n + 1, k, st, st', r, h => by
    obtain ⟨⟨a, vol1⟩, ha, h⟩ := bind_ok.mp h
    cases a with
    | none => exact absurd rfl (blockBitmapAlloc_debug ha)
    | some lba =>
      obtain ⟨inode, -, h⟩ := bind_ok.mp h
      obtain ⟨-, -, h⟩ := bind_ok.mp h
      obtain ⟨vol2, -, h⟩ := bind_ok.mp h
      exact growBlocks_debug n _ _ st' r h

theorem storeGrown_debug {n k : Nat} (h : (do
      let (st, ok) ← growBlocks .debug n k st
      if ok then
        let disk ← storeTable .debug st.vol.disk (st.inode.sec 12) st.all
        return (st.setDisk disk, true)
      else
        return (st, false)) = .ok (st', r)) : r = true := by
  obtain ⟨⟨st2, ok⟩, hg, h⟩ := bind_ok.mp h
  obtain rfl := growBlocks_debug _ _ _ _ _ hg
  obtain ⟨disk, -, h⟩ := bind_ok.mp h
  cases h
  rfl

theorem collectBlocks_debug {has will : Nat} (h : collectBlocks .debug st has will = .ok (st', r)) :
    r = true := by
  unfold collectBlocks at h
  split at h
  · split at h
    · obtain ⟨st1, -, h⟩ := bind_ok.mp h
      cases h
      rfl
    · obtain ⟨-, -, h⟩ := bind_ok.mp h
      obtain ⟨all, -, h⟩ := bind_ok.mp h
      cases h
      rfl
  split at h
  · obtain ⟨-, -, h⟩ := bind_ok.mp h
    obtain ⟨-, -, h⟩ := bind_ok.mp h
    obtain ⟨st1, -, h⟩ := bind_ok.mp h
    exact growBlocks_debug _ _ _ _ _ h
  split at h
  · obtain ⟨st1, -, h⟩ := bind_ok.mp h
    obtain ⟨⟨a, vol1⟩, ha, h⟩ := bind_ok.mp h
    cases a with
    | none => exact absurd rfl (blockBitmapAlloc_debug ha)
    | some lba =>
      obtain ⟨-, -, h⟩ := bind_ok.mp h
      exact storeGrown_debug h
  · obtain ⟨-, -, h⟩ := bind_ok.mp h
    obtain ⟨all, -, h⟩ := bind_ok.mp h
    exact storeGrown_debug h

theorem fileWrite_rejects {pos count : UInt32} {buf : Mem} {mem : Buffers}
    (h : fileWrite .debug vol i pos buf count mem = .ok (st, none)) :
    71680 < (i.iSize + count).toNat ∨ mem.ioBuf = false ∨ mem.allBlocks = false := by
  obtain ⟨-, h⟩ | ⟨st₁, hn, -⟩ := fileWrite_ok h
  case inr => cases hn
  unfold writeBlocks at h
  split at h
  · exact .inl ‹_›
  split at h
  · exact .inr ‹_›
  obtain ⟨⟨st1, ok1⟩, h1, h⟩ := bind_ok.mp h
  obtain rfl := firstBlock_debug h1
  obtain ⟨-, -, h⟩ := bind_ok.mp h
  obtain ⟨⟨st2, ok2⟩, h2, h⟩ := bind_ok.mp h
  obtain rfl := collectBlocks_debug h2
  obtain ⟨st3, -, h⟩ := bind_ok.mp h
  cases h

def WriteRejected (vol : Volume part) (i : Inode) (pos : UInt32) (buf : Mem) (count : UInt32) (mem : Buffers) : Prop :=
  ∃ st, fileWrite .debug vol i pos buf count mem = .ok (st, none) ∧ st.vol = vol ∧ st.inode = i ∧ st.fdPos = pos

theorem writeRejected_iff {pos count : UInt32} {buf : Mem} {mem : Buffers} : WriteRejected vol i pos buf count mem ↔
    71680 < (i.iSize + count).toNat ∨ mem.ioBuf = false ∨ mem.allBlocks = false := by
  refine ⟨fun ⟨st, h, _⟩ => fileWrite_rejects h, fun h => ⟨⟨vol, i, pos, fun _ => 0⟩, ?_, rfl, rfl, rfl⟩⟩
  unfold fileWrite fileWriteVia writeBlocks
  by_cases hbig : 71680 < (i.iSize + count).toNat
  · rw [if_pos hbig]
    rfl
  · rw [if_neg hbig, if_pos (h.resolve_left hbig)]
    rfl

/-- What `file_read` delivers is at most `n` bytes. -/
def ReadWithin (disk : Mem) (i : Inode) (pos : UInt32) (buf : Mem) (count : UInt32) (mem : Buffers) (n : Nat) : Prop :=
  Post (· = .outOfBounds) (fileRead .debug disk i pos buf count mem) fun r =>
    r.ret.getD 0 ≤ n ∧ ∀ k, n ≤ k → r.buf k = buf k

section
variable {disk : Mem} {all : Blocks} {size : Nat}

theorem loadTable_post {lba : UInt32} : Post (· = .outOfBounds) (loadTable .debug disk lba all) fun _ => True := by
  unfold loadTable ideRead
  rw [bind_assoc]
  exact .check (by simp) fun _ => trivial

theorem collectRead_post {s e : Nat} : Post (· = .outOfBounds) (collectRead .debug disk i s e) fun _ => True := by
  unfold collectRead
  split
  · refine .check (by simp) fun _ => ?_
    split
    · trivial
    · exact loadTable_post
  split
  · trivial
  split
  · exact .check (by simp) fun _ => loadTable_post
  · exact .check (by simp) fun _ => loadTable_post

theorem readData_post : ∀ (fuel w : Nat) (pos : UInt32) (buf : Mem), pos.toNat + (size - w) ≤ 71680 →
    Post (· = .outOfBounds) (readData .debug disk all size fuel w pos buf) fun r => ∀ k, size ≤ k → r.1 k = buf k
  | 0, w, pos, buf, _ => fun _ _ => rfl
  | fuel + 1, w, pos, buf, hs => by
    unfold readData
    by_cases hlt : w < size
    · rw [if_pos hlt]
      dsimp only
      rw [inBounds_of (by omega), ok_bind]
      unfold ideRead
      simp only [bind_assoc]
      refine .check (by simp) fun _ => ?_
      refine .check (by simp) fun _ => ?_
      generalize hc : min (size - w) (512 - pos.toNat % 512) = c
      have hn : (pos + .ofNat c).toNat = pos.toNat + c := toNat_add_ofNat (by omega)
      refine (readData_post fuel _ _ _ (by rw [hn]; omega)).mono fun r hr k hk => ?_
      rw [hr k hk, blit_out (by omega)]
    · rw [if_neg hlt]
      exact fun _ _ => rfl

theorem readData_past (hall : ∀ j < 140, (all j).toNat ≤ maxLba) : ∀ (fuel w : Nat) (pos : UInt32) (buf : Mem),
    size ≤ w + fuel → pos.toNat ≤ 71680 → 71680 < pos.toNat + (size - w) →
    readData .debug disk all size fuel w pos buf = .error .outOfBounds
  | 0, w, pos, buf, hf, hpos, hpa => by omega
  | fuel + 1, w, pos, buf, hf, hpos, hpa => by
    unfold readData
    rw [if_pos (by omega)]
    dsimp only
    by_cases hidx : pos.toNat / 512 < 140
    · rw [inBounds_of hidx, ok_bind, ideRead_eq _ _ (hall _ hidx) (by decide), ok_bind]
      generalize hc : min (size - w) (512 - pos.toNat % 512) = c
      have hn : (pos + .ofNat c).toNat = pos.toNat + c := toNat_add_ofNat (by omega)
      exact readData_past hall fuel _ _ _ (by omega) (by rw [hn]; omega) (by rw [hn]; omega)
    · unfold inBounds
      rw [if_neg hidx, error_bind]

theorem collectRead_le {s e : Nat} (hon : ∀ j ≤ 140, (slotAddr disk i j).toNat ≤ maxLba) (ht : 12 ≤ e → i.sec 12 ≠ 0)
    (h : collectRead .debug disk i s e = .ok all) : ∀ j < 140, (all j).toNat ≤ maxLba := by
  have hlow : ∀ j < 12, (i.sec j).toNat ≤ maxLba := fun j hj => by
    have := hon j (by omega)
    rwa [slotAddr, memLayout_low _ _ hj] at this
  have hc : ∀ n k j, k + n ≤ 12 → (copySectors i n k (fun _ => 0) j).toNat ≤ maxLba := fun n k j hk => by
    rw [copySectors_apply]
    split
    · exact hlow j (by omega)
    · exact Nat.zero_le _
  have hlo : ∀ {all0 : Blocks}, 12 ≤ e → (∀ j < 12, (all0 j).toNat ≤ maxLba) →
      loadTable .debug disk (i.sec 12) all0 = .ok all → ∀ j < 140, (all j).toNat ≤ maxLba := by
    intro all0 h12 h0 hl j hj
    by_cases hj12 : j < 12
    · rw [loadTable_low hl hj12]
      exact h0 j hj12
    · have := hon j (by omega)
      rwa [slotAddr, memLayout_mid _ _ (by omega) hj, ← loadTable_mid (ht h12) hl j (by omega) hj] at this
  unfold collectRead at h
  split at h
  · obtain ⟨-, -, h⟩ := bind_ok.mp h
    split at h
    · cases h
      intro j hj
      unfold Blocks.set
      by_cases he : j = e
      · rw [he, update_self]
        exact hlow e ‹_›
      · rw [update_of_ne he]
        exact Nat.zero_le _
    · exact hlo (by omega) (fun _ _ => Nat.zero_le _) h
  split at h
  · cases h
    intro j hj
    by_cases hse : s ≤ e
    · exact hc _ _ _ (by omega)
    · rw [show e + 1 - s = 0 by omega]
      exact Nat.zero_le _
  split at h
  · obtain ⟨-, -, h⟩ := bind_ok.mp h
    exact hlo (by omega) (fun j _ => hc _ _ _ (by omega)) h
  · obtain ⟨-, -, h⟩ := bind_ok.mp h
    exact hlo (by omega) (fun _ _ => Nat.zero_le _) h

theorem readWithin_iff {pos count : UInt32} {buf : Mem} {mem : Buffers} (hsi : i.iSize.toNat ≤ 71680)
    (hon : ∀ j ≤ 140, (slotAddr disk i j).toNat ≤ maxLba) (ht : 6144 ≤ i.iSize.toNat → i.sec 12 ≠ 0)
    (hpos : pos.toNat ≤ i.iSize.toNat) : ReadWithin disk i pos buf count mem (i.iSize.toNat - pos.toNat) ↔
      pos.toNat + count.toNat < 2 ^ 32 ∨ (mem.ioBuf = false ∨ mem.allBlocks = false) ∨ 71168 ≤ pos.toNat := by
  have hco := count.toNat_lt
  have hle := UInt32.le_iff_toNat_le.mpr hpos
  have hsum : (pos + count).toNat = (pos.toNat + count.toNat) % 2 ^ 32 := UInt32.toNat_add _ _
  -- the size of the transfer, and where it ends
  have hc : ((if pos + count > i.iSize then i.iSize - pos else count).toNat ≤ i.iSize.toNat - pos.toNat ∨
      2 ^ 32 ≤ pos.toNat + count.toNat) ∧ (2 ^ 32 ≤ pos.toNat + count.toNat → ¬ pos + count > i.iSize) := by
    have hgt : pos + count > i.iSize ↔ i.iSize.toNat < (pos.toNat + count.toNat) % 2 ^ 32 := by
      rw [gt_iff_lt, UInt32.lt_iff_toNat_lt, hsum]
    refine ⟨?_, fun hw => by rw [hgt]; omega⟩
    split
    · rw [UInt32.toNat_sub_of_le _ _ hle]
      exact .inl le_rfl
    · rename_i ho
      rw [hgt] at ho
      omega
  unfold ReadWithin fileRead
  dsimp only
  by_cases hw : pos.toNat + count.toNat < 2 ^ 32
  · refine iff_of_true ?_ (.inl hw)
    generalize (if pos + count > i.iSize then i.iSize - pos else count) = size at hc
    have hn := hc.1.resolve_right (by omega)
    split
    · exact ⟨Nat.zero_le _, fun _ _ => rfl⟩
    split
    · exact ⟨Nat.zero_le _, fun _ _ => rfl⟩
    refine .check (by simp) fun _ => ?_
    refine collectRead_post.bind fun all _ => ?_
    refine (readData_post size.toNat 0 pos buf (by omega)).bind fun r hr => ?_
    exact ⟨hn, fun k hk => hr k (by omega)⟩
  · have ho := hc.2 (by omega)
    rw [if_neg ho, if_neg (fun h => ho h.1)]
    by_cases hmem : mem.ioBuf = false ∨ mem.allBlocks = false
    · rw [if_pos hmem]
      exact iff_of_true ⟨Nat.zero_le _, fun _ _ => rfl⟩ (.inr (.inl hmem))
    rw [if_neg hmem]
    by_cases hs : pos.toNat / 512 < 139
    · -- the end wraps to a block in front of the position, and the loop still wants `count` bytes
      refine iff_of_false ?_ (not_or.mpr ⟨hw, not_or.mpr ⟨hmem, by omega⟩⟩)
      have ht' : 12 ≤ (pos + count).toNat / 512 → i.sec 12 ≠ 0 := fun h12 => ht (by omega)
      have hle12 : (i.sec 12).toNat ≤ maxLba := by
        have := hon 140 le_rfl
        rwa [slotAddr, memLayout_table] at this
      obtain ⟨all, hcol⟩ := collectRead_total disk (pos.toNat / 512) ht' hle12
      rw [assert_of _ ⟨hs, by omega⟩, ok_bind, hcol, ok_bind,
        readData_past (collectRead_le hon ht' hcol) _ _ _ _ (by omega) (by omega) (by omega), error_bind]
      exact fun h => h rfl
    · refine iff_of_true ?_ (.inr (.inr (by omega)))
      exact .check (by simp) fun h => absurd h.1 hs

end

/-- **Oversized requests** are refused or cut iff the sum with the count does not wrap around, a
buffer is missing or an assertion stops the read. -/
theorem oversized_requests_iff (vol : Volume part) (fdPos count : UInt32) (buf : Mem) (mem : Buffers) (hsize : i.iSize.toNat ≤ 71680)
    (hon : ∀ j ≤ 140, (slotAddr vol.disk i j).toNat ≤ maxLba) (htable : 6144 ≤ i.iSize.toNat → i.sec 12 ≠ 0) :
    (71680 < i.iSize.toNat + count.toNat → (WriteRejected vol i fdPos buf count mem ↔
      i.iSize.toNat + count.toNat < 2 ^ 32 ∨ mem.ioBuf = false ∨ mem.allBlocks = false)) ∧
    (fdPos.toNat ≤ i.iSize.toNat → (ReadWithin vol.disk i fdPos buf count mem (i.iSize.toNat - fdPos.toNat) ↔
      fdPos.toNat + count.toNat < 2 ^ 32 ∨ (mem.ioBuf = false ∨ mem.allBlocks = false) ∨ 71168 ≤ fdPos.toNat)) := by
  refine ⟨fun hbig => ?_, fun hpos => readWithin_iff hsize hon htable hpos⟩
  have hc := count.toNat_lt
  have hg : 71680 < (i.iSize + count).toNat ↔ i.iSize.toNat + count.toNat < 2 ^ 32 := by
    rw [UInt32.toNat_add]
    omega
  rw [writeRejected_iff, hg]

end

def threeBytes : Inode := { sampleFile with iSize := 3, iSectors := fun k => if k.val = 0 then 613 else 0 }

theorem threeBytes_onDisk : ∀ j ≤ 140, (slotAddr sampleFs.vol.disk threeBytes j).toNat ≤ maxLba := by decide +kernel

theorem oversized_requests_three : WriteRejected sampleFs.vol threeBytes 1 sampleBuf 71678 ⟨true, true⟩ ∧
    ReadWithin sampleFs.vol.disk threeBytes 1 sampleBuf 71678 ⟨true, true⟩ 2 := by
  obtain ⟨hw, hr⟩ := oversized_requests_iff (i := threeBytes) sampleFs.vol 1 71678 sampleBuf ⟨true, true⟩
    (by decide) threeBytes_onDisk (fun h => absurd h (by decide))
  exact ⟨(hw (by decide)).mpr (.inl (by decide)), (hr (by decide)).mpr (.inl (by decide))⟩

/-- The largest count makes the sum with a size of three wrap around to two. -/
theorem oversized_requests_fail : ¬ WriteRejected sampleFs.vol threeBytes 1 sampleBuf 0xffffffff ⟨true, true⟩ ∧
    ¬ ReadWithin sampleFs.vol.disk threeBytes 1 sampleBuf 0xffffffff ⟨true, true⟩ 2 := by
  constructor
  · rw [writeRejected_iff]
    decide
  · have hiff : ReadWithin sampleFs.vol.disk threeBytes 1 sampleBuf 0xffffffff ⟨true, true⟩
        (threeBytes.iSize.toNat - (1 : UInt32).toNat) ↔ _ :=
      readWithin_iff (by decide) threeBytes_onDisk (fun h => absurd h (by decide)) (by decide)
    rw [show threeBytes.iSize.toNat - (1 : UInt32).toNat = 2 from rfl] at hiff
    rw [hiff]
    decide

end OperateSystem
