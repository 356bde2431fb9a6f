import OperateSystem.Bitmap

/-!
# The disk and a mounted partition

A disk is one memory of bytes; sector `lba` starts at byte `512 * lba`. The
driver's commands are modelled by what they transfer: a read returns what the
last write of the sector stored. `Partition` holds what stays fixed while the
partition is mounted, with the facts that formatting establishes.
-/

namespace OperateSystem
variable {b : Build} {lba n : Nat}

theorem toNat_add_of_lt {a c : UInt32} (h : a.toNat + c.toNat < 2 ^ 32) : (a + c).toNat = a.toNat + c.toNat :=
  (UInt32.toNat_add ..).trans (Nat.mod_eq_of_lt h)

theorem toNat_add_ofNat {a : UInt32} {n : Nat} (h : a.toNat + n < 2 ^ 32) : (a + .ofNat n).toNat = a.toNat + n := by
  rw [UInt32.toNat_add, UInt32.toNat_ofNat']
  omega

def maxLba : Nat := 80 * 1024 * 1024 / 512 - 1

/-- `ide_read` of at most 256 sectors into the front of `buf`. -/
def ideRead (b : Build) (disk : Mem) (lba : Nat) (buf : Mem) (secCnt : Nat) : Exec Mem := do
  assert b (lba ≤ maxLba) "lba <= max_lba"
  assert b (0 < secCnt) "sec_cnt > 0"
  return blit buf 0 disk (512 * lba) (512 * secCnt)

def ideWrite (b : Build) (disk : Mem) (lba : Nat) (buf : Mem) (secCnt : Nat) : Exec Mem := do
  assert b (lba ≤ maxLba) "lba <= max_lba"
  assert b (0 < secCnt) "sec_cnt > 0"
  return blit disk (512 * lba) buf 0 (512 * secCnt)

theorem ideRead_ok {disk buf m : Mem} (h : ideRead b disk lba buf n = .ok m) :
    m = blit buf 0 disk (512 * lba) (512 * n) := by
  simp only [ideRead, bind_ok, pure_ok, Except.ok.injEq] at h
  obtain ⟨_, _, _, _, h⟩ := h
  exact h.symm

theorem ideWrite_ok {disk buf m : Mem} (h : ideWrite b disk lba buf n = .ok m) :
    m = blit disk (512 * lba) buf 0 (512 * n) := by
  simp only [ideWrite, bind_ok, pure_ok, Except.ok.injEq] at h
  obtain ⟨_, _, _, _, h⟩ := h
  exact h.symm

theorem ideRead_eq (disk buf : Mem) (hl : lba ≤ maxLba) (hn : 0 < n) :
    ideRead b disk lba buf n = .ok (blit buf 0 disk (512 * lba) (512 * n)) := by
  simp [ideRead, assert_of _ hl, assert_of _ hn]

theorem ideWrite_eq (disk buf : Mem) (hl : lba ≤ maxLba) (hn : 0 < n) :
    ideWrite b disk lba buf n = .ok (blit disk (512 * lba) buf 0 (512 * n)) := by
  simp [ideWrite, assert_of _ hl, assert_of _ hn]

/-- The fixed part of `struct partition` and its super block, with the regions that
`partition_format` lays out. -/
structure Partition where
  startLba : Nat
  secCnt : Nat
  blockBitmapLba : Nat
  blockBitmapSects : Nat
  inodeBitmapLba : Nat
  inodeTableLba : Nat
  dataStartLba : Nat
  block_bitmap_below : blockBitmapLba + blockBitmapSects ≤ dataStartLba
  inode_bitmap_below : inodeBitmapLba + 1 ≤ dataStartLba
  inode_table_below : inodeTableLba + 608 ≤ dataStartLba
  data_in_part : dataStartLba ≤ startLba + secCnt
  data_on_disk : dataStartLba ≤ maxLba

structure Partition.Formatted (part : Partition) : Prop where
  boot : 0 < part.blockBitmapLba
  inodes : part.blockBitmapLba + part.blockBitmapSects ≤ part.inodeBitmapLba
  table : part.inodeBitmapLba + 1 ≤ part.inodeTableLba

theorem Partition.lba_small (part : Partition) : part.dataStartLba + 4096 * part.blockBitmapSects < 2 ^ 31 := by
  have h1 := part.block_bitmap_below
  have h2 := part.data_on_disk
  simp only [maxLba] at h2
  omega

end OperateSystem
