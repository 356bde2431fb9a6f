import OperateSystem.Disk

/-!
# Inodes on disk

`fs/inode.c`. A `struct inode` is 19 words; 76-byte inodes are packed into the
inode table without regard to sector boundaries, so one may lie in two sectors.
-/

namespace OperateSystem

structure Inode where
  iNo : UInt32
  iSize : UInt32
  iOpenCnts : UInt32
  writeDeny : UInt32
  /-- Twelve direct blocks, then the single-indirect table. -/
  iSectors : Fin 13 → UInt32
  tagPrev : UInt32
  tagNext : UInt32

def inodeSize : Nat := 76

def Inode.words (i : Inode) : Nat → UInt32
  | 0 => i.iNo
  | 1 => i.iSize
  | 2 => i.iOpenCnts
  | 3 => i.writeDeny
  | k + 4 => if h : k < 13 then i.iSectors ⟨k, h⟩ else if k = 13 then i.tagPrev else i.tagNext

def Inode.toMem (i : Inode) : Mem := wordBytes i.words

def Inode.ofMem (m : Mem) (a : Nat) : Inode where
  iNo := word m a
  iSize := word m (a + 4)
  iOpenCnts := word m (a + 8)
  writeDeny := word m (a + 12)
  iSectors j := word m (a + 16 + 4 * j)
  tagPrev := word m (a + 68)
  tagNext := word m (a + 72)

structure InodePosition where
  twoSec : Bool
  secLba : Nat
  offSize : Nat

def inodeLocate (b : Build) (part : Partition) (inodeNo : Nat) : Exec InodePosition := do
  assert b (inodeNo < 4096) "inode_no < 4096"
  let offSize := inodeNo * inodeSize
  let offSec := offSize / 512
  let offSizeInSec := offSize % 512
  let leftInSec := 512 - offSizeInSec
  return {
    twoSec := if leftInSec < inodeSize then true else false
    secLba := part.inodeTableLba + offSec
    offSize := offSizeInSec }

/-- What `inode_sync` stores: the fields that only live in memory are cleared. -/
def Inode.pure (i : Inode) : Inode := { i with iOpenCnts := 0, writeDeny := 0, tagPrev := 0, tagNext := 0 }

/-- `ide_read` into the caller's `io_buf`. -/
abbrev SectorRead := Build → Mem → Nat → Nat → Exec Mem

def readInto (ioBuf : Mem) : SectorRead := fun b disk lba secCnt => ideRead b disk lba ioBuf secCnt

/-- The buffer has `size` bytes, which `sys_malloc` returns cleared. -/
def readSized (size : Nat) : SectorRead := fun b disk lba secCnt => do
  let buf ← ideRead b disk lba (fun _ => 0) secCnt
  inBounds (512 * secCnt ≤ size)
  return buf

/-- `inode_sync`. The inode number goes through a `uint8_t`. -/
def inodeSyncVia (read : SectorRead) (b : Build) (part : Partition) (disk : Mem) (inode : Inode) : Exec Mem := do
  let inodeNo := inode.iNo.toUInt8
  let pos ← inodeLocate b part inodeNo.toNat
  assert b (pos.secLba ≤ part.startLba + part.secCnt) "inode_pos.sec_lba <= (part->start_lba + part->sec_cnt)"
  let secs := if pos.twoSec then 2 else 1
  let buf ← read b disk pos.secLba secs
  let buf := blit buf pos.offSize inode.pure.toMem 0 inodeSize
  ideWrite b disk pos.secLba buf secs

def inodeSync (b : Build) (part : Partition) (disk : Mem) (inode : Inode) (ioBuf : Mem) : Exec Mem :=
  inodeSyncVia (readInto ioBuf) b part disk inode

/-- What `inode_open` reads when the inode is not among the open ones; the
buffer comes zeroed from `sys_malloc`. -/
def inodeRead (b : Build) (part : Partition) (disk : Mem) (inodeNo : Nat) : Exec Inode := do
  let pos ← inodeLocate b part inodeNo
  let secs := if pos.twoSec then 2 else 1
  let buf ← ideRead b disk pos.secLba (fun _ => 0) secs
  return Inode.ofMem buf pos.offSize

def inodeDeleteVia (read : SectorRead) (b : Build) (part : Partition) (disk : Mem) (inodeNo : Nat) : Exec Mem := do
  assert b (inodeNo < 4096) "inode_no < 4096"
  let pos ← inodeLocate b part inodeNo
  assert b (pos.secLba ≤ part.startLba + part.secCnt) "inode_pos.sec_lba <= (part->start_lba + part->sec_cnt)"
  let secs := if pos.twoSec then 2 else 1
  let buf ← read b disk pos.secLba secs
  let buf := fill buf pos.offSize inodeSize 0
  ideWrite b disk pos.secLba buf secs

def inodeDelete (b : Build) (part : Partition) (disk : Mem) (inodeNo : Nat) (ioBuf : Mem) : Exec Mem :=
  inodeDeleteVia (readInto ioBuf) b part disk inodeNo

/-- The calls of `inode_sync` and `inode_delete` with the caller's `io_buf`, whose size they are
not told. -/
structure InodeIo where
  sync : Build → Partition → Mem → Inode → Exec Mem
  delete : Build → Partition → Mem → Nat → Exec Mem

def InodeIo.via (read : SectorRead) : InodeIo := ⟨inodeSyncVia read, inodeDeleteVia read⟩

def InodeIo.unbounded : InodeIo := via (readInto fun _ => 0)

def InodeIo.sized (size : Nat) : InodeIo := via (readSized size)

/-- The functions that allocate an `io_buf` for an inode. `delete_dir_entry` gets its buffer
from `sys_unlink` or `dir_remove`. -/
inductive IoBufOwner where
  | fileCreate
  | fileWrite
  | sysMkdir
  | sysUnlink
  | dirRemove
  | inodeRelease
  deriving DecidableEq

def IoBufOwner.size : IoBufOwner → Nat
  | .fileCreate => 1024
  | .fileWrite => 512
  | .sysMkdir => 512 * 2
  | .sysUnlink => 512 + 512
  | .dirRemove => 512 * 2
  | .inodeRelease => 1024

def IoBufOwner.io (o : IoBufOwner) : InodeIo := .sized o.size

def Partition.inodeAddr (part : Partition) (n : Nat) : Nat := 512 * part.inodeTableLba + 76 * n

def Straddles (n : Nat) : Prop := 512 - n * inodeSize % 512 < inodeSize

instance (n : Nat) : Decidable (Straddles n) := inferInstanceAs (Decidable (_ < _))

/-- The number of bytes that `inode_sync` and `inode_delete` read for the inode. -/
def inodeBytes (n : Nat) : Nat := 512 * (if Straddles n then 2 else 1)

/-! ## The struct and its bytes -/

theorem ofMem_congr {m m' : Mem} {a a' : Nat} (h : ∀ j < 76, m (a + j) = m' (a' + j)) :
    Inode.ofMem m a = Inode.ofMem m' a' := by
  have hw : ∀ k, k + 4 ≤ 76 → word m (a + k) = word m' (a' + k) := fun k hk =>
    word_congr fun j hj => by rw [Nat.add_assoc, Nat.add_assoc]; exact h (k + j) (by omega)
  unfold Inode.ofMem
  simp only [Inode.mk.injEq]
  refine ⟨hw 0 (by omega), hw 4 (by omega), hw 8 (by omega), hw 12 (by omega), ?_, hw 68 (by omega), hw 72 (by omega)⟩
  funext j
  have := hw (16 + 4 * j) (by omega)
  rw [← Nat.add_assoc, ← Nat.add_assoc] at this
  exact this

theorem ofMem_toMem (i : Inode) : Inode.ofMem i.toMem 0 = i := by
  have hw : ∀ k, word i.toMem (0 + 4 * k) = i.words k := fun k => by
    rw [Nat.zero_add]; exact word_wordBytes _ _
  have hs : ∀ j : Fin 13, word i.toMem (0 + 16 + 4 * j) = i.iSectors j := fun j => by
    have := hw (j.val + 4)
    rw [show 0 + 4 * (j.val + 4) = 0 + 16 + 4 * j.val by omega] at this
    rw [this]; simp [Inode.words]
  obtain ⟨iNo, iSize, iOpenCnts, writeDeny, iSectors, tagPrev, tagNext⟩ := i
  unfold Inode.ofMem
  simp only [Inode.mk.injEq]
  exact ⟨hw 0, hw 1, hw 2, hw 3, funext hs, hw 17, hw 18⟩

theorem ofMem_blit_same (m : Mem) (i : Inode) (a : Nat) : Inode.ofMem (blit m a i.toMem 0 76) a = i := by
  refine Eq.trans (ofMem_congr fun j hj => ?_) (ofMem_toMem i)
  rw [blit_in (by omega) (by omega)]
  congr 1; omega

theorem ofMem_blit_apart {m src : Mem} {a a' : Nat} (h : a' + 76 ≤ a ∨ a + 76 ≤ a') :
    Inode.ofMem (blit m a src 0 76) a' = Inode.ofMem m a' :=
  ofMem_congr fun j hj => blit_out (by omega)

/-! ## Locating an inode -/

section
variable {b : Build} (part : Partition)

theorem inodeLocate_spec {n : Nat} (hn : n < 4096) : ∃ pos, inodeLocate b part n = .ok pos ∧
    512 * pos.secLba + pos.offSize = part.inodeAddr n ∧
    pos.offSize + 76 ≤ 512 * (if pos.twoSec then 2 else 1) ∧
    pos.secLba + (if pos.twoSec then 2 else 1) ≤ part.inodeTableLba + 608 := by
  simp only [inodeLocate, assert_of _ hn, ok_bind, pure_ok, Except.ok.injEq, exists_eq_left', inodeSize,
    Partition.inodeAddr]
  refine ⟨by omega, ?_⟩
  by_cases h : 512 - n * 76 % 512 < 76
  · simp only [h, ite_true]; omega
  · simp only [h, ite_false, Bool.false_eq_true]; omega

theorem table_sector_ok {pos secs : Nat} (h : pos + secs ≤ part.inodeTableLba + 608) (hs : 0 < secs) :
    pos ≤ part.startLba + part.secCnt ∧ pos ≤ maxLba := by
  have h1 := part.inode_table_below
  have h2 := part.data_in_part
  have h3 := part.data_on_disk
  omega

/-- **`inode_sync` stores the inode at the slot of its truncated number.** -/
theorem inodeSync_spec (disk ioBuf : Mem) (inode : Inode) :
    inodeSync b part disk inode ioBuf =
      .ok (blit disk (part.inodeAddr (inode.iNo.toNat % 256)) inode.pure.toMem 0 76) := by
  obtain ⟨pos, hpos, ha, hoff, htab⟩ := inodeLocate_spec (b := b) part
    (n := inode.iNo.toUInt8.toNat) (by have := inode.iNo.toUInt8.toNat_lt; omega)
  have hs : 0 < (if pos.twoSec then 2 else 1) := by split <;> omega
  obtain ⟨hp, hl⟩ := table_sector_ok part htab hs
  unfold inodeSync inodeSyncVia readInto
  simp only [hpos, ok_bind, assert_of _ hp, ideRead_eq _ _ hl hs, ideWrite_eq _ _ hl hs, inodeSize]
  rw [blit_patch _ _ _ hoff, ha, UInt32.toNat_toUInt8]

theorem inodeRead_spec (disk : Mem) {n : Nat} (hn : n < 4096) :
    inodeRead b part disk n = .ok (Inode.ofMem disk (part.inodeAddr n)) := by
  obtain ⟨pos, hpos, ha, hoff, htab⟩ := inodeLocate_spec (b := b) part hn
  have hs : 0 < (if pos.twoSec then 2 else 1) := by split <;> omega
  obtain ⟨_, hl⟩ := table_sector_ok part htab hs
  unfold inodeRead
  simp only [hpos, ok_bind, ideRead_eq _ _ hl hs, pure_ok, Except.ok.injEq]
  apply ofMem_congr
  intro j hj
  rw [blit_in (by omega) (by omega)]
  congr 1; omega

theorem inodeDelete_spec (disk ioBuf : Mem) {n : Nat} (hn : n < 4096) :
    inodeDelete b part disk n ioBuf = .ok (fill disk (part.inodeAddr n) 76 0) := by
  obtain ⟨pos, hpos, ha, hoff, htab⟩ := inodeLocate_spec (b := b) part hn
  have hs : 0 < (if pos.twoSec then 2 else 1) := by split <;> omega
  obtain ⟨hp, hl⟩ := table_sector_ok part htab hs
  unfold inodeDelete inodeDeleteVia readInto
  simp only [hpos, ok_bind, assert_of _ hn, assert_of _ hp, ideRead_eq _ _ hl hs, ideWrite_eq _ _ hl hs, inodeSize]
  rw [fill_eq_blit, blit_patch _ _ _ hoff, ha, ← fill_eq_blit]

theorem unbounded_sync (disk : Mem) (inode : Inode) :
    InodeIo.unbounded.sync b part disk inode = inodeSync b part disk inode fun _ => 0 := rfl

theorem unbounded_delete (disk : Mem) (n : Nat) :
    InodeIo.unbounded.delete b part disk n = inodeDelete b part disk n fun _ => 0 := rfl

theorem readSized_eq {disk : Mem} {lba size n : Nat} (h : 512 * n ≤ size) :
    readSized size b disk lba n = readInto (fun _ => 0) b disk lba n := by
  unfold readSized readInto
  rw [inBounds_of h]
  cases ideRead b disk lba (fun _ => 0) n <;> rfl

/-- Two sectors are read at most. -/
theorem sized_eq_unbounded {size : Nat} (h : 1024 ≤ size) : InodeIo.sized size = .unbounded := by
  have hr : ∀ (two : Bool) (b : Build) (disk : Mem) (lba : Nat), readSized size b disk lba (if two then 2 else 1) =
      readInto (fun _ => 0) b disk lba (if two then 2 else 1) := by
    intro two b disk lba
    apply readSized_eq
    split <;> omega
  unfold InodeIo.sized InodeIo.unbounded InodeIo.via
  congr 1
  · funext b part disk inode
    unfold inodeSyncVia
    simp only [hr]
  · funext b part disk no
    unfold inodeDeleteVia
    simp only [hr]

theorem inodeLocate_twoSec {n : Nat} {pos : InodePosition} (h : inodeLocate b part n = .ok pos) :
    pos.twoSec = decide (Straddles n) := by
  unfold inodeLocate at h
  obtain ⟨_, -, h⟩ := bind_ok.mp h
  cases h
  simp only [Straddles]
  split
  · rename_i hlt
    exact (decide_eq_true hlt).symm
  · rename_i hlt
    exact (decide_eq_false hlt).symm

theorem sized_sync (size : Nat) (disk : Mem) (inode : Inode) : (InodeIo.sized size).sync b part disk inode =
    if inodeBytes (inode.iNo.toNat % 256) ≤ size then inodeSync b part disk inode fun _ => 0
    else .error .outOfBounds := by
  have hno : inode.iNo.toUInt8.toNat = inode.iNo.toNat % 256 := UInt32.toNat_toUInt8 _
  obtain ⟨pos, hpos, ha, hoff, htab⟩ := inodeLocate_spec (b := b) part (n := inode.iNo.toUInt8.toNat) (by omega)
  have htwo := inodeLocate_twoSec part hpos
  rw [hno] at htwo
  have hs : 0 < (if pos.twoSec then 2 else 1) := by split <;> omega
  obtain ⟨hp, hl⟩ := table_sector_ok part htab hs
  have hb : inodeBytes (inode.iNo.toNat % 256) = 512 * (if pos.twoSec then 2 else 1) := by
    rw [htwo]
    simp [inodeBytes]
  unfold inodeSync InodeIo.sized InodeIo.via inodeSyncVia
  simp only [hpos, ok_bind, assert_of _ hp, hb]
  by_cases hle : 512 * (if pos.twoSec then 2 else 1) ≤ size
  · rw [readSized_eq hle, if_pos hle]
  · unfold readSized
    rw [ideRead_eq _ _ hl hs, ok_bind, inBounds, if_neg hle, if_neg hle]
    rfl

theorem slot_blit_apart (disk src : Mem) {k m : Nat} (h : m ≠ k) :
    Inode.ofMem (blit disk (part.inodeAddr k) src 0 76) (part.inodeAddr m) = Inode.ofMem disk (part.inodeAddr m) :=
  ofMem_blit_apart (by unfold Partition.inodeAddr; omega)

end

/-! ## Round trip -/

/-- **An inode comes back from the disk, and the others stay, iff its number fits the `uint8_t`**,
or the two slots already hold it. -/
theorem inodeSync_roundtrip_iff (part : Partition) (disk ioBuf : Mem) (inode : Inode)
    (hn : inode.iNo.toNat < 4096) :
    ∃ disk', inodeSync .debug part disk inode ioBuf = .ok disk' ∧
      ((inodeRead .debug part disk' inode.iNo.toNat = .ok inode.pure ∧
          ∀ m < 4096, m ≠ inode.iNo.toNat → inodeRead .debug part disk' m = inodeRead .debug part disk m) ↔
        (inode.iNo.toNat < 256 ∨ (inodeRead .debug part disk inode.iNo.toNat = .ok inode.pure ∧
          inodeRead .debug part disk (inode.iNo.toNat % 256) = .ok inode.pure))) := by
  refine ⟨_, inodeSync_spec part disk ioBuf inode, ?_⟩
  generalize inode.iNo.toNat = n at *
  have hk : n % 256 < 4096 := by omega
  by_cases hs : n < 256
  · rw [Nat.mod_eq_of_lt hs]
    simp only [hs, true_or, iff_true]
    refine ⟨by rw [inodeRead_spec part _ hn, ofMem_blit_same], fun m hm hne => ?_⟩
    rw [inodeRead_spec part _ hm, inodeRead_spec part _ hm, slot_blit_apart part _ _ hne]
  · -- slot `n` keeps its old contents and slot `n % 256` gets the inode
    have hnk : n ≠ n % 256 := by omega
    rw [inodeRead_spec part _ hn, slot_blit_apart part _ _ hnk, ← inodeRead_spec (b := .debug) part _ hn]
    simp only [hs, false_or, and_congr_right_iff]
    intro _
    constructor
    · intro hf
      rw [← hf _ hk hnk.symm, inodeRead_spec part _ hk, ofMem_blit_same]
    · intro hold m hm _
      by_cases hmk : m = n % 256
      · rw [hmk, hold, inodeRead_spec part _ hk, ofMem_blit_same]
      · rw [inodeRead_spec part _ hm, inodeRead_spec part _ hm, slot_blit_apart part _ _ hmk]

/-- A small partition: one sector of block bitmap, one of inode bitmap, the
inode table and 4000 data sectors. -/
def samplePart : Partition where
  startLba := 0
  secCnt := 4612
  blockBitmapLba := 2
  blockBitmapSects := 1
  inodeBitmapLba := 3
  inodeTableLba := 4
  dataStartLba := 612
  block_bitmap_below := by decide
  inode_bitmap_below := by decide
  inode_table_below := by decide
  data_in_part := by decide
  data_on_disk := by decide

theorem sector_lt : 512 < 2 ^ 28 := by decide

def sampleInode (n : UInt32) : Inode := ⟨n, 5, 1, 0, fun _ => 0, 0, 0⟩

theorem inodeSync_roundtrip_seven :
    ∃ disk', inodeSync .debug samplePart (fun _ => 0) (sampleInode 7) (fun _ => 0) = .ok disk' ∧
      inodeRead .debug samplePart disk' 7 = .ok (sampleInode 7).pure := by
  obtain ⟨disk', hs, hiff⟩ := inodeSync_roundtrip_iff samplePart (fun _ => 0) (fun _ => 0) (sampleInode 7) (by decide)
  exact ⟨disk', hs, (hiff.mpr (.inl (by decide))).1⟩

/-- Inode 256 is stored over inode 0 and its own slot stays empty. -/
theorem inodeSync_overwrites_zero :
    ∃ disk', inodeSync .debug samplePart (fun _ => 0) (sampleInode 256) (fun _ => 0) = .ok disk' ∧
      inodeRead .debug samplePart disk' 256 ≠ .ok (sampleInode 256).pure ∧
      inodeRead .debug samplePart disk' 0 = .ok (sampleInode 256).pure ∧
      inodeRead .debug samplePart (fun _ => 0) 0 ≠ .ok (sampleInode 256).pure := by
  have hz : ∀ n < 4096, inodeRead .debug samplePart (fun _ => 0) n ≠ .ok (sampleInode 256).pure := by
    intro n hn h
    rw [inodeRead_spec _ _ hn, Except.ok.injEq] at h
    have hno : (0 : UInt32) = 256 := congrArg Inode.iNo h
    exact absurd hno (by decide)
  refine ⟨_, inodeSync_spec _ _ _ _, ?_, ?_, hz 0 (by decide)⟩
  · rw [inodeRead_spec _ _ (by decide), slot_blit_apart _ _ _ (by decide), ← inodeRead_spec (b := .debug) _ _ (by decide)]
    exact hz 256 (by decide)
  · rw [inodeRead_spec _ _ (by decide)]
    exact congrArg _ (ofMem_blit_same _ _ _)

/-! ## Deleting -/

/-- **`inode_delete` clears one inode** and no other byte of the disk. -/
theorem inodeDelete_erases {b : Build} (part : Partition) (disk ioBuf : Mem) {n : Nat} (hn : n < 4096) : ∃ disk' pos,
    inodeDelete b part disk n ioBuf = .ok disk' ∧ inodeLocate b part n = .ok pos ∧
    (∀ k < 76, disk' (part.inodeAddr n + k) = 0) ∧
    (∀ a, (∀ k < 76, a ≠ part.inodeAddr n + k) → disk' a = disk a) ∧
    (∀ m < 4096, m ≠ n → inodeRead b part disk' m = inodeRead b part disk m) ∧
    part.inodeTableLba ≤ pos.secLba ∧ pos.secLba + (if pos.twoSec then 2 else 1) ≤ part.inodeTableLba + 608 ∧
    512 * (if pos.twoSec then 2 else 1) ≤ 1024 := by
  obtain ⟨pos, hpos, had, -, htab⟩ := inodeLocate_spec (b := b) part hn
  refine ⟨_, pos, inodeDelete_spec part disk ioBuf hn, hpos, fun k hk => ?_, fun a ha => ?_, fun m hm hne => ?_, ?_, htab, ?_⟩
  · exact fill_in (by omega) (by omega)
  · apply fill_out
    by_contra hin
    exact ha (a - part.inodeAddr n) (by omega) (by omega)
  · rw [inodeRead_spec part _ hm, inodeRead_spec part _ hm, fill_eq_blit]
    unfold Partition.inodeAddr
    rw [ofMem_blit_apart (by omega)]
  · simp only [inodeLocate, assert_of _ hn, ok_bind, pure_ok, Except.ok.injEq] at hpos
    rw [← hpos]
    exact Nat.le_add_right _ _
  · split <;> omega

theorem inodeDelete_erases_six : ∃ disk' pos, inodeDelete .debug samplePart (fun _ => 1) 6 (fun _ => 0) = .ok disk' ∧
    inodeLocate .debug samplePart 6 = .ok pos ∧ (∀ k < 76, disk' (samplePart.inodeAddr 6 + k) = 0) ∧
    (∀ a, (∀ k < 76, a ≠ samplePart.inodeAddr 6 + k) → disk' a = 1) := by
  obtain ⟨disk', pos, hdel, hpos, hz, hr, -⟩ := inodeDelete_erases (b := .debug) samplePart (fun _ => 1) (fun _ => 0) (n := 6) (by decide)
  exact ⟨disk', pos, hdel, hpos, hz, hr⟩

end OperateSystem
