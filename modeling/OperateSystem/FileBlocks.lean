import OperateSystem.Accounting
import OperateSystem.File

/-!
# The blocks of a file

A file's layout is the function from its 141 slots (140 blocks and the table)
to their addresses. `file_write` extends the layout by fresh blocks and keeps
the addresses it had; apart from the table it touches no data sector on the way.
-/

namespace OperateSystem

open Function

/-! ## Volumes -/

def SameOutside (part : Partition) (S : Nat → Prop) (disk disk' : Mem) : Prop :=
  ∀ lba, part.dataStartLba ≤ lba → ¬ S lba → ∀ k < 512, disk' (512 * lba + k) = disk (512 * lba + k)

def Partition.InData (part : Partition) (lba : Nat) : Prop :=
  part.dataStartLba ≤ lba ∧ lba < part.dataStartLba + 4096 * part.blockBitmapSects

section
variable {part : Partition}
variable {b : Build} {lba : Nat} {S : Nat → Prop} {vol vol' : Volume part}

def Volume.Used (vol : Volume part) (lba : Nat) : Prop :=
  part.dataStartLba ≤ lba ∧ vol.blockBitmap.bit (lba - part.dataStartLba) = true

theorem SameOutside.refl (S : Nat → Prop) (disk : Mem) : SameOutside part S disk disk := fun _ _ _ _ _ => rfl

theorem SameOutside.trans {d1 d2 d3 : Mem} (h1 : SameOutside part S d1 d2)
    (h2 : SameOutside part S d2 d3) : SameOutside part S d1 d3 := fun lba hl hS k hk => by
  rw [h2 lba hl hS k hk, h1 lba hl hS k hk]

theorem SameOutside.mono {T : Nat → Prop} {d d' : Mem} (h : SameOutside part S d d')
    (hST : ∀ lba, part.dataStartLba ≤ lba → S lba → T lba) : SameOutside part T d d' :=
  fun lba hl hT => h lba hl fun hS => hT (hST lba hl hS)

theorem SameOutside.blit_below (d src : Mem) {a s n : Nat} (h : a + n ≤ 512 * part.dataStartLba) :
    SameOutside part S d (blit d a src s n) := fun lba hl _ k _ => blit_out (by omega)

theorem ideWrite_same {d d' buf : Mem} (h : ideWrite b d lba buf 1 = .ok d') :
    SameOutside part (· = lba) d d' := by
  rw [ideWrite_ok h]
  intro x _ hx k hk
  exact blit_out (by omega)

theorem bitmapSync_block {i : Nat} (hi : i < 4096 * part.blockBitmapSects)
    (h : bitmapSync b vol i .blockBitmap = .ok vol') :
    vol'.blockBitmap = vol.blockBitmap ∧ ∀ S, SameOutside part S vol.disk vol'.disk := by
  simp only [bitmapSync, bind_ok, pure_ok, Except.ok.injEq] at h
  obtain ⟨d, hd, rfl⟩ := h
  refine ⟨rfl, fun S => ?_⟩
  simp only [ideWrite_ok hd]
  have := part.block_bitmap_below
  refine SameOutside.blit_below _ _ ?_
  omega

theorem used_congr (h : vol'.blockBitmap = vol.blockBitmap) : vol'.Used = vol.Used := by
  funext x; unfold Volume.Used; rw [h]

theorem blockBitmapAlloc_spec (h : blockBitmapAlloc b vol = .ok (some lba, vol')) :
    ¬ vol.Used lba ∧ part.InData lba ∧ (∀ x, vol'.Used x ↔ vol.Used x ∨ x = lba) ∧ vol'.disk = vol.disk := by
  simp only [blockBitmapAlloc, bind_ok] at h
  obtain ⟨r, hs, h⟩ := h
  obtain _ | i := r
  · simp at h
  simp only [pure_ok, Except.ok.injEq, Prod.mk.injEq, Option.some.injEq] at h
  obtain ⟨rfl, rfl⟩ := h
  obtain ⟨hc, hlt⟩ := bitmapScan_sound hs
  have hbit := hc i le_rfl (by omega)
  have hi := hlt rfl
  rw [vol.block_len] at hi
  refine ⟨?_, ⟨by omega, by omega⟩, fun x => ?_, rfl⟩
  · rintro ⟨_, hu⟩
    rw [Nat.add_sub_cancel_left, hbit] at hu; cases hu
  · unfold Volume.Used
    rw [bit_bitmapSet]
    by_cases hx : x = part.dataStartLba + i
    · simp [hx]
    · have : part.dataStartLba ≤ x → x - part.dataStartLba ≠ i := by omega
      simp only [hx, or_false, and_congr_right_iff]
      intro hle
      rw [if_neg (this hle)]

theorem bitmapSync_ok {i : Nat} (h : bitmapSync b vol i .blockBitmap = .ok vol') :
    vol'.disk = blit vol.disk (512 * (part.blockBitmapLba + i / 4096)) (fun k => vol.blockBitmap.bits (i / 4096 * 512 + k)) 0
      512 ∧ vol'.blockBitmap = vol.blockBitmap ∧ vol'.inodeBitmap = vol.inodeBitmap := by
  simp only [bitmapSync, bind_ok, pure_ok, Except.ok.injEq] at h
  obtain ⟨d, hd, rfl⟩ := h
  exact ⟨ideWrite_ok hd, rfl, rfl⟩

theorem bitmapSync_total (vol : Volume part) {n : Nat} (hn : n < 4096 * part.blockBitmapSects) :
    ∃ vol', bitmapSync .debug vol n .blockBitmap = .ok vol' := by
  have h1 := part.block_bitmap_below
  have h2 := part.data_on_disk
  exact ⟨_, by simp only [bitmapSync]; rw [ideWrite_eq _ _ (by omega) (by omega)]; rfl⟩

theorem blockBitmapAlloc_ok (h : blockBitmapAlloc b vol = .ok (some lba, vol')) :
    vol.blockBitmap.freeBits = (lba - part.dataStartLba) :: vol'.blockBitmap.freeBits ∧ vol'.disk = vol.disk ∧
      vol'.blockBitmap = bitmapSet vol.blockBitmap (lba - part.dataStartLba) true ∧ vol'.inodeBitmap = vol.inodeBitmap := by
  simp only [blockBitmapAlloc, bind_ok] at h
  obtain ⟨r, hs, h⟩ := h
  cases r with
  | none => cases h
  | some i =>
    cases h
    rw [Nat.add_sub_cancel_left]
    exact ⟨Bitmap.freeBits_scan hs, rfl, rfl, rfl⟩

theorem Partition.InData.toNat_ofNat (h : part.InData lba) : (UInt32.ofNat lba).toNat = lba := by
  have h1 := part.lba_small
  have h2 := h.2
  rw [UInt32.toNat_ofNat']
  exact Nat.mod_eq_of_lt (by omega)

theorem Partition.InData.index {a : UInt32} (h : part.InData a.toNat) :
    (a - .ofNat part.dataStartLba).toNat = a.toNat - part.dataStartLba := by
  have hdi := part.data_on_disk
  have hs : (UInt32.ofNat part.dataStartLba).toNat = part.dataStartLba := by
    rw [UInt32.toNat_ofNat']
    simp only [maxLba] at hdi
    omega
  rw [UInt32.toNat_sub_of_le _ _ (UInt32.le_iff_toNat_le.mpr (by rw [hs]; exact h.1)), hs]

theorem Partition.InData.ne_zero {a : UInt32} (h : part.InData a.toNat) : a ≠ 0 := by
  have h1 := part.inode_table_below
  have h2 := h.1
  rintro rfl
  simp at h2
  omega

end

/-! ## Layouts -/

@[simp] theorem sec_setSec (i : Inode) (k j : Nat) (a : UInt32) (hk : k < 13) :
    (i.setSec k a).sec j = if j = k then a else i.sec j := by
  unfold Inode.sec Inode.setSec
  by_cases hj : j < 13
  · simp [hj]
  · have : j ≠ k := by omega
    simp [hj, this]

def memLayout (i : Inode) (all : Blocks) : Blocks := fun j =>
  if j < 12 then i.sec j else if j = 140 then i.sec 12 else all j

def tableOf (disk : Mem) (i : Inode) : Blocks := fun j =>
  if i.sec 12 = 0 then 0 else word disk (512 * (i.sec 12).toNat + 4 * (j - 12))

def slotAddr (disk : Mem) (i : Inode) : Blocks := memLayout i (tableOf disk i)

structure Laid (l : Blocks) (n : Nat) : Prop where
  le : n ≤ 140
  data : ∀ j < 140, l j ≠ 0 ↔ j < n
  table : l 140 ≠ 0 ↔ 12 < n

def slotOwner (l : Blocks) (j : Nat) : Option Nat := if j ≤ 140 ∧ l j ≠ 0 then some (l j).toNat else none

def withFile (own : UInt32 × Nat → Option Nat) (no : UInt32) (l : Blocks) : UInt32 × Nat → Option Nat := fun k =>
  if k.1 = no then slotOwner l k.2 else own k

theorem slotOwner_some {l : Blocks} {j : Nat} (hj : j ≤ 140) (h : l j ≠ 0) : slotOwner l j = some (l j).toNat :=
  if_pos ⟨hj, h⟩

theorem slotOwner_eq_some {l : Blocks} {j lba : Nat} :
    slotOwner l j = some lba ↔ j ≤ 140 ∧ l j ≠ 0 ∧ (l j).toNat = lba := by
  unfold slotOwner
  split <;> simp_all

theorem withFile_self (own : UInt32 × Nat → Option Nat) (no : UInt32) (l : Blocks) (j : Nat) :
    withFile own no l (no, j) = slotOwner l j := if_pos rfl

theorem withFile_set (own : UInt32 × Nat → Option Nat) (no : UInt32) (l : Blocks) {j : Nat} {a : UInt32}
    (hj : j ≤ 140) (ha : a ≠ 0) :
    withFile own no (l.set j a) = update (withFile own no l) (no, j) (some a.toNat) := by
  funext ⟨n, k⟩
  by_cases hn : n = no
  · subst hn
    by_cases hk : k = j
    · subst hk; simp [withFile, slotOwner, Blocks.set, hj, ha]
    · simp [withFile, slotOwner, Blocks.set, hk]
  · simp [withFile, hn]

theorem withFile_congr (own : UInt32 × Nat → Option Nat) (no : UInt32) {l l' : Blocks} (h : ∀ j ≤ 140, l' j = l j) :
    withFile own no l' = withFile own no l := by
  funext ⟨n, k⟩
  unfold withFile slotOwner
  by_cases hk : k ≤ 140
  · simp only [h k hk]
  · simp [hk]

theorem memLayout_direct (i : Inode) (all : Blocks) {k : Nat} (a : UInt32) (hk : k < 12) :
    memLayout (i.setSec k a) (all.set k a) = (memLayout i all).set k a := by
  funext j
  have h12 : (i.setSec k a).sec 12 = i.sec 12 := by
    rw [sec_setSec _ _ _ _ (by omega), if_neg (by omega)]
  by_cases hj : j = k
  · subst hj; simp [memLayout, Blocks.set, hk, sec_setSec _ _ _ _ (show j < 13 by omega)]
  · simp [memLayout, Blocks.set, hj, h12, sec_setSec _ _ _ _ (show k < 13 by omega)]

theorem memLayout_indirect (i : Inode) (all : Blocks) {k : Nat} (a : UInt32) (hk : 12 ≤ k) (hk' : k < 140) :
    memLayout i (all.set k a) = (memLayout i all).set k a := by
  funext j
  by_cases hj : j = k
  · subst hj
    have h1 : ¬ j < 12 := by omega
    have h2 : j ≠ 140 := by omega
    simp [memLayout, Blocks.set, h1, h2]
  · simp [memLayout, Blocks.set, hj]

/-! ## Allocating blocks -/

section
variable {part : Partition} (base : Nat → Prop) (own : UInt32 × Nat → Option Nat) (no : UInt32)
variable {all l : Blocks} {i : Inode} {disk : Mem} {j k : Nat} {vol : Volume part}

def Books (vol : Volume part) (l : Blocks) : Prop := Accounted part.InData base vol.Used (withFile own no l)

variable {base own no} {b : Build}

theorem Books.congr {vol' : Volume part} {l' : Blocks} (h : Books base own no vol l)
    (hb : vol'.blockBitmap = vol.blockBitmap) (hl : ∀ j ≤ 140, l' j = l j) : Books base own no vol' l' := by
  unfold Books
  rw [used_congr hb, withFile_congr own no hl]
  exact h

theorem Books.slot_inData (h : Books base own no vol l) (hj : j ≤ 140) (hne : l j ≠ 0) :
    part.InData (l j).toNat :=
  h.in_dom (k := (no, j)) (by rw [withFile_self, slotOwner_some hj hne])

theorem Books.slot_inj (h : Books base own no vol l) (hj : j ≤ 140) (hk : k ≤ 140) (hne : l j ≠ 0)
    (heq : l j = l k) : j = k := by
  have := @Accounted.inj _ _ _ _ _ _ h (no, j) (no, k) (l j).toNat (by rw [withFile_self, slotOwner_some hj hne])
    (by rw [withFile_self, slotOwner_some hk (heq ▸ hne), heq])
  exact (Prod.mk.inj this).2

structure NewBlock (part : Partition) (lba : Nat) : Prop where
  toNat : (UInt32.ofNat lba).toNat = lba
  ne_zero : UInt32.ofNat lba ≠ 0
  idx_lt : lba - part.dataStartLba < 4096 * part.blockBitmapSects

theorem Books.alloc {vol' : Volume part} {lba : Nat} (h : Books base own no vol l)
    (ha : blockBitmapAlloc b vol = .ok (some lba, vol')) (hj : j ≤ 140) (hz : l j = 0) :
    Books base own no vol' (l.set j (.ofNat lba)) ∧ NewBlock part lba := by
  obtain ⟨hf, hdom, hu, _⟩ := blockBitmapAlloc_spec ha
  have hnat := hdom.toNat_ofNat
  have hdom' : part.InData (UInt32.ofNat lba).toNat := by rw [hnat]; exact hdom
  have hne := hdom'.ne_zero
  refine ⟨?_, hnat, hne, by obtain ⟨h1, h2⟩ := hdom; omega⟩
  unfold Books
  rw [withFile_set own no l hj hne, hnat]
  exact h.take (by rw [withFile_self, slotOwner, if_neg (by simp [hz])]) hf hdom hu

/-- What the allocation loops change: slots `k` to `k + n` of the layout get
addresses, and the inode's other fields stay. -/
structure Grown (base : Nat → Prop) (own : UInt32 × Nat → Option Nat) (no : UInt32) (k n : Nat)
    (st st' : Writing part) : Prop where
  le : n = 0 ∨ k + n ≤ 140
  books : Books base own no st'.vol (memLayout st'.inode st'.all)
  old : ∀ j, j < k ∨ k + n ≤ j → memLayout st'.inode st'.all j = memLayout st.inode st.all j
  new : ∀ j, k ≤ j → j < k + n → st'.all j ≠ 0 ∧ st'.all j = memLayout st'.inode st'.all j
  kept : ∀ j < k, st'.all j = st.all j
  disk : ∀ S, SameOutside part S st.vol.disk st'.vol.disk

theorem setDirect_layout {i' : Inode} (all : Blocks) {a : UInt32} (hk : k < 140)
    (h : setDirect b i k a = .ok i') :
    memLayout i' (all.set k a) = (memLayout i all).set k a := by
  unfold setDirect at h
  split at h
  · simp only [bind_ok, pure_ok, Except.ok.injEq] at h
    obtain ⟨_, _, rfl⟩ := h
    exact memLayout_direct _ _ _ ‹_›
  · cases h
    exact memLayout_indirect _ _ _ (by omega) hk

theorem growBlocks_spec : ∀ (n k : Nat) (st st' : Writing part), growBlocks b n k st = .ok (st', true) →
    Books base own no st.vol (memLayout st.inode st.all) →
    (∀ j, k ≤ j → j < 140 → memLayout st.inode st.all j = 0) → Grown base own no k n st st'
  | 0, k, st, st', h, hb, _ => by
    simp only [growBlocks, Except.ok.injEq, Prod.mk.injEq, and_true] at h
    subst h
    exact ⟨.inl rfl, hb, fun _ _ => rfl, fun j h1 h2 => absurd h2 (by omega), fun _ _ => rfl, fun S => .refl S _⟩
  | n + 1, k, st, st', h, hb, hz => by
    simp only [growBlocks, bind_ok] at h
    obtain ⟨⟨r, vol1⟩, ha, h⟩ := h
    obtain _ | lba := r
    · simp at h
    simp only [bind_ok, inBounds_ok] at h
    obtain ⟨inode1, hi, _, hk, vol2, hs, h⟩ := h
    obtain ⟨hb1, hnew⟩ := hb.alloc ha (by omega) (hz k le_rfl hk)
    obtain ⟨hbm, hdi⟩ := bitmapSync_block hnew.idx_lt hs
    -- the layout after this round is the old one with slot `k` set
    have hlay := setDirect_layout st.all hk hi
    have ih := growBlocks_spec n (k + 1) _ st' h
      (by simp only; rw [hlay]; exact hb1.congr hbm fun _ _ => rfl)
      (fun j h1 h2 => by
        simp only; rw [hlay, Blocks.set, update_of_ne (by omega)]
        exact hz j (by omega) h2)
    have hset : ∀ j, j ≠ k → memLayout inode1 (st.all.set k (.ofNat lba)) j = memLayout st.inode st.all j := by
      intro j hj
      rw [hlay, Blocks.set, update_of_ne hj]
    refine ⟨.inr (by have := ih.le; omega), ih.books, ?_, ?_, ?_, ?_⟩
    · intro j hj
      rw [ih.old j (by omega), hset j (by omega)]
    · intro j h1 h2
      by_cases hj : j = k
      · subst hj
        rw [ih.kept j (by omega), ih.old j (by omega), hlay]
        simp only [Blocks.set, update_self]
        exact ⟨hnew.ne_zero, trivial⟩
      · exact ih.new j (by omega) (by omega)
    · intro j hj
      rw [ih.kept j (by omega)]
      exact update_of_ne (by omega) _ _
    · intro S
      rw [← (blockBitmapAlloc_spec ha).2.2.2]
      exact (hdi S).trans (ih.disk S)

theorem Grown.data {n : Nat} {st st' : Writing part} (h : Grown base own no k n st st')
    (hl : ∀ j < 140, memLayout st.inode st.all j ≠ 0 ↔ j < k) :
    ∀ j < 140, memLayout st'.inode st'.all j ≠ 0 ↔ j < k + n := by
  intro j hj
  by_cases hnew : k ≤ j ∧ j < k + n
  · rw [← (h.new j hnew.1 hnew.2).2]
    exact iff_of_true (h.new j hnew.1 hnew.2).1 hnew.2
  · rw [h.old j (by omega), hl j hj]
    omega

/-! ## The indirect table -/

theorem memLayout_mid (i : Inode) (all : Blocks) (h1 : 12 ≤ j) (h2 : j < 140) : memLayout i all j = all j := by
  unfold memLayout
  rw [if_neg (by omega), if_neg (by omega)]

theorem memLayout_table (i : Inode) (all : Blocks) : memLayout i all 140 = i.sec 12 := by simp [memLayout]

theorem memLayout_low (i : Inode) (all : Blocks) (h : j < 12) : memLayout i all j = i.sec j := if_pos h

theorem memLayout_congr (i : Inode) {all' : Blocks} (h : ∀ j, 12 ≤ j → j < 140 → all' j = all j) :
    ∀ j ≤ 140, memLayout i all' j = memLayout i all j := by
  intro j hj
  unfold memLayout
  by_cases h1 : j < 12
  · simp [h1]
  · by_cases h2 : j = 140
    · simp [h2]
    · simp [h1, h2, h j (by omega) (by omega)]

theorem memLayout_setTable (i : Inode) (all : Blocks) (a : UInt32) :
    memLayout (i.setSec 12 a) all = (memLayout i all).set 140 a := by
  funext j
  by_cases h : j = 140
  · subst h; simp [memLayout, Blocks.set]
  · by_cases h' : j < 12
    · simp [memLayout, Blocks.set, h, h', show j ≠ 12 by omega]
    · simp [memLayout, Blocks.set, h, h']

theorem slotAddr_of_no_table (h12 : i.sec 12 = 0) (hz : ∀ j, 12 ≤ j → j < 140 → all j = 0) :
    ∀ j ≤ 140, memLayout i all j = slotAddr disk i j :=
  memLayout_congr i fun j h1 h2 => by rw [hz j h1 h2, tableOf, if_pos h12]

theorem loadTable_mid {all' : Blocks} (h12 : i.sec 12 ≠ 0)
    (h : loadTable b disk (i.sec 12) all = .ok all') :
    ∀ j, 12 ≤ j → j < 140 → all' j = tableOf disk i j := by
  intro j h1 h2
  simp only [loadTable, bind_ok, pure_ok, Except.ok.injEq] at h
  obtain ⟨buf, hbuf, rfl⟩ := h
  simp only [h1, h2, and_self, ite_true, tableOf, h12, ite_false, ideRead_ok hbuf]
  rw [word_blit_in (by omega) (by omega)]
  congr 1

theorem storeTable_mid {disk' : Mem} (h12 : i.sec 12 ≠ 0)
    (h : storeTable b disk (i.sec 12) all = .ok disk') :
    ∀ j, 12 ≤ j → j < 140 → tableOf disk' i j = all j := by
  intro j h1 h2
  simp only [tableOf, h12, ite_false, ideWrite_ok h]
  rw [word_blit_in (by omega) (by omega),
    show 0 + (512 * (i.sec 12).toNat + 4 * (j - 12) - 512 * (i.sec 12).toNat) = 4 * (j - 12) by omega,
    word_wordBytes, show j - 12 + 12 = j by omega]

/-! ## Collecting the blocks of a write -/

/-- The state in which the data loop starts. -/
structure Collected (base : Nat → Prop) (own : UInt32 × Nat → Option Nat) (no : UInt32) (has will : Nat)
    (st st' : Writing part) : Prop where
  laid : Laid (slotAddr st'.vol.disk st'.inode) will
  books : Books base own no st'.vol (slotAddr st'.vol.disk st'.inode)
  old : ∀ j < has, slotAddr st'.vol.disk st'.inode j = slotAddr st.vol.disk st.inode j
  all : ∀ j, has ≤ j + 1 → j < will → st'.all j = slotAddr st'.vol.disk st'.inode j
  disk : SameOutside part (· = (slotAddr st'.vol.disk st'.inode 140).toNat) st.vol.disk st'.vol.disk

section
variable {has will : Nat} {st st1 st2 st' : Writing part}

theorem Grown.collected (hg : Grown base own no has (will - has) st1 st2) (hle : has ≤ will) (hw : will ≤ 140)
    (hpos : 1 ≤ has) (hda : ∀ j < 140, memLayout st1.inode st1.all j ≠ 0 ↔ j < has)
    (htab : memLayout st1.inode st1.all 140 ≠ 0 ↔ 12 < will)
    (hl : st1.all (has - 1) = memLayout st1.inode st1.all (has - 1))
    (hold : ∀ j < has, memLayout st1.inode st1.all j = slotAddr st.vol.disk st.inode j)
    (hfin : ∀ j ≤ 140, slotAddr st'.vol.disk st'.inode j = memLayout st2.inode st2.all j)
    (hall : st'.all = st2.all) (hbm : st'.vol.blockBitmap = st2.vol.blockBitmap)
    (hdi : SameOutside part (· = (slotAddr st'.vol.disk st'.inode 140).toNat) st.vol.disk st'.vol.disk) :
    Collected base own no has will st st' := by
  refine ⟨⟨hw, ?_, ?_⟩, hg.books.congr hbm hfin, ?_, ?_, hdi⟩
  · intro j hj
    rw [hfin j (by omega), hg.data hda j hj]
    omega
  · rw [hfin 140 le_rfl, hg.old 140 (by omega), htab]
  · intro j hj
    rw [hfin j (by omega), hg.old j (by omega), hold j hj]
  · intro j h1 h2
    rw [hfin j (by omega), hall]
    by_cases hj : has ≤ j
    · exact (hg.new j hj (by omega)).2
    · rw [show j = has - 1 by omega, hg.kept _ (by omega), hg.old _ (by omega), hl]

theorem Grown.stored {disk : Mem} (hg : Grown base own no has (will - has) st1 st2) (hle : has ≤ will)
    (hw : will ≤ 140) (hind : 12 < will) (hpos : 1 ≤ has)
    (hda : ∀ j < 140, memLayout st1.inode st1.all j ≠ 0 ↔ j < has) (h12 : st1.inode.sec 12 ≠ 0)
    (hl : st1.all (has - 1) = memLayout st1.inode st1.all (has - 1))
    (hold : ∀ j < has, memLayout st1.inode st1.all j = slotAddr st.vol.disk st.inode j)
    (hd1 : st1.vol.disk = st.vol.disk)
    (hs : storeTable b st2.vol.disk (st2.inode.sec 12) st2.all = .ok disk) :
    Collected base own no has will st (st2.setDisk disk) := by
  have h12' : st2.inode.sec 12 = st1.inode.sec 12 := by
    rw [← memLayout_table st2.inode st2.all, hg.old 140 (by omega), memLayout_table]
  refine hg.collected hle hw hpos hda (iff_of_true (by rw [memLayout_table]; exact h12) hind) hl hold
    ?_ rfl rfl ?_
  · have hne : st2.inode.sec 12 ≠ 0 := by rw [h12']; exact h12
    exact memLayout_congr _ (storeTable_mid hne hs)
  · rw [slotAddr, memLayout_table, ← hd1]
    exact (hg.disk _).trans (ideWrite_same hs)

theorem keepBlock_ok {k : Nat} (h : keepBlock st k = .ok st') :
    st' = { st with all := st.all.set k (st.inode.sec k) } := by
  simp only [keepBlock, bind_ok, pure_ok, Except.ok.injEq] at h
  obtain ⟨_, _, h⟩ := h
  exact h.symm

inductive Situation (b : Build) (has will : Nat) (st : Writing part) : Writing part → Prop
  | same (heq : will = has) (hlow : will ≤ 12) :
    Situation b has will st { st with all := st.all.set (has - 1) (st.inode.sec (has - 1)) }
  | sameIndirect {all : Blocks} (heq : will = has) (hhigh : 12 < will)
    (hload : loadTable b st.vol.disk (st.inode.sec 12) st.all = .ok all) : Situation b has will st { st with all }
  | direct {st' : Writing part} (hne : will ≠ has) (hlow : will ≤ 12)
    (hgrow : growBlocks b (will - has) has { st with all := st.all.set (has - 1) (st.inode.sec (has - 1)) } =
      .ok (st', true)) : Situation b has will st st'
  | crossing {lba : Nat} {vol1 : Volume part} {st2 : Writing part} {disk : Mem} (hhigh : 12 < will) (hlow : has ≤ 12)
    (halloc : blockBitmapAlloc b st.vol = .ok (some lba, vol1))
    (hgrow : growBlocks b (will - has) has ⟨vol1, st.inode.setSec 12 (.ofNat lba), st.fdPos,
      st.all.set (has - 1) (st.inode.sec (has - 1))⟩ = .ok (st2, true))
    (hstore : storeTable b st2.vol.disk (st2.inode.sec 12) st2.all = .ok disk) :
    Situation b has will st (st2.setDisk disk)
  | indirect {all : Blocks} {st2 : Writing part} {disk : Mem} (hne : will ≠ has) (hhigh : 12 < has)
    (hload : loadTable b st.vol.disk (st.inode.sec 12) st.all = .ok all)
    (hgrow : growBlocks b (will - has) has { st with all } = .ok (st2, true))
    (hstore : storeTable b st2.vol.disk (st2.inode.sec 12) st2.all = .ok disk) :
    Situation b has will st (st2.setDisk disk)

theorem collectBlocks_cases (h : collectBlocks b st has will = .ok (st', true)) : Situation b has will st st' := by
  unfold collectBlocks at h
  split at h
  · rename_i heq
    split at h
    · simp only [bind_ok, pure_ok, Except.ok.injEq, Prod.mk.injEq, and_true] at h
      obtain ⟨st1, hk, rfl⟩ := h
      rw [keepBlock_ok hk]
      exact .same heq ‹_›
    · simp only [bind_ok, pure_ok, Except.ok.injEq, Prod.mk.injEq, and_true] at h
      obtain ⟨_, _, all, hl, rfl⟩ := h
      exact .sameIndirect heq (by omega) hl
  · split at h
    · simp only [bind_ok] at h
      obtain ⟨_, _, _, _, st1, hk, hg⟩ := h
      rw [keepBlock_ok hk] at hg
      exact .direct ‹_› ‹_› hg
    · split at h
      · simp only [bind_ok] at h
        obtain ⟨st1, hk, ⟨r, vol1⟩, ha, h⟩ := h
        rw [keepBlock_ok hk] at ha h
        obtain _ | lba := r
        · simp at h
        simp only [bind_ok] at h
        obtain ⟨_, _, ⟨st2, ok⟩, hg, h⟩ := h
        cases ok with
        | false => simp at h
        | true =>
          simp only [ite_true, bind_ok, pure_ok, Except.ok.injEq, Prod.mk.injEq, and_true] at h
          obtain ⟨disk, hs, rfl⟩ := h
          exact .crossing (by omega) ‹_› ha hg hs
      · simp only [bind_ok] at h
        obtain ⟨_, _, all, hl, ⟨st2, ok⟩, hg, h⟩ := h
        cases ok with
        | false => simp at h
        | true =>
          simp only [ite_true, bind_ok, pure_ok, Except.ok.injEq, Prod.mk.injEq, and_true] at h
          obtain ⟨disk, hs, rfl⟩ := h
          exact .indirect ‹_› (by omega) hl hg hs

theorem collectBlocks_spec (hl : Laid (slotAddr st.vol.disk st.inode) has)
    (hb : Books base own no st.vol (slotAddr st.vol.disk st.inode)) (hz : st.all = fun _ => 0)
    (hpos : 1 ≤ has) (hle : has ≤ will) (hw : will ≤ 140)
    (h : collectBlocks b st has will = .ok (st', true)) : Collected base own no has will st st' := by
  have hda : ∀ {all : Blocks}, (∀ j ≤ 140, memLayout st.inode all j = slotAddr st.vol.disk st.inode j) →
      ∀ j < 140, memLayout st.inode all j ≠ 0 ↔ j < has := fun hall j hj => by
    rw [hall j (by omega), hl.data j hj]
  have ht : st.inode.sec 12 ≠ 0 ↔ 12 < has := by rw [← hl.table, slotAddr, memLayout_table]
  -- `all_blocks` after the last block in use was put into it
  have hk : has ≤ 12 → ∀ j ≤ 140,
      memLayout st.inode (st.all.set (has - 1) (st.inode.sec (has - 1))) j = slotAddr st.vol.disk st.inode j := by
    intro hh
    refine slotAddr_of_no_table (by by_contra hne; have := ht.mp hne; omega) fun j h1 _ => ?_
    rw [Blocks.set, update_of_ne (by omega), hz]
  have hla : has ≤ 12 → st.all.set (has - 1) (st.inode.sec (has - 1)) (has - 1) =
      memLayout st.inode (st.all.set (has - 1) (st.inode.sec (has - 1))) (has - 1) := fun hh => by
    rw [memLayout_low _ _ (by omega), Blocks.set, update_self]
  cases collectBlocks_cases h with
  | same heq hh =>
    subst heq
    refine ⟨hl, hb, fun _ _ => rfl, fun j h1 h2 => ?_, .refl _ _⟩
    rw [show j = will - 1 by omega]
    exact (hla hh).trans (hk hh _ (by omega))
  | sameIndirect heq hh hlo =>
    subst heq
    refine ⟨hl, hb, fun _ _ => rfl, fun j h1 h2 => ?_, .refl _ _⟩
    refine (loadTable_mid (ht.mpr (by omega)) hlo j (by omega) (by omega)).trans ?_
    exact (memLayout_mid _ _ (by omega) (by omega)).symm
  | direct hne hh hgr =>
    have hlay := hk (by omega)
    have hg := growBlocks_spec _ _ _ _ hgr
      (hb.congr rfl hlay) (fun j h1 h2 => by
        by_contra hc; have := (hda hlay j h2).mp hc; omega)
    have h12 : st'.inode.sec 12 = 0 := by
      rw [← memLayout_table st'.inode st'.all, hg.old 140 (by omega), memLayout_table]
      by_contra hc; have := ht.mp hc; omega
    have hze : ∀ j, 12 ≤ j → j < 140 → st'.all j = 0 := fun j h1 h2 => by
      rw [← memLayout_mid st'.inode st'.all h1 h2]
      by_contra hc
      have := (hg.data (hda hlay) j h2).mp hc
      omega
    refine hg.collected hle hw hpos (hda hlay) ?_ (hla (by omega)) (fun j hj => hlay j (by omega))
      (fun j hj => (slotAddr_of_no_table h12 hze j hj).symm) rfl rfl (hg.disk _)
    simp only [memLayout_table]
    rw [ht]; omega
  | @crossing lba _ _ _ hh hle2 ha hgr hs =>
    have hlay := hk hle2
    have hno : st.inode.sec 12 = 0 := by by_contra hc; have := ht.mp hc; omega
    obtain ⟨hb1, hnew⟩ := (hb.congr rfl hlay).alloc ha le_rfl
      (by rw [memLayout_table]; exact hno)
    rw [← memLayout_setTable] at hb1
    have hset : ∀ j < 140, memLayout (st.inode.setSec 12 (.ofNat lba))
        (st.all.set (has - 1) (st.inode.sec (has - 1))) j = slotAddr st.vol.disk st.inode j := by
      intro j hj
      rw [memLayout_setTable, Blocks.set, update_of_ne (by omega), hlay j (by omega)]
    have hg := growBlocks_spec _ _ _ _ hgr hb1 (fun j h1 h2 => by
      by_contra hc
      simp only [hset j h2] at hc
      have := (hl.data j h2).mp hc; omega)
    refine hg.stored hle hw hh hpos (fun j hj => by rw [hset j hj]; exact hl.data j hj) ?_ ?_
      (fun j hj => hset j (by omega)) (blockBitmapAlloc_spec ha).2.2.2 hs
    · simpa using hnew.ne_zero
    · refine (hla hle2).trans ?_
      rw [hlay _ (by omega), hset _ (by omega)]
  | indirect hne hgt hlo hgr hs =>
    have h12 := ht.mpr (by omega)
    have hlay := memLayout_congr st.inode (loadTable_mid h12 hlo)
    have hg := growBlocks_spec _ _ _ _ hgr (hb.congr rfl hlay) (fun j h1 h2 => by
      by_contra hc; have := (hda hlay j h2).mp hc; omega)
    exact hg.stored hle hw (by omega) hpos (hda hlay) h12
      (memLayout_mid _ _ (by omega) (by omega)).symm (fun j hj => hlay j (by omega)) rfl hs

theorem collectBlocks_table_le (h : collectBlocks .debug st has will = .ok (st', true)) (hh : 12 < will) :
    (st'.inode.sec 12).toNat ≤ maxLba := by
  cases collectBlocks_cases h with
  | same _ hlow => omega
  | sameIndirect _ _ hlo =>
    simp only [loadTable, ideRead, bind_ok, assert_debug_ok] at hlo
    obtain ⟨_, ⟨_, hl, _⟩, _⟩ := hlo
    exact hl
  | direct _ hlow => omega
  | crossing _ _ _ _ hs =>
    simp only [storeTable, ideWrite, bind_ok, assert_debug_ok] at hs
    obtain ⟨_, hl, _⟩ := hs
    exact hl
  | indirect _ _ _ _ hs =>
    simp only [storeTable, ideWrite, bind_ok, assert_debug_ok] at hs
    obtain ⟨_, hl, _⟩ := hs
    exact hl

end

/-! ## The first block -/

theorem firstBlock_spec {n : Nat} {st st' : Writing part} (h : firstBlock b st = .ok (st', true))
    (hl : Laid (slotAddr st.vol.disk st.inode) (if st.inode.sec 0 = 0 then 0 else n + 1))
    (he : st.inode.sec 0 = 0 → n = 0) (hb : Books base own no st.vol (slotAddr st.vol.disk st.inode)) :
    Laid (slotAddr st'.vol.disk st'.inode) (n + 1) ∧
      Books base own no st'.vol (slotAddr st'.vol.disk st'.inode) ∧
      (∀ S, SameOutside part S st.vol.disk st'.vol.disk) ∧ (st.inode.sec 0 ≠ 0 → st' = st) := by
  unfold firstBlock at h
  split at h
  · rename_i h0
    simp only [bind_ok] at h
    obtain ⟨⟨r, vol1⟩, ha, h⟩ := h
    obtain _ | lba := r
    · simp at h
    simp only [bind_ok, pure_ok, Except.ok.injEq, Prod.mk.injEq, and_true] at h
    obtain ⟨_, _, vol2, hs, rfl⟩ := h
    rw [if_pos h0] at hl
    rw [he h0]
    have hz : ∀ j ≤ 140, slotAddr st.vol.disk st.inode j = 0 := by
      intro j hj
      by_contra hc
      by_cases hj' : j = 140
      · subst hj'; exact absurd (hl.table.mp hc) (by omega)
      · exact absurd ((hl.data j (by omega)).mp hc) (by omega)
    have h12 : st.inode.sec 12 = 0 := by rw [← memLayout_table st.inode]; exact hz 140 le_rfl
    obtain ⟨hb1, hnew⟩ := hb.alloc ha (Nat.zero_le _) (hz 0 (by omega))
    obtain ⟨hbm, hdi⟩ := bitmapSync_block hnew.idx_lt hs
    have hlay : ∀ j ≤ 140, slotAddr vol2.disk (st.inode.setSec 0 (.ofNat lba)) j =
        (slotAddr st.vol.disk st.inode).set 0 (.ofNat lba) j := by
      have h12' : (st.inode.setSec 0 (.ofNat lba)).sec 12 = 0 := by simpa using h12
      have hset : ∀ j ≤ 140, memLayout (st.inode.setSec 0 (.ofNat lba)) (Blocks.set (fun _ => 0) 0 (.ofNat lba)) j =
          slotAddr vol2.disk (st.inode.setSec 0 (.ofNat lba)) j :=
        slotAddr_of_no_table h12' fun j h1 _ => update_of_ne (by omega) _ _
      intro j hj
      rw [← hset j hj, memLayout_direct _ _ _ (by omega)]
      by_cases hj0 : j = 0
      · subst hj0; simp [Blocks.set]
      · simp only [Blocks.set, update_of_ne hj0]
        exact slotAddr_of_no_table h12 (fun _ _ _ => rfl) j hj
    refine ⟨⟨by omega, ?_, ?_⟩, hb1.congr hbm hlay, ?_, fun hne => absurd h0 hne⟩
    · intro j hj
      rw [hlay j (by omega)]
      by_cases hj0 : j = 0
      · subst hj0; simp [Blocks.set, hnew.ne_zero]
      · simp only [Blocks.set, update_of_ne hj0, hz j (by omega)]
        simp [hj0]
    · rw [hlay 140 le_rfl, Blocks.set, update_of_ne (by omega), hz 140 le_rfl]
      simp
    · intro S
      rw [← (blockBitmapAlloc_spec ha).2.2.2]
      exact hdi S
  · rename_i h0
    simp only [pure_ok, Except.ok.injEq, Prod.mk.injEq, and_true] at h
    subst h
    rw [if_neg h0] at hl
    exact ⟨hl, hb, fun S => .refl S _, fun _ => rfl⟩

end

end OperateSystem
