import OperateSystem.FileBlocks

/-!
# Reading and writing are right

One call of `file_write` appends the buffer to the file's contents, extends its
layout and changes no data sector outside the layout. One call of `file_read`
delivers a slice of the contents.
-/

namespace OperateSystem

open Function

section
variable {part : Partition} {base : Nat → Prop} {own : UInt32 × Nat → Option Nat} {no : UInt32} {b : Build}
variable {l : Blocks} {i : Inode} {F buf d disk : Mem} {n will : Nat} {count pos : UInt32}
variable {st st' : Writing part}

/-! ## The data loop -/

def Holds (disk : Mem) (l : Blocks) (F : Mem) (n : Nat) : Prop :=
  ∀ k < n, disk (512 * (l (k / 512)).toNat + k % 512) = F k

theorem Holds.chunk {io : Mem} {w c : Nat} (h : Holds d l F n) (hc : c ≤ 512 - n % 512)
    (hio : ∀ k < n % 512, io k = d (512 * (l (n / 512)).toNat + k))
    (hF : ∀ t < c, F (n + t) = buf (w + t)) (hl : ∀ q < n / 512, (l q).toNat ≠ (l (n / 512)).toNat) :
    Holds (blit d (512 * (l (n / 512)).toNat) (blit io (n % 512) buf w c) 0 (512 * 1)) l F (n + c) := by
  intro k hk
  by_cases hq : k / 512 = n / 512
  · rw [hq, blit_in (by omega) (by omega), Nat.add_sub_cancel_left, Nat.zero_add]
    by_cases hkn : k < n
    · rw [blit_out (by omega), hio _ (by omega), ← h k hkn, hq]
    · rw [blit_in (by omega) (by omega), show k = n + (k - n) by omega, hF _ (by omega)]
      congr 1; omega
  · have hlt : k / 512 < n / 512 := by omega
    have := hl _ hlt
    rw [blit_out (by omega), h k (by omega)]

theorem writeData_ends {buf : Mem} {count : Nat} : ∀ (fuel w : Nat) (first : Bool) (st st' : Writing part),
    writeData b buf count fuel w first st = .ok st' → count ≤ w + fuel →
    st'.inode.iSize.toNat = st.inode.iSize.toNat + (count - w) ∧ st'.fdPos - st'.inode.iSize = st.fdPos - st.inode.iSize ∧
    st'.inode.iNo = st.inode.iNo ∧ (st.inode.iSize.toNat ≤ 71680 → st'.inode.iSize.toNat ≤ 71680)
  | 0, w, first, st, st', h, hf => by
    cases h
    exact ⟨by omega, rfl, rfl, id⟩
  | fuel + 1, w, first, st, st', h, hf => by
    unfold writeData at h
    split at h
    · simp only [bind_ok, inBounds_ok] at h
      obtain ⟨_, hidx, _, -, _, -, h⟩ := h
      have hsz : (st.inode.iSize + .ofNat (min (count - w) (512 - st.inode.iSize.toNat % 512))).toNat =
          st.inode.iSize.toNat + min (count - w) (512 - st.inode.iSize.toNat % 512) :=
        toNat_add_ofNat (by omega)
      obtain ⟨hs, hpos, hno, hle⟩ := writeData_ends fuel _ _ _ _ h (by omega)
      refine ⟨?_, hpos.trans ?_, hno, fun _ => hle ?_⟩
      · rw [hs]
        show (st.inode.iSize + _).toNat + _ = _
        rw [hsz]
        omega
      · show st.fdPos + _ - (st.inode.iSize + _) = st.fdPos - st.inode.iSize
        grind
      · show (st.inode.iSize + _).toNat ≤ _
        rw [hsz]
        omega
    · cases h
      exact ⟨by omega, rfl, rfl, id⟩

/-- The file's first `size + count` bytes are those of `F`, and only its sectors change. -/
structure Written (l : Blocks) (will : Nat) (F : Mem) (n : Nat) (st st' : Writing part) : Prop where
  inode : st'.inode = { st.inode with iSize := .ofNat n }
  bitmap : st'.vol.blockBitmap = st.vol.blockBitmap
  holds : Holds st'.vol.disk l F n
  disk : SameOutside part (fun x => ∃ j < will, x = (l j).toNat) st.vol.disk st'.vol.disk

theorem writeData_spec {buf F : Mem} {count will s : Nat} {l : Blocks} (hinj : ∀ i < will, ∀ j < will, i ≠ j →
    (l i).toNat ≠ (l j).toNat) (hsm : s + count < 512 * will) (hwi : will ≤ 140)
    (hF : ∀ t < count, F (s + t) = buf t) : ∀ (fuel w : Nat) (first : Bool) (st st' : Writing part),
    writeData b buf count fuel w first st = .ok st' → count ≤ w + fuel → w ≤ count →
    st.inode.iSize.toNat = s + w → (first = false → w < count → (s + w) % 512 = 0) →
    (∀ j, (s + w) / 512 ≤ j → j < will → st.all j = l j) → Holds st.vol.disk l F (s + w) →
    Written l will F (s + count) st st'
  | 0, w, first, st, st', h, hf, hw, hs, _, _, hh => by
    simp only [writeData, Except.ok.injEq] at h
    subst h
    have hwc : w = count := by omega
    subst hwc
    exact ⟨by rw [← hs, UInt32.ofNat_toNat], rfl, hh, .refl _ _⟩
  | fuel + 1, w, first, st, st', h, hf, hw, hs, hfi, hall, hh => by
    unfold writeData at h
    split at h
    · rename_i hlt
      simp only [bind_ok, inBounds_ok, hs] at h
      obtain ⟨_, hidx, io, hio, d, hd, h⟩ := h
      rw [hall ((s + w) / 512) le_rfl (by omega)] at hio hd
      generalize hc : min (count - w) (512 - (s + w) % 512) = c at *
      have hcp : 0 < c := by omega
      -- the front of the buffer is the old sector, or there is no front
      have hfr : ∀ k < (s + w) % 512, io k = st.vol.disk (512 * (l ((s + w) / 512)).toNat + k) := by
        intro k hk
        cases first with
        | false => have := hfi rfl hlt; omega
        | true =>
          rw [ideRead_ok hio, blit_in (by omega) (by omega)]
          rfl
      have hsz : (st.inode.iSize + .ofNat c).toNat = s + (w + c) := by
        rw [toNat_add_ofNat (by omega), hs, Nat.add_assoc]
      have hn : Holds d l F (s + (w + c)) := by
        rw [ideWrite_ok hd, ← Nat.add_assoc]
        refine hh.chunk (by omega) hfr (fun t ht => ?_) (fun q hq => hinj _ (by omega) _ (by omega) (by omega))
        rw [Nat.add_assoc]; exact hF _ (by omega)
      have ih := writeData_spec hinj hsm hwi hF fuel (w + c) false _ st' h (by omega) (by omega) hsz
        (fun _ _ => by omega) (fun j h1 h2 => hall j (by omega) h2) hn
      refine ⟨ih.inode, ih.bitmap, ih.holds, SameOutside.trans ?_ ih.disk⟩
      exact (ideWrite_same hd).mono fun x _ hx => ⟨(s + w) / 512, by omega, hx⟩
    · cases h
      have hwc : w = count := by omega
      subst hwc
      exact ⟨by rw [← hs, UInt32.ofNat_toNat], rfl, hh, .refl _ _⟩

/-! ## `file_write` -/

def Inode.SameId (i i' : Inode) : Prop := i'.iNo = i.iNo ∧ i'.iSize = i.iSize

theorem setDirect_sameId {i' : Inode} {k : Nat} {a : UInt32} (h : setDirect b i k a = .ok i') :
    i.SameId i' := by
  unfold setDirect at h
  split at h
  · simp only [bind_ok, pure_ok, Except.ok.injEq] at h
    obtain ⟨_, _, rfl⟩ := h
    exact ⟨rfl, rfl⟩
  · cases h
    exact ⟨rfl, rfl⟩

theorem firstBlock_sameId {r : Bool} (h : firstBlock b st = .ok (st', r)) :
    st.inode.SameId st'.inode ∧ st'.all = st.all := by
  unfold firstBlock at h
  split at h
  · simp only [bind_ok] at h
    obtain ⟨⟨r, vol1⟩, _, h⟩ := h
    cases r with
    | none => cases h; exact ⟨⟨rfl, rfl⟩, rfl⟩
    | some lba =>
      simp only [bind_ok, pure_ok, Except.ok.injEq, Prod.mk.injEq] at h
      obtain ⟨_, _, _, _, rfl, _⟩ := h
      exact ⟨⟨rfl, rfl⟩, rfl⟩
  · cases h; exact ⟨⟨rfl, rfl⟩, rfl⟩

theorem growBlocks_sameId : ∀ (n k : Nat) (st st' : Writing part) (r : Bool),
    growBlocks b n k st = .ok (st', r) → st.inode.SameId st'.inode
  | 0, k, st, st', r, h => by cases h; exact ⟨rfl, rfl⟩
  | n + 1, k, st, st', r, h => by
    simp only [growBlocks, bind_ok] at h
    obtain ⟨⟨a, vol1⟩, _, h⟩ := h
    cases a with
    | none => cases h; exact ⟨rfl, rfl⟩
    | some lba =>
      simp only [bind_ok] at h
      obtain ⟨i, hi, _, _, _, _, h⟩ := h
      have ih := growBlocks_sameId n _ _ st' r h
      have hi := setDirect_sameId hi
      exact ⟨ih.1.trans hi.1, ih.2.trans hi.2⟩

theorem collectBlocks_sameId {has : Nat} (h : collectBlocks b st has will = .ok (st', true)) :
    st.inode.SameId st'.inode := by
  cases collectBlocks_cases h with
  | same | sameIndirect => exact ⟨rfl, rfl⟩
  | direct _ _ hg =>
    have := growBlocks_sameId _ _ _ _ _ hg
    exact this
  | crossing _ _ _ hg | indirect _ _ _ hg =>
    have := growBlocks_sameId _ _ _ _ _ hg
    exact this

structure FileInv (disk : Mem) (i : Inode) (F : Mem) : Prop where
  laid : Laid (slotAddr disk i) (if i.sec 0 = 0 then 0 else i.iSize.toNat / 512 + 1)
  empty : i.sec 0 = 0 → i.iSize.toNat = 0
  table_le : (i.sec 12).toNat ≤ maxLba
  holds : Holds disk (slotAddr disk i) F i.iSize.toNat

theorem FileInv.size_le (h : FileInv disk i F) : i.iSize.toNat ≤ 71680 := by
  by_cases h0 : i.sec 0 = 0
  · have := h.empty h0; omega
  · have := h.laid.le
    rw [if_neg h0] at this; omega

theorem FileInv.block_ne_zero (h : FileInv disk i F) {k : Nat} (hk : k < i.iSize.toNat) :
    k / 512 < 140 ∧ slotAddr disk i (k / 512) ≠ 0 := by
  have h0 : i.sec 0 ≠ 0 := fun h0 => by have := h.empty h0; omega
  have hl := h.laid
  rw [if_neg h0] at hl
  have := hl.le
  exact ⟨by omega, (hl.data _ (by omega)).mpr (by omega)⟩

theorem Laid.congr {l' : Blocks} (h : Laid l n) (hl : ∀ j ≤ 140, l' j = l j) : Laid l' n :=
  ⟨h.le, fun j hj => by rw [hl j (by omega)]; exact h.data j hj, by rw [hl 140 le_rfl]; exact h.table⟩

theorem Holds.congr {d' F' : Mem} {l' : Blocks} (h : Holds d l F n)
    (hl : ∀ k < n, l' (k / 512) = l (k / 512)) (hF : ∀ k < n, F' k = F k)
    (hd : ∀ k < n, ∀ t < 512, d' (512 * (l (k / 512)).toNat + t) = d (512 * (l (k / 512)).toNat + t)) :
    Holds d' l' F' n := fun k hk => by
  rw [hl k hk, hd k hk _ (Nat.mod_lt _ (by omega)), h k hk, hF k hk]

theorem slotAddr_congr {d' : Mem} {i' : Inode} (hi : ∀ k, i'.sec k = i.sec k)
    (hd : i.sec 12 ≠ 0 → ∀ t < 512, d' (512 * (i.sec 12).toNat + t) = d (512 * (i.sec 12).toNat + t)) :
    ∀ j ≤ 140, slotAddr d' i' j = slotAddr d i j := by
  intro j hj
  unfold slotAddr memLayout tableOf
  simp only [hi]
  split
  · rfl
  · split
    · rfl
    · split
      · rfl
      · rename_i _ _ h12
        exact word_congr fun t ht => by rw [Nat.add_assoc]; exact hd h12 _ (by omega)

structure Appends (base : Nat → Prop) (own : UInt32 × Nat → Option Nat) (no : UInt32) (F buf : Mem) (count : Nat)
    (vol vol' : Volume part) (i i' : Inode) : Prop where
  iNo : i'.iNo = i.iNo
  size : i'.iSize.toNat = i.iSize.toNat + count
  inv : FileInv vol'.disk i' (blit F i.iSize.toNat buf 0 count)
  books : Books base own no vol' (slotAddr vol'.disk i')
  disk : SameOutside part (fun x => ∃ j, slotOwner (slotAddr vol'.disk i') j = some x) vol.disk vol'.disk

theorem writeBlocks_cases {b : Build} {vol : Volume part} {mem : Buffers}
    (h : writeBlocks b vol i pos buf count mem = .ok (st', true)) :
    assert b ((i.iSize + count).toNat / 512 + 1 ≤ 140) "file_will_use_blocks <= 140" = .ok () ∧ ∃ st1 st2,
      firstBlock b ⟨vol, i, pos, fun _ => 0⟩ = .ok (st1, true) ∧
      collectBlocks b st1 (i.iSize.toNat / 512 + 1) ((i.iSize + count).toNat / 512 + 1) = .ok (st2, true) ∧
      writeData b buf count.toNat count.toNat 0 true { st2 with fdPos := st2.inode.iSize - 1 } = .ok st' := by
  unfold writeBlocks at h
  simp only at h
  split at h
  · simp at h
  split at h
  · simp at h
  simp only [bind_ok] at h
  obtain ⟨⟨st1, ok1⟩, h1, h⟩ := h
  obtain _ | _ := ok1
  · simp at h
  simp only [Bool.true_eq_false, ite_false, bind_ok] at h
  obtain ⟨_, hw, ⟨st2, ok2⟩, h2, h⟩ := h
  cases ok2 with
  | false => simp at h
  | true =>
    simp only [Bool.true_eq_false, ite_false, bind_ok, pure_ok, Except.ok.injEq, Prod.mk.injEq, and_true] at h
    obtain ⟨st3, h3, rfl⟩ := h
    exact ⟨hw, st1, st2, h1, h2, h3⟩

theorem fileWrite_ok {b : Build} {vol : Volume part} {mem : Buffers} {ret : Option Nat}
    (h : fileWrite b vol i pos buf count mem = .ok (st', ret)) :
    (ret = none ∧ writeBlocks b vol i pos buf count mem = .ok (st', false)) ∨
      ∃ st, ret = some count.toNat ∧ writeBlocks b vol i pos buf count mem = .ok (st, true) ∧
        st' = st.setDisk (blit st.vol.disk (part.inodeAddr (st.inode.iNo.toNat % 256)) st.inode.pure.toMem 0 76) := by
  unfold fileWrite fileWriteVia at h
  obtain ⟨⟨st, ok⟩, hw, h⟩ := bind_ok.mp h
  cases ok with
  | false =>
    cases h
    exact .inl ⟨rfl, hw⟩
  | true =>
    obtain ⟨disk, hs, h⟩ := bind_ok.mp h
    cases h
    rw [IoBufOwner.io, sized_sync, inodeSync_spec] at hs
    split at hs
    · cases hs
      exact .inr ⟨st, rfl, hw, rfl⟩
    · cases hs

theorem fileWrite_cases {vol : Volume part} {mem : Buffers}
    (h : fileWrite .debug vol i pos buf count mem = .ok (st', some n)) :
    n = count.toNat ∧ (i.iSize + count).toNat / 512 + 1 ≤ 140 ∧ ∃ st1 st2 st3,
      firstBlock .debug ⟨vol, i, pos, fun _ => 0⟩ = .ok (st1, true) ∧
      collectBlocks .debug st1 (i.iSize.toNat / 512 + 1) ((i.iSize + count).toNat / 512 + 1) = .ok (st2, true) ∧
      writeData .debug buf count.toNat count.toNat 0 true { st2 with fdPos := st2.inode.iSize - 1 } = .ok st3 ∧
      st' = st3.setDisk
        (blit st3.vol.disk (part.inodeAddr (st3.inode.iNo.toNat % 256)) st3.inode.pure.toMem 0 76) := by
  obtain ⟨hn, -⟩ | ⟨st3, hn, hw, hst⟩ := fileWrite_ok h
  · cases hn
  · cases hn
    obtain ⟨hwi, st1, st2, h1, h2, h3⟩ := writeBlocks_cases hw
    exact ⟨rfl, assert_debug_ok.mp hwi, st1, st2, st3, h1, h2, h3, hst⟩

theorem writeBlocks_iNo {b : Build} {vol : Volume part} {mem : Buffers}
    (h : writeBlocks b vol i pos buf count mem = .ok (st', true)) : st'.inode.iNo = i.iNo := by
  obtain ⟨-, st1, st2, h1, h2, h3⟩ := writeBlocks_cases h
  obtain ⟨-, -, hno, -⟩ := writeData_ends _ _ _ _ _ h3 (by omega)
  calc st'.inode.iNo = st2.inode.iNo := hno
    _ = st1.inode.iNo := (collectBlocks_sameId h2).1
    _ = i.iNo := (firstBlock_sameId h1).1.1

/-- The sector that `file_write` has a buffer for is not enough for an inode in two sectors. -/
theorem fileWrite_synced {b : Build} {vol : Volume part} {mem : Buffers}
    (h : writeBlocks b vol i pos buf count mem = .ok (st', true)) : fileWrite b vol i pos buf count mem =
      if Straddles (i.iNo.toNat % 256) then .error .outOfBounds
      else .ok (st'.setDisk (blit st'.vol.disk (part.inodeAddr (i.iNo.toNat % 256)) st'.inode.pure.toMem 0 76),
        some count.toNat) := by
  unfold fileWrite fileWriteVia
  rw [h, ok_bind, IoBufOwner.io]
  dsimp only
  rw [sized_sync, inodeSync_spec, writeBlocks_iNo h]
  unfold inodeBytes
  by_cases hs : Straddles (i.iNo.toNat % 256)
  · simp [hs, IoBufOwner.size]
  · simp [hs, IoBufOwner.size]

theorem Collected.holds {has : Nat} (hc : Collected base own no has will st st')
    (hl : Laid (slotAddr st.vol.disk st.inode) has) (hn : n ≤ 512 * has)
    (h : Holds st.vol.disk (slotAddr st.vol.disk st.inode) F n) :
    Holds st'.vol.disk (slotAddr st'.vol.disk st'.inode) F n := by
  have hle := hl.le
  refine h.congr (fun k hk => hc.old _ (by omega)) (fun _ _ => rfl) fun k hk => ?_
  have hne : slotAddr st'.vol.disk st'.inode (k / 512) ≠ 0 := by
    rw [hc.old _ (by omega)]; exact (hl.data _ (by omega)).mpr (by omega)
  rw [← hc.old (k / 512) (by omega)]
  refine hc.disk _ (hc.books.slot_inData (by omega) hne).1 fun he => ?_
  have := hc.books.slot_inj (by omega) le_rfl hne (UInt32.toNat.inj he)
  omega

theorem Partition.inode_below (part : Partition) {S : Nat → Prop} (disk src : Mem) (hn : n < 4096) :
    SameOutside part S disk (blit disk (part.inodeAddr n) src 0 76) := by
  have := part.inode_table_below
  refine .blit_below _ _ ?_
  unfold Partition.inodeAddr
  omega

theorem Written.slots (hw : Written (slotAddr st.vol.disk st.inode) will F n st st')
    (hl : Laid (slotAddr st.vol.disk st.inode) will)
    (hb : Books base own no st.vol (slotAddr st.vol.disk st.inode))
    (hd : ∀ S, SameOutside part S st'.vol.disk d) :
    ∀ j ≤ 140, slotAddr d st'.inode j = slotAddr st.vol.disk st.inode j := by
  have htab : slotAddr st.vol.disk st.inode 140 = st.inode.sec 12 := memLayout_table _ _
  refine slotAddr_congr (fun k => by rw [hw.inode]; rfl) fun h12 => ?_
  rw [← htab] at h12 ⊢
  refine (hw.disk.trans (hd _)) _ (hb.slot_inData le_rfl h12).1 ?_
  rintro ⟨j, hj, he⟩
  have := hl.le
  have := hb.slot_inj le_rfl (by omega) h12 (UInt32.toNat.inj he)
  omega

theorem fileWrite_spec {vol : Volume part} {mem : Buffers} (hinv : FileInv vol.disk i F)
    (hb : Books base own no vol (slotAddr vol.disk i))
    (h : fileWrite .debug vol i pos buf count mem = .ok (st', some n)) :
    n = count.toNat ∧ Appends base own no F buf count.toNat vol st'.vol i st'.inode := by
  obtain ⟨rfl, hwi, st1, st2, st3, h1, h2, h3, rfl⟩ := fileWrite_cases h
  refine ⟨rfl, ?_⟩
  obtain ⟨hid1, hall1⟩ := firstBlock_sameId h1
  have hid2 := collectBlocks_sameId h2
  have hsi : st2.inode.iSize = i.iSize := hid2.2.trans hid1.2
  -- the sum of the sizes has not wrapped around
  obtain ⟨hend, -, -, hbo⟩ := writeData_ends _ _ _ _ _ h3 (by omega)
  have hsum : (i.iSize + count).toNat = i.iSize.toNat + count.toNat := by
    have := hbo (by rw [hsi]; exact hinv.size_le)
    rw [hsi] at hend
    rw [UInt32.toNat_add]; omega
  rw [hsum] at h2 hwi
  obtain ⟨hl1, hb1, hd1, hs1⟩ := firstBlock_spec h1 hinv.laid
    (fun h0 => by have := hinv.empty h0; omega) hb
  have hc := collectBlocks_spec hl1 hb1 hall1 (by omega) (by omega) hwi h2
  generalize hs : i.iSize.toNat = s at *
  generalize hcnt : count.toNat = c at *
  have hh1 : Holds st1.vol.disk (slotAddr st1.vol.disk st1.inode) (blit F s buf 0 c) s := by
    by_cases h0 : i.sec 0 = 0
    · have := hinv.empty h0
      intro k hk; omega
    · rw [hs1 h0]
      have hh := hinv.holds
      rw [hs] at hh
      exact hh.congr (fun _ _ => rfl) (fun k hk => blit_out (.inl hk)) (fun _ _ _ _ => rfl)
  have hl := hc.laid
  have hb2 := hc.books
  have hh2 := hc.holds hl1 (by omega) hh1
  have hne : ∀ j < (s + c) / 512 + 1, slotAddr st2.vol.disk st2.inode j ≠ 0 := fun j hj =>
    (hl.data j (by omega)).mpr hj
  have hw := writeData_spec (l := slotAddr st2.vol.disk st2.inode) (F := blit F s buf 0 c) (s := s)
    (fun j hj k hk hjk he => hjk (hb2.slot_inj (by omega) (by omega) (hne j hj) (UInt32.toNat.inj he)))
    (by omega) hwi (fun t ht => by rw [blit_in (by omega) (by omega)]; congr 1; omega) _ _ _ _ _ h3 (by omega)
    (by omega) (by rw [hsi]; exact hs) (fun hf => by cases hf) (fun j hj hj' => hc.all j (by omega) hj') hh2
  replace hw : Written (slotAddr st2.vol.disk st2.inode) ((s + c) / 512 + 1) (blit F s buf 0 c) (s + c) st2 st3 :=
    ⟨hw.inode, hw.bitmap, hw.holds, hw.disk⟩
  have hd : ∀ S, SameOutside part S st3.vol.disk (blit st3.vol.disk (part.inodeAddr (st3.inode.iNo.toNat % 256))
      st3.inode.pure.toMem 0 76) := fun S => part.inode_below _ _ (by omega)
  generalize blit st3.vol.disk (part.inodeAddr (st3.inode.iNo.toNat % 256)) st3.inode.pure.toMem 0 76 = d at *
  have hsl := hw.slots hl hb2 hd
  have hs3 : st3.inode.iSize.toNat = s + c := by
    rw [hw.inode]; simp only [UInt32.toNat_ofNat']; omega
  have h0 : st3.inode.sec 0 ≠ 0 := by
    rw [hw.inode]; exact hne 0 (by omega)
  have htab : slotAddr st2.vol.disk st2.inode 140 = st2.inode.sec 12 := memLayout_table _ _
  refine ⟨?_, by rw [hs]; exact hs3, ⟨?_, fun h => absurd h h0, ?_, ?_⟩, hb2.congr hw.bitmap hsl, ?_⟩
  · simp only [Writing.setDisk, hw.inode]
    exact hid2.1.trans hid1.1
  · simp only [Writing.setDisk, h0, ite_false, hs3]
    exact hl.congr hsl
  · simp only [Writing.setDisk, hw.inode]
    by_cases hhi : 12 < (s + c) / 512 + 1
    · exact collectBlocks_table_le h2 hhi
    · have hz : st2.inode.sec 12 = 0 := by
        rw [← htab]
        by_contra hc
        exact hhi (hl.table.mp hc)
      simp only [Inode.sec] at hz ⊢
      rw [hz]
      exact Nat.zero_le _
  · simp only [Writing.setDisk, hs3, hs]
    refine hw.holds.congr (fun k hk => hsl _ (by omega)) (fun _ _ => rfl) fun k hk => ?_
    exact hd (fun _ => False) _ (hb2.slot_inData (by omega) (hne _ (by omega))).1 id
  · -- first block, table, data and inode in turn
    refine ((hd1 _).trans (hc.disk.mono fun x hx he => ?_)).trans ((hw.disk.mono fun x hx he => ?_).trans (hd _))
    · have h140 : slotAddr st2.vol.disk st2.inode 140 ≠ 0 := by
        intro hz
        rw [he, hz] at hx
        have := part.inode_table_below
        simp at hx; omega
      exact ⟨140, slotOwner_eq_some.mpr ⟨le_rfl, by simp only [Writing.setDisk]; rw [hsl 140 le_rfl]; exact ⟨h140, he.symm⟩⟩⟩
    · obtain ⟨j, hj, he⟩ := he
      refine ⟨j, slotOwner_eq_some.mpr ⟨by omega, ?_⟩⟩
      simp only [Writing.setDisk]
      rw [hsl j (by omega)]
      exact ⟨hne j hj, he.symm⟩

/-! ## `file_read` -/

theorem copySectors_apply (i : Inode) : ∀ (n k : Nat) (all : Blocks) (j : Nat),
    copySectors i n k all j = if k ≤ j ∧ j < k + n then i.sec j else all j
  | 0, k, all, j => by rw [if_neg (by omega)]; rfl
  | n + 1, k, all, j => by
    unfold copySectors
    rw [copySectors_apply i n (k + 1)]
    by_cases hj : j = k
    · subst hj
      rw [if_neg (by omega), if_pos (by omega), Blocks.set, update_self]
    · rw [Blocks.set, update_of_ne hj]
      by_cases hin : k + 1 ≤ j ∧ j < k + 1 + n
      · rw [if_pos hin, if_pos (by omega)]
      · rw [if_neg hin, if_neg (by omega)]

theorem loadTable_low {lba : UInt32} {all all' : Blocks} (h : loadTable b disk lba all = .ok all')
    {j : Nat} (hj : j < 12) : all' j = all j := by
  simp only [loadTable, bind_ok, pure_ok, Except.ok.injEq] at h
  obtain ⟨_, _, rfl⟩ := h
  exact if_neg (by omega)

theorem collectRead_spec {s e : Nat} {all : Blocks} (hla : Laid (slotAddr disk i) n) (he : e < n)
    (hse : s ≤ e) (h : collectRead b disk i s e = .ok all) :
    ∀ j, s ≤ j → j ≤ e → all j = slotAddr disk i j := by
  have hle := hla.le
  have ht : 12 ≤ e → i.sec 12 ≠ 0 := fun h12 => by
    have := hla.table.mpr (by omega)
    rwa [slotAddr, memLayout_table] at this
  have hlow : ∀ j < 12, slotAddr disk i j = i.sec j := fun j hj => memLayout_low i _ hj
  have hlo : ∀ {all0 : Blocks}, 12 ≤ e → (∀ j, s ≤ j → j < 12 → all0 j = i.sec j) →
      loadTable b disk (i.sec 12) all0 = .ok all → ∀ j, s ≤ j → j ≤ e → all j = slotAddr disk i j := by
    intro all0 h12 h0 hl j h1 h2
    by_cases hj : j < 12
    · rw [loadTable_low hl hj, h0 j h1 hj, hlow j hj]
    · rw [loadTable_mid (ht h12) hl j (by omega) (by omega), slotAddr, memLayout_mid _ _ (by omega) (by omega)]
  unfold collectRead at h
  simp only at h
  split at h
  · rename_i heq
    subst heq
    simp only [bind_ok] at h
    obtain ⟨_, _, h⟩ := h
    split at h
    · rename_i hs
      cases h
      intro j h1 h2
      rw [show j = s by omega, hlow s hs, Blocks.set, update_self]
    · exact hlo (by omega) (fun j h1 h2 => by omega) h
  · split at h
    · cases h
      intro j h1 h2
      rw [copySectors_apply, if_pos (by omega), hlow j (by omega)]
    · split at h
      · simp only [bind_ok] at h
        obtain ⟨_, _, h⟩ := h
        exact hlo (by omega) (fun j h1 h2 => by rw [copySectors_apply, if_pos (by omega)]) h
      · simp only [bind_ok] at h
        obtain ⟨_, _, h⟩ := h
        exact hlo (by omega) (fun j h1 h2 => by omega) h

theorem readData_spec {disk F : Mem} {all l : Blocks} {size p : Nat} (hs : p + size ≤ 71680)
    (hall : ∀ j, p / 512 ≤ j → 512 * j < p + size → all j = l j) (hh : Holds disk l F (p + size)) :
    ∀ (fuel w : Nat) (pos : UInt32) (buf buf' : Mem) (pos' : UInt32),
    readData b disk all size fuel w pos buf = .ok (buf', pos') → size ≤ w + fuel → w ≤ size → pos.toNat = p + w →
    pos'.toNat = p + size ∧ (∀ k, w ≤ k → k < size → buf' k = F (p + k)) ∧ ∀ k, k < w ∨ size ≤ k → buf' k = buf k
  | 0, w, pos, buf, buf', pos', h, hf, hw, hpos => by
    cases h
    exact ⟨by omega, fun k h1 h2 => by omega, fun _ _ => rfl⟩
  | fuel + 1, w, pos, buf, buf', pos', h, hf, hw, hpos => by
    unfold readData at h
    split at h
    · rename_i hlt
      simp only [bind_ok, inBounds_ok, hpos] at h
      obtain ⟨_, _, io, hio, h⟩ := h
      rw [hall ((p + w) / 512) (by omega) (by omega)] at hio
      generalize hc : min (size - w) (512 - (p + w) % 512) = c at *
      have hpos' : (pos + .ofNat c).toNat = p + (w + c) := by
        rw [toNat_add_ofNat (by omega), hpos, Nat.add_assoc]
      obtain ⟨h1, h2, h3⟩ := readData_spec hs hall hh fuel (w + c) _ _ buf' pos' h (by omega) (by omega) hpos'
      refine ⟨h1, fun k hk hks => ?_, fun k hk => ?_⟩
      · by_cases hkc : w + c ≤ k
        · exact h2 k hkc hks
        · -- a byte of this round comes from its sector
          rw [h3 k (by omega), blit_in (by omega) (by omega), ideRead_ok hio, blit_in (by omega) (by omega),
            ← hh (p + k) (by omega), show (p + k) / 512 = (p + w) / 512 by omega]
          congr 1; omega
      · rw [h3 k (by omega), blit_out (by omega)]
    · cases h
      exact ⟨by omega, fun k h1 h2 => by omega, fun _ _ => rfl⟩

theorem fileRead_spec {r : ReadResult} (hinv : FileInv disk i F) (hpos : pos.toNat < i.iSize.toNat)
    (hc : count.toNat < 2 ^ 31) (h : fileRead .debug disk i pos buf count ⟨true, true⟩ = .ok r) :
    let n := min count.toNat (i.iSize.toNat - pos.toNat)
    r.ret = some n ∧ r.fdPos.toNat = pos.toNat + n ∧ (∀ k < n, r.buf k = F (pos.toNat + k)) ∧
      ∀ k, n ≤ k → r.buf k = buf k := by
  intro n
  have hsz := hinv.size_le
  have hsum : (pos + count).toNat = pos.toNat + count.toNat := by rw [UInt32.toNat_add]; omega
  have h0 : i.sec 0 ≠ 0 := fun h0 => by have := hinv.empty h0; omega
  have hl := hinv.laid
  rw [if_neg h0] at hl
  have hle := hl.le
  -- the size the function reads is `n`, and it is not zero when it was clamped
  have hs : (if pos + count > i.iSize then i.iSize - pos else count).toNat = n := by
    simp only [GT.gt, UInt32.lt_iff_toNat_lt, hsum]
    split
    · rw [UInt32.toNat_sub_of_le _ _ (UInt32.le_iff_toNat_le.mpr (by omega))]; omega
    · omega
  unfold fileRead at h
  simp only at h
  generalize hsv : (if pos + count > i.iSize then i.iSize - pos else count) = size at *
  split at h
  · rename_i hz
    have hn : n = 0 := by rw [← hs, hz.2]; rfl
    have := UInt32.lt_iff_toNat_lt.mp hz.1
    omega
  simp only [Bool.true_eq_false, or_self, ite_false, bind_ok, assert_debug_ok] at h
  obtain ⟨_, _, all, hcol, ⟨buf', pos'⟩, hr, h⟩ := h
  have hend : (pos + size).toNat = pos.toNat + n := by rw [UInt32.toNat_add, hs]; omega
  rw [hend] at hcol
  rw [hs] at hr h
  have hall := collectRead_spec hl (by omega) (by omega) hcol
  obtain ⟨h1, h2, h3⟩ := readData_spec (p := pos.toNat) (by omega) (fun j h1 h2 => hall j h1 (by omega))
    (fun k hk => hinv.holds k (by omega)) _ _ _ _ _ _ hr (by omega) (by omega) rfl
  cases h
  exact ⟨rfl, h1, fun k hk => h2 k (Nat.zero_le _) hk, fun k hk => h3 k (.inr hk)⟩

end

/-! ## The position after reading -/

section
variable {b : Build} {disk : Mem} {inode : Inode}

theorem readData_ends {all : Blocks} {size : Nat} : ∀ (fuel done : Nat) (pos : UInt32) (buf buf' : Mem) (pos' : UInt32),
    readData b disk all size fuel done pos buf = .ok (buf', pos') → size ≤ done + fuel → done ≤ size →
    pos' = pos + .ofNat (size - done) ∧ (done < size → pos.toNat + (size - done) ≤ 71680)
  | 0, done, pos, buf, buf', pos', h, hf, hle => by
    cases h
    rw [show size - done = 0 by omega]
    exact ⟨by simp, fun hlt => by omega⟩
  | fuel + 1, done, pos, buf, buf', pos', h, hf, hle => by
    unfold readData at h
    split at h
    · simp only [bind_ok, inBounds_ok] at h
      obtain ⟨_, hsec, _, _, h⟩ := h
      generalize hc : min (size - done) (512 - pos.toNat % 512) = c at h
      obtain ⟨hend, hfit⟩ := readData_ends fuel (done + c) _ _ buf' pos' h (by omega) (by omega)
      refine ⟨?_, fun _ => ?_⟩
      · rw [hend, UInt32.add_assoc, ← UInt32.ofNat_add]
        congr 2
        omega
      · rw [UInt32.toNat_add, UInt32.toNat_ofNat'] at hfit
        omega
    · cases h
      rw [show size - done = 0 by omega]
      exact ⟨by simp, fun hlt => by omega⟩

theorem fileRead_bounds {pos count : UInt32} {buf : Mem} {mem : Buffers} {r : ReadResult}
    (hpos : pos.toNat ≤ inode.iSize.toNat) (h : fileRead b disk inode pos buf count mem = .ok r) :
    r.ret.getD 0 ≤ count.toNat ∧ r.fdPos.toNat ≤ inode.iSize.toNat := by
  unfold fileRead at h
  generalize hs : (if pos + count > inode.iSize then inode.iSize - pos else count) = size at h
  have hle := UInt32.le_iff_toNat_le.mpr hpos
  have hcnt : size.toNat ≤ count.toNat ∧ (pos + size).toNat ≤ inode.iSize.toNat := by
    rw [← hs]
    have hp := pos.toNat_lt
    have hi := inode.iSize.toNat_lt
    have hc := count.toNat_lt
    split
    · rename_i hgt
      rw [gt_iff_lt, UInt32.lt_iff_toNat_lt, UInt32.toNat_add] at hgt
      rw [UInt32.toNat_add, UInt32.toNat_sub_of_le _ _ hle]
      omega
    · rename_i hgt
      rw [gt_iff_lt, UInt32.lt_iff_toNat_lt] at hgt
      exact ⟨le_rfl, by omega⟩
  simp only at h
  split at h
  · cases h; exact ⟨Nat.zero_le _, hpos⟩
  split at h
  · cases h; exact ⟨Nat.zero_le _, hpos⟩
  simp only [bind_ok, Prod.exists, pure_ok, Except.ok.injEq] at h
  obtain ⟨_, _, all, _, buf', pos', hr, rfl⟩ := h
  rw [(readData_ends _ _ _ _ _ _ hr (by omega) (by omega)).1, Nat.sub_zero, UInt32.ofNat_toNat]
  exact hcnt

end

end OperateSystem
