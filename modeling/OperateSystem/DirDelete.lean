import OperateSystem.DirSound
import OperateSystem.Frames

/-!
# Deleting directory entries

`delete_dir_entry` clears the slot of one entry. If the entry is the only one in
its block apart from the dots and the block is not the first one, the block is
given back instead.
-/

namespace OperateSystem

def DirEntry.Counted (e : DirEntry) : Prop := e.fType ≠ 0 ∧ e.name ≠ dot ∧ e.name ≠ dotDot

instance (e : DirEntry) : Decidable e.Counted := inferInstanceAs (Decidable (_ ∧ _ ∧ _))

/-! ## A sector -/

section
variable {b : Build} {buf : Mem} {no : UInt32}

structure Scanned (f : Nat → DirEntry) (no : UInt32) (m : Nat) (sc : SectorScan) : Prop where
  none : sc.dirEntryFound = none → ∀ j < m, (f j).Counted → (f j).iNo ≠ no
  some : ∀ {i}, sc.dirEntryFound = some i → i < m ∧ (f i).Counted ∧ (f i).iNo = no
  cnt : sc.dirEntryCnt = ((Finset.range m).filter fun j => (f j).Counted).card
  first : sc.isDirFirstBlock = true ↔ ∃ j < m, (f j).fType ≠ 0 ∧ (f j).name = dot

variable {f : Nat → DirEntry} {m : Nat} {sc : SectorScan}

theorem Scanned.zero : Scanned f no 0 ⟨.none, 0, false⟩ :=
  ⟨fun _ j hj => absurd hj (Nat.not_lt_zero j), nofun, rfl, by simp⟩

theorem counted_succ : ((Finset.range (m + 1)).filter fun j => (f j).Counted).card =
    ((Finset.range m).filter fun j => (f j).Counted).card + if (f m).Counted then 1 else 0 := by
  rw [Finset.range_add_one, Finset.filter_insert]
  split
  · rw [Finset.card_insert_of_notMem (by simp)]
  · rfl

theorem exists_lt_succ {p : Nat → Prop} : (∃ j < m + 1, p j) ↔ (∃ j < m, p j) ∨ p m := by
  constructor
  · rintro ⟨j, hj, hp⟩
    by_cases hjm : j = m
    · exact .inr (hjm ▸ hp)
    · exact .inl ⟨j, by omega, hp⟩
  · rintro (⟨j, hj, hp⟩ | hp)
    · exact ⟨j, by omega, hp⟩
    · exact ⟨m, by omega, hp⟩

theorem Scanned.skip (h : Scanned f no m sc) (hc : ¬ (f m).Counted) {first : Bool}
    (hf : first = true ↔ sc.isDirFirstBlock = true ∨ ((f m).fType ≠ 0 ∧ (f m).name = dot)) :
    Scanned f no (m + 1) { sc with isDirFirstBlock := first } := by
  refine ⟨fun hn j hj hcj => ?_, fun hs => ?_, ?_, ?_⟩
  · have hjm : j ≠ m := fun e => hc (e ▸ hcj)
    exact h.none hn j (by omega) hcj
  · obtain ⟨h1, h2⟩ := h.some hs
    exact ⟨by omega, h2⟩
  · rw [counted_succ, if_neg hc]
    exact h.cnt
  · rw [exists_lt_succ, hf, h.first]

theorem Scanned.other (h : Scanned f no m sc) (hc : (f m).Counted) (hno : (f m).iNo ≠ no) :
    Scanned f no (m + 1) { sc with dirEntryCnt := sc.dirEntryCnt + 1 } := by
  refine ⟨fun hn j hj hcj => ?_, fun hs => ?_, ?_, ?_⟩
  · by_cases hjm : j = m
    · exact hjm ▸ hno
    · exact h.none hn j (by omega) hcj
  · obtain ⟨h1, h2⟩ := h.some hs
    exact ⟨by omega, h2⟩
  · rw [counted_succ, if_pos hc, ← h.cnt]
  · rw [exists_lt_succ, h.first]
    exact ⟨.inl, fun hj => hj.resolve_right fun hd => hc.2.1 hd.2⟩

theorem Scanned.hit (h : Scanned f no m sc) (hc : (f m).Counted) (hno : (f m).iNo = no) :
    Scanned f no (m + 1) { sc with dirEntryFound := .some m, dirEntryCnt := sc.dirEntryCnt + 1 } := by
  refine ⟨nofun, fun hs => ?_, ?_, ?_⟩
  · cases hs
    exact ⟨by omega, hc, hno⟩
  · rw [counted_succ, if_pos hc, ← h.cnt]
  · rw [exists_lt_succ, h.first]
    exact ⟨.inl, fun hj => hj.resolve_right fun hd => hc.2.1 hd.2⟩

theorem zero_not_mem_dot : (0 : UInt8) ∉ dot := by decide

theorem zero_not_mem_dotDot : (0 : UInt8) ∉ dotDot := by decide

theorem scanSector_step {n i : Nat} :
    scanSector b buf no (n + 1) i sc =
      if (DirEntry.ofMem buf (dirEntrySize * i)).Counted then
        if (DirEntry.ofMem buf (dirEntrySize * i)).iNo = no then do
          assert b (sc.dirEntryFound = none) "dir_entry_found == NULL"
          scanSector b buf no n (i + 1) { sc with dirEntryFound := some i, dirEntryCnt := sc.dirEntryCnt + 1 }
        else scanSector b buf no n (i + 1) { sc with dirEntryCnt := sc.dirEntryCnt + 1 }
      else scanSector b buf no n (i + 1) { sc with
        isDirFirstBlock := sc.isDirFirstBlock ||
          decide ((DirEntry.ofMem buf (dirEntrySize * i)).fType ≠ 0 ∧ (DirEntry.ofMem buf (dirEntrySize * i)).name = dot) } := by
  rw [scanSector]
  simp only [DirEntry.strcmp_short zero_not_mem_dot (by decide), DirEntry.strcmp_short zero_not_mem_dotDot (by decide)]
  generalize DirEntry.ofMem buf (dirEntrySize * i) = e
  unfold DirEntry.Counted
  by_cases ht : e.fType = 0
  · simp [ht]
  · by_cases h1 : e.name = dot
    · simp [ht, h1]
    · by_cases h2 : e.name = dotDot
      · have hne : ¬ dotDot = dot := by decide
        simp [ht, h2, hne]
      · simp [ht, h1, h2]

theorem scanSector_spec : ∀ (n i : Nat) (sc sc' : SectorScan), scanSector b buf no n i sc = .ok sc' →
    Scanned (fun j => .ofMem buf (dirEntrySize * j)) no i sc →
    Scanned (fun j => .ofMem buf (dirEntrySize * j)) no (i + n) sc'
  | 0, i, sc, sc', h, hsc => by
    cases h
    exact hsc
  | n + 1, i, sc, sc', h, hsc => by
    rw [scanSector_step] at h
    rw [show i + (n + 1) = i + 1 + n by omega]
    split at h
    · rename_i hc
      split at h
      · rename_i hno
        obtain ⟨_, -, h⟩ := bind_ok.mp h
        exact scanSector_spec n (i + 1) _ _ h (hsc.hit hc hno)
      · rename_i hno
        exact scanSector_spec n (i + 1) _ _ h (hsc.other hc hno)
    · rename_i hc
      exact scanSector_spec n (i + 1) _ _ h (hsc.skip hc (by simp))

theorem scanSector_total : ∀ (n i : Nat) (sc : SectorScan), Scanned (fun j => .ofMem buf (dirEntrySize * j)) no i sc →
    (∀ j < i + n, ∀ j' < i + n, (DirEntry.ofMem buf (dirEntrySize * j)).Counted → (DirEntry.ofMem buf (dirEntrySize * j)).iNo = no →
      (DirEntry.ofMem buf (dirEntrySize * j')).Counted → (DirEntry.ofMem buf (dirEntrySize * j')).iNo = no → j = j') →
    ∃ sc', scanSector b buf no n i sc = .ok sc'
  | 0, i, sc, _, _ => ⟨sc, rfl⟩
  | n + 1, i, sc, hsc, hone => by
    have hone' := fun j (hj : j < i + 1 + n) j' (hj' : j' < i + 1 + n) => hone j (by omega) j' (by omega)
    rw [scanSector_step]
    split
    · rename_i hc
      split
      · rename_i hno
        have hn : sc.dirEntryFound = none := by
          cases hs : sc.dirEntryFound with
          | none => rfl
          | some i' =>
            obtain ⟨hlt, hc', hno'⟩ := hsc.some hs
            exact absurd (hone i' (by omega) i (by omega) hc' hno' hc hno) (by omega)
        rw [assert_of _ hn]
        exact scanSector_total n (i + 1) _ (hsc.hit hc hno) hone'
      · rename_i hno
        exact scanSector_total n (i + 1) _ (hsc.other hc hno) hone'
    · rename_i hc
      exact scanSector_total n (i + 1) _ (hsc.skip hc (by simp)) hone'

theorem Scanned.alone (h : Scanned f no m sc) {i : Nat} (hs : sc.dirEntryFound = .some i) (hone : sc.dirEntryCnt = 1)
    {j : Nat} (hj : j < m) (hc : (f j).Counted) : j = i := by
  obtain ⟨hi, hci, -⟩ := h.some hs
  have hca := h.cnt.symm.trans hone
  exact Finset.card_le_one.mp (Nat.le_of_eq hca) j (by simp [hj, hc]) i (by simp [hi, hci])

theorem Scanned.rest (h : Scanned f no m sc) {i : Nat} (hs : sc.dirEntryFound = .some i)
    (hc : ¬ (sc.dirEntryCnt = 1 ∧ sc.isDirFirstBlock = false)) : ∃ j < m, j ≠ i ∧ (f j).fType ≠ 0 := by
  obtain ⟨hi, hci, -⟩ := h.some hs
  by_cases hf : sc.isDirFirstBlock = true
  · obtain ⟨j, hj, ht, hn⟩ := h.first.mp hf
    exact ⟨j, hj, fun e => hci.2.1 (e ▸ hn), ht⟩
  · have hmem : i ∈ (Finset.range m).filter fun j => (f j).Counted := by simp [hi, hci]
    have hpos := h.cnt ▸ Finset.card_pos.mpr ⟨i, hmem⟩
    have hm : 1 < ((Finset.range m).filter fun j => (f j).Counted).card := by
      rw [← h.cnt]
      have : sc.dirEntryCnt ≠ 1 := fun e => hc ⟨e, by simpa using hf⟩
      omega
    obtain ⟨j, hj, hne⟩ := Finset.exists_mem_ne hm i
    simp only [Finset.mem_filter, Finset.mem_range] at hj
    exact ⟨j, hj.1, hne, hj.2.1⟩

end

/-! ## The loop over the blocks -/

section
variable {part : Partition} {b : Build} {vol : Volume part} {inode : Inode} {no : UInt32} {rounds : Nat}
variable {st st' : DirWriting part} {ioBuf : Mem} {k : Nat}

def Hit (disk : Mem) (l : Blocks) (no : UInt32) (k i : Nat) : Prop := (entryAt disk l k i).Counted ∧ (entryAt disk l k i).iNo = no

/-- How the loop ends: no slot holds the entry, its block is given back, or its slot is cleared.
-/
inductive DeleteEnd (b : Build) (rounds : Nat) (vol : Volume part) (inode : Inode) (all : Blocks) (no : UInt32) (lo : Nat) :
    DirWriting part × Bool → Prop
  | absent {st : DirWriting part} (hvol : st.vol = vol) (hinode : st.inode = inode)
    (hnone : ∀ k < 140, lo ≤ k → ∀ i < 21, all k ≠ 0 → ¬ Hit vol.disk all no k i) : DeleteEnd b rounds vol inode all no lo (st, false)
  | drop {st st1 : DirWriting part} {k i : Nat} {ioBuf : Mem} (hk : k < 140 ∧ i < 21) (hl : all k ≠ 0) (hhit : Hit vol.disk all no k i)
    (halone : ∀ j < 21, j ≠ i → (entryAt vol.disk all k j).fType ≠ 0 → (entryAt vol.disk all k j).name = dotDot)
    (hdrop : dropBlock b rounds k ⟨vol, inode, all, ioBuf⟩ = .ok (some st1)) (hshrink : shrinkDir b st1 = .ok st) :
    DeleteEnd b rounds vol inode all no lo (st, true)
  | clear {st st1 : DirWriting part} {k i : Nat} {ioBuf : Mem} (hk : k < 140 ∧ i < 21) (hl : all k ≠ 0) (hhit : Hit vol.disk all no k i)
    (hrest : ∃ j < 21, j ≠ i ∧ (entryAt vol.disk all k j).fType ≠ 0)
    (hclear : clearEntry b k i ⟨vol, inode, all, blit ioBuf 0 vol.disk (512 * (all k).toNat) (512 * 1)⟩ = .ok (some st1))
    (hshrink : shrinkDir b st1 = .ok st) : DeleteEnd b rounds vol inode all no lo (st, true)

variable {all : Blocks}

theorem scanned_block {buf : Mem} {sc : SectorScan}
    (h : scanSector b (blit buf 0 vol.disk (512 * (all k).toNat) (512 * 1)) no (512 / dirEntrySize) 0 ⟨none, 0, false⟩ = .ok sc) :
    ∃ f : Nat → DirEntry, (∀ j < 21, f j = entryAt vol.disk all k j) ∧ Scanned f no 21 sc := by
  have hsc := scanSector_spec _ _ _ _ h .zero
  rw [show 0 + 512 / dirEntrySize = 21 by decide] at hsc
  exact ⟨fun j => .ofMem (blit buf 0 vol.disk (512 * (all k).toNat) (512 * 1)) (dirEntrySize * j), fun j hj => sector_entry hj, hsc⟩

theorem deleteBlocks_end : ∀ (n k : Nat) (ioBuf : Mem) (r : DirWriting part × Bool), k + n = 140 →
    deleteBlocks b rounds no n k ⟨vol, inode, all, ioBuf⟩ = .ok (some r) → DeleteEnd b rounds vol inode all no k r
  | 0, k, ioBuf, r, hn, h => by
    cases h
    exact .absent rfl rfl fun k' hk' hle => by omega
  | n + 1, k, ioBuf, r, hn, h => by
    -- a block without the entry is passed
    have hpa : ∀ {r : DirWriting part × Bool}, (∀ i < 21, all k ≠ 0 → ¬ Hit vol.disk all no k i) →
        DeleteEnd b rounds vol inode all no (k + 1) r → DeleteEnd b rounds vol inode all no k r := fun hk h => by
      cases h with
      | absent hvol hin hnn =>
        refine .absent hvol hin fun k' hk' hle i hi hl => ?_
        by_cases hkk : k' = k
        · subst hkk
          exact hk i hi hl
        · exact hnn k' hk' (by omega) i hi hl
      | drop hk hl hhit ha hdr hs => exact .drop hk hl hhit ha hdr hs
      | clear hk hl hhit hr hcl hs => exact .clear hk hl hhit hr hcl hs
    unfold deleteBlocks deleteBlocksVia at h
    by_cases hz : all k = 0
    · rw [if_pos hz] at h
      exact hpa (fun i _ hl => absurd hz hl) (deleteBlocks_end n (k + 1) ioBuf r (by omega) h)
    · rw [if_neg hz] at h
      simp only [bind_ok] at h
      obtain ⟨buf, hbuf, sc, hsn, h⟩ := h
      have hb := ideRead_ok hbuf
      rw [hb] at hsn
      obtain ⟨f, hf, hsc⟩ := scanned_block hsn
      cases hfo : sc.dirEntryFound with
      | none =>
        simp only [hfo] at h
        refine hpa (fun i hi _ hhit => ?_) (deleteBlocks_end n (k + 1) buf r (by omega) h)
        unfold Hit at hhit
        rw [← hf i hi] at hhit
        exact hsc.none hfo i hi hhit.1 hhit.2
      | some i =>
        simp only [hfo, bind_ok] at h
        obtain ⟨_, -, st, hst, h⟩ := h
        obtain ⟨hi, hc, hno⟩ := hsc.some hfo
        rw [hf i hi] at hc hno
        obtain _ | st1 := st
        · cases h
        obtain ⟨st, hs, h⟩ := bind_ok.mp h
        cases h
        split at hst
        · rename_i hone
          refine .drop ⟨by omega, hi⟩ hz ⟨hc, hno⟩ (fun j hj hji ht => ?_) hst hs
          rw [← hf j hj] at ht ⊢
          by_contra hna
          refine hji (hsc.alone hfo hone.1 hj ⟨ht, fun hd => ?_, hna⟩)
          exact absurd (hsc.first.mpr ⟨j, hj, ht, hd⟩) (by simp [hone.2])
        · rename_i hcnt
          obtain ⟨j, hj, hji, ht⟩ := hsc.rest hfo hcnt
          rw [hf j hj] at ht
          rw [hb] at hst
          exact .clear ⟨by omega, hi⟩ hz ⟨hc, hno⟩ ⟨j, hj, hji, ht⟩ hst hs

theorem countIndirect_none : ∀ (rounds m : Nat), countIndirect all rounds 12 m = none
  | 0, _ => rfl
  | rounds + 1, m => by
    unfold countIndirect
    rw [if_pos (by decide)]
    exact countIndirect_none rounds _

theorem dropBlock_ok (h : dropBlock b rounds k st = .ok (some st')) :
    k < 12 ∧ ∃ vol, clearBlock b st.vol (st.all k) = .ok vol ∧ st' = { st with vol, inode := st.inode.setSec k 0 } := by
  unfold dropBlock at h
  obtain ⟨vol, hv, h⟩ := bind_ok.mp h
  split at h
  · rename_i hk
    cases h
    exact ⟨hk, vol, hv, rfl⟩
  · rw [countIndirect_none] at h
    cases h

theorem shrinkDir_ok (h : shrinkDir .debug st = .ok st') :
    dirEntrySize ≤ st.inode.iSize.toNat ∧ st'.inode = { st.inode with iSize := st.inode.iSize - .ofNat dirEntrySize } ∧
      st'.vol.disk = blit st.vol.disk (part.inodeAddr (st.inode.iNo.toNat % 256)) st'.inode.pure.toMem 0 76 ∧
      st'.vol.blockBitmap = st.vol.blockBitmap ∧ st'.vol.inodeBitmap = st.vol.inodeBitmap := by
  unfold shrinkDir shrinkDirVia at h
  obtain ⟨_, hs, h⟩ := bind_ok.mp h
  dsimp only at h
  rw [unbounded_sync, inodeSync_spec] at h
  cases h
  exact ⟨assert_debug_ok.mp hs, rfl, rfl, rfl, rfl⟩

/-! ## The slot that is gone -/

structure Removed (vol : Volume part) (inode : Inode) (vol' : Volume part) (inode' : Inode) (k0 i0 : Nat) (drop : Bool) : Prop where
  index : k0 < 140 ∧ i0 < 21 ∧ slotAddr vol.disk inode k0 ≠ 0
  addr : ∀ j ≤ 140, slotAddr vol'.disk inode' j = if drop = true ∧ j = k0 then 0 else slotAddr vol.disk inode j
  direct : drop = true → k0 < 12
  cleared : drop = false → (entryAt vol'.disk (slotAddr vol'.disk inode') k0 i0).Free
  kept : ∀ k < 140, ∀ i < 21, slotAddr vol'.disk inode' k ≠ 0 → ¬ (k = k0 ∧ i = i0) →
    entryAt vol'.disk (slotAddr vol'.disk inode') k i = entryAt vol.disk (slotAddr vol.disk inode) k i
  alone : drop = true → ∀ i < 21, i ≠ i0 → (entryAt vol.disk (slotAddr vol.disk inode) k0 i).fType ≠ 0 →
    (entryAt vol.disk (slotAddr vol.disk inode) k0 i).name = dotDot
  rest : drop = false → ∃ i < 21, i ≠ i0 ∧ (entryAt vol.disk (slotAddr vol.disk inode) k0 i).fType ≠ 0
  used : ∀ x, vol'.Used x ↔ vol.Used x ∧ ¬ (drop = true ∧ x = (slotAddr vol.disk inode k0).toNat)
  touched : Touched vol vol' {(slotAddr vol.disk inode k0).toNat} {(slotAddr vol.disk inode k0).toNat} {inode.iNo.toNat % 256}
  inodeBitmap : vol'.inodeBitmap = vol.inodeBitmap
  size : dirEntrySize ≤ inode.iSize.toNat ∧ inode'.iSize = inode.iSize - .ofNat dirEntrySize
  iNo : inode'.iNo = inode.iNo
  stored : Inode.ofMem vol'.disk (part.inodeAddr (inode.iNo.toNat % 256)) = inode'.pure

variable {vol' : Volume part} {inode' : Inode} {k0 i0 : Nat}

theorem sec_setSec_zero (i : Inode) (hk : k < 12) (j : Nat) :
    (i.setSec k 0).sec j = if j = k then 0 else i.sec j :=
  sec_setSec i k j 0 (by omega)

theorem slotAddr_setSec_zero {disk disk' : Mem} {i i' : Inode} (hk : k < 12)
    (hi : ∀ j, i'.sec j = if j = k then 0 else i.sec j)
    (hd : i.sec 12 ≠ 0 → ∀ t < 512, disk' (512 * (i.sec 12).toNat + t) = disk (512 * (i.sec 12).toNat + t)) :
    ∀ j ≤ 140, slotAddr disk' i' j = if j = k then 0 else slotAddr disk i j := by
  intro j hj
  by_cases hjk : j = k
  · rw [if_pos hjk, hjk, slotAddr_low hk, hi, if_pos rfl]
  rw [if_neg hjk]
  have h12 : i'.sec 12 = i.sec 12 := by rw [hi, if_neg (by omega)]
  have hj' : i'.sec j = i.sec j := by rw [hi, if_neg hjk]
  unfold slotAddr memLayout tableOf
  rw [h12, hj']
  split
  · rfl
  · split
    · rfl
    · split
      · rfl
      · rename_i _ _ hne
        exact word_congr fun t ht => by rw [Nat.add_assoc]; exact hd hne _ (by omega)

theorem clearBlock_ok (hf : part.Formatted) {a : UInt32} (ha : part.InData a.toNat) (h : clearBlock b vol a = .ok vol') {T N : Set Nat} :
    Touched vol vol' T {a.toNat} N ∧ (∀ x, vol'.Used x ↔ vol.Used x ∧ x ≠ a.toNat) ∧ vol'.inodeBitmap = vol.inodeBitmap := by
  unfold clearBlock at h
  dsimp only at h
  rw [ha.index] at h
  have h1 := ha.1
  have h2 := ha.2
  obtain ⟨-, hb, hi⟩ := bitmapSync_ok h
  have hbit : vol'.blockBitmap = bitmapSet vol.blockBitmap (a.toNat - part.dataStartLba) false := hb
  refine ⟨?_, ?_, hi⟩
  · refine Touched.trans (Touched.blockBit (v := false) h1 ?_ ?_ ?_) (.blockSync hf (by omega) h)
    · rfl
    · rfl
    · rfl
  · intro x
    unfold Volume.Used
    rw [hbit, bit_bitmapSet, and_assoc]
    refine and_congr_right fun hle => ?_
    by_cases hx : x = a.toNat
    · simp [hx]
    · rw [if_neg (by omega)]
      simp [hx]

theorem shrinkDir_touched (h : shrinkDir .debug st = .ok st') {T U : Set Nat} :
    Touched st.vol st'.vol T U {st.inode.iNo.toNat % 256} ∧
      Inode.ofMem st'.vol.disk (part.inodeAddr (st.inode.iNo.toNat % 256)) = st'.inode.pure := by
  obtain ⟨-, -, hdi, hb, hi⟩ := shrinkDir_ok h
  refine ⟨.inode (by omega) hdi hb hi, ?_⟩
  rw [hdi]
  exact ofMem_blit_same _ _ _

theorem Removed.of_drop (hf : part.Formatted) (hb : DirBlocks vol (slotAddr vol.disk inode))
    {st1 : DirWriting part} {all : Blocks} (hall : ∀ j < 140, all j = slotAddr vol.disk inode j)
    (hk : k0 < 140 ∧ i0 < 21) (hl : all k0 ≠ 0)
    (hal : ∀ j < 21, j ≠ i0 → (entryAt vol.disk all k0 j).fType ≠ 0 → (entryAt vol.disk all k0 j).name = dotDot)
    (hdr : dropBlock .debug rounds k0 ⟨vol, inode, all, ioBuf⟩ = .ok (some st1))
    (hs : shrinkDir .debug st1 = .ok st) :
    Removed vol inode st.vol st.inode k0 i0 true := by
  obtain ⟨hlow, vol1, hc, rfl⟩ := dropBlock_ok hdr
  obtain ⟨hsi, hid, -, hbi, his⟩ := shrinkDir_ok hs
  rw [hall k0 hk.1] at hl
  have hin := hb.inData k0 (by omega) hl
  have hc : clearBlock .debug vol (all k0) = .ok vol1 := hc
  rw [hall k0 hk.1] at hc
  obtain ⟨ht1, hu, hino⟩ := clearBlock_ok hf hin hc (T := ∅) (N := {inode.iNo.toNat % 256})
  obtain ⟨ht2, hst⟩ := shrinkDir_touched hs (T := ∅) (U := {(slotAddr vol.disk inode k0).toNat})
  have hto := ht1.trans ht2
  -- no data sector changes
  have hsa : ∀ j ≤ 140, slotAddr vol.disk inode j ≠ 0 → ∀ x < 512,
      st.vol.disk (512 * (slotAddr vol.disk inode j).toNat + x) = vol.disk (512 * (slotAddr vol.disk inode j).toNat + x) :=
    fun j hj hne => hto.data _ (hb.inData j hj hne).1 (Set.notMem_empty _)
  have htab : slotAddr vol.disk inode 140 = inode.sec 12 := memLayout_table _ _
  have hsec : ∀ j, st.inode.sec j = if j = k0 then 0 else inode.sec j := fun j => by
    rw [hid, sec_size]
    exact sec_setSec_zero _ hlow _
  have ha := slotAddr_setSec_zero hlow hsec fun h12 => htab ▸ hsa 140 le_rfl (htab ▸ h12)
  refine ⟨⟨hk.1, hk.2, hl⟩, fun j hj => ?_, fun _ => hlow, nofun, fun k hk' i hi hne hnot => ?_, fun _ j hj hji ht => ?_, nofun,
    fun x => ?_, hto.mono (Set.empty_subset _) (Set.Subset.refl _) (Set.Subset.refl _), his.trans hino, ⟨hsi, ?_⟩, ?_, hst⟩
  · rw [ha j hj]
    simp
  · rw [ha k (by omega)] at hne
    have hkk : k ≠ k0 := fun e => hne (if_pos e)
    rw [if_neg hkk] at hne
    exact entryAt_congr hi (by rw [ha k (by omega), if_neg hkk]) (hsa k (by omega) hne)
  · have := hal j hj hji
    unfold entryAt at this ht ⊢
    rw [hall k0 hk.1] at this
    exact this ht
  · rw [used_congr hbi]
    refine (hu x).trans ?_
    simp
  · rw [hid]
    rfl
  · rw [hid]
    rfl

theorem Removed.of_clear (hb : DirBlocks vol (slotAddr vol.disk inode)) {st1 : DirWriting part}
    {all : Blocks} (hall : ∀ j < 140, all j = slotAddr vol.disk inode j) (hk : k0 < 140 ∧ i0 < 21)
    (hl : all k0 ≠ 0) (hr : ∃ j < 21, j ≠ i0 ∧ (entryAt vol.disk all k0 j).fType ≠ 0)
    (hc : clearEntry .debug k0 i0 ⟨vol, inode, all, blit ioBuf 0 vol.disk (512 * (all k0).toNat) (512 * 1)⟩ = .ok (some st1))
    (hs : shrinkDir .debug st1 = .ok st) : Removed vol inode st.vol st.inode k0 i0 false := by
  unfold clearEntry at hc
  obtain ⟨disk, hdi, hc⟩ := bind_ok.mp hc
  cases hc
  obtain ⟨hsi, hid, -, hbi, his⟩ := shrinkDir_ok hs
  rw [hall k0 hk.1] at hl
  have hin := hb.inData k0 (by omega) hl
  have hdi := ideWrite_ok hdi
  simp only [hall k0 hk.1] at hdi
  obtain ⟨ht2, hst⟩ := shrinkDir_touched hs (T := ∅) (U := ∅)
  have ht1 : Touched vol ⟨disk, vol.blockBitmap, vol.inodeBitmap, vol.block_len⟩ {(slotAddr vol.disk inode k0).toNat}
      {(slotAddr vol.disk inode k0).toNat} {inode.iNo.toNat % 256} := .sector hin.1 hdi rfl rfl
  rw [fill_eq_blit, blit_patch _ _ _ (by unfold dirEntrySize; omega)] at hdi
  -- the data sectors differ in the slot only
  have hda : ∀ x, part.dataStartLba ≤ x → ∀ j < 512, st.vol.disk (512 * x + j) =
      blit vol.disk (512 * (slotAddr vol.disk inode k0).toNat + dirEntrySize * i0) (fun _ => 0) 0 dirEntrySize (512 * x + j) :=
    fun x hx j hj => by
      rw [ht2.data x hx (Set.notMem_empty x) j hj]
      exact congrFun hdi _
  have hsa : ∀ j ≤ 140, slotAddr vol.disk inode j ≠ 0 → j ≠ k0 → ∀ x < 512,
      st.vol.disk (512 * (slotAddr vol.disk inode j).toNat + x) = vol.disk (512 * (slotAddr vol.disk inode j).toNat + x) := by
    intro j hj hne hjk x hx
    have hdf : (slotAddr vol.disk inode j).toNat ≠ (slotAddr vol.disk inode k0).toNat := fun e =>
      hjk (hb.inj j hj k0 (by omega) hne (UInt32.toNat.inj e))
    rw [hda _ (hb.inData j hj hne).1 x hx]
    unfold dirEntrySize
    exact blit_out (by omega)
  have htab : slotAddr vol.disk inode 140 = inode.sec 12 := memLayout_table _ _
  have ha : ∀ j ≤ 140, slotAddr st.vol.disk st.inode j = slotAddr vol.disk inode j := by
    refine slotAddr_congr (fun j => by rw [hid, sec_size]) fun h12 => ?_
    exact htab ▸ hsa 140 le_rfl (htab ▸ h12) (by omega)
  refine ⟨⟨hk.1, hk.2, hl⟩, fun j hj => ?_, nofun, fun _ => ?_, fun k hk' i hi hne hnot => ?_, nofun, fun _ => ?_, fun x => ?_,
    ht1.trans (ht2.mono (Set.empty_subset _) (Set.empty_subset _) (Set.Subset.refl _)), his, ⟨hsi, ?_⟩, ?_, hst⟩
  · rw [ha j hj]
    simp
  · unfold entryAt
    rw [ha k0 (by omega)]
    refine DirEntry.free_of_zero fun j hj => ?_
    unfold dirEntrySize
    rw [Nat.add_assoc, hda _ hin.1 _ (by omega)]
    unfold dirEntrySize
    exact blit_in (by omega) (by omega)
  · rw [ha k (by omega)] at hne
    by_cases hkk : k = k0
    · subst hkk
      unfold entryAt
      rw [ha k (by omega)]
      refine DirEntry.ofMem_congr fun j hj => ?_
      unfold dirEntrySize
      rw [Nat.add_assoc, hda _ hin.1 _ (by omega)]
      unfold dirEntrySize
      exact blit_out (by omega)
    · exact entryAt_congr hi (ha k (by omega)) (hsa k (by omega) hne hkk)
  · obtain ⟨j, hj, hji, ht⟩ := hr
    unfold entryAt at ht ⊢
    rw [hall k0 hk.1] at ht
    exact ⟨j, hj, hji, ht⟩
  · rw [used_congr hbi]
    simp only [Bool.false_eq_true, false_and, not_false_eq_true, and_true]
    exact Iff.rfl
  · rw [hid]
  · rw [hid]

theorem deleteDirEntry_removed (hf : part.Formatted) (hb : DirBlocks vol (slotAddr vol.disk inode))
    {ok : Bool} (h : deleteDirEntry .debug rounds vol inode no ioBuf = .ok (some (st, ok))) :
    (ok = false ∧ st.vol = vol ∧ st.inode = inode ∧ ∀ k < 140, ∀ i < 21, slotAddr vol.disk inode k ≠ 0 →
      ¬ Hit vol.disk (slotAddr vol.disk inode) no k i) ∨
    (ok = true ∧ ∃ k0 i0 drop, Hit vol.disk (slotAddr vol.disk inode) no k0 i0 ∧ Removed vol inode st.vol st.inode k0 i0 drop) := by
  unfold deleteDirEntry deleteDirEntryVia at h
  obtain ⟨all, hall, h⟩ := bind_ok.mp h
  have hall := allBlocks_spec hall
  have hhit : ∀ {k i}, k < 140 → (Hit vol.disk all no k i ↔ Hit vol.disk (slotAddr vol.disk inode) no k i) := fun hk => by
    unfold Hit entryAt
    rw [hall _ hk]
  cases deleteBlocks_end 140 0 ioBuf _ rfl h with
  | absent hvol hin hn =>
    refine .inl ⟨rfl, hvol, hin, fun k hk i hi hl hc => ?_⟩
    exact hn k hk (Nat.zero_le k) i hi (hall k hk ▸ hl) ((hhit hk).mpr hc)
  | drop hk hl hc ha hdr hs =>
    exact .inr ⟨rfl, _, _, true, (hhit hk.1).mp hc, .of_drop hf hb hall hk hl ha hdr hs⟩
  | clear hk hl hc hr hcl hs =>
    exact .inr ⟨rfl, _, _, false, (hhit hk.1).mp hc, .of_clear hb hall hk hl hr hcl hs⟩

/-! ## The call returns -/

def Alone (disk : Mem) (l : Blocks) (k i : Nat) : Prop :=
  ∀ j < 21, j ≠ i → (entryAt disk l k j).fType ≠ 0 → (entryAt disk l k j).name = dotDot

theorem clearBlock_total (vol : Volume part) {a : UInt32} (ha : part.InData a.toNat) : ∃ vol', clearBlock .debug vol a = .ok vol' := by
  unfold clearBlock
  dsimp only
  rw [ha.index]
  have h1 := ha.1
  have h2 := ha.2
  exact bitmapSync_total _ (by omega)

theorem shrinkDir_total (st : DirWriting part) (h : dirEntrySize ≤ st.inode.iSize.toNat) :
    ∃ st', shrinkDirVia .unbounded .debug st = .ok st' := by
  unfold shrinkDirVia
  rw [assert_of _ h, ok_bind]
  dsimp only
  rw [unbounded_sync, inodeSync_spec]
  exact ⟨_, rfl⟩

theorem scanBlock_total (buf : Mem)
    (hone : ∀ i < 21, ∀ i' < 21, Hit vol.disk all no k i → Hit vol.disk all no k i' → i = i') :
    ∃ sc, scanSector .debug (blit buf 0 vol.disk (512 * (all k).toNat) (512 * 1)) no (512 / dirEntrySize) 0 ⟨none, 0, false⟩ =
      .ok sc := by
  refine scanSector_total _ _ _ .zero fun j hj j' hj' h1 h2 h3 h4 => ?_
  have hj : j < 21 := by simpa [dirEntrySize] using hj
  have hj' : j' < 21 := by simpa [dirEntrySize] using hj'
  rw [sector_entry hj] at h1 h2
  rw [sector_entry hj'] at h3 h4
  exact hone j hj j' hj' ⟨h1, h2⟩ ⟨h3, h4⟩

theorem deleteBlocks_total (hin : ∀ k < 140, all k ≠ 0 → part.InData (all k).toNat ∧ (all k).toNat ≤ maxLba)
    (hone : ∀ k < 140, all k ≠ 0 → ∀ i < 21, ∀ i' < 21, Hit vol.disk all no k i → Hit vol.disk all no k i' → i = i')
    (hsi : dirEntrySize ≤ inode.iSize.toNat)
    (hdi : ∀ k < 140, all k ≠ 0 → ∀ i < 21, Hit vol.disk all no k i → Alone vol.disk all k i → k < 12) :
    ∀ (n k : Nat) (ioBuf : Mem), k + n = 140 → ∃ r, deleteBlocks .debug rounds no n k ⟨vol, inode, all, ioBuf⟩ = .ok (some r)
  | 0, k, ioBuf, hn => ⟨_, rfl⟩
  | n + 1, k, ioBuf, hn => by
    have ih := fun ioBuf => deleteBlocks_total hin hone hsi hdi n (k + 1) ioBuf (by omega)
    unfold deleteBlocks deleteBlocksVia
    by_cases hz : all k = 0
    · rw [if_pos hz]
      exact ih ioBuf
    obtain ⟨hda, hle⟩ := hin k (by omega) hz
    rw [if_neg hz]
    dsimp only
    rw [ideRead_eq _ _ hle (by decide), ok_bind]
    obtain ⟨sc, hsn⟩ := scanBlock_total (fill ioBuf 0 512 0) (hone k (by omega) hz)
    rw [hsn, ok_bind]
    obtain ⟨f, hf, hsc⟩ := scanned_block hsn
    rcases hfo : sc.dirEntryFound with _ | i
    · exact ih _
    obtain ⟨hi, hc, hno⟩ := hsc.some hfo
    have hcnt : 1 ≤ sc.dirEntryCnt := by
      rw [hsc.cnt]
      exact Finset.card_pos.mpr ⟨i, Finset.mem_filter.mpr ⟨Finset.mem_range.mpr hi, hc⟩⟩
    dsimp only
    rw [assert_of _ hcnt, ok_bind]
    split
    · -- the block is given back, so it is a direct one
      rename_i hdr
      rw [hf i hi] at hc hno
      have ha : Alone vol.disk all k i := fun j hj hji ht => by
        rw [← hf j hj] at ht ⊢
        by_contra hna
        refine hji (hsc.alone hfo hdr.1 hj ⟨ht, fun hd => ?_, hna⟩)
        exact absurd (hsc.first.mpr ⟨j, hj, ht, hd⟩) (by simp [hdr.2])
      obtain ⟨vol', hcl⟩ := clearBlock_total vol hda
      unfold dropBlock
      dsimp only
      rw [hcl, ok_bind, if_pos (hdi k (by omega) hz i hi ⟨hc, hno⟩ ha), pure_ok, ok_bind]
      dsimp only
      obtain ⟨st', hs⟩ := shrinkDir_total ⟨vol', inode.setSec k 0, all, _⟩ hsi
      rw [hs]
      exact ⟨_, rfl⟩
    · unfold clearEntry
      dsimp only
      rw [ideWrite_eq _ _ hle (by decide), ok_bind, pure_ok, ok_bind]
      dsimp only
      obtain ⟨st', hs⟩ := shrinkDir_total ⟨_, inode, all, _⟩ hsi
      rw [hs]
      exact ⟨_, rfl⟩

/-! ## What is left -/

variable {drop : Bool}

theorem Removed.blocks (h : Removed vol inode vol' inode' k0 i0 drop) (hb : DirBlocks vol (slotAddr vol.disk inode)) :
    DirBlocks vol' (slotAddr vol'.disk inode') := by
  have hold : ∀ k ≤ 140, slotAddr vol'.disk inode' k ≠ 0 → slotAddr vol'.disk inode' k = slotAddr vol.disk inode k ∧
      ¬ (drop = true ∧ k = k0) := fun k hk hne => by
    rw [h.addr k hk] at hne ⊢
    split at hne
    · exact absurd rfl hne
    · rename_i hnot
      exact ⟨if_neg hnot, hnot⟩
  refine ⟨fun k hk hne => ?_, fun k hk hne => ?_, fun k hk hne => ?_, fun j hj k hk hne he => ?_⟩
  · obtain ⟨e, -⟩ := hold k hk hne
    rw [e] at hne ⊢
    exact hb.inData k hk hne
  · obtain ⟨e, -⟩ := hold k hk hne
    rw [e] at hne ⊢
    exact hb.onDisk k hk hne
  · obtain ⟨e, hnot⟩ := hold k hk hne
    rw [e] at hne ⊢
    refine (h.used _).mpr ⟨hb.used k hk hne, fun hd => hnot ⟨hd.1, ?_⟩⟩
    have := h.index.1
    exact hb.inj k hk k0 (by omega) hne (UInt32.toNat.inj hd.2)
  · have e1 := (hold j hj hne).1
    have e2 := (hold k hk (he ▸ hne)).1
    rw [e1] at hne he
    rw [e2] at he
    exact hb.inj j hj k hk hne he

theorem Removed.live (h : Removed vol inode vol' inode' k0 i0 drop)
    (hdo : drop = true → ∀ i < 21, i ≠ i0 → (entryAt vol.disk (slotAddr vol.disk inode) k0 i).fType = 0) (k i : Nat) :
    liveAt vol'.disk (slotAddr vol'.disk inode') k i =
      if k = k0 ∧ i = i0 then none else liveAt vol.disk (slotAddr vol.disk inode) k i := by
  have hind := h.index
  refine Option.ext fun x => ?_
  rw [liveAt_eq_some]
  by_cases hki : k = k0 ∧ i = i0
  · obtain ⟨rfl, rfl⟩ := hki
    rw [if_pos ⟨rfl, rfl⟩]
    refine ⟨?_, nofun⟩
    rintro ⟨-, -, hne, ht, rfl⟩
    cases drop with
    | true =>
      rw [h.addr k (by omega), if_pos ⟨rfl, rfl⟩] at hne
      exact absurd rfl hne
    | false => exact absurd (h.cleared rfl).1 ht
  · rw [if_neg hki, liveAt_eq_some]
    constructor
    · rintro ⟨hk, hi, hne, ht, rfl⟩
      have hne' := hne
      rw [h.addr k (by omega)] at hne
      split at hne
      · exact absurd rfl hne
      · exact ⟨hk, hi, hne, ht, (h.kept k hk i hi hne' hki).symm⟩
    · rintro ⟨hk, hi, hne, ht, rfl⟩
      have hnot : ¬ (drop = true ∧ k = k0) := fun hd => by
        have hi0 : i ≠ i0 := fun e => hki ⟨hd.2, e⟩
        have := hdo hd.1 i hi hi0
        rw [← hd.2] at this
        exact ht this
      have hne' : slotAddr vol'.disk inode' k ≠ 0 := by rwa [h.addr k (by omega), if_neg hnot]
      exact ⟨hk, hi, hne', ht, h.kept k hk i hi hne' hki⟩

end

end OperateSystem
