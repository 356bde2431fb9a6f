import OperateSystem.DirSearch

/-!
# Adding directory entries

`sync_dir_entry` puts the new entry into one slot. It keeps the other slots
except in one case: when the direct blocks are full, it starts a new indirect
table, and the slots behind the old one are gone.
-/

namespace OperateSystem

open Function

section
variable {part : Partition} {b : Build} {vol : Volume part} {inode : Inode}
variable {l : Blocks} {st0 : DirWriting part} {buf ioBuf : Mem} {k lba : Nat} {vol' : Volume part}

/-! ## The loop over the blocks -/

def DirectFull (disk : Mem) (inode : Inode) : Prop :=
  ∀ k < 12, inode.sec k ≠ 0 ∧ ∀ i < 21, (entryAt disk (slotAddr disk inode) k i).fType ≠ 0

theorem freeEntry_some {buf : Mem} {j : Nat} : ∀ n i, freeEntry buf n i = some j →
    i ≤ j ∧ j < i + n ∧ (DirEntry.ofMem buf (dirEntrySize * j)).fType = 0
  | 0, _, h => by cases h
  | n + 1, i, h => by
    unfold freeEntry at h
    split at h
    · rename_i hc
      cases h
      exact ⟨le_rfl, by omega, hc⟩
    · obtain ⟨h1, h2, h3⟩ := freeEntry_some n (i + 1) h
      exact ⟨by omega, by omega, h3⟩

theorem freeEntry_none {buf : Mem} : ∀ n i, freeEntry buf n i = none →
    ∀ j, i ≤ j → j < i + n → (DirEntry.ofMem buf (dirEntrySize * j)).fType ≠ 0
  | 0, _, _ => fun j h1 h2 => by omega
  | n + 1, i, h => by
    unfold freeEntry at h
    split at h
    · cases h
    · rename_i hc
      intro j h1 h2
      by_cases hj : j = i
      · rwa [hj]
      · exact freeEntry_none n (i + 1) h j (by omega) (by omega)

def directBlocks (inode : Inode) : Blocks := copySectors inode 12 0 fun _ => 0

theorem directBlocks_apply (inode : Inode) (k : Nat) : directBlocks inode k = if k < 12 then inode.sec k else 0 := by
  unfold directBlocks
  rw [copySectors_apply]
  by_cases h : k < 12 <;> simp [h]

theorem slotAddr_low {disk : Mem} (hk : k < 12) : slotAddr disk inode k = inode.sec k := memLayout_low _ _ hk

inductive SyncEnd (b : Build) (vol : Volume part) (inode : Inode) (e : DirEntry) (r : DirWriting part × Bool) : Prop
  | free {k i : Nat} {ioBuf : Mem} (hk : k < 12) (hi : i < 21) (hl : inode.sec k ≠ 0)
    (hf : (entryAt vol.disk (slotAddr vol.disk inode) k i).fType = 0)
    (hput : putEntry b k (blit (blit ioBuf 0 vol.disk (512 * (inode.sec k).toNat) (512 * 1)) (dirEntrySize * i) e.toMem 0
      dirEntrySize) ⟨vol, inode, directBlocks inode, ioBuf⟩ = .ok r)
  | add {k : Nat} {ioBuf : Mem} (hk : k ≤ 12) (hz : k < 12 → inode.sec k = 0)
    (hfull : k = 12 → DirectFull vol.disk inode)
    (hadd : addBlock b e k ⟨vol, inode, directBlocks inode, ioBuf⟩ = .ok r)

theorem syncBlocks_end {e : DirEntry} {r : DirWriting part × Bool} : ∀ n k (ioBuf : Mem), k ≤ 12 → k + n = 140 →
    (∀ j < k, inode.sec j ≠ 0 ∧ ∀ i < 21, (entryAt vol.disk (slotAddr vol.disk inode) j i).fType ≠ 0) →
    syncBlocks b e n k ⟨vol, inode, directBlocks inode, ioBuf⟩ = .ok r → SyncEnd b vol inode e r
  | 0, k, _, hk, hn, _, _ => by omega
  | n + 1, k, ioBuf, hk, hn, hf, h => by
    unfold syncBlocks at h
    by_cases hz : directBlocks inode k = 0
    · rw [if_pos hz] at h
      refine .add hk (fun hk' => ?_) (fun hk' => ?_) h
      · rwa [directBlocks_apply, if_pos hk'] at hz
      · subst hk'
        exact hf
    · have hk' : k < 12 := by
        rw [directBlocks_apply] at hz
        by_contra hc
        rw [if_neg hc] at hz
        exact hz rfl
      rw [if_neg hz, bind_ok] at h
      rw [directBlocks_apply, if_pos hk'] at hz
      obtain ⟨buf, hbuf, h⟩ := h
      have hb := ideRead_ok hbuf
      simp only [directBlocks_apply, if_pos hk'] at hb
      have he : ∀ i < 21, DirEntry.ofMem buf (dirEntrySize * i) = entryAt vol.disk (slotAddr vol.disk inode) k i := by
        intro i hi
        rw [hb, sector_entry hi]
        unfold entryAt
        rw [slotAddr_low hk']
      split at h
      · rename_i i hi
        obtain ⟨-, hlt, ht⟩ := freeEntry_some _ _ hi
        rw [hb] at h
        exact .free hk' hlt hz (by rwa [he i hlt] at ht) h
      · rename_i hno
        refine syncBlocks_end n (k + 1) buf hk' (by omega) (fun j hj => ?_) h
        by_cases hjk : j = k
        · subst hjk
          refine ⟨hz, fun i hi => ?_⟩
          rw [← he i hi]
          exact freeEntry_none _ _ hno i (Nat.zero_le i) (by simpa [dirEntrySize] using hi)
        · exact hf j (by omega)

theorem syncDirEntry_end {e : DirEntry} {r : DirWriting part × Bool}
    (h : syncDirEntry b vol inode e ioBuf = .ok r) : SyncEnd b vol inode e r := by
  obtain ⟨_, -, h⟩ := bind_ok.mp h
  exact syncBlocks_end 140 0 ioBuf (by decide) rfl (fun j hj => absurd hj (Nat.not_lt_zero j)) h

/-! ## Blocks -/

theorem DirBlocks.restrict {vol : Volume part} {l' : Blocks} (h : DirBlocks vol l)
    (hl : ∀ k ≤ 140, l' k ≠ 0 → l' k = l k) (hu : ∀ x, vol.Used x → vol'.Used x) : DirBlocks vol' l' := by
  have hne : ∀ k ≤ 140, l' k ≠ 0 → l k ≠ 0 := fun k hk h' => hl k hk h' ▸ h'
  refine ⟨fun k hk h' => ?_, fun k hk h' => ?_, fun k hk h' => ?_, fun j hj k hk h' he => ?_⟩
  · rw [hl k hk h']
    exact h.inData k hk (hne k hk h')
  · rw [hl k hk h']
    exact h.onDisk k hk (hne k hk h')
  · rw [hl k hk h']
    exact hu _ (h.used k hk (hne k hk h'))
  · have hk' : l' k ≠ 0 := he ▸ h'
    refine h.inj j hj k hk (hne j hj h') ?_
    rw [← hl j hj h', he, hl k hk hk']

theorem DirBlocks.insert {vol : Volume part} {j : Nat} (h : DirBlocks vol l) (hf : ¬ vol.Used lba)
    (hin : part.InData lba) (hle : lba ≤ maxLba) (hu : ∀ x, vol'.Used x ↔ vol.Used x ∨ x = lba) :
    DirBlocks vol' (l.set j (.ofNat lba)) := by
  have hn := hin.toNat_ofNat
  -- a block of the directory is in use, so it is not the new one
  have hold : ∀ k ≤ 140, l k ≠ 0 → l k ≠ .ofNat lba := fun k hk h' e =>
    hf (by have := h.used k hk h'; rwa [e, hn] at this)
  have hset : ∀ k, (k = j ∧ l.set j (.ofNat lba) k = .ofNat lba) ∨ (k ≠ j ∧ l.set j (.ofNat lba) k = l k) := fun k => by
    unfold Blocks.set
    by_cases hk : k = j
    · exact .inl ⟨hk, by rw [hk, update_self]⟩
    · exact .inr ⟨hk, update_of_ne hk _ _⟩
  refine ⟨fun k hk h' => ?_, fun k hk h' => ?_, fun k hk h' => ?_, fun i hi k hk h' he => ?_⟩
  · rcases hset k with ⟨-, e⟩ | ⟨-, e⟩ <;> rw [e] at h' ⊢
    · rwa [hn]
    · exact h.inData k hk h'
  · rcases hset k with ⟨-, e⟩ | ⟨-, e⟩ <;> rw [e] at h' ⊢
    · rwa [hn]
    · exact h.onDisk k hk h'
  · rw [hu]
    rcases hset k with ⟨-, e⟩ | ⟨-, e⟩ <;> rw [e] at h' ⊢
    · exact .inr hn
    · exact .inl (h.used k hk h')
  · rcases hset i with ⟨ei, e⟩ | ⟨-, e⟩ <;> rcases hset k with ⟨ek, e'⟩ | ⟨-, e'⟩ <;> rw [e] at h' he <;> rw [e'] at he
    · rw [ei, ek]
    · exact absurd he.symm (hold k hk (he ▸ h'))
    · exact absurd he (hold i hi h')
    · exact h.inj i hi k hk h' he

theorem ideWrite_le {disk disk' : Mem} {n : Nat} (h : ideWrite .debug disk lba buf n = .ok disk') :
    lba ≤ maxLba := by
  simp only [ideWrite, bind_ok, assert_debug_ok] at h
  obtain ⟨_, hl, -⟩ := h
  exact hl

theorem newSector_entries {d disk' io : Mem} {e : DirEntry} {a : Nat}
    (hd : disk' = blit d (512 * a) (blit (fill io 0 512 0) 0 e.toMem 0 dirEntrySize) 0 (512 * 1)) :
    DirEntry.ofMem disk' (512 * a + dirEntrySize * 0) = e ∧
      ∀ i, 0 < i → i < 21 → (DirEntry.ofMem disk' (512 * a + dirEntrySize * i)).Free := by
  subst hd
  unfold dirEntrySize
  constructor
  · refine Eq.trans (DirEntry.ofMem_congr fun j hj => ?_) (DirEntry.ofMem_toMem e)
    rw [blit_in (by omega) (by omega), blit_in (by omega) (by omega)]
    congr 1; omega
  · intro i h1 h2
    refine DirEntry.free_of_zero fun j hj => ?_
    rw [blit_in (by omega) (by omega), blit_out (by omega), fill_in (by omega) (by omega)]

/-! ## The new slot -/

/-- The entry `e` is new in slot `(k0, i0)`, and the other slots of the blocks in `keep` are as
before. -/
structure Placed (vol : Volume part) (inode : Inode) (vol' : Volume part) (inode' : Inode) (e : DirEntry) (k0 i0 : Nat)
    (keep : Nat → Prop) : Prop where
  blocks : DirBlocks vol' (slotAddr vol'.disk inode')
  index : k0 < 140 ∧ i0 < 21
  slot : slotAddr vol'.disk inode' k0 ≠ 0 ∧ entryAt vol'.disk (slotAddr vol'.disk inode') k0 i0 = e
  kept : ∀ k < 140, ∀ i < 21, keep k → slotAddr vol.disk inode k ≠ 0 → ¬ (k = k0 ∧ i = i0) →
    slotAddr vol'.disk inode' k = slotAddr vol.disk inode k ∧
      entryAt vol'.disk (slotAddr vol'.disk inode') k i = entryAt vol.disk (slotAddr vol.disk inode) k i
  fresh : ∀ k < 140, ∀ i < 21, ¬ (keep k ∧ slotAddr vol.disk inode k ≠ 0) → ¬ (k = k0 ∧ i = i0) →
    slotAddr vol'.disk inode' k ≠ 0 → (entryAt vol'.disk (slotAddr vol'.disk inode') k i).Free
  was : keep k0 → slotAddr vol.disk inode k0 ≠ 0 →
    (entryAt vol.disk (slotAddr vol.disk inode) k0 i0).fType = 0
  size : inode'.iSize = inode.iSize + .ofNat dirEntrySize

variable {e : DirEntry} {st : DirWriting part}

theorem putEntry_ok {st' : DirWriting part} (h : putEntry .debug k buf st = .ok (st', true)) :
    (st.all k).toNat ≤ maxLba ∧ st'.vol.disk = blit st.vol.disk (512 * (st.all k).toNat) buf 0 (512 * 1) ∧
      st'.vol.blockBitmap = st.vol.blockBitmap ∧ st'.inode = { st.inode with iSize := st.inode.iSize + .ofNat dirEntrySize } := by
  unfold putEntry at h
  rw [bind_ok] at h
  obtain ⟨d, hd, h⟩ := h
  cases h
  exact ⟨ideWrite_le hd, ideWrite_ok hd, rfl, rfl⟩

theorem putEntry_true {st' : DirWriting part} {ok : Bool} (h : putEntry b k buf st = .ok (st', ok)) : ok = true := by
  obtain ⟨d, -, h⟩ := bind_ok.mp h
  cases h
  rfl

theorem sec_size (i : Inode) (n : UInt32) (k : Nat) : ({ i with iSize := n } : Inode).sec k = i.sec k := rfl

theorem putEntry_addr (h : DirBlocks vol (slotAddr vol.disk inode)) (hk : k < 12) (hl : inode.sec k ≠ 0)
    (hput : putEntry .debug k buf ⟨vol, inode, directBlocks inode, ioBuf⟩ = .ok (st, true)) :
    st.vol.disk = blit vol.disk (512 * (slotAddr vol.disk inode k).toNat) buf 0 (512 * 1) ∧
      ∀ j ≤ 140, slotAddr st.vol.disk st.inode j = slotAddr vol.disk inode j := by
  obtain ⟨-, hdi, -, hi⟩ := putEntry_ok hput
  simp only [directBlocks_apply, if_pos hk] at hdi
  rw [← show slotAddr vol.disk inode k = inode.sec k from slotAddr_low hk] at hdi hl
  refine ⟨hdi, slotAddr_congr (fun j => by rw [hi, sec_size]) fun h12 t ht => ?_⟩
  have htab : slotAddr vol.disk inode 140 = inode.sec 12 := memLayout_table _ _
  have hne : (inode.sec 12).toNat ≠ (slotAddr vol.disk inode k).toNat := fun e => by
    have := h.inj k (by omega) 140 le_rfl hl (by rw [htab]; exact (UInt32.toNat.inj e).symm)
    omega
  rw [hdi]
  exact blit_out (by omega)

theorem Placed.of_free (h : DirBlocks vol (slotAddr vol.disk inode)) {i : Nat} (hk : k < 12)
    (hi : i < 21) (hl : inode.sec k ≠ 0)
    (hf : (entryAt vol.disk (slotAddr vol.disk inode) k i).fType = 0)
    (hput : putEntry .debug k (blit (blit ioBuf 0 vol.disk (512 * (inode.sec k).toNat) (512 * 1)) (dirEntrySize * i) e.toMem 0
      dirEntrySize) ⟨vol, inode, directBlocks inode, ioBuf⟩ = .ok (st, true)) :
    Placed vol inode st.vol st.inode e k i fun _ => True := by
  obtain ⟨-, -, hb, hin⟩ := putEntry_ok hput
  obtain ⟨hdi, ha⟩ := putEntry_addr h hk hl hput
  have hsec : slotAddr vol.disk inode k = inode.sec k := slotAddr_low hk
  have hl' : slotAddr vol.disk inode k ≠ 0 := by rwa [hsec]
  rw [← hsec, blit_patch _ _ _ (by unfold dirEntrySize; omega)] at hdi
  have hs : ∀ x, x ≠ (slotAddr vol.disk inode k).toNat → ∀ j < 512, st.vol.disk (512 * x + j) = vol.disk (512 * x + j) :=
    fun x hx j hj => by
      rw [hdi]
      unfold dirEntrySize
      exact blit_out (by omega)
  have ho : ∀ k' < 140, ∀ i' < 21, slotAddr vol.disk inode k' ≠ 0 → ¬ (k' = k ∧ i' = i) →
      entryAt st.vol.disk (slotAddr st.vol.disk st.inode) k' i' = entryAt vol.disk (slotAddr vol.disk inode) k' i' := by
    intro k' hk' i' hi' hne hnot
    by_cases hkk : k' = k
    · unfold entryAt
      rw [ha k' (by omega), hdi, hkk]
      refine DirEntry.ofMem_congr fun j hj => ?_
      unfold dirEntrySize
      exact blit_out (by omega)
    · refine entryAt_congr hi' (ha k' (by omega)) (hs _ fun e => hkk ?_)
      exact h.inj k' (by omega) k (by omega) hne (UInt32.toNat.inj e)
  refine ⟨?_, ⟨by omega, hi⟩, ⟨?_, ?_⟩, ?_, ?_, fun _ _ => hf, by rw [hin]⟩
  · refine h.restrict (fun j hj _ => ha j hj) fun x hx => ?_
    rwa [used_congr hb]
  · rwa [ha k (by omega)]
  · unfold entryAt
    rw [ha k (by omega), hdi]
    exact DirEntry.ofMem_blit _ _ _
  · exact fun k' hk' i' hi' _ hne hnot => ⟨ha k' (by omega), ho k' hk' i' hi' hne hnot⟩
  · intro k' hk' i' hi' hnot _ hne
    rw [ha k' (by omega)] at hne
    exact absurd ⟨trivial, hne⟩ hnot

structure Allocated (vol vol' : Volume part) (lba : Nat) : Prop where
  free : ¬ vol.Used lba
  inData : part.InData lba
  used : ∀ x, vol'.Used x ↔ vol.Used x ∨ x = lba
  same : ∀ S, SameOutside part S vol.disk vol'.disk

def TakesBlock (b : Build) (vol : Volume part) (lba : Nat) (vol' : Volume part) : Prop :=
  ∃ vol1, blockBitmapAlloc b vol = .ok (some lba, vol1) ∧ bitmapSync b vol1 (lba - part.dataStartLba) .blockBitmap = .ok vol'

theorem TakesBlock.allocated (h : TakesBlock b vol lba vol') : Allocated vol vol' lba := by
  obtain ⟨vol1, ha, hs⟩ := h
  obtain ⟨hf, hin, hu, hdi⟩ := blockBitmapAlloc_spec ha
  have hlt : lba - part.dataStartLba < 4096 * part.blockBitmapSects := by
    have := hin.1
    have := hin.2
    omega
  obtain ⟨hb, hsa⟩ := bitmapSync_block hlt hs
  refine ⟨hf, hin, fun x => ?_, fun S => hdi ▸ hsa S⟩
  rw [used_congr hb]
  exact hu x

/-- How a block is added to a directory whose first 12 blocks are direct. -/
inductive AddEnd (b : Build) (e : DirEntry) (st : DirWriting part) : Nat → DirWriting part × Bool → Prop
  | full {k : Nat} {vol : Volume part} (ha : blockBitmapAlloc b st.vol = .ok (none, vol)) : AddEnd b e st k ({ st with vol }, false)
  | direct {k lba : Nat} {vol : Volume part} {r : DirWriting part × Bool} (hk : k < 12) (ht : TakesBlock b st.vol lba vol)
    (hput : putEntry b k (blit (fill st.ioBuf 0 512 0) 0 e.toMem 0 dirEntrySize)
      ⟨vol, st.inode.setSec k (.ofNat lba), st.all.set k (.ofNat lba), st.ioBuf⟩ = .ok r) : AddEnd b e st k r
  | noTable {t : Nat} {vol vol' : Volume part} (ht : TakesBlock b st.vol t vol) (ha : blockBitmapAlloc b vol = .ok (none, vol')) :
    AddEnd b e st 12 ({ st with
      vol := { vol' with
        blockBitmap := bitmapSet vol'.blockBitmap (((st.inode.setSec 12 (.ofNat t)).sec 12).toNat - part.dataStartLba) false
        block_len := vol'.block_len }
      inode := (st.inode.setSec 12 (.ofNat t)).setSec 12 0 }, false)
  | table {t d : Nat} {vol vol' : Volume part} {disk : Mem} {r : DirWriting part × Bool} (ht : TakesBlock b st.vol t vol)
    (hd : TakesBlock b vol d vol')
    (hstore : storeTable b vol'.disk ((st.inode.setSec 12 (.ofNat t)).sec 12) (st.all.set 12 (.ofNat d)) = .ok disk)
    (hput : putEntry b 12 (blit (fill st.ioBuf 0 512 0) 0 e.toMem 0 dirEntrySize)
      ⟨{ vol' with disk }, st.inode.setSec 12 (.ofNat t), st.all.set 12 (.ofNat d), st.ioBuf⟩ = .ok r) : AddEnd b e st 12 r

theorem addBlock_end {r : DirWriting part × Bool} (hk : k ≤ 12) (h : addBlock b e k st = .ok r) : AddEnd b e st k r := by
  obtain ⟨⟨a, vol1⟩, ha, h⟩ := bind_ok.mp h
  cases a with
  | none =>
    cases h
    exact .full ha
  | some lba =>
    obtain ⟨vol2, hs, h⟩ := bind_ok.mp h
    obtain ⟨⟨st1, ok⟩, hl, h⟩ := bind_ok.mp h
    by_cases hlt : k < 12
    · rw [linkBlock, if_pos hlt] at hl
      cases hl
      exact .direct hlt ⟨vol1, ha, hs⟩ h
    · obtain rfl : k = 12 := by omega
      obtain ⟨⟨a, vol3⟩, ha', hl⟩ := bind_ok.mp (show newTable b lba { st with vol := vol2 } = _ from hl)
      cases a with
      | none =>
        cases hl
        cases h
        exact .noTable ⟨vol1, ha, hs⟩ ha'
      | some d =>
        obtain ⟨vol4, hs', hl⟩ := bind_ok.mp hl
        obtain ⟨disk, hst, hl⟩ := bind_ok.mp hl
        cases hl
        exact .table ⟨vol1, ha, hs⟩ ⟨vol3, ha', hs'⟩ hst h

theorem DirBlocks.ne_new (h : DirBlocks vol l) (ha : Allocated vol vol' lba) (hk : k ≤ 140)
    (hl : l k ≠ 0) : (l k).toNat ≠ lba := fun e => ha.free (e ▸ h.used k hk hl)

theorem newBlock_addr (h : DirBlocks vol (slotAddr vol.disk inode)) {vol2 : Volume part} (hk : k < 12)
    (ha : Allocated vol vol2 lba)
    (hput : putEntry .debug k buf ⟨vol2, inode.setSec k (.ofNat lba), (directBlocks inode).set k (.ofNat lba), ioBuf⟩ =
      .ok (st, true)) :
    SameOutside part (· = lba) vol.disk st.vol.disk ∧
      ∀ j ≤ 140, slotAddr st.vol.disk st.inode j = (slotAddr vol.disk inode).set k (.ofNat lba) j := by
  obtain ⟨-, hdi, -, hin⟩ := putEntry_ok hput
  simp only [Blocks.set, update_self, ha.inData.toNat_ofNat] at hdi
  have hs : SameOutside part (· = lba) vol.disk st.vol.disk := by
    refine (ha.same _).trans fun x _ hx j hj => ?_
    rw [hdi]
    exact blit_out (by have : x ≠ lba := hx; omega)
  refine ⟨hs, fun j hj => ?_⟩
  have hsec : ∀ j, st.inode.sec j = if j = k then .ofNat lba else inode.sec j := fun j => by
    rw [hin, sec_size, sec_setSec _ _ _ _ (by omega)]
  have hta : slotAddr vol.disk inode 140 = inode.sec 12 := memLayout_table _ _
  unfold Blocks.set
  by_cases hjk : j = k
  · rw [hjk, update_self, slotAddr_low hk, hsec, if_pos rfl]
  rw [update_of_ne hjk]
  have hsec' : ∀ i, i ≠ k → st.inode.sec i = inode.sec i := fun i hi => by rw [hsec, if_neg hi]
  unfold slotAddr memLayout tableOf
  rw [hsec' 12 (by omega), hsec' j hjk]
  by_cases h1 : j < 12
  · rw [if_pos h1, if_pos h1]
  by_cases h12 : inode.sec 12 = 0
  · simp only [h12]
    simp
  · simp only [h1, h12, ite_false]
    split
    · rfl
    · refine word_congr fun t ht => ?_
      have hne := hta ▸ h12
      rw [Nat.add_assoc, ← hta]
      exact hs _ (h.inData 140 le_rfl hne).1 (h.ne_new ha le_rfl hne) _ (by omega)

theorem Placed.of_direct (h : DirBlocks vol (slotAddr vol.disk inode)) (hk : k < 12)
    (hz : inode.sec k = 0) {vol2 : Volume part} (ha : Allocated vol vol2 lba)
    (hput : putEntry .debug k (blit (fill ioBuf 0 512 0) 0 e.toMem 0 dirEntrySize)
      ⟨vol2, inode.setSec k (.ofNat lba), (directBlocks inode).set k (.ofNat lba), ioBuf⟩ = .ok (st, true)) :
    Placed vol inode st.vol st.inode e k 0 fun _ => True := by
  obtain ⟨hsa, had⟩ := newBlock_addr h hk ha hput
  obtain ⟨hle, hdi, hb, hi⟩ := putEntry_ok hput
  have hn := ha.inData.toNat_ofNat
  simp only [Blocks.set, update_self, hn] at hle hdi
  have hlow : slotAddr vol.disk inode k = 0 := (slotAddr_low hk).trans hz
  have hse : ∀ j ≤ 140, slotAddr vol.disk inode j ≠ 0 → ∀ t < 512,
      st.vol.disk (512 * (slotAddr vol.disk inode j).toNat + t) = vol.disk (512 * (slotAddr vol.disk inode j).toNat + t) :=
    fun j hj hne => hsa _ (h.inData j hj hne).1 (h.ne_new ha hj hne)
  have hset : ∀ j ≤ 140, j ≠ k → slotAddr st.vol.disk st.inode j = slotAddr vol.disk inode j := fun j hj hjk => by
    rw [had j hj, Blocks.set, update_of_ne hjk]
  have hs : slotAddr st.vol.disk st.inode k = .ofNat lba := by
    rw [had k (by omega), Blocks.set, update_self]
  obtain ⟨hf, hr⟩ := newSector_entries hdi
  refine ⟨?_, ⟨by omega, by decide⟩, ⟨?_, ?_⟩, ?_, ?_, fun _ hne => absurd hlow hne, by rw [hi]; rfl⟩
  · refine (h.insert (j := k) ha.free ha.inData hle ha.used).restrict (fun j hj _ => had j hj) fun x hx => ?_
    rwa [used_congr hb]
  · rw [hs]
    exact (show part.InData (UInt32.ofNat lba).toNat by rw [hn]; exact ha.inData).ne_zero
  · unfold entryAt
    rw [hs, hn]
    exact hf
  · intro k' hk' i' hi' _ hne hnot
    have hkk : k' ≠ k := fun e => hne (e ▸ hlow)
    have heq := hset k' (by omega) hkk
    exact ⟨heq, entryAt_congr hi' heq (hse k' (by omega) hne)⟩
  · intro k' hk' i' hi' hnot hns hne
    have hkk : k' = k := by
      by_contra hkk
      rw [hset k' (by omega) hkk] at hne
      exact hnot ⟨trivial, hne⟩
    subst hkk
    unfold entryAt
    rw [hs, hn]
    exact hr i' (Nat.pos_of_ne_zero fun e => hns ⟨rfl, e⟩) hi'

theorem Allocated.ofNat_ne_zero (ha : Allocated vol vol' lba) : UInt32.ofNat lba ≠ 0 :=
  (show part.InData (UInt32.ofNat lba).toNat by rw [ha.inData.toNat_ofNat]; exact ha.inData).ne_zero

theorem Placed.of_table (h : DirBlocks vol (slotAddr vol.disk inode)) {t d : Nat} {vol2 vol4 : Volume part} {disk5 : Mem}
    (ht : Allocated vol vol2 t) (hd : Allocated vol2 vol4 d)
    (hs : storeTable .debug vol4.disk ((inode.setSec 12 (.ofNat t)).sec 12) ((directBlocks inode).set 12 (.ofNat d)) = .ok disk5)
    (hput : putEntry .debug 12 (blit (fill ioBuf 0 512 0) 0 e.toMem 0 dirEntrySize)
      ⟨{ vol4 with disk := disk5 }, inode.setSec 12 (.ofNat t), (directBlocks inode).set 12 (.ofNat d), ioBuf⟩ = .ok (st, true)) :
    Placed vol inode st.vol st.inode e 12 0 fun k => k < 12 := by
  obtain ⟨hle, hdi, hb, hid⟩ := putEntry_ok hput
  have hnt := ht.inData.toNat_ofNat
  have hnd := hd.inData.toNat_ofNat
  simp only [Blocks.set, update_self, hnd] at hle hdi
  have hsec : ∀ j, st.inode.sec j = if j = 12 then .ofNat t else inode.sec j := fun j => by
    rw [hid, sec_size, sec_setSec _ _ _ _ (by decide)]
  have hsec12 : (inode.setSec 12 (.ofNat t)).sec 12 = .ofNat t := by rw [sec_setSec _ _ _ _ (by decide), if_pos rfl]
  have hmid := storeTable_mid (i := inode.setSec 12 (.ofNat t)) (by rw [hsec12]; exact ht.ofNat_ne_zero) hs
  have htd : t ≠ d := fun e => hd.free ((ht.used d).mpr (.inr e.symm))
  -- the sectors of the table and of the new block are the only data sectors that change
  have hsa : ∀ x, part.dataStartLba ≤ x → x ≠ t → x ≠ d → ∀ j < 512, st.vol.disk (512 * x + j) = vol.disk (512 * x + j) := by
    intro x hx hxt hxd j hj
    have h5 : disk5 (512 * x + j) = vol4.disk (512 * x + j) := by
      rw [ideWrite_ok hs, hsec12, hnt]
      exact blit_out (by omega)
    rw [hdi, blit_out (by omega), h5, hd.same (fun _ => False) x hx (fun h => h) j hj,
      ht.same (fun _ => False) x hx (fun h => h) j hj]
  have ha : ∀ j ≤ 140, slotAddr st.vol.disk st.inode j =
      ((directBlocks inode).set 140 (.ofNat t)).set 12 (.ofNat d) j := by
    intro j hj
    unfold Blocks.set
    by_cases h1 : j < 12
    · rw [update_of_ne (by omega), update_of_ne (by omega), slotAddr_low h1, hsec, if_neg (by omega),
        directBlocks_apply, if_pos h1]
    · by_cases h2 : j = 140
      · rw [h2, update_of_ne (by decide), update_self]
        exact (memLayout_table _ _).trans (by rw [hsec, if_pos rfl])
      · have htab : tableOf st.vol.disk st.inode j = tableOf disk5 (inode.setSec 12 (.ofNat t)) j := by
          unfold tableOf
          rw [hsec, if_pos rfl, hsec12, if_neg ht.ofNat_ne_zero, if_neg ht.ofNat_ne_zero, hnt]
          refine word_congr fun i hi => ?_
          rw [hdi]
          exact blit_out (by omega)
        rw [slotAddr, memLayout_mid _ _ (by omega) (by omega), htab, hmid j (by omega) (by omega)]
        show update (directBlocks inode) 12 (UInt32.ofNat d) j = _
        by_cases h3 : j = 12
        · rw [h3, update_self, update_self]
        · rw [update_of_ne h3, update_of_ne h3, update_of_ne h2]
  have hlow : ∀ j < 12, slotAddr st.vol.disk st.inode j = slotAddr vol.disk inode j := fun j hj => by
    rw [slotAddr_low hj, slotAddr_low hj, hsec, if_neg (by omega)]
  have hse : slotAddr st.vol.disk st.inode 12 = .ofNat d := by
    rw [ha 12 (by decide), Blocks.set, update_self]
  obtain ⟨hf, hr⟩ := newSector_entries hdi
  refine ⟨?_, ⟨by decide, by decide⟩, ⟨?_, ?_⟩, ?_, ?_, fun h => absurd h (by decide), by rw [hid]; rfl⟩
  · have hdr : DirBlocks vol (directBlocks inode) := h.restrict (fun j _ hne => by
      rw [directBlocks_apply] at hne ⊢
      split at hne
      · rename_i hj
        rw [if_pos hj, slotAddr_low hj]
      · exact absurd rfl hne) fun x hx => hx
    have htle : t ≤ maxLba := by
      have := ideWrite_le hs
      rwa [hsec12, hnt] at this
    have hw := (hdr.insert (j := 140) ht.free ht.inData htle ht.used).insert (j := 12) hd.free hd.inData hle hd.used
    refine hw.restrict (fun j hj _ => ha j hj) fun x hx => ?_
    rwa [used_congr hb]
  · rw [hse]
    exact hd.ofNat_ne_zero
  · unfold entryAt
    rw [hse, hnd]
    exact hf
  · intro k hk i hi hke hne _
    have hin := h.inData k (by omega) hne
    refine ⟨hlow k hke, entryAt_congr hi (hlow k hke) (hsa _ hin.1 (h.ne_new ht (by omega) hne) fun e => ?_)⟩
    exact hd.free ((ht.used d).mpr (.inl (e ▸ h.used k (by omega) hne)))
  · intro k hk i hi hnot hns hne
    have hk12 : ¬ k < 12 := fun hlt => hnot ⟨hlt, hlow k hlt ▸ hne⟩
    have hk' : k = 12 := by
      by_contra hc
      rw [ha k (by omega), Blocks.set, Blocks.set, update_of_ne hc, update_of_ne (by omega),
        directBlocks_apply, if_neg hk12] at hne
      exact hne rfl
    subst hk'
    unfold entryAt
    rw [hse, hnd]
    exact hr i (Nat.pos_of_ne_zero fun e => hns ⟨rfl, e⟩) hi

theorem syncDirEntry_placed (h : DirBlocks vol (slotAddr vol.disk inode))
    (hr : syncDirEntry .debug vol inode e ioBuf = .ok (st, true)) :
    ∃ k0 i0, (¬ DirectFull vol.disk inode → k0 < 12) ∧
      Placed vol inode st.vol st.inode e k0 i0 fun k => DirectFull vol.disk inode → k < 12 := by
  have hall : ¬ DirectFull vol.disk inode → (fun k : Nat => DirectFull vol.disk inode → k < 12) = fun _ => True :=
    fun hn => funext fun k => eq_true fun hf => absurd hf hn
  cases syncDirEntry_end hr with
  | @free k i _ hk hi hl hf hput =>
    refine ⟨k, i, fun _ => hk, ?_⟩
    rw [hall fun hfu => (hfu k hk).2 i hi hf]
    exact .of_free h hk hi hl hf hput
  | @add k _ hk hz hfu hadd =>
    cases addBlock_end hk hadd with
    | direct hlt ht hput =>
      refine ⟨k, 0, fun _ => hlt, ?_⟩
      rw [hall fun hfu => (hfu k hlt).1 (hz hlt)]
      exact .of_direct h hlt (hz hlt) ht.allocated hput
    | table ht hd hs hput =>
      refine ⟨12, 0, fun hn => absurd (hfu rfl) hn, ?_⟩
      have : (fun k : Nat => DirectFull vol.disk inode → k < 12) = fun k => k < 12 :=
        funext fun k => propext ⟨fun hk => hk (hfu rfl), fun hk _ => hk⟩
      rw [this]
      exact .of_table h ht.allocated hd.allocated hs hput

theorem syncDirEntry_direct (h : DirBlocks vol (slotAddr vol.disk inode))
    (hfu : ¬ DirectFull vol.disk inode) (hr : syncDirEntry .debug vol inode e ioBuf = .ok (st, true)) :
    ∃ k0 i0, (∀ j ≤ 140, j ≠ k0 → slotAddr st.vol.disk st.inode j = slotAddr vol.disk inode j) ∧ k0 < 12 ∧
      Placed vol inode st.vol st.inode e k0 i0 fun _ => True := by
  cases syncDirEntry_end hr with
  | @free k i _ hk hi hl hf hput =>
    obtain ⟨-, ha⟩ := putEntry_addr h hk hl hput
    exact ⟨k, i, fun j hj _ => ha j hj, hk, .of_free h hk hi hl hf hput⟩
  | @add k _ hk hz hf' hadd =>
    cases addBlock_end hk hadd with
    | direct hlt ht hput =>
      obtain ⟨-, ha⟩ := newBlock_addr h hlt ht.allocated hput
      refine ⟨k, 0, fun j hj hjk => ?_, hlt, .of_direct h hlt (hz hlt) ht.allocated hput⟩
      rw [ha j hj, Blocks.set, update_of_ne hjk]
    | table => exact absurd (hf' rfl) hfu

/-! ## The call returns -/

def Volume.HasBlock (vol : Volume part) : Prop := ∃ lba vol', blockBitmapAlloc .debug vol = .ok (some lba, vol') ∧ lba ≤ maxLba

theorem addBlock_total (hr : vol.HasBlock) (hk : k < 12) (ioBuf : Mem) :
    ∃ st, addBlock .debug e k ⟨vol, inode, directBlocks inode, ioBuf⟩ = .ok (st, true) := by
  obtain ⟨lba, vol1, ha, hle⟩ := hr
  obtain ⟨-, hin, -, -⟩ := blockBitmapAlloc_spec ha
  have h1 := hin.1
  have h2 := hin.2
  obtain ⟨vol2, hs⟩ := bitmapSync_total vol1 (show lba - part.dataStartLba < 4096 * part.blockBitmapSects by omega)
  unfold addBlock
  rw [ha, ok_bind]
  dsimp only
  rw [hs, ok_bind]
  unfold linkBlock putEntry
  rw [if_pos hk, pure_ok, ok_bind]
  simp only [Blocks.set, update_self, hin.toNat_ofNat]
  rw [ideWrite_eq _ _ hle (by decide)]
  exact ⟨_, rfl⟩

theorem syncBlocks_total (h : DirBlocks vol (slotAddr vol.disk inode)) (hr : vol.HasBlock) : ∀ n k (ioBuf : Mem), k + n = 12 →
    (∃ j, k ≤ j ∧ j < 12 ∧ (inode.sec j = 0 ∨ ∃ i < 21, (entryAt vol.disk (slotAddr vol.disk inode) j i).fType = 0)) →
    ∃ st, syncBlocks .debug e (n + 128) k ⟨vol, inode, directBlocks inode, ioBuf⟩ = .ok (st, true)
  | 0, k, _, hn, ⟨j, hkj, hj, _⟩ => by omega
  | n + 1, k, ioBuf, hn, ⟨j, hkj, hj, hf⟩ => by
    have hk : k < 12 := by omega
    have hall : directBlocks inode k = inode.sec k := by rw [directBlocks_apply, if_pos hk]
    unfold syncBlocks
    by_cases hz : inode.sec k = 0
    · rw [if_pos (hall.trans hz)]
      exact addBlock_total hr hk ioBuf
    · have hne : slotAddr vol.disk inode k ≠ 0 := by rwa [slotAddr_low hk]
      have hle := h.onDisk k (by omega) hne
      rw [slotAddr_low hk] at hle
      have hput : ∀ i, ∃ st, putEntry .debug k (blit (blit ioBuf 0 vol.disk (512 * (inode.sec k).toNat) (512 * 1)) (dirEntrySize * i)
          e.toMem 0 dirEntrySize) ⟨vol, inode, directBlocks inode, ioBuf⟩ = .ok (st, true) := fun i => by
        unfold putEntry
        dsimp only
        rw [hall, ideWrite_eq _ _ hle (by decide)]
        exact ⟨_, rfl⟩
      dsimp only
      rw [if_neg (by rwa [hall]), hall, ideRead_eq _ _ hle (by decide), ok_bind]
      split
      · rename_i i _
        exact hput i
      · rename_i hno
        refine syncBlocks_total h hr n (k + 1) _ (by omega) ⟨j, ?_, hj, hf⟩
        -- block `k` is full, so the free slot lies behind it
        by_contra hjk
        obtain rfl : j = k := by omega
        rcases hf with hz' | ⟨i, hi, ht⟩
        · exact hz hz'
        · refine freeEntry_none _ _ hno i (Nat.zero_le i) (by simpa [dirEntrySize] using hi) ?_
          have ha : slotAddr vol.disk inode j = inode.sec j := slotAddr_low hk
          rw [← ha, sector_entry hi]
          exact ht

theorem syncDirEntry_total (h : DirBlocks vol (slotAddr vol.disk inode)) (hr : vol.HasBlock)
    (hf : ¬ DirectFull vol.disk inode) (hs : inode.iSize.toNat % dirEntrySize = 0) (ioBuf : Mem) :
    ∃ st, syncDirEntry .debug vol inode e ioBuf = .ok (st, true) := by
  have hfr : ∃ j, 0 ≤ j ∧ j < 12 ∧ (inode.sec j = 0 ∨ ∃ i < 21, (entryAt vol.disk (slotAddr vol.disk inode) j i).fType = 0) := by
    by_contra hc
    refine hf fun k hk => ⟨fun hz => hc ⟨k, Nat.zero_le k, hk, .inl hz⟩, fun i hi ht => hc ⟨k, Nat.zero_le k, hk, .inr ⟨i, hi, ht⟩⟩⟩
  unfold syncDirEntry
  rw [assert_of _ hs, ok_bind]
  exact syncBlocks_total h hr 12 0 ioBuf rfl hfr

section
variable {vol' : Volume part} {inode' : Inode} {k0 i0 : Nat} {keep : Nat → Prop}

theorem Placed.live_iff (h : Placed vol inode vol' inode' e k0 i0 keep) (he : e.fType ≠ 0) {k i : Nat} {x : DirEntry} :
    liveAt vol'.disk (slotAddr vol'.disk inode') k i = some x ↔ (k = k0 ∧ i = i0 ∧ x = e) ∨
      (¬ (k = k0 ∧ i = i0) ∧ keep k ∧ liveAt vol.disk (slotAddr vol.disk inode) k i = some x) := by
  by_cases hs : k = k0 ∧ i = i0
  · obtain ⟨rfl, rfl⟩ := hs
    rw [liveAt_eq_some]
    constructor
    · rintro ⟨-, -, -, -, hx⟩
      exact .inl ⟨rfl, rfl, hx.symm.trans h.slot.2⟩
    · rintro (⟨-, -, rfl⟩ | ⟨hne, -⟩)
      · exact ⟨h.index.1, h.index.2, h.slot.1, he, h.slot.2⟩
      · exact absurd ⟨rfl, rfl⟩ hne
  · rw [liveAt_eq_some, liveAt_eq_some]
    constructor
    · rintro ⟨hk, hi, hl, ht, rfl⟩
      by_cases hke : keep k ∧ slotAddr vol.disk inode k ≠ 0
      · obtain ⟨-, heq⟩ := h.kept k hk i hi hke.1 hke.2 hs
        exact .inr ⟨hs, hke.1, hk, hi, hke.2, ht, heq.symm⟩
      · exact absurd (h.fresh k hk i hi hke hs hl).1 ht
    · rintro (⟨rfl, rfl, -⟩ | ⟨-, hke, hk, hi, hl, ht, rfl⟩)
      · exact absurd ⟨rfl, rfl⟩ hs
      · obtain ⟨ha, heq⟩ := h.kept k hk i hi hke hl hs
        exact ⟨hk, hi, ha ▸ hl, ht, heq⟩

theorem Placed.live (h : Placed vol inode vol' inode' e k0 i0 fun _ => True) (he : e.fType ≠ 0) (k i : Nat) :
    liveAt vol'.disk (slotAddr vol'.disk inode') k i =
      if k = k0 ∧ i = i0 then some e else liveAt vol.disk (slotAddr vol.disk inode) k i := by
  refine Option.ext fun x => ?_
  rw [h.live_iff he]
  by_cases hki : k = k0 ∧ i = i0
  · simp [hki, eq_comm]
  · simp only [hki, if_false, true_and, not_false_eq_true]
    exact ⟨fun hx => hx.resolve_left fun hs => hki ⟨hs.1, hs.2.1⟩, .inr⟩

theorem Placed.old_slot (h : Placed vol inode vol' inode' e k0 i0 keep) {k i : Nat} {x : DirEntry} (hk : keep k)
    (hx : liveAt vol.disk (slotAddr vol.disk inode) k i = some x) : ¬ (k = k0 ∧ i = i0) := by
  rintro ⟨rfl, rfl⟩
  obtain ⟨-, -, hl, ht, rfl⟩ := liveAt_eq_some.mp hx
  exact ht (h.was hk hl)

theorem Placed.dirOk (h : Placed vol inode vol' inode' e k0 i0 keep) (hok : DirOk vol inode) (he : e.Live)
    (hf : ∀ {k i x}, liveAt vol.disk (slotAddr vol.disk inode) k i = some x → x.name ≠ e.name) : DirOk vol' inode' := by
  refine ⟨h.blocks, fun k hk i hi hl => ?_, fun {k i k' i' x y} hx hy hn => ?_⟩
  · by_cases hs : k = k0 ∧ i = i0
    · obtain ⟨rfl, rfl⟩ := hs
      rw [h.slot.2]
      exact .inr he
    · by_cases hke : keep k ∧ slotAddr vol.disk inode k ≠ 0
      · rw [(h.kept k hk i hi hke.1 hke.2 hs).2]
        exact hok.entries k hk i hi hke.2
      · exact .inl (h.fresh k hk i hi hke hs hl)
  · rcases (h.live_iff he.1).mp hx with ⟨rfl, rfl, rfl⟩ | ⟨-, -, hx⟩ <;>
      rcases (h.live_iff he.1).mp hy with ⟨rfl, rfl, rfl⟩ | ⟨-, -, hy⟩
    · exact ⟨rfl, rfl⟩
    · exact absurd hn.symm (hf hy)
    · exact absurd hn (hf hx)
    · exact hok.distinct hx hy hn

end

end

def HasEntry {part : Partition} (vol : Volume part) (inode : Inode) (x : DirEntry) : Prop :=
  ∃ k i, liveAt vol.disk (slotAddr vol.disk inode) k i = some x

def IndirectEntry {part : Partition} (vol : Volume part) (inode : Inode) (x : DirEntry) : Prop :=
  ∃ k i, 12 ≤ k ∧ liveAt vol.disk (slotAddr vol.disk inode) k i = some x

section
variable {part : Partition} {vol : Volume part} {inode : Inode} {e : DirEntry} {st : DirWriting part} {ioBuf : Mem}

theorem syncDirEntry_spec (h : DirOk vol inode) (he : e.Live) (hfr : ∀ x, HasEntry vol inode x → x.name ≠ e.name)
    (hr : syncDirEntry .debug vol inode e ioBuf = .ok (st, true)) :
    DirOk st.vol st.inode ∧ st.inode.iSize = inode.iSize + .ofNat dirEntrySize ∧
      ∀ x, HasEntry st.vol st.inode x ↔
        x = e ∨ (HasEntry vol inode x ∧ ¬ (DirectFull vol.disk inode ∧ IndirectEntry vol inode x)) := by
  obtain ⟨k0, i0, -, hp⟩ := syncDirEntry_placed h.blocks hr
  refine ⟨hp.dirOk h he fun hx => hfr _ ⟨_, _, hx⟩, hp.size, fun x => ⟨?_, ?_⟩⟩
  · rintro ⟨k, i, hx⟩
    rcases (hp.live_iff he.1).mp hx with ⟨-, -, rfl⟩ | ⟨-, hke, hx⟩
    · exact .inl rfl
    · refine .inr ⟨⟨k, i, hx⟩, ?_⟩
      rintro ⟨hf, k', i', hk', hx'⟩
      obtain ⟨rfl, -⟩ := h.distinct hx hx' rfl
      have := hke hf
      omega
  · rintro (rfl | ⟨⟨k, i, hx⟩, hnot⟩)
    · exact ⟨k0, i0, (hp.live_iff he.1).mpr (.inl ⟨rfl, rfl, rfl⟩)⟩
    · have hke : DirectFull vol.disk inode → k < 12 := fun hf => by
        by_contra hk
        exact hnot ⟨hf, k, i, by omega, hx⟩
      exact ⟨k, i, (hp.live_iff he.1).mpr (.inr ⟨hp.old_slot hke hx, hke, hx⟩)⟩

theorem DirOk.finds_iff (h : DirOk vol inode) {x : DirEntry} (hx : x.Named) :
    (∀ buf, searchDirEntry .debug vol.disk inode x.name true buf = .ok (some x)) ↔ HasEntry vol inode x :=
  ⟨fun hs => (h.search_iff hx fun _ => 0).mp (hs _), fun hs buf => (h.search_iff hx buf).mpr hs⟩

end

/-! ## A directory with an entry behind the table -/

def sampleEntry (k i : Nat) : DirEntry :=
  ⟨fun j => if j.val = 0 then .ofNat (k + 1) else if j.val = 1 then .ofNat (i + 1) else 0, .ofNat (21 * k + i), 1⟩

/-- Sectors 612 to 623 are direct blocks, 624 is the table and 625 the only indirect
block. `d` tells which slots are in use. -/
def sampleDirDisk (d : Nat → Nat → Bool) : Mem := fun a =>
  if a / 512 = 624 then wordBytes (fun j => if j = 0 then 625 else 0) (a % 512)
  else
    let k := if a / 512 = 625 then 12 else a / 512 - 612
    if a % 512 / 24 < 21 ∧ d k (a % 512 / 24) = true then (sampleEntry k (a % 512 / 24)).toMem (a % 512 % 24) else 0

def sampleDirVol (d : Nat → Nat → Bool) : Volume samplePart where
  disk := sampleDirDisk d
  blockBitmap := ⟨512, fun a => if a = 0 then 0xff else if a = 1 then 0x3f else 0, sector_lt⟩
  inodeBitmap := ⟨512, fun _ => 0, sector_lt⟩
  block_len := rfl

def sampleDirInode (iSize : UInt32) : Inode :=
  ⟨1, iSize, 1, 0, fun j => if j.val < 12 then .ofNat (612 + j) else 624, 0, 0⟩

def fullSlots (k i : Nat) : Bool := k < 12 || (k = 12 && i = 0)

section
variable (d : Nat → Nat → Bool) (n : UInt32)
variable {i k : Nat}

def sampleAddr (k : Nat) : Nat := if k < 12 then 612 + k else if k = 12 then 625 else if k = 140 then 624 else 0

theorem sample_slotAddr (hk : k ≤ 140) :
    slotAddr (sampleDirDisk d) (sampleDirInode n) k = .ofNat (sampleAddr k) := by
  have hsec : ∀ j < 13, (sampleDirInode n).sec j = if j < 12 then .ofNat (612 + j) else 624 := fun j hj => by
    unfold Inode.sec
    rw [dif_pos hj]
    rfl
  unfold sampleAddr
  by_cases h1 : k < 12
  · rw [slotAddr_low h1, hsec k (by omega), if_pos h1, if_pos h1]
  rw [if_neg h1]
  by_cases h2 : k = 140
  · subst h2
    exact (memLayout_table _ _).trans (hsec 12 (by decide))
  · have hw : word (sampleDirDisk d) (512 * 624 + 4 * (k - 12)) = if k - 12 = 0 then 625 else 0 := by
      rw [← word_wordBytes (fun j => if j = 0 then 625 else 0) (k - 12)]
      refine word_congr fun j hj => ?_
      unfold sampleDirDisk
      rw [if_pos (by omega)]
      congr 1
      omega
    rw [slotAddr, memLayout_mid _ _ (by omega) (by omega), tableOf, hsec 12 (by decide)]
    refine hw.trans ?_
    by_cases h3 : k = 12
    · simp [h3]
    · rw [if_neg (by omega), if_neg h3, if_neg h2]
      rfl

theorem sampleAddr_lt (k : Nat) : sampleAddr k < 2 ^ 32 := by
  unfold sampleAddr
  split
  · omega
  · split
    · decide
    · split <;> decide

theorem sampleAddr_index (h : 612 ≤ sampleAddr k) :
    k = if sampleAddr k < 624 then sampleAddr k - 612 else if sampleAddr k = 625 then 12 else 140 := by
  unfold sampleAddr at *
  by_cases h1 : k < 12
  · simp only [h1, ite_true]
    rw [if_pos (by omega)]
    omega
  · by_cases h2 : k = 12
    · simp [h2]
    · by_cases h3 : k = 140
      · simp [h3]
      · simp [h1, h2, h3] at h

theorem sample_addr_toNat (hk : k ≤ 140) :
    (slotAddr (sampleDirDisk d) (sampleDirInode n) k).toNat = sampleAddr k := by
  rw [sample_slotAddr d n hk, UInt32.toNat_ofNat']
  exact Nat.mod_eq_of_lt (sampleAddr_lt k)

theorem sample_allocated (hk : k < 140) (h : slotAddr (sampleDirDisk d) (sampleDirInode n) k ≠ 0) : k ≤ 12 := by
  by_contra hc
  apply h
  rw [sample_slotAddr d n (by omega), sampleAddr, if_neg (by omega), if_neg (by omega), if_neg (by omega)]
  rfl

theorem sample_byte {j : Nat} (hk : k ≤ 12) (hi : i < 21) (hj : j < 24) :
    sampleDirDisk d (512 * sampleAddr k + 24 * i + j) = if d k i = true then (sampleEntry k i).toMem j else 0 := by
  have hsec : (512 * sampleAddr k + 24 * i + j) / 512 = sampleAddr k := by omega
  have hoff : (512 * sampleAddr k + 24 * i + j) % 512 = 24 * i + j := by omega
  have hne : sampleAddr k ≠ 624 ∧ (if sampleAddr k = 625 then 12 else sampleAddr k - 612) = k := by
    unfold sampleAddr
    by_cases h1 : k < 12
    · simp only [h1, ite_true]
      exact ⟨by omega, by rw [if_neg (by omega)]; omega⟩
    · have : k = 12 := by omega
      subst this
      decide
  unfold sampleDirDisk
  rw [hsec, hoff, if_neg hne.1]
  rw [hne.2, show (24 * i + j) / 24 = i by omega, show (24 * i + j) % 24 = j by omega]
  simp only [hi, true_and]

theorem sample_entry (hk : k ≤ 12) (hi : i < 21) (hd : d k i = true) :
    entryAt (sampleDirDisk d) (slotAddr (sampleDirDisk d) (sampleDirInode n)) k i = sampleEntry k i := by
  unfold entryAt dirEntrySize
  rw [sample_addr_toNat d n (by omega)]
  refine Eq.trans (DirEntry.ofMem_congr fun j hj => ?_) (DirEntry.ofMem_toMem _)
  rw [sample_byte d hk hi hj, if_pos hd, Nat.zero_add]

theorem sample_free (hk : k ≤ 12) (hi : i < 21) (hd : d k i = false) :
    (entryAt (sampleDirDisk d) (slotAddr (sampleDirDisk d) (sampleDirInode n)) k i).Free := by
  unfold entryAt dirEntrySize
  rw [sample_addr_toNat d n (by omega)]
  refine DirEntry.free_of_zero fun j hj => ?_
  rw [sample_byte d hk hi hj, if_neg (by simp [hd])]

theorem sampleEntry_live (hk : k ≤ 20) : (sampleEntry k i).Live := by
  refine ⟨show (1 : UInt32) ≠ 0 by decide, ?_, 2, rfl⟩
  show UInt8.ofNat (k + 1) ≠ 0
  intro h
  have := congrArg UInt8.toNat h
  simp at this
  omega

theorem sampleEntry_name : ∀ k ≤ 20, ∀ i < 21, (sampleEntry k i).name = [.ofNat (k + 1), .ofNat (i + 1)] := by
  decide +kernel

theorem sampleEntry_inj {k' i' : Nat} (hk : k ≤ 20) (hi : i < 21) (hk' : k' ≤ 20) (hi' : i' < 21)
    (h : (sampleEntry k i).name = (sampleEntry k' i').name) : k = k' ∧ i = i' := by
  rw [sampleEntry_name k hk i hi, sampleEntry_name k' hk' i' hi'] at h
  obtain ⟨h1, h2⟩ := List.cons.inj h
  have h1 := congrArg UInt8.toNat h1
  have h2 := congrArg UInt8.toNat (List.cons.inj h2).1
  rw [UInt8.toNat_ofNat', UInt8.toNat_ofNat'] at h1 h2
  omega

theorem sample_live {x : DirEntry}
    (hx : liveAt (sampleDirDisk d) (slotAddr (sampleDirDisk d) (sampleDirInode n)) k i = some x) :
    k ≤ 12 ∧ i < 21 ∧ x = sampleEntry k i := by
  obtain ⟨hk, hi, hl, ht, rfl⟩ := liveAt_eq_some.mp hx
  have hk' := sample_allocated d n hk hl
  cases hd : d k i with
  | true => exact ⟨hk', hi, sample_entry d n hk' hi hd⟩
  | false => exact absurd (sample_free d n hk' hi hd).1 ht

theorem sample_dirOk : DirOk (sampleDirVol d) (sampleDirInode n) := by
  have ha : ∀ k ≤ 140, slotAddr (sampleDirDisk d) (sampleDirInode n) k ≠ 0 →
      612 ≤ sampleAddr k ∧ sampleAddr k ≤ 625 := fun k hk h => by
    rw [sample_slotAddr d n hk] at h
    unfold sampleAddr at h ⊢
    by_cases h1 : k < 12
    · simp only [h1, ite_true]
      omega
    · by_cases h2 : k = 12
      · simp [h2]
      · by_cases h3 : k = 140
        · simp [h3]
        · simp [h1, h2, h3] at h
  refine ⟨⟨fun k hk h => ?_, fun k hk h => ?_, fun k hk h => ?_, fun j hj k hk h he => ?_⟩, fun k hk i hi hl => ?_, ?_⟩
  · show samplePart.InData (slotAddr (sampleDirDisk d) _ k).toNat
    rw [sample_addr_toNat d n hk]
    obtain ⟨h1, h2⟩ := ha k hk h
    exact ⟨h1, by show sampleAddr k < 612 + 4096 * 1; omega⟩
  · show (slotAddr (sampleDirDisk d) _ k).toNat ≤ maxLba
    rw [sample_addr_toNat d n hk]
    obtain ⟨h1, h2⟩ := ha k hk h
    exact Nat.le_trans h2 (by decide)
  · show (sampleDirVol d).Used (slotAddr (sampleDirDisk d) _ k).toNat
    rw [sample_addr_toNat d n hk]
    obtain ⟨h1, h2⟩ := ha k hk h
    have hbit : ∀ m < 14, (sampleDirVol d).blockBitmap.bit m = true := by
      show ∀ m < 14, (Bitmap.mk 512 (fun a => if a = 0 then 0xff else if a = 1 then 0x3f else 0) _).bit m = true
      decide
    exact ⟨h1, hbit _ (by show sampleAddr k - 612 < 14; omega)⟩
  · have hnat := congrArg UInt32.toNat he
    have hj' := ha j hj h
    have hk' := ha k hk (he ▸ h)
    replace hnat : (slotAddr (sampleDirDisk d) _ j).toNat = (slotAddr (sampleDirDisk d) _ k).toNat := hnat
    rw [sample_addr_toNat d n hj, sample_addr_toNat d n hk] at hnat
    rw [sampleAddr_index hj'.1, sampleAddr_index hk'.1, hnat]
  · have hk' := sample_allocated d n hk hl
    cases hd : d k i with
    | true =>
      refine .inr ?_
      show (entryAt (sampleDirDisk d) (slotAddr (sampleDirDisk d) (sampleDirInode n)) k i).Live
      rw [sample_entry d n hk' hi hd]
      exact sampleEntry_live (by omega)
    | false => exact .inl (sample_free d n hk' hi hd)
  · intro k i k' i' x y hx hy hn
    obtain ⟨hk, hi, rfl⟩ := sample_live d n hx
    obtain ⟨hk', hi', rfl⟩ := sample_live d n hy
    exact sampleEntry_inj (by omega) hi (by omega) hi' hn

end

def sampleSync (d : Nat → Nat → Bool) (n : UInt32) : DirWriting samplePart × Bool :=
  match syncDirEntry .debug (sampleDirVol d) (sampleDirInode n) (sampleEntry 20 20) fun _ => 0 with
  | .ok r => r
  | .error _ => (⟨sampleDirVol d, sampleDirInode n, fun _ => 0, fun _ => 0⟩, false)

theorem sampleSync_ok {d : Nat → Nat → Bool} {n : UInt32}
    (h : (syncDirEntry .debug (sampleDirVol d) (sampleDirInode n) (sampleEntry 20 20) fun _ => 0).isOk = true)
    (ht : (sampleSync d n).2 = true) :
    syncDirEntry .debug (sampleDirVol d) (sampleDirInode n) (sampleEntry 20 20) (fun _ => 0) =
      .ok ((sampleSync d n).1, true) := by
  unfold sampleSync at ht ⊢
  cases hr : syncDirEntry .debug (sampleDirVol d) (sampleDirInode n) (sampleEntry 20 20) fun _ => 0 with
  | error e =>
    rw [hr] at h
    cases h
  | ok r =>
    rw [hr] at ht
    exact congrArg Except.ok (Prod.ext rfl ht)

theorem sample_new (d : Nat → Nat → Bool) (n : UInt32) {k i : Nat} (hk : 12 < k) (hk' : k ≤ 20) (hi : i < 21) (x : DirEntry)
    (hx : HasEntry (sampleDirVol d) (sampleDirInode n) x) : x.name ≠ (sampleEntry k i).name := by
  obtain ⟨k', i', hx⟩ := hx
  obtain ⟨hk1, hi1, rfl⟩ := sample_live d n hx
  intro h
  have := sampleEntry_inj (by omega) hi1 hk' hi h
  omega

theorem sample_fresh (d : Nat → Nat → Bool) (n : UInt32) :
    ∀ x, HasEntry (sampleDirVol d) (sampleDirInode n) x → x.name ≠ (sampleEntry 20 20).name :=
  sample_new d n (by decide) (by decide) (by decide)

/-- **Insertion loses no entry iff** the direct blocks are not full or no entry lies
behind the indirect table. -/
theorem sync_dir_entry_keeps_iff {part : Partition} {vol : Volume part} {inode : Inode} {e : DirEntry} {ioBuf : Mem}
    {st : DirWriting part} (h : DirOk vol inode) (hsize : inode.iSize.toNat ≤ dirEntrySize * (21 * 140)) (he : e.Live)
    (hfresh : ∀ x, HasEntry vol inode x → x.name ≠ e.name)
    (hr : syncDirEntry .debug vol inode e ioBuf = .ok (st, true)) :
    ((∀ x, HasEntry vol inode x →
        ∀ buf, searchDirEntry .debug st.vol.disk st.inode x.name true buf = .ok (some x)) ∧
      (∀ buf, searchDirEntry .debug st.vol.disk st.inode e.name true buf = .ok (some e)) ∧
      st.inode.iSize.toNat = inode.iSize.toNat + dirEntrySize) ↔
    ¬ (DirectFull vol.disk inode ∧ ∃ x, IndirectEntry vol inode x) := by
  obtain ⟨hok, hg, hhas⟩ := syncDirEntry_spec h he hfresh hr
  have hl : ∀ {x}, HasEntry vol inode x → x.Named := fun ⟨_, _, hx⟩ => (h.live hx).2
  constructor
  · rintro ⟨hall, -, -⟩ ⟨hf, x, k, i, hk, hx⟩
    have hx' : HasEntry vol inode x := ⟨k, i, hx⟩
    rcases (hhas x).mp ((hok.finds_iff (hl hx')).mp (hall x hx')) with rfl | ⟨-, hnot⟩
    · exact hfresh x hx' rfl
    · exact hnot ⟨hf, k, i, hk, hx⟩
  · intro hnot
    refine ⟨fun x hx => ?_, ?_, ?_⟩
    · refine (hok.finds_iff (hl hx)).mpr ((hhas x).mpr (.inr ⟨hx, ?_⟩))
      rintro ⟨hf, hind⟩
      exact hnot ⟨hf, x, hind⟩
    · exact (hok.finds_iff he.2).mpr ((hhas e).mpr (.inl rfl))
    · unfold dirEntrySize at *
      rw [hg, UInt32.toNat_add, Nat.mod_eq_of_lt] <;> simp only [UInt32.toNat_ofNat', Nat.reducePow, Nat.reduceMod]
      omega

theorem sync_dir_entry_keeps_sample :
    let d := fun k i => fullSlots k i && !(k = 3 && i = 5)
    ¬ (DirectFull (sampleDirDisk d) (sampleDirInode 6048) ∧ ∃ x, IndirectEntry (sampleDirVol d) (sampleDirInode 6048) x) ∧
      HasEntry (sampleDirVol d) (sampleDirInode 6048) (sampleEntry 12 0) ∧
      ∀ buf, searchDirEntry .debug (sampleSync d 6048).1.vol.disk (sampleSync d 6048).1.inode (sampleEntry 12 0).name true buf =
        .ok (some (sampleEntry 12 0)) := by
  intro d
  have hnot : ¬ (DirectFull (sampleDirDisk d) (sampleDirInode 6048) ∧
      ∃ x, IndirectEntry (sampleDirVol d) (sampleDirInode 6048) x) := fun h =>
    (h.1 3 (by decide)).2 5 (by decide) (sample_free d 6048 (by decide) (by decide) rfl).1
  have hhas : HasEntry (sampleDirVol d) (sampleDirInode 6048) (sampleEntry 12 0) :=
    ⟨12, 0, liveAt_eq_some.mpr ⟨by decide, by decide, by decide +kernel, by decide,
      sample_entry d 6048 (by decide) (by decide) rfl⟩⟩
  have hr := sampleSync_ok (d := d) (n := 6048) (by decide +kernel) (by decide +kernel)
  have hiff := sync_dir_entry_keeps_iff (sample_dirOk d 6048) (by decide) (sampleEntry_live (by decide))
    (sample_fresh d 6048) hr
  exact ⟨hnot, hhas, (hiff.mpr hnot).1 _ hhas⟩

/-- With 253 entries, the one in the indirect block cannot be found after an insertion. -/
theorem sync_dir_entry_loses :
    let st := (sampleSync fullSlots 6072).1
    DirOk (sampleDirVol fullSlots) (sampleDirInode 6072) ∧ (sampleEntry 20 20).Live ∧
      (∀ x, HasEntry (sampleDirVol fullSlots) (sampleDirInode 6072) x → x.name ≠ (sampleEntry 20 20).name) ∧
      syncDirEntry .debug (sampleDirVol fullSlots) (sampleDirInode 6072) (sampleEntry 20 20) (fun _ => 0) = .ok (st, true) ∧
      HasEntry (sampleDirVol fullSlots) (sampleDirInode 6072) (sampleEntry 12 0) ∧
      ∀ buf, searchDirEntry .debug st.vol.disk st.inode (sampleEntry 12 0).name true buf ≠ .ok (some (sampleEntry 12 0)) := by
  intro st
  have hok := sample_dirOk fullSlots 6072
  have hnew : (sampleEntry 20 20).Live := sampleEntry_live (by decide)
  have hf := sample_fresh fullSlots 6072
  have hr := sampleSync_ok (d := fullSlots) (n := 6072) (by decide +kernel) (by decide +kernel)
  have hl : liveAt (sampleDirDisk fullSlots) (slotAddr (sampleDirDisk fullSlots) (sampleDirInode 6072)) 12 0 =
      some (sampleEntry 12 0) :=
    liveAt_eq_some.mpr ⟨by decide, by decide, by decide +kernel, by decide,
      sample_entry fullSlots 6072 (by decide) (by decide) rfl⟩
  have hfu : DirectFull (sampleDirDisk fullSlots) (sampleDirInode 6072) := fun k hk => by
    refine ⟨?_, fun i hi => ?_⟩
    · have : ∀ k < 12, (sampleDirInode 6072).sec k ≠ 0 := by decide
      exact this k hk
    · rw [sample_entry fullSlots 6072 (by omega) hi (by simp [fullSlots, hk])]
      exact show (1 : UInt32) ≠ 0 by decide
  refine ⟨hok, hnew, hf, hr, ⟨12, 0, hl⟩, fun buf hs => ?_⟩
  obtain ⟨hok', -, hhas⟩ := syncDirEntry_spec hok hnew hf hr
  have hfo := (hok'.search_iff (sampleEntry_live (by decide)).2 buf).mp hs
  rcases (hhas _).mp hfo with h | ⟨-, hnot⟩
  · have := sampleEntry_inj (by decide) (by decide) (by decide) (by decide) (congrArg DirEntry.name h)
    omega
  · exact hnot ⟨hfu, 12, 0, le_rfl, hl⟩

end OperateSystem
