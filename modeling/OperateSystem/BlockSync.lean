import OperateSystem.DirSound
import OperateSystem.FsEnds

/-!
# The block bitmap on disk

Every block that is taken or given back changes a bit of the block bitmap in
memory, and `bitmap_sync` writes the sector with the bit to disk. `Volume.Agree`
says up to which sectors the two bitmaps agree; a change adds a sector and
`bitmap_sync` removes one.
-/

namespace OperateSystem

open Function

/-- The two block bitmaps agree outside the sectors in `T`. -/
def Volume.Agree {part : Partition} (vol : Volume part) (T : Nat → Prop) : Prop :=
  ∀ k < 512 * part.blockBitmapSects, ¬ T (k / 512) →
    vol.disk (512 * part.blockBitmapLba + k) = vol.blockBitmap.bits k

def Volume.Synced {part : Partition} (vol : Volume part) : Prop :=
  ∀ k < 512 * part.blockBitmapSects, vol.disk (512 * part.blockBitmapLba + k) = vol.blockBitmap.bits k

def Partition.Addr (part : Partition) (a : UInt32) : Prop := a = 0 ∨ part.InData a.toNat

def Partition.Leads (part : Partition) (disk : Mem) (i : Inode) : Prop := ∀ j ≤ 140, part.Addr (slotAddr disk i j)

structure Fs.Sane {part : Partition} (s : Fs part) : Prop where
  cached : ∀ c ∈ s.openInodes, part.Leads s.vol.disk c.inode
  stored : ∀ n < 4096, part.Leads s.vol.disk (.ofMem s.vol.disk (part.inodeAddr n))

/-! ## Single steps -/

section
variable {part : Partition} {b : Build} {vol vol' : Volume part} {T : Nat → Prop}
variable {src : Mem} {a i lba n o : Nat} {vol₁ : Volume part}

theorem Volume.synced_iff : vol.Synced ↔ vol.Agree fun _ => False :=
  ⟨fun h k hk _ => h k hk, fun h k hk => h k hk not_false⟩

theorem Volume.Agree.mono {T' : Nat → Prop} (h : vol.Agree T) (hT : ∀ x, T x → T' x) : vol.Agree T' :=
  fun k hk hn => h k hk fun ht => hn (hT _ ht)

def Partition.Apart (part : Partition) (a n : Nat) : Prop :=
  a + n ≤ 512 * part.blockBitmapLba ∨ 512 * (part.blockBitmapLba + part.blockBitmapSects) ≤ a

theorem Volume.Agree.blit (h : vol.Agree T) (ha : part.Apart a n)
    (hd : vol'.disk = blit vol.disk a src o n) (hb : vol'.blockBitmap = vol.blockBitmap) : vol'.Agree T := by
  intro k hk hn
  unfold Partition.Apart at ha
  rw [hd, hb, blit_out (by omega)]
  exact h k hk hn

theorem Volume.Agree.set {v : Bool} (h : vol.Agree T) (hd : vol'.disk = vol.disk)
    (hb : vol'.blockBitmap = bitmapSet vol.blockBitmap i v) : vol'.Agree fun x => T x ∨ x = i / 4096 := by
  intro k hk hn
  have hne : k ≠ i / 8 := fun e => hn (.inr (by omega))
  rw [hd, hb, h k hk fun ht => hn (.inl ht)]
  exact (if_neg hne).symm

theorem Volume.Agree.sync (h : vol.Agree T) (hs : bitmapSync b vol i .blockBitmap = .ok vol') :
    vol'.Agree fun x => T x ∧ x ≠ i / 4096 := by
  obtain ⟨hd, hb, -⟩ := bitmapSync_ok hs
  intro k hk hn
  rw [hd, hb]
  by_cases hi : k / 512 = i / 4096
  · rw [blit_in (by omega) (by omega)]
    congr 1
    omega
  · rw [blit_out (by omega)]
    exact h k hk fun ht => hn ⟨ht, hi⟩

theorem Volume.Agree.takes (h : vol.Agree T) (ht : TakesBlock b vol lba vol') :
    vol'.Agree fun x => T x ∧ x ≠ (lba - part.dataStartLba) / 4096 := by
  obtain ⟨vol1, ha, hs⟩ := ht
  obtain ⟨-, hd, hb, -⟩ := blockBitmapAlloc_ok ha
  refine ((h.set hd hb).sync hs).mono fun x => ?_
  rintro ⟨ht | he, hne⟩
  · exact ⟨ht, hne⟩
  · exact absurd he hne

theorem Volume.Synced.of_set {v : Bool} (h : vol.Synced)
    (hs : bitmapSync b vol₁ i .blockBitmap = .ok vol') (hd : vol₁.disk = vol.disk)
    (hb : vol₁.blockBitmap = bitmapSet vol.blockBitmap i v) : vol'.Synced := by
  rw [Volume.synced_iff] at h ⊢
  refine ((h.set hd hb).sync hs).mono fun x => ?_
  rintro ⟨ht | he, hne⟩
  · exact ht
  · exact hne he

theorem Volume.Synced.takes (h : vol.Synced) (ht : TakesBlock b vol lba vol') : vol'.Synced := by
  obtain ⟨vol1, ha, hs⟩ := ht
  obtain ⟨-, hd, hb, -⟩ := blockBitmapAlloc_ok ha
  exact h.of_set hs hd hb

theorem Volume.Synced.blit (h : vol.Synced) (ha : part.Apart a n)
    (hd : vol'.disk = OperateSystem.blit vol.disk a src o n) (hb : vol'.blockBitmap = vol.blockBitmap) :
    vol'.Synced := by
  rw [Volume.synced_iff] at h ⊢
  exact h.blit ha hd hb

/-! ## Where the writes go -/

theorem Partition.Formatted.addr_apart (hf : part.Formatted) {a : UInt32} (h : part.Addr a) : part.Apart (512 * a.toNat) (512 * 1) := by
  have := hf.boot
  have := part.block_bitmap_below
  unfold Partition.Apart
  rcases h with rfl | h
  · left
    simp
    omega
  · have := h.1
    omega

theorem Partition.Formatted.inode_apart (hf : part.Formatted) (n : Nat) : part.Apart (part.inodeAddr n) 76 := by
  have := hf.inodes
  have := hf.table
  unfold Partition.Apart Partition.inodeAddr
  omega

theorem Partition.Formatted.inodeBitmap_apart (hf : part.Formatted) (n : Nat) :
    part.Apart (512 * (part.inodeBitmapLba + n)) (512 * 1) := by
  have := hf.inodes
  unfold Partition.Apart
  omega

/-! ## A bit that is not synced -/

structure Volume.Stale (vol : Volume part) (t : Nat) : Prop where
  lt : t < 4096 * part.blockBitmapSects
  taken : vol.blockBitmap.bit t = true
  free : (vol.disk (512 * part.blockBitmapLba + t / 8)).toBitVec.getLsbD (t % 8) = false

variable {t : Nat}

theorem Volume.Stale.not_synced (h : vol.Stale t) : ¬ vol.Synced := fun hs => by
  have hf := h.free
  have hlt := h.lt
  rw [hs (t / 8) (by omega)] at hf
  have ht : (vol.blockBitmap.bits (t / 8)).toBitVec.getLsbD (t % 8) = true := h.taken
  rw [hf] at ht
  cases ht

theorem Volume.Stale.blit (h : vol.Stale t) (ha : part.Apart a n)
    (hd : vol'.disk = OperateSystem.blit vol.disk a src o n) (hb : vol'.blockBitmap = vol.blockBitmap) :
    vol'.Stale t := by
  have hlt := h.lt
  refine ⟨hlt, by rw [hb]; exact h.taken, ?_⟩
  unfold Partition.Apart at ha
  rw [hd, blit_out (by omega)]
  exact h.free

theorem Volume.Stale.takes (h : vol.Stale t) (hsec : (lba - part.dataStartLba) / 4096 ≠ t / 4096) (ht : TakesBlock b vol lba vol') :
    vol'.Stale t := by
  obtain ⟨vol1, ha, hs⟩ := ht
  obtain ⟨-, hd1, hb1, -⟩ := blockBitmapAlloc_ok ha
  obtain ⟨hd, hb, -⟩ := bitmapSync_ok hs
  have hta := h.taken
  refine ⟨h.lt, ?_, ?_⟩
  · rw [hb, hb1, bit_bitmapSet, hta, ite_self]
  · rw [hd, hd1, blit_out (by omega)]
    exact h.free

theorem Volume.Stale.of_alloc (h : vol.Synced) (ha : blockBitmapAlloc b vol = .ok (some lba, vol')) :
    vol'.Stale (lba - part.dataStartLba) := by
  obtain ⟨hf, hd, hb, -⟩ := blockBitmapAlloc_ok ha
  have hmem : lba - part.dataStartLba ∈ vol.blockBitmap.freeBits := by simp [hf]
  obtain ⟨hlt, hbit⟩ := Bitmap.mem_freeBits.mp hmem
  have hlen := vol.block_len
  refine ⟨by omega, ?_, ?_⟩
  · rw [hb, bit_bitmapSet, if_pos rfl]
  · rw [hd, h _ (by omega)]
    exact hbit

end

/-! ## `file_write` -/

section
variable {part : Partition} {b : Build}
variable {i : Inode} {disk : Mem} {has k n will : Nat} {st st' : Writing part}

structure Writing.Leads (st : Writing part) : Prop where
  inode : ∀ j, part.Addr (st.inode.sec j)
  all : ∀ j, part.Addr (st.all j)

theorem Partition.InData.addr {lba : Nat} (h : part.InData lba) : part.Addr (.ofNat lba) := by
  right
  rwa [h.toNat_ofNat]

theorem Writing.Leads.set (h : st.Leads) {a : UInt32} (ha : part.Addr a) (j : Nat) :
    part.Addr (st.all.set k a j) := by
  unfold Blocks.set
  by_cases hj : j = k
  · rw [hj, update_self]
    exact ha
  · rw [update_of_ne hj]
    exact h.all j

theorem setDirect_leads {i' : Inode} {a : UInt32} (h : setDirect b i k a = .ok i')
    (hi : ∀ j, part.Addr (i.sec j)) (ha : part.Addr a) : ∀ j, part.Addr (i'.sec j) := by
  unfold setDirect at h
  split at h
  · obtain ⟨_, -, h⟩ := bind_ok.mp h
    cases h
    intro j
    rw [sec_setSec _ _ _ _ (by omega)]
    split
    · exact ha
    · exact hi j
  · cases h
    exact hi

theorem growBlocks_succ (h : growBlocks b (n + 1) k st = .ok (st', true)) : ∃ lba vol inode, TakesBlock b st.vol lba vol ∧
    setDirect b st.inode k (.ofNat lba) = .ok inode ∧
    growBlocks b n (k + 1) { st with vol, inode, all := st.all.set k (.ofNat lba) } = .ok (st', true) := by
  obtain ⟨⟨r, vol1⟩, ha, h⟩ := bind_ok.mp h
  cases r with
  | none => cases h
  | some lba =>
    simp only [bind_ok] at h
    obtain ⟨inode, hi, _, -, vol2, hs, h⟩ := h
    exact ⟨lba, vol2, inode, ⟨vol1, ha, hs⟩, hi, h⟩

theorem growBlocks_leads : ∀ (n k : Nat) (st st' : Writing part), growBlocks b n k st = .ok (st', true) → st.Leads → st'.Leads
  | 0, _, st, st', h, hl => by
    cases h
    exact hl
  | n + 1, k, st, st', h, hl => by
    obtain ⟨lba, vol, inode, ht, hi, h⟩ := growBlocks_succ h
    have ha := ht.allocated.inData.addr
    exact growBlocks_leads n (k + 1) _ st' h ⟨setDirect_leads hi hl.inode ha, hl.set ha⟩

theorem growBlocks_synced : ∀ (n k : Nat) (st st' : Writing part), growBlocks b n k st = .ok (st', true) →
    st.vol.Synced → st'.vol.Synced
  | 0, _, st, st', h, hs => by
    cases h
    exact hs
  | n + 1, k, st, st', h, hs => by
    obtain ⟨lba, vol, inode, ht, -, h⟩ := growBlocks_succ h
    exact growBlocks_synced n (k + 1) _ st' h (hs.takes ht)

theorem growBlocks_stale {t : Nat} : ∀ (n k : Nat) (st st' : Writing part), growBlocks b n k st = .ok (st', true) →
    st.vol.Stale t → (∀ u ∈ st.vol.blockBitmap.freeBits, u / 4096 ≠ t / 4096) → st'.vol.Stale t
  | 0, _, st, st', h, hs, _ => by
    cases h
    exact hs
  | n + 1, k, st, st', h, hs, hf => by
    obtain ⟨lba, vol, inode, ⟨vol1, ha, hsy⟩, -, h⟩ := growBlocks_succ h
    obtain ⟨hb, -⟩ := blockBitmapAlloc_ok ha
    rw [hb] at hf
    refine growBlocks_stale n (k + 1) _ st' h (hs.takes (hf _ (by simp)) ⟨vol1, ha, hsy⟩) fun u hu => ?_
    rw [(bitmapSync_ok hsy).2.1] at hu
    exact hf u (by simp [hu])

def Partition.TableLeads (part : Partition) (disk : Mem) (i : Inode) : Prop :=
  ∀ j, 12 ≤ j → j < 140 → part.Addr (tableOf disk i j)

theorem Partition.Leads.sec (h : part.Leads disk i) (j : Nat) : part.Addr (i.sec j) := by
  by_cases hj : j < 12
  · have := h j (by omega)
    rwa [slotAddr, memLayout_low _ _ hj] at this
  · by_cases hj' : j = 12
    · have := h 140 le_rfl
      rwa [slotAddr, memLayout_table, ← hj'] at this
    · left
      unfold Inode.sec
      rw [dif_neg (by omega)]

theorem Partition.Leads.table (h : part.Leads disk i) : part.TableLeads disk i := by
  intro j h1 h2
  have := h j (by omega)
  rwa [slotAddr, memLayout_mid _ _ h1 h2] at this

theorem loadTable_leads {all all' : Blocks} (hne : i.sec 12 ≠ 0)
    (h : loadTable b disk (i.sec 12) all = .ok all') (ht : part.TableLeads disk i)
    (hall : ∀ j, part.Addr (all j)) :
    ∀ j, part.Addr (all' j) := by
  intro j
  by_cases hj : 12 ≤ j ∧ j < 140
  · rw [loadTable_mid hne h j hj.1 hj.2]
    exact ht j hj.1 hj.2
  · obtain ⟨buf, -, h⟩ := bind_ok.mp h
    cases h
    dsimp only
    rw [if_neg hj]
    exact hall j

theorem firstBlock_synced (h : firstBlock b st = .ok (st', true)) (hs : st.vol.Synced) (hl : st.Leads)
    (ht : part.TableLeads st.vol.disk st.inode) :
    st'.vol.Synced ∧ st'.Leads ∧ part.TableLeads st'.vol.disk st'.inode ∧
      st'.vol.blockBitmap.freeBits = st.vol.blockBitmap.freeBits.drop (if st.inode.sec 0 = 0 then 1 else 0) := by
  unfold firstBlock at h
  split at h
  · rename_i h0
    obtain ⟨⟨r, vol₁⟩, ha, h⟩ := bind_ok.mp h
    obtain _ | lba := r
    · cases h
    simp only [bind_ok] at h
    obtain ⟨_, -, vol2, hsy, h⟩ := h
    cases h
    obtain ⟨hf, hd1, -⟩ := blockBitmapAlloc_ok ha
    obtain ⟨hd, hb, -⟩ := bitmapSync_ok hsy
    have hsec : ∀ j, (st.inode.setSec 0 (.ofNat lba)).sec j = if j = 0 then .ofNat lba else st.inode.sec j :=
      fun j => sec_setSec _ _ _ _ (by decide)
    refine ⟨hs.takes ⟨_, ha, hsy⟩, ⟨fun j => ?_, hl.all⟩, fun j h1 h2 => ?_, ?_⟩
    · rw [hsec]
      split
      · exact (blockBitmapAlloc_spec ha).2.1.addr
      · exact hl.inode j
    · -- the sector of the table is not that of the bitmap
      have hold := ht j h1 h2
      have h12s : (st.inode.setSec 0 (.ofNat lba)).sec 12 = st.inode.sec 12 := hsec 12
      unfold tableOf at hold ⊢
      rw [h12s]
      by_cases h12 : st.inode.sec 12 = 0
      · rw [if_pos h12]
        exact .inl rfl
      · have hin := (hl.inode 12).resolve_left h12
        have hlt : (lba - part.dataStartLba) / 4096 < part.blockBitmapSects := by
          obtain ⟨h1, h2⟩ := (blockBitmapAlloc_spec ha).2.1
          omega
        have hbe := part.block_bitmap_below
        have hge := hin.1
        have hw : word vol2.disk (512 * (st.inode.sec 12).toNat + 4 * (j - 12)) =
            word st.vol.disk (512 * (st.inode.sec 12).toNat + 4 * (j - 12)) := word_congr fun k hk => by
          rw [hd, hd1, blit_out (by omega)]
        rwa [hw]
    · rw [hb, hf, if_pos h0]
      rfl
  · rename_i h0
    cases h
    rw [if_neg h0]
    exact ⟨hs, hl, ht, rfl⟩

/-- The first two free bits lie in one sector of the bitmap. -/
def OneSector (free : List Nat) : Prop := ∀ t u rest, free = t :: u :: rest → t / 4096 = u / 4096

theorem growBlocks_cross {lba : Nat} {vol vol₁ : Volume part} (hs : vol.Synced)
    (ha : blockBitmapAlloc b vol = .ok (some lba, vol₁)) (hvol : st.vol = vol₁)
    (hg : growBlocks b (n + 1) k st = .ok (st', true)) :
    (st'.vol.Synced ∧ OneSector vol.blockBitmap.freeBits) ∨
      (st'.vol.Stale (lba - part.dataStartLba) ∧ ¬ OneSector vol.blockBitmap.freeBits) := by
  subst hvol
  obtain ⟨hf0, hd1, hb1, -⟩ := blockBitmapAlloc_ok ha
  have hst := Volume.Stale.of_alloc hs ha
  obtain ⟨lba', vol3, inode', ⟨vol2, ha', hsy⟩, -, hg'⟩ := growBlocks_succ hg
  obtain ⟨hf1, -⟩ := blockBitmapAlloc_ok ha'
  have hf := hf0.trans (congrArg _ hf1)
  have hso := vol.blockBitmap.freeBits_sorted
  rw [hf] at hso ⊢
  generalize lba - part.dataStartLba = t at *
  generalize hu : lba' - part.dataStartLba = u at *
  by_cases hone : t / 4096 = u / 4096
  · left
    refine ⟨growBlocks_synced n (k + 1) _ st' hg' ?_, fun t' u' rest e => ?_⟩
    · rw [Volume.synced_iff] at hs ⊢
      have hag := hs.set hd1 hb1
      refine (hag.takes ⟨vol2, ha', hu ▸ hsy⟩).mono fun x => ?_
      rintro ⟨hx | hx, hne⟩
      · exact hx
      · exact hne (by rw [hx, hone, hu])
    · cases e
      exact hone
  · right
    refine ⟨growBlocks_stale (n + 1) k _ st' hg hst fun v hv => ?_, fun h => hone (h t u _ rfl)⟩
    -- the free bits ascend, so all of them lie behind the sector of the table
    obtain ⟨htlt, hso⟩ := List.pairwise_cons.mp hso
    have htu := htlt u (by simp)
    rw [hf1, List.mem_cons] at hv
    rcases hv with rfl | hv
    · exact fun e => hone e.symm
    · have := (List.pairwise_cons.mp hso).1 v hv
      omega

theorem collectBlocks_table {r : Writing part × Bool} (h : collectBlocks .debug st has will = .ok r)
    (hhas : 12 < has) (hw : 12 < will) : st.inode.sec 12 ≠ 0 := by
  unfold collectBlocks at h
  split at h
  · rw [if_neg (by omega)] at h
    obtain ⟨_, hne, -⟩ := bind_ok.mp h
    exact assert_debug_ok.mp hne
  · rw [if_neg (by omega), if_neg (by omega)] at h
    obtain ⟨_, hne, -⟩ := bind_ok.mp h
    exact assert_debug_ok.mp hne

theorem collectBlocks_low (h : collectBlocks b st has will = .ok (st', true)) (hw : will ≤ 12) :
    growBlocks b (will - has) has { st with all := st.all.set (has - 1) (st.inode.sec (has - 1)) } = .ok (st', true) := by
  unfold collectBlocks at h
  split at h
  · rename_i heq
    obtain ⟨st1, hk, h⟩ := bind_ok.mp h
    rw [heq, Nat.sub_self, ← keepBlock_ok hk]
    exact h
  · simp only [bind_ok] at h
    obtain ⟨_, -, _, -, st1, hk, h⟩ := h
    rwa [← keepBlock_ok hk]

theorem storeTable_blit (hf : part.Formatted) (hl : st.Leads)
    (h : storeTable b st.vol.disk (st.inode.sec 12) st.all = .ok disk) :
    ∃ src, part.Apart (512 * (st.inode.sec 12).toNat) (512 * 1) ∧
      disk = blit st.vol.disk (512 * (st.inode.sec 12).toNat) src 0 (512 * 1) :=
  ⟨_, hf.addr_apart (hl.inode 12), ideWrite_ok h⟩

/-- **The table of a file is not synced.** The bitmaps agree after `collectBlocks` iff
it needs no new table or the next block happens to lie in the same sector. -/
theorem collectBlocks_synced (hf : part.Formatted)
    (h : collectBlocks .debug st has will = .ok (st', true)) (hs : st.vol.Synced) (hl : st.Leads)
    (ht : part.TableLeads st.vol.disk st.inode) :
    st'.Leads ∧ ((st'.vol.Synced ∧ (has ≤ 12 → 12 < will → OneSector st.vol.blockBitmap.freeBits)) ∨
      ((∃ t, st'.vol.Stale t) ∧ has ≤ 12 ∧ 12 < will ∧ ¬ OneSector st.vol.blockBitmap.freeBits)) := by
  have hta := collectBlocks_table h
  have hk : ({ st with all := st.all.set (has - 1) (st.inode.sec (has - 1)) } : Writing part).Leads :=
    ⟨hl.inode, hl.set (hl.inode _)⟩
  by_cases hwi : will ≤ 12
  · have hg := collectBlocks_low h hwi
    exact ⟨growBlocks_leads _ _ _ _ hg hk, .inl ⟨growBlocks_synced _ _ _ _ hg hs, fun _ hw => by omega⟩⟩
  · cases collectBlocks_cases h with
    | same heq hlow => omega
    | sameIndirect heq hhi hlo =>
      exact ⟨⟨hl.inode, loadTable_leads (hta (by omega) hhi) hlo ht hl.all⟩, .inl ⟨hs, fun hh _ => by omega⟩⟩
    | direct hne hlow hg => omega
    | @crossing lba vol₁ st2 disk hhi hlow hal hg hst =>
      have hl2 : st2.Leads := by
        refine growBlocks_leads _ _ _ _ hg ⟨fun j => ?_, hk.all⟩
        rw [sec_setSec _ _ _ _ (by decide)]
        split
        · exact (blockBitmapAlloc_spec hal).2.1.addr
        · exact hl.inode j
      obtain ⟨src, ha, rfl⟩ := storeTable_blit hf hl2 hst
      obtain ⟨n, hn⟩ : ∃ n, will - has = n + 1 := ⟨will - has - 1, by omega⟩
      rw [hn] at hg
      refine ⟨⟨hl2.inode, hl2.all⟩, ?_⟩
      rcases growBlocks_cross hs hal rfl hg with ⟨hsy, hone⟩ | ⟨hsl, hone⟩
      · exact .inl ⟨hsy.blit ha rfl rfl, fun _ _ => hone⟩
      · exact .inr ⟨⟨_, hsl.blit ha rfl rfl⟩, hlow, hhi, hone⟩
    | @indirect all st2 disk hne hhi hlo hg hst =>
      have hall := loadTable_leads (hta hhi (by omega)) hlo ht hl.all
      have hl2 := growBlocks_leads _ _ _ _ hg ⟨hl.inode, hall⟩
      obtain ⟨src, ha, rfl⟩ := storeTable_blit hf hl2 hst
      exact ⟨⟨hl2.inode, hl2.all⟩, .inl ⟨(growBlocks_synced _ _ _ _ hg hs).blit ha rfl rfl, fun hh _ => by omega⟩⟩

theorem writeData_apart (hf : part.Formatted) {buf : Mem} {count : Nat} : ∀ (fuel w : Nat) (first : Bool) (st st' : Writing part),
    writeData b buf count fuel w first st = .ok st' → st.Leads → (st.vol.Synced → st'.vol.Synced) ∧
      ∀ t, st.vol.Stale t → st'.vol.Stale t
  | 0, w, first, st, st', h, hl => by
    cases h
    exact ⟨id, fun _ => id⟩
  | fuel + 1, w, first, st, st', h, hl => by
    unfold writeData at h
    split at h
    · simp only [bind_ok] at h
      obtain ⟨_, -, io, -, disk, hw, h⟩ := h
      have ha := hf.addr_apart (hl.all (st.inode.iSize.toNat / 512))
      have hd := ideWrite_ok hw
      obtain ⟨hsy, hst⟩ := writeData_apart hf fuel _ _ _ _ h ⟨hl.inode, hl.all⟩
      exact ⟨fun hs => hsy (hs.blit ha hd rfl), fun t ht => hst t (ht.blit ha hd rfl)⟩
    · cases h
      exact ⟨id, fun _ => id⟩

def NewTable (i : Inode) (count : UInt32) : Prop := i.iSize.toNat / 512 + 1 ≤ 12 ∧ 12 < (i.iSize + count).toNat / 512 + 1

/-- The bits of a new table and of the block after it lie in one sector of the bitmap. -/
def TableSynced (vol : Volume part) (i : Inode) (count : UInt32) : Prop :=
  NewTable i count → OneSector (vol.blockBitmap.freeBits.drop (if i.sec 0 = 0 then 1 else 0))

theorem fileWrite_synced_iff (hf : part.Formatted) {vol : Volume part} {pos count : UInt32} {buf : Mem}
    {mem : Buffers} (h : fileWrite .debug vol i pos buf count mem = .ok (st, some n))
    (hl : part.Leads vol.disk i) (hs : vol.Synced) : st.vol.Synced ↔ TableSynced vol i count := by
  obtain ⟨-, -, st1, st2, st3, h1, h2, h3, rfl⟩ := fileWrite_cases h
  obtain ⟨hs1, hl1, ht1, hfr⟩ := firstBlock_synced h1 hs ⟨hl.sec, fun _ => .inl rfl⟩ hl.table
  obtain ⟨hl2, hc⟩ := collectBlocks_synced hf h2 hs1 hl1 ht1
  obtain ⟨hsy, hst⟩ := writeData_apart hf _ _ _ _ _ h3 ⟨hl2.inode, hl2.all⟩
  have ha := hf.inode_apart (st3.inode.iNo.toNat % 256)
  rw [hfr] at hc
  rcases hc with ⟨hs2, hone⟩ | ⟨⟨t, ht2⟩, hlow, hh, hone⟩
  · exact ⟨fun _ hnew => hone hnew.1 hnew.2, fun _ => (hsy hs2).blit ha rfl rfl⟩
  · refine ⟨fun hs' => ?_, fun hco => absurd (hco ⟨hlow, hh⟩) hone⟩
    refine absurd hs' (Volume.Stale.not_synced (t := t) ?_)
    exact (hst t ht2).blit ha rfl rfl

end

/-! ## Directories -/

section
variable {part : Partition} {b : Build} {vol vol' : Volume part} {inode : Inode}
variable {st st' : DirWriting part} {ioBuf : Mem} {k : Nat}

theorem putEntry_synced (hf : part.Formatted) {buf : Mem} (h : putEntry b k buf st = .ok (st', true))
    (ha : part.Addr (st.all k)) (hs : st.vol.Synced) : st'.vol.Synced := by
  obtain ⟨d, hd, h⟩ := bind_ok.mp h
  cases h
  exact hs.blit (hf.addr_apart ha) (ideWrite_ok hd) rfl

theorem syncDirEntry_synced (hf : part.Formatted) {e : DirEntry} (hl : ∀ j, part.Addr (inode.sec j))
    (h : syncDirEntry b vol inode e ioBuf = .ok (st, true)) (hs : vol.Synced) :
    st.vol.Synced := by
  cases syncDirEntry_end h with
  | @free k i _ hk hi hne hfr hput =>
    refine putEntry_synced hf hput ?_ hs
    show part.Addr (directBlocks inode k)
    rw [directBlocks_apply, if_pos hk]
    exact hl k
  | add hk hz hfu hadd =>
    have hse : ∀ k lba, part.InData lba → part.Addr ((directBlocks inode).set k (.ofNat lba) k) := fun k lba hin => by
      rw [Blocks.set, update_self]
      exact hin.addr
    cases addBlock_end hk hadd with
    | direct _ ht hput => exact putEntry_synced hf hput (hse _ _ ht.allocated.inData) (hs.takes ht)
    | table ht hd hst hput =>
      refine putEntry_synced hf hput (hse 12 _ hd.allocated.inData) (((hs.takes ht).takes hd).blit (hf.addr_apart ?_) (ideWrite_ok hst) rfl)
      rw [sec_setSec _ _ _ _ (by decide), if_pos rfl]
      exact ht.allocated.inData.addr

theorem inodeSync_synced (hf : part.Formatted) {i : Inode} {disk : Mem}
    (h : inodeSync b part vol.disk i ioBuf = .ok disk) (hs : vol.Synced) :
    Volume.Synced ({ vol with disk } : Volume part) := by
  rw [inodeSync_spec, Except.ok.injEq] at h
  exact hs.blit (hf.inode_apart _) h.symm rfl

theorem clearBlock_synced {a : UInt32} (h : clearBlock b vol a = .ok vol') (hs : vol.Synced) : vol'.Synced :=
  hs.of_set h rfl rfl

theorem dropBlock_synced (hf : part.Formatted) {rounds : Nat}
    (h : dropBlock b rounds k st = .ok (some st')) (hl : part.Addr (st.inode.sec 12))
    (hs : st.vol.Synced) : st'.vol.Synced := by
  obtain ⟨vol₁, hc, h⟩ := bind_ok.mp h
  have hs1 := clearBlock_synced hc hs
  split at h
  · cases h
    exact hs1
  · split at h
    · cases h
    obtain ⟨_, -, h⟩ := bind_ok.mp h
    split at h
    · obtain ⟨d, hd, h⟩ := bind_ok.mp h
      cases h
      exact hs1.blit (hf.addr_apart hl) (ideWrite_ok hd) rfl
    · obtain ⟨vol2, hc2, h⟩ := bind_ok.mp h
      cases h
      exact clearBlock_synced hc2 hs1

theorem clearEntry_synced (hf : part.Formatted) {i : Nat} (h : clearEntry b k i st = .ok (some st'))
    (hl : part.Addr (st.all k)) (hs : st.vol.Synced) : st'.vol.Synced := by
  unfold clearEntry at h
  obtain ⟨d, hd, h⟩ := bind_ok.mp h
  cases h
  exact hs.blit (hf.addr_apart hl) (ideWrite_ok hd) rfl

theorem shrinkDir_synced (hf : part.Formatted) (h : shrinkDir b st = .ok st') (hs : st.vol.Synced) :
    st'.vol.Synced := by
  unfold shrinkDir shrinkDirVia at h
  simp only [bind_ok] at h
  obtain ⟨_, -, d, hd, h⟩ := h
  cases h
  exact inodeSync_synced hf hd hs

theorem deleteBlocks_synced (hf : part.Formatted) {rounds : Nat} {no : UInt32} {r : Bool} : ∀ (n k : Nat) (st st' : DirWriting part),
    deleteBlocks b rounds no n k st = .ok (some (st', r)) → (∀ j < k + n, part.Addr (st.all j)) →
    part.Addr (st.inode.sec 12) → st.vol.Synced → st'.vol.Synced
  | 0, k, st, st', h, _, _, hs => by
    cases h
    exact hs
  | n + 1, k, st, st', h, hl, h12, hs => by
    unfold deleteBlocks deleteBlocksVia at h
    split at h
    · exact deleteBlocks_synced hf n (k + 1) st st' h (fun j hj => hl j (by omega)) h12 hs
    simp only [bind_ok] at h
    obtain ⟨io, -, sc, -, h⟩ := h
    split at h
    · exact deleteBlocks_synced hf n (k + 1) _ st' h (fun j hj => hl j (by omega)) h12 hs
    simp only [bind_ok] at h
    obtain ⟨_, -, r, hr, h⟩ := h
    obtain _ | st1 := r
    · cases h
    simp only [bind_ok] at h
    obtain ⟨st2, hsh, h⟩ := h
    cases h
    refine shrinkDir_synced hf hsh ?_
    split at hr
    · exact dropBlock_synced hf hr h12 hs
    · exact clearEntry_synced hf hr (hl k (by omega)) hs

theorem deleteDirEntry_synced (hf : part.Formatted) {rounds : Nat} {no : UInt32} {r : Bool}
    (hl : part.Leads vol.disk inode)
    (h : deleteDirEntry b rounds vol inode no ioBuf = .ok (some (st, r))) (hs : vol.Synced) :
    st.vol.Synced := by
  obtain ⟨all, hall, h⟩ := bind_ok.mp h
  refine deleteBlocks_synced hf 140 0 _ st h (fun j hj => ?_) (hl.sec 12) hs
  dsimp only
  rw [allBlocks_spec hall j (by omega)]
  exact hl j (by omega)

/-! ## `inode_release` -/

theorem freeBlock_synced {a : UInt32} (h : freeBlock b vol a = .ok vol') (hs : vol.Synced) : vol'.Synced := by
  unfold freeBlock at h
  simp only [bind_ok] at h
  obtain ⟨_, -, h⟩ := h
  exact hs.of_set h rfl rfl

theorem freeBlocks_synced (all : Blocks) : ∀ (n k : Nat) (vol vol' : Volume part), freeBlocks b all n k vol = .ok vol' →
    vol.Synced → vol'.Synced
  | 0, _, vol, vol', h, hs => by
    cases h
    exact hs
  | n + 1, k, vol, vol', h, hs => by
    unfold freeBlocks at h
    split at h
    · obtain ⟨vol₁, hf, h⟩ := bind_ok.mp h
      exact freeBlocks_synced all n (k + 1) vol₁ vol' h (freeBlock_synced hf hs)
    · exact freeBlocks_synced all n (k + 1) vol vol' h hs

theorem freeTable_synced {all : Blocks} {r : Blocks × Nat × Volume part} (h : freeTable b vol inode all = .ok r)
    (hs : vol.Synced) : r.2.2.Synced := by
  unfold freeTable at h
  split at h
  · simp only [bind_ok] at h
    obtain ⟨all', -, vol₁, hf, h⟩ := h
    cases h
    exact freeBlock_synced hf hs
  · cases h
    exact hs

theorem bitmapSync_inode_synced (hf : part.Formatted) {i : Nat} (h : bitmapSync b vol i .inodeBitmap = .ok vol')
    (hs : vol.Synced) : vol'.Synced := by
  simp only [bitmapSync, bind_ok, pure_ok, Except.ok.injEq] at h
  obtain ⟨d, hd, rfl⟩ := h
  exact hs.blit (hf.inodeBitmap_apart _) (ideWrite_ok hd) rfl

theorem releaseVol_synced (hf : part.Formatted) {no : UInt32} (h : releaseVol .debug vol inode no = .ok vol')
    (hs : vol.Synced) : vol'.Synced := by
  unfold releaseVol releaseVolVia at h
  simp only [bind_ok] at h
  obtain ⟨⟨all, cnt, vol₁⟩, ht, vol2, hb, vol3, hbit, d, hdel, h⟩ := h
  cases h
  have hs1 := freeTable_synced ht hs
  have hs2 := freeBlocks_synced all cnt 0 vol₁ vol2 hb hs1
  have hs3 : vol3.Synced := bitmapSync_inode_synced hf hbit hs2
  have hlt : no.toNat < 4096 := by
    obtain ⟨_, hlt, -⟩ := bind_ok.mp hdel
    exact assert_debug_ok.mp hlt
  rw [unbounded_delete, inodeDelete_spec _ _ _ hlt, fill_eq_blit, Except.ok.injEq] at hdel
  exact hs3.blit (hf.inode_apart no.toNat) hdel.symm rfl

end

/-! ## `sys_mkdir` -/

namespace Fs

variable {part : Partition} {s s' : Fs part}

def CachedLeads (s : Fs part) : Prop := ∀ c ∈ s.openInodes, ∀ j, part.Addr (c.inode.sec j)

theorem CacheStep.leads (h : CacheStep .debug s s')
    (hs : ∀ n < 4096, part.Leads s.vol.disk (.ofMem s.vol.disk (part.inodeAddr n))) (hc : s.CachedLeads) :
    s'.CachedLeads := by
  intro x hx
  cases h with
  | @opened no a h =>
    obtain ⟨c, hmem, -, -, rfl⟩ | ⟨i, -, hr, -, rfl⟩ := inodeOpen_cases h
    · rcases mem_store hx with rfl | hx
      · exact hc c hmem
      · exact hc x hx
    · rcases List.mem_cons.mp hx with rfl | hx
      · have hlt : no.toNat < 4096 := by
          unfold inodeRead inodeLocate at hr
          simp only [bind_ok] at hr
          obtain ⟨pos, ⟨_, hlt, -⟩, -⟩ := hr
          exact assert_debug_ok.mp hlt
        rw [inodeRead_spec _ _ hlt, Except.ok.injEq] at hr
        subst hr
        exact (hs _ hlt).sec
      · exact hc x hx
  | closed h =>
    obtain ⟨c, hca, ⟨-, -, rfl⟩ | ⟨-, rfl⟩⟩ := inodeClose_cases h
    · exact hc x (List.mem_filter.mp hx).1
    · rcases mem_store hx with rfl | hx
      · exact hc c (cached_ok hca).1
      · exact hc x hx

theorem CacheRun.leads (h : CacheRun .debug s s')
    (hst : ∀ n < 4096, part.Leads s.vol.disk (.ofMem s.vol.disk (part.inodeAddr n))) (hc : s.CachedLeads) :
    s'.CachedLeads := by
  induction h with
  | refl => exact hc
  | tail hrun hs ih =>
    have hvol := (CacheRun.rest hrun).vol
    exact hs.leads (by rwa [hvol]) ih

theorem link_synced (hf : part.Formatted) {b : Build} {parent : Nat} {e : DirEntry} {new : Inode} (hc : s.CachedLeads)
    (h : s.link b parent e new = .ok (s', true)) (hs : s.vol.Synced) : s'.vol.Synced := by
  obtain ⟨c, st, vol, hca, hsy, rfl, -, hfl⟩ := link_cases h
  obtain ⟨c', disk, disk', -, hd, hd', hvol⟩ := hfl rfl
  have hs1 := syncDirEntry_synced hf (hc c (cached_ok hca).1) hsy hs
  have hs2 := inodeSync_synced hf hd hs1
  have hd' : OperateSystem.inodeSync b part (Volume.disk { st.vol with disk }) new (fun _ => 0) = .ok disk' := hd'
  have hs3 := inodeSync_synced hf hd' hs2
  exact bitmapSync_inode_synced hf hvol hs3

theorem mkdirRollback_false {b : Build} {parentDir : DirPtr} {n : Option Nat} {r : Bool}
    (h : s.mkdirRollback b parentDir n = .ok (s', r)) : r = false := by
  unfold mkdirRollback at h
  simp only [bind_ok] at h
  obtain ⟨s1, -, h⟩ := h
  cases h
  rfl

theorem makeDir_synced (hf : part.Formatted) {parentDir : DirPtr} {dirname : List UInt8} (hc : s.CachedLeads)
    (h : s.makeDir .debug parentDir dirname = .ok (s', true)) (hs : s.vol.Synced) : s'.vol.Synced := by
  obtain ⟨⟨r, vol₁⟩, hino, h⟩ := bind_ok.mp h
  obtain ⟨hd1, hb1⟩ := inodeBitmapAlloc_ok hino
  have hs1 : vol₁.Synced := fun k hk => by
    rw [hd1, hb1]
    exact hs k hk
  obtain _ | inodeNo := r
  · cases mkdirRollback_false h
  dsimp only at h
  obtain ⟨⟨r, vol2⟩, ha, h⟩ := bind_ok.mp h
  obtain _ | lba := r
  · cases mkdirRollback_false h
  simp only [bind_ok] at h
  obtain ⟨_, -, vol3, hsy, c, -, d, hd, e, -, ⟨s1, ok⟩, hl, h⟩ := h
  have had := (blockBitmapAlloc_spec ha).2.1.addr
  cases ok with
  | false =>
    rw [if_neg (by simp)] at h
    cases mkdirRollback_false h
  | true =>
    simp only [if_true, bind_ok] at h
    obtain ⟨s2, hcl, h⟩ := h
    cases h
    rw [(dirClose_run hcl).rest.vol]
    refine link_synced hf ?_ hl ?_
    · exact hc
    · refine (hs1.takes ⟨_, ha, hsy⟩).blit (hf.addr_apart ?_) (ideWrite_ok hd) rfl
      exact had

theorem sysMkdir_synced (hf : part.Formatted) {env : CallEnv} {pathname : List UInt8} (hsa : s.Sane)
    (h : s.sysMkdir .debug env pathname = .ok (s', true)) (hs : s.vol.Synced) : s'.vol.Synced := by
  cases sysMkdir_end h with
  | made _ hse _ _ _ hm =>
    have hrun := searchFile_run hse
    refine makeDir_synced hf (hrun.leads hsa.stored fun c hc => (hsa.cached c hc).sec) hm ?_
    rw [hrun.rest.vol]
    exact hs

end Fs

/-! ## All calls -/

inductive BlockCall where
  | fileWrite (g : Fin 32) (buf : Mem) (count : UInt32) (mem : Buffers)
  | sysMkdir (env : CallEnv) (pathname : List UInt8)
  | syncDirEntry (dir : Nat) (e : DirEntry)
  | deleteDirEntry (env : CallEnv) (dir : Nat) (inodeNo : UInt32)
  | inodeRelease (inodeNo : UInt32)

inductive BlockStep {part : Partition} : BlockCall → Fs part → Fs part → Prop
  | fileWrite {s s' : Fs part} {g : Fin 32} {buf : Mem} {count : UInt32} {mem : Buffers} {n : Nat}
    (h : s.fileWrite .debug g buf count mem = .ok (s', some n)) : BlockStep (.fileWrite g buf count mem) s s'
  | sysMkdir {s s' : Fs part} {env : CallEnv} {pathname : List UInt8}
    (h : s.sysMkdir .debug env pathname = .ok (s', true)) : BlockStep (.sysMkdir env pathname) s s'
  | syncDirEntry {s s' : Fs part} {dir : Nat} {e : DirEntry} (h : s.syncDirEntry .debug dir e = .ok (s', true)) :
    BlockStep (.syncDirEntry dir e) s s'
  | deleteDirEntry {s s' : Fs part} {env : CallEnv} {dir : Nat} {no : UInt32}
    (h : s.deleteDirEntry .debug env dir no = .ok s') : BlockStep (.deleteDirEntry env dir no) s s'
  | inodeRelease {s s' : Fs part} {no : UInt32} (h : s.inodeRelease .debug no = .ok s') : BlockStep (.inodeRelease no) s s'

def BlockCall.TableSynced {part : Partition} (s : Fs part) : BlockCall → Prop
  | .fileWrite g _ count _ => ∀ a c, (s.fileTable g).fdInode = some a → s.cached a = .ok c →
      OperateSystem.TableSynced s.vol c.inode count
  | _ => True

/-- **The bitmap on disk follows the one in memory iff** the call is not a `file_write`
whose new table lies in another sector of the bitmap than the next block. -/
theorem block_bitmap_synced_iff {part : Partition} (hf : part.Formatted) {s s' : Fs part} {call : BlockCall}
    (hsane : s.Sane) (hs : s.vol.Synced) (hstep : BlockStep call s s') : s'.vol.Synced ↔ call.TableSynced s := by
  cases hstep with
  | fileWrite h =>
    unfold Fs.fileWrite at h
    simp only [bind_ok] at h
    obtain ⟨a, hf', c, hc, ⟨st, ret⟩, hw, h⟩ := h
    cases h
    have ha := deref_ok.mp hf'
    refine (fileWrite_synced_iff hf hw (hsane.cached c (Fs.cached_ok hc).1) hs).trans ?_
    constructor
    · intro hco a' c' ha' hc'
      cases ha.symm.trans ha'
      cases hc.symm.trans hc'
      exact hco
    · intro hco
      exact hco a c ha hc
  | sysMkdir h => exact iff_of_true (Fs.sysMkdir_synced hf hsane h hs) trivial
  | syncDirEntry h =>
    refine iff_of_true ?_ trivial
    unfold Fs.syncDirEntry at h
    simp only [bind_ok] at h
    obtain ⟨c, hc, ⟨st, ok⟩, hst, h⟩ := h
    cases h
    exact syncDirEntry_synced hf (hsane.cached c (Fs.cached_ok hc).1).sec hst hs
  | deleteDirEntry h =>
    refine iff_of_true ?_ trivial
    unfold Fs.deleteDirEntry at h
    simp only [bind_ok] at h
    obtain ⟨c, hc, r, hr, ⟨st, ok⟩, hret, h⟩ := h
    cases h
    cases r with
    | none => cases hret
    | some x =>
      cases hret
      exact deleteDirEntry_synced hf (hsane.cached c (Fs.cached_ok hc).1) hr hs
  | inodeRelease h =>
    refine iff_of_true ?_ trivial
    unfold Fs.inodeRelease Fs.inodeReleaseVia at h
    simp only [bind_ok] at h
    obtain ⟨⟨s1, a⟩, ho, c, -, _, -, vol, hvol, hcl⟩ := h
    rw [(Fs.CacheStep.closed hcl).rest.vol]
    refine releaseVol_synced hf hvol ?_
    rw [(Fs.CacheStep.opened ho).rest.vol]
    exact hs

/-! ## A bitmap of two sectors -/

def syncPart : Partition where
  startLba := 0
  secCnt := 9000
  blockBitmapLba := 2
  blockBitmapSects := 2
  inodeBitmapLba := 4
  inodeTableLba := 5
  dataStartLba := 613
  block_bitmap_below := by decide
  inode_bitmap_below := by decide
  inode_table_below := by decide
  data_in_part := by decide
  data_on_disk := by decide

theorem syncPart_formatted : syncPart.Formatted := ⟨by decide, by decide, by decide⟩

def syncBits (n : Nat) (last : UInt8) : Mem := fun a => if a < n then 0xff else if a = n then last else 0

def syncVol (n : Nat) (last : UInt8) : Volume syncPart where
  disk := fun a => if 1024 ≤ a ∧ a < 2048 then syncBits n last (a - 1024) else 0
  blockBitmap := ⟨1024, syncBits n last, by decide⟩
  inodeBitmap := ⟨512, fun _ => 0, sector_lt⟩
  block_len := rfl

def syncInode : Inode := ⟨1, 6143, 1, 0, fun j => if j.val < 12 then .ofNat (613 + j) else 0, 0, 0⟩

def syncFs (n : Nat) (last : UInt8) : Fs syncPart where
  vol := syncVol n last
  openInodes := [⟨1, syncInode, 1, .pfKernel⟩]
  fileTable g := ⟨0, oWronly.toUInt32, if g.val = 3 then some 1 else none⟩
  rootDir := 0
  dirs := []
  procs := fun _ => none
  freed := []

theorem syncVol_synced (n : Nat) (last : UInt8) : (syncVol n last).Synced := fun k hk => by
  have hk : k < 1024 := hk
  show (if 1024 ≤ 1024 + k ∧ 1024 + k < 2048 then syncBits n last (1024 + k - 1024) else 0) = syncBits n last k
  rw [if_pos (by omega), Nat.add_sub_cancel_left]

theorem Partition.leads_of_sec {part : Partition} {disk : Mem} {i : Inode} (h : ∀ j < 12, part.Addr (i.sec j))
    (h12 : i.sec 12 = 0) : part.Leads disk i := by
  intro j hj
  by_cases h1 : j < 12
  · rw [slotAddr, memLayout_low _ _ h1]
    exact h j h1
  · by_cases h2 : j = 140
    · rw [h2, slotAddr, memLayout_table]
      exact .inl h12
    · rw [slotAddr, memLayout_mid _ _ (by omega) (by omega), tableOf, if_pos h12]
      exact .inl rfl

theorem syncFs_sane (n : Nat) (last : UInt8) : (syncFs n last).Sane := by
  refine ⟨fun c hc => ?_, fun m hm => ?_⟩
  · cases List.mem_singleton.mp hc
    refine Partition.leads_of_sec (fun j hj => ?_) rfl
    have : ∀ j < 12, 613 ≤ (syncInode.sec j).toNat ∧ (syncInode.sec j).toNat < 613 + 8192 := by decide
    exact .inr (this j hj)
  · -- the inode table is empty
    have hz : ∀ j, (Inode.ofMem (syncVol n last).disk (syncPart.inodeAddr m)).sec j = 0 := fun j => by
      unfold Inode.sec
      split
      · have hw : word (fun _ => 0) 0 = 0 := by decide
        refine Eq.trans (word_congr fun k hk => ?_) hw
        exact if_neg (by simp only [Partition.inodeAddr, syncPart]; omega)
      · rfl
    exact Partition.leads_of_sec (fun j _ => .inl (hz j)) (hz 12)

def syncWritten (n : Nat) (last : UInt8) : Fs syncPart :=
  ((((syncFs n last).fileWrite .debug 3 (fun _ => 7) 2 ⟨true, true⟩).toOption).getD (syncFs n last, none)).1

theorem syncWritten_step {n : Nat} {last : UInt8}
    (h : ((syncFs n last).fileWrite .debug 3 (fun _ => 7) 2 ⟨true, true⟩).toOption.any (·.2.isSome) = true) :
    BlockStep (.fileWrite 3 (fun _ => 7) 2 ⟨true, true⟩) (syncFs n last) (syncWritten n last) := by
  unfold syncWritten
  cases hr : (syncFs n last).fileWrite .debug 3 (fun _ => 7) 2 ⟨true, true⟩ with
  | error e =>
    rw [hr] at h
    cases h
  | ok r =>
    obtain ⟨s, ret⟩ := r
    rw [hr] at h
    cases ret with
    | none => cases h
    | some n => exact .fileWrite hr

theorem block_bitmap_synced_sixteen : (syncVol 2 0).Synced ∧ (syncWritten 2 0).vol.Synced := by
  have hs : BlockStep _ (syncFs 2 0) (syncWritten 2 0) := syncWritten_step (by decide +kernel)
  have hiff := block_bitmap_synced_iff syncPart_formatted (syncFs_sane 2 0) (syncVol_synced 2 0) hs
  refine ⟨syncVol_synced 2 0, hiff.mpr fun a c ha hc _ => ?_⟩
  cases ha
  cases hc
  have h1 : bitmapScan .debug (syncVol 2 0).blockBitmap 1 = .ok (some 16) := by rfl
  have h2 : bitmapScan .debug (bitmapSet (syncVol 2 0).blockBitmap 16 true) 1 = .ok (some 17) := by rfl
  intro t u rest e
  have hf := (Bitmap.freeBits_scan h1).trans (congrArg _ (Bitmap.freeBits_scan h2))
  replace e : (syncVol 2 0).blockBitmap.freeBits = t :: u :: rest := e
  rw [hf] at e
  cases e
  decide

/-- With blocks 0 to 4094 taken, the table is block 4095, whose sector is not synced. -/
theorem table_block_not_synced :
    syncPart.Formatted ∧ (syncFs 511 0x7f).Sane ∧ (syncFs 511 0x7f).vol.Synced ∧
      BlockStep (.fileWrite 3 (fun _ => 7) 2 ⟨true, true⟩) (syncFs 511 0x7f) (syncWritten 511 0x7f) ∧
      ¬ (syncWritten 511 0x7f).vol.Synced := by
  refine ⟨syncPart_formatted, syncFs_sane _ _, syncVol_synced _ _, syncWritten_step (by decide +kernel), fun h => ?_⟩
  have hne : (syncWritten 511 0x7f).vol.disk (512 * syncPart.blockBitmapLba + 511) ≠
      (syncWritten 511 0x7f).vol.blockBitmap.bits 511 := by decide +kernel
  exact hne (h 511 (by decide))

end OperateSystem
