import OperateSystem.Dir
import OperateSystem.FileSound

/-!
# Finding directory entries

A directory is seen as a map from slots, pairs of a block index and an entry
index, to the live entries in them, and `search_dir_entry` finds what the map
holds.
-/

namespace OperateSystem

open List

/-! ## Strings -/

theorem charCmp_eq_zero {a b : UInt8} : charCmp a b = 0 ↔ a = b := by
  unfold charCmp
  constructor
  · intro h
    rw [← UInt8.toBitVec_inj, ← BitVec.toInt_inj]
    split at h
    · cases h
    · split at h
      · cases h
      · omega
  · rintro rfl
    simp

theorem strcmp_congr {m m' : Mem} : ∀ (s : List UInt8) (a a' : Nat), (∀ j ≤ s.length, m (a + j) = m' (a' + j)) →
    strcmp m a s = strcmp m' a' s
  | [], a, a', h => by
    have h0 := h 0 le_rfl
    rw [Nat.add_zero, Nat.add_zero] at h0
    simp only [strcmp, h0]
  | c :: cs, a, a', h => by
    have h0 := h 0 (Nat.zero_le _)
    rw [Nat.add_zero, Nat.add_zero] at h0
    have ih := strcmp_congr cs (a + 1) (a' + 1) fun j hj => by
      have := h (j + 1) (Nat.succ_le_succ hj)
      rwa [show a + (j + 1) = a + 1 + j by omega, show a' + (j + 1) = a' + 1 + j by omega] at this
    simp only [strcmp, h0, ih]

theorem strcmp_eq_zero {m : Mem} : ∀ (l s : List UInt8) (a : Nat), (∀ j (h : j < l.length), m (a + j) = l[j]) →
    0 ∈ l ∨ s.length < l.length → (0 : UInt8) ∉ s → (strcmp m a s = 0 ↔ l.takeWhile (· ≠ 0) = s)
  | [], _, _, _, h0, _ => by
    rcases h0 with h0 | h0
    · cases h0
    · exact absurd h0 (Nat.not_lt_zero _)
  | c :: l, s, a, hm, h0, hs => by
    have hc : m a = c := hm 0 (Nat.zero_lt_succ _)
    by_cases hz : c = 0
    · subst hz
      cases s with
      | nil => simp [strcmp, hc, charCmp_eq_zero]
      | cons d ds =>
        have hd : d ≠ 0 := fun e => hs (by simp [e])
        simp [strcmp, hc, charCmp_eq_zero, hd.symm]
    · obtain _ | ⟨d, ds⟩ := s
      · simp [strcmp, hc, charCmp_eq_zero, hz]
      by_cases hd : c = d
      · subst hd
        have h0' : 0 ∈ l ∨ ds.length < l.length := by
          rcases h0 with h0 | h0
          · exact .inl ((mem_cons.mp h0).resolve_left fun e => hz e.symm)
          · exact .inr (Nat.lt_of_succ_lt_succ h0)
        have ih := strcmp_eq_zero l ds (a + 1) (fun j h => by
          have := hm (j + 1) (Nat.succ_lt_succ h)
          rwa [show a + (j + 1) = a + 1 + j by omega] at this) h0' fun h => hs (by simp [h])
        simpa [strcmp, hc, hz] using ih
      · simp [strcmp, hc, hz, hd, charCmp_eq_zero]

/-! ## Entries -/

namespace DirEntry
variable {e : DirEntry} {m : Mem} {a : Nat}

/-- A name of 1 to 15 characters. -/
def Named (e : DirEntry) : Prop := e.filename 0 ≠ 0 ∧ ∃ j, e.filename j = 0

def Live (e : DirEntry) : Prop := e.fType ≠ 0 ∧ e.Named

/-- `delete_dir_entry` clears a slot, and so does a new block. -/
def Free (e : DirEntry) : Prop := e.fType = 0 ∧ e.filename 0 = 0

theorem ofMem_congr {m' : Mem} {a' : Nat} (h : ∀ j < 24, m (a + j) = m' (a' + j)) :
    ofMem m a = ofMem m' a' := by
  have hw : ∀ k, k + 4 ≤ 24 → word m (a + k) = word m' (a' + k) := fun k hk =>
    word_congr fun j hj => by rw [Nat.add_assoc, Nat.add_assoc]; exact h (k + j) (by omega)
  unfold ofMem
  simp only [DirEntry.mk.injEq]
  exact ⟨funext fun j => h j (by omega), hw 16 (by omega), hw 20 (by omega)⟩

theorem ofMem_toMem (e : DirEntry) : ofMem e.toMem 0 = e := by
  have hi : word e.toMem (0 + 16) = e.iNo := word_of_bytes fun j hj => by
    unfold toMem
    rw [dif_neg (by omega), if_pos (by omega)]
    congr 1; omega
  have ht : word e.toMem (0 + 20) = e.fType := word_of_bytes fun j hj => by
    unfold toMem
    rw [dif_neg (by omega), if_neg (by omega)]
    congr 1; omega
  unfold ofMem
  rw [hi, ht]
  have hf : (fun j : Fin 16 => e.toMem (0 + j)) = e.filename := by
    funext j
    unfold toMem
    rw [dif_pos (by omega)]
    congr 1
    simp
  rw [hf]

theorem ofMem_blit (m : Mem) (e : DirEntry) (a : Nat) : ofMem (blit m a e.toMem 0 24) a = e := by
  refine Eq.trans (ofMem_congr fun j hj => ?_) (ofMem_toMem e)
  rw [blit_in (by omega) (by omega)]
  congr 1; omega

theorem free_of_zero (h : ∀ j < 24, m (a + j) = 0) : (ofMem m a).Free := by
  have h20 : word m (a + 20) = word (fun _ => 0) 0 := word_congr fun j hj => by
    rw [Nat.add_assoc]; exact h _ (by omega)
  exact ⟨h20.trans (by decide), h 0 (by omega)⟩

theorem ofFn_getD {name : List UInt8} (h : name.length ≤ 16) :
    List.ofFn (fun j : Fin 16 => name.getD j 0) = name ++ List.replicate (16 - name.length) 0 := by
  refine ext_getElem ?_ fun i h1 h2 => ?_
  · simp
    omega
  · rw [List.getElem_ofFn, getElem_append]
    split
    · rename_i hi
      exact getD_eq_getElem _ _ hi
    · rename_i hi
      rw [getElem_replicate]
      exact getD_eq_default _ _ (by simpa using hi)

theorem zero_not_mem_name (e : DirEntry) : (0 : UInt8) ∉ e.name := fun h => by
  have := all_eq_true.mp all_takeWhile 0 h
  simp at this

theorem name_length_le (e : DirEntry) : e.name.length ≤ 16 := by
  have hpre : e.name <+: List.ofFn e.filename := takeWhile_prefix _
  exact Nat.le_trans hpre.length_le (Nat.le_of_eq length_ofFn)

theorem Named.length_lt (h : e.Named) : e.name.length < 16 := by
  refine Nat.lt_of_le_of_ne e.name_length_le fun he => ?_
  have hpre : e.name <+: List.ofFn e.filename := takeWhile_prefix _
  have heq := hpre.eq_of_length (he.trans length_ofFn.symm)
  obtain ⟨j, hj⟩ := h.2
  exact e.zero_not_mem_name (heq ▸ (mem_ofFn.mpr ⟨j, hj⟩))

theorem strcmp_name {s : List UInt8} (hnul : ∃ j, (ofMem m a).filename j = 0) (hs : (0 : UInt8) ∉ s) :
    strcmp m a s = 0 ↔ (ofMem m a).name = s := by
  obtain ⟨j, hj⟩ := hnul
  refine strcmp_eq_zero (List.ofFn (ofMem m a).filename) s a (fun k hk => ?_) (.inl (mem_ofFn.mpr ⟨j, hj⟩)) hs
  rw [List.getElem_ofFn]
  rfl

theorem strcmp_short {s : List UInt8} (hs : (0 : UInt8) ∉ s) (hlen : s.length < 16) :
    strcmp m a s = 0 ↔ (ofMem m a).name = s := by
  refine strcmp_eq_zero (List.ofFn (ofMem m a).filename) s a (fun k hk => ?_) (.inr (by rwa [length_ofFn])) hs
  rw [List.getElem_ofFn]
  rfl

theorem Named.name_ne_nil (h : e.Named) : e.name ≠ [] := by
  unfold name
  rw [ofFn_succ, takeWhile_cons_of_pos (by simpa using h.1)]
  exact cons_ne_nil _ _

theorem Free.name_eq_nil (h : e.Free) : e.name = [] := by
  unfold name
  rw [ofFn_succ, takeWhile_cons_of_neg (by simpa using h.2)]

end DirEntry

theorem createDirEntry_eq {b : Build} {name : List UInt8} {no fileType : UInt32} {e : DirEntry}
    (h : createDirEntry b name no fileType = .ok e) : e = ⟨fun j => name.getD j 0, no, fileType⟩ := by
  unfold createDirEntry at h
  obtain ⟨-, -, h⟩ := bind_ok.mp h
  obtain ⟨-, -, h⟩ := bind_ok.mp h
  cases h
  rfl

/-! ## Slots -/

section
variable {b : Build} {disk : Mem} {l : Blocks}

def entryAt (disk : Mem) (l : Blocks) (k i : Nat) : DirEntry := .ofMem disk (512 * (l k).toNat + dirEntrySize * i)

def liveAt (disk : Mem) (l : Blocks) (k i : Nat) : Option DirEntry :=
  if k < 140 ∧ i < 21 ∧ l k ≠ 0 ∧ (entryAt disk l k i).fType ≠ 0 then some (entryAt disk l k i) else none

def dirSlots : List (Nat × Nat) := List.range 140 ×ˢ List.range 21

def liveEntries (disk : Mem) (l : Blocks) : List DirEntry := dirSlots.filterMap fun q => liveAt disk l q.1 q.2

theorem dirSlots_nodup : dirSlots.Nodup := nodup_range.product nodup_range

theorem mem_dirSlots {q : Nat × Nat} : q ∈ dirSlots ↔ q.1 < 140 ∧ q.2 < 21 := by
  unfold dirSlots
  rw [mem_product, mem_range, mem_range]

theorem liveAt_eq_some {k i : Nat} {x : DirEntry} : liveAt disk l k i = some x ↔
    k < 140 ∧ i < 21 ∧ l k ≠ 0 ∧ x.fType ≠ 0 ∧ entryAt disk l k i = x := by
  unfold liveAt
  constructor
  · intro h
    split at h
    · rename_i hc
      cases h
      exact ⟨hc.1, hc.2.1, hc.2.2.1, hc.2.2.2, rfl⟩
    · cases h
  · rintro ⟨hk, hi, hl, ht, rfl⟩
    exact if_pos ⟨hk, hi, hl, ht⟩

theorem entryAt_congr {disk' : Mem} {l' : Blocks} {k i : Nat} (hi : i < 21) (hl : l' k = l k)
    (h : ∀ j < 512, disk' (512 * (l k).toNat + j) = disk (512 * (l k).toNat + j)) :
    entryAt disk' l' k i = entryAt disk l k i := by
  unfold entryAt dirEntrySize
  rw [hl]
  refine DirEntry.ofMem_congr fun j hj => ?_
  rw [Nat.add_assoc, h _ (by omega)]

/-! ## Searching -/

def Matches (disk : Mem) (l : Blocks) (name : List UInt8) (k i : Nat) : Prop :=
  strcmp disk (512 * (l k).toNat + dirEntrySize * i) name = 0

theorem searchSector_some {buf : Mem} {name : List UInt8} {e : DirEntry} : ∀ n i, searchSector buf name n i = some e →
    ∃ j, i ≤ j ∧ j < i + n ∧ strcmp buf (dirEntrySize * j) name = 0 ∧ e = .ofMem buf (dirEntrySize * j)
  | 0, _, h => by cases h
  | n + 1, i, h => by
    unfold searchSector at h
    split at h
    · rename_i hc
      cases h
      exact ⟨i, le_rfl, by omega, hc, rfl⟩
    · obtain ⟨j, h1, h2, h3⟩ := searchSector_some n (i + 1) h
      exact ⟨j, by omega, by omega, h3⟩

theorem searchSector_none {buf : Mem} {name : List UInt8} : ∀ n i, searchSector buf name n i = none →
    ∀ j, i ≤ j → j < i + n → strcmp buf (dirEntrySize * j) name ≠ 0
  | 0, _, _ => fun j h1 h2 => by omega
  | n + 1, i, h => by
    unfold searchSector at h
    split at h
    · cases h
    · rename_i hc
      intro j h1 h2
      by_cases hj : j = i
      · rwa [hj]
      · exact searchSector_none n (i + 1) h j (by omega) (by omega)

theorem sector_strcmp {buf : Mem} {lba i : Nat} {name : List UInt8} (hi : i < 21) (hn : name.length ≤ 16) :
    strcmp (blit buf 0 disk (512 * lba) (512 * 1)) (dirEntrySize * i) name =
      strcmp disk (512 * lba + dirEntrySize * i) name := by
  unfold dirEntrySize
  refine strcmp_congr name _ _ fun j hj => ?_
  rw [blit_in (by omega) (by omega)]
  congr 1; omega

theorem sector_entry {buf : Mem} {lba i : Nat} (hi : i < 21) :
    DirEntry.ofMem (blit buf 0 disk (512 * lba) (512 * 1)) (dirEntrySize * i) =
      .ofMem disk (512 * lba + dirEntrySize * i) := by
  unfold dirEntrySize
  refine DirEntry.ofMem_congr fun j hj => ?_
  rw [blit_in (by omega) (by omega)]
  congr 1; omega

theorem searchBlocks_spec {name : List UInt8} (hn : name.length ≤ 16) : ∀ n k (buf : Mem) r,
    searchBlocks b disk l name n k buf = .ok r →
    (∀ e, r = some e → ∃ k' i, k ≤ k' ∧ k' < k + n ∧ i < 21 ∧ l k' ≠ 0 ∧ Matches disk l name k' i ∧
      e = entryAt disk l k' i) ∧
    (r = none → ∀ k' i, k ≤ k' → k' < k + n → i < 21 → l k' ≠ 0 → ¬ Matches disk l name k' i)
  | 0, k, buf, r, h => by
    cases h
    exact ⟨nofun, fun _ k' i h1 h2 => by omega⟩
  | n + 1, k, buf, r, h => by
    unfold searchBlocks at h
    by_cases hl : l k = 0
    · rw [if_pos hl] at h
      obtain ⟨hs, hno⟩ := searchBlocks_spec hn n (k + 1) buf r h
      refine ⟨fun e he => ?_, fun he k' i h1 h2 hi hk' => ?_⟩
      · obtain ⟨k', i, h1, h2, h3⟩ := hs e he
        exact ⟨k', i, by omega, by omega, h3⟩
      · have hne : k' ≠ k := fun e => hk' (e ▸ hl)
        exact hno he k' i (by omega) (by omega) hi hk'
    · rw [if_neg hl, bind_ok] at h
      obtain ⟨buf', hbuf, h⟩ := h
      rw [ideRead_ok hbuf] at h
      split at h
      · rename_i e he
        cases h
        obtain ⟨i, -, hi, hm, rfl⟩ := searchSector_some _ _ he
        have hi : i < 21 := by simpa [dirEntrySize] using hi
        rw [sector_strcmp hi hn] at hm
        refine ⟨fun e he => ?_, nofun⟩
        cases he
        exact ⟨k, i, le_rfl, by omega, hi, hl, hm, sector_entry hi⟩
      · rename_i he
        obtain ⟨hs, hno⟩ := searchBlocks_spec hn n (k + 1) _ r h
        refine ⟨fun e he => ?_, fun hr k' i h1 h2 hi hk' => ?_⟩
        · obtain ⟨k', i, h1, h2, h3⟩ := hs e he
          exact ⟨k', i, by omega, by omega, h3⟩
        · by_cases hne : k' = k
          · have := searchSector_none _ _ he i (Nat.zero_le i) (by simpa [dirEntrySize] using hi)
            rw [sector_strcmp hi hn] at this
            rwa [hne]
          · exact hno hr k' i (by omega) (by omega) hi hk'

theorem searchBlocks_total (b : Build) (disk : Mem) (l : Blocks) (name : List UInt8) : ∀ n k (buf : Mem),
    (∀ k', k ≤ k' → k' < k + n → l k' ≠ 0 → (l k').toNat ≤ maxLba) → ∃ r, searchBlocks b disk l name n k buf = .ok r
  | 0, k, buf, _ => ⟨none, rfl⟩
  | n + 1, k, buf, h => by
    have ih := fun buf => searchBlocks_total b disk l name n (k + 1) buf fun k' h1 h2 => h k' (by omega) (by omega)
    unfold searchBlocks
    by_cases hl : l k = 0
    · rw [if_pos hl]
      exact ih buf
    · rw [if_neg hl, ideRead_eq _ _ (h k le_rfl (by omega) hl) (by decide), ok_bind]
      split
      · exact ⟨_, rfl⟩
      · exact ih _

end

/-! ## Well-formed directories -/

section
variable {part : Partition} {b : Build} {vol : Volume part} {inode : Inode}

structure DirBlocks (vol : Volume part) (l : Blocks) : Prop where
  inData : ∀ k ≤ 140, l k ≠ 0 → part.InData (l k).toNat
  onDisk : ∀ k ≤ 140, l k ≠ 0 → (l k).toNat ≤ maxLba
  used : ∀ k ≤ 140, l k ≠ 0 → vol.Used (l k).toNat
  inj : ∀ j ≤ 140, ∀ k ≤ 140, l j ≠ 0 → l j = l k → j = k

/-- A directory whose live entries have different names of 1 to 15 characters. -/
structure DirOk (vol : Volume part) (inode : Inode) : Prop where
  blocks : DirBlocks vol (slotAddr vol.disk inode)
  entries : ∀ k < 140, ∀ i < 21, slotAddr vol.disk inode k ≠ 0 →
    (entryAt vol.disk (slotAddr vol.disk inode) k i).Free ∨ (entryAt vol.disk (slotAddr vol.disk inode) k i).Live
  distinct : ∀ {k i k' i' : Nat} {x y : DirEntry}, liveAt vol.disk (slotAddr vol.disk inode) k i = some x →
    liveAt vol.disk (slotAddr vol.disk inode) k' i' = some y → x.name = y.name → k = k' ∧ i = i'

theorem allBlocks_spec {disk : Mem} {all : Blocks} (h : allBlocks b disk inode = .ok all) :
    ∀ j < 140, all j = slotAddr disk inode j := by
  unfold allBlocks at h
  dsimp only at h
  have hlow : ∀ j < 12, copySectors inode 12 0 (fun _ => 0) j = inode.sec j := fun j hj => by
    rw [copySectors_apply, if_pos (by omega)]
  intro j hj
  by_cases h12 : inode.sec 12 = 0
  · rw [if_neg (by simpa using h12)] at h
    cases h
    by_cases hj' : j < 12
    · rw [hlow j hj', slotAddr, memLayout_low _ _ hj']
    · rw [copySectors_apply, if_neg (by omega), slotAddr, memLayout_mid _ _ (by omega) hj, tableOf, if_pos h12]
  · rw [if_pos h12] at h
    by_cases hj' : j < 12
    · rw [loadTable_low h hj', hlow j hj', slotAddr, memLayout_low _ _ hj']
    · rw [loadTable_mid h12 h j (by omega) hj, slotAddr, memLayout_mid _ _ (by omega) hj]

theorem allBlocks_total (b : Build) (disk : Mem) (h : inode.sec 12 ≠ 0 → (inode.sec 12).toNat ≤ maxLba) :
    ∃ all, allBlocks b disk inode = .ok all := by
  unfold allBlocks
  dsimp only
  by_cases h12 : inode.sec 12 = 0
  · rw [if_neg (by simpa using h12)]
    exact ⟨_, rfl⟩
  · rw [if_pos h12]
    unfold loadTable
    rw [ideRead_eq _ _ (h h12) (by decide)]
    exact ⟨_, rfl⟩

theorem DirBlocks.search (h : DirBlocks vol (slotAddr vol.disk inode)) {name : List UInt8} (hn : name.length ≤ 16)
    (buf : Mem) : ∃ r, searchDirEntry b vol.disk inode name true buf = .ok r ∧
    (∀ e, r = some e → ∃ k i, k < 140 ∧ i < 21 ∧ slotAddr vol.disk inode k ≠ 0 ∧
      Matches vol.disk (slotAddr vol.disk inode) name k i ∧ e = entryAt vol.disk (slotAddr vol.disk inode) k i) ∧
    (r = none → ∀ k < 140, ∀ i < 21, slotAddr vol.disk inode k ≠ 0 →
      ¬ Matches vol.disk (slotAddr vol.disk inode) name k i) := by
  obtain ⟨all, hall⟩ := allBlocks_total b vol.disk fun h12 : inode.sec 12 ≠ 0 => by
    have := h.onDisk 140 le_rfl
    rw [slotAddr, memLayout_table] at this
    exact this h12
  have heq := allBlocks_spec hall
  obtain ⟨r, hr⟩ := searchBlocks_total b vol.disk all name 140 0 buf fun k _ hk hl => by
    rw [heq k (by omega)] at hl ⊢
    exact h.onDisk k (by omega) hl
  obtain ⟨hs, hno⟩ := searchBlocks_spec hn 140 0 buf r hr
  refine ⟨r, ?_, fun e he => ?_, fun he k hk i hi hl => ?_⟩
  · unfold searchDirEntry
    rw [if_neg (by decide), hall]
    exact hr
  · obtain ⟨k, i, -, hk, hi, hl, hm, rfl⟩ := hs e he
    have hk : k < 140 := by omega
    unfold Matches entryAt at *
    rw [heq k hk] at hl hm ⊢
    exact ⟨k, i, hk, hi, hl, hm, rfl⟩
  · have := hno he k i (Nat.zero_le k) (by omega) hi
    unfold Matches at *
    rw [heq k hk] at this
    exact this hl

theorem DirOk.live (h : DirOk vol inode) {k i : Nat} {x : DirEntry}
    (hx : liveAt vol.disk (slotAddr vol.disk inode) k i = some x) : x.Live := by
  obtain ⟨hk, hi, hl, ht, rfl⟩ := liveAt_eq_some.mp hx
  exact (h.entries k hk i hi hl).resolve_left fun hf => ht hf.1

theorem DirOk.match_live (h : DirOk vol inode) {k i : Nat} {x : DirEntry} (hx : x.Named) (hk : k < 140) (hi : i < 21)
    (hl : slotAddr vol.disk inode k ≠ 0) : Matches vol.disk (slotAddr vol.disk inode) x.name k i ↔
      ∃ y, liveAt vol.disk (slotAddr vol.disk inode) k i = some y ∧ y.name = x.name := by
  have hcmp : ∀ hnul, _ := fun hnul =>
    DirEntry.strcmp_name (m := vol.disk) (a := 512 * (slotAddr vol.disk inode k).toNat + dirEntrySize * i) (s := x.name)
      hnul x.zero_not_mem_name
  constructor
  · intro hm
    rcases h.entries k hk i hi hl with hf | hli
    · have := (hcmp ⟨0, hf.2⟩).mp hm
      exact absurd (this.symm.trans hf.name_eq_nil) hx.name_ne_nil
    · exact ⟨_, liveAt_eq_some.mpr ⟨hk, hi, hl, hli.1, rfl⟩, (hcmp hli.2.2).mp hm⟩
  · rintro ⟨y, hy, hn⟩
    have hli := h.live hy
    obtain ⟨-, -, -, -, rfl⟩ := liveAt_eq_some.mp hy
    exact (hcmp hli.2.2).mpr hn

/-- **`search_dir_entry` finds exactly the live entries.** -/
theorem DirOk.search_iff (h : DirOk vol inode) {x : DirEntry} (hx : x.Named) (buf : Mem) :
    searchDirEntry b vol.disk inode x.name true buf = .ok (some x) ↔
      ∃ k i, liveAt vol.disk (slotAddr vol.disk inode) k i = some x := by
  obtain ⟨r, hr, hs, hn⟩ := h.blocks.search (b := b) x.name_length_le buf
  rw [hr, Except.ok.injEq]
  constructor
  · intro he
    obtain ⟨k, i, hk, hi, hl, hm, rfl⟩ := hs x he
    obtain ⟨y, hy, -⟩ := (h.match_live hx hk hi hl).mp hm
    obtain ⟨-, -, -, -, rfl⟩ := liveAt_eq_some.mp hy
    exact ⟨k, i, hy⟩
  · rintro ⟨k, i, hxl⟩
    obtain ⟨hk, hi, hl, -, -⟩ := liveAt_eq_some.mp hxl
    have hm := (h.match_live hx hk hi hl).mpr ⟨x, hxl, rfl⟩
    cases r with
    | none => exact absurd hm (hn rfl k hk i hi hl)
    | some e =>
      -- The first slot with the name is the only one.
      obtain ⟨k', i', hk', hi', hl', hm', rfl⟩ := hs e rfl
      obtain ⟨y, hy, hna⟩ := (h.match_live hx hk' hi' hl').mp hm'
      obtain ⟨rfl, rfl⟩ := h.distinct hy hxl hna
      exact congrArg some (liveAt_eq_some.mp hxl).2.2.2.2

end

end OperateSystem
