import OperateSystem.DirSound

/-!
# Finding a new entry

`create_dir_entry` copies up to 16 characters without a NUL, and `strcmp` reads
on into the inode number behind a name that fills the array. So a name of 16
characters is found only under the inode numbers whose low byte is 0.
-/

namespace OperateSystem

theorem wordByte_word (m : Mem) (a : Nat) : wordByte (word m a) 0 = m a := by
  have h0 := (m a).toNat_lt
  have h1 := (m (a + 1)).toNat_lt
  have h2 := (m (a + 2)).toNat_lt
  have h3 := (m (a + 3)).toNat_lt
  apply UInt8.toNat_inj.mp
  unfold wordByte word
  rw [UInt8.toNat_ofNat', UInt32.toNat_ofNat']
  omega

namespace DirEntry

/-- What `strcmp` compares a name with. The byte behind the array is the low byte of
`i_no`. -/
def compared (e : DirEntry) : List UInt8 := (List.ofFn e.filename ++ [wordByte e.iNo 0]).takeWhile (· ≠ 0)

theorem strcmp_compared {m : Mem} {a : Nat} {s : List UInt8} (hs : (0 : UInt8) ∉ s) (hlen : s.length ≤ 16) :
    strcmp m a s = 0 ↔ (ofMem m a).compared = s := by
  refine strcmp_eq_zero _ s a (fun k hk => ?_) (.inr ?_) hs
  · rw [List.getElem_append]
    split
    · rw [List.getElem_ofFn]
      rfl
    · rename_i hk'
      rw [List.length_append, List.length_ofFn, List.length_singleton] at hk
      rw [List.length_ofFn] at hk'
      have : k = 16 := by omega
      subst this
      exact (wordByte_word m (a + 16)).symm
  · rw [List.length_append, List.length_ofFn, List.length_singleton]
    omega

theorem Free.compared_eq_nil {e : DirEntry} (h : e.Free) : e.compared = [] := by
  unfold compared
  rw [List.ofFn_succ, List.cons_append, List.takeWhile_cons_of_neg (by simpa using h.2)]

theorem compared_created {name : List UInt8} (hz : 0 ∉ name) (hlen : name.length ≤ 16) (no fileType : UInt32) :
    compared ⟨fun j => name.getD j 0, no, fileType⟩ = name ↔ name.length ≤ 15 ∨ no.toNat % 256 = 0 := by
  have hpos : ∀ c ∈ name, decide (c ≠ 0) = true := fun c hc => decide_eq_true fun h => hz (h ▸ hc)
  have hlow : wordByte no 0 = 0 ↔ no.toNat % 256 = 0 := by
    unfold wordByte
    rw [← UInt8.toNat_inj, UInt8.toNat_ofNat']
    simp
  unfold compared
  dsimp only
  rw [ofFn_getD hlen, List.append_assoc, List.takeWhile_append_of_pos hpos, List.append_right_eq_self, ← hlow]
  cases hn : 16 - name.length with
  | zero => simp [show ¬ name.length ≤ 15 by omega]
  | succ n => simp [List.replicate_succ, show name.length ≤ 15 by omega]

end DirEntry

section
variable {part : Partition} {vol : Volume part} {inode : Inode}
variable {name : List UInt8}

theorem matches_iff {disk : Mem} {l : Blocks} (hz : 0 ∉ name) (hlen : name.length ≤ 16) (k i : Nat) :
    Matches disk l name k i ↔ (entryAt disk l k i).compared = name :=
  DirEntry.strcmp_compared hz hlen

theorem DirBlocks.search_none_iff (h : DirBlocks vol (slotAddr vol.disk inode)) {b : Build}
    (hz : 0 ∉ name) (hlen : name.length ≤ 16) (buf : Mem) :
    searchDirEntry b vol.disk inode name true buf = .ok none ↔
      ∀ k < 140, ∀ i < 21, slotAddr vol.disk inode k ≠ 0 →
        (entryAt vol.disk (slotAddr vol.disk inode) k i).compared ≠ name := by
  obtain ⟨r, hr, hs, hn⟩ := h.search (b := b) hlen buf
  rw [hr, Except.ok.injEq]
  constructor
  · intro he k hk i hi hl hc
    exact hn he k hk i hi hl ((matches_iff hz hlen k i).mpr hc)
  · intro hall
    cases r with
    | none => rfl
    | some x =>
      obtain ⟨k, i, hk, hi, hl, hm, -⟩ := hs x rfl
      exact absurd ((matches_iff hz hlen k i).mp hm) (hall k hk i hi hl)

variable {vol' : Volume part} {inode' : Inode} {e : DirEntry} {k0 i0 : Nat} {keep : Nat → Prop}

theorem Placed.compared_new (h : Placed vol inode vol' inode' e k0 i0 keep) (hne : name ≠ [])
    (hold : ∀ k < 140, ∀ i < 21, slotAddr vol.disk inode k ≠ 0 →
      (entryAt vol.disk (slotAddr vol.disk inode) k i).compared ≠ name) {k i : Nat} (hk : k < 140)
    (hi : i < 21) (hl : slotAddr vol'.disk inode' k ≠ 0)
    (hc : (entryAt vol'.disk (slotAddr vol'.disk inode') k i).compared = name) : k = k0 ∧ i = i0 := by
  by_contra hn
  by_cases hke : keep k ∧ slotAddr vol.disk inode k ≠ 0
  · obtain ⟨-, heq⟩ := h.kept k hk i hi hke.1 hke.2 hn
    rw [heq] at hc
    exact hold k hk i hi hke.2 hc
  · have hf := h.fresh k hk i hi hke hn hl
    exact hne (hc.symm.trans hf.compared_eq_nil)

theorem syncDirEntry_search (h : DirBlocks vol (slotAddr vol.disk inode)) (hne : name ≠ [])
    (hz : 0 ∉ name) (hlen : name.length ≤ 16) {buf : Mem}
    (hnew : searchDirEntry .debug vol.disk inode name true buf = .ok none) {ioBuf : Mem}
    {st : DirWriting part} (hr : syncDirEntry .debug vol inode e ioBuf = .ok (st, true)) (buf' : Mem) :
    searchDirEntry .debug st.vol.disk st.inode name true buf' = .ok (if e.compared = name then some e else none) := by
  obtain ⟨k0, i0, -, hp⟩ := syncDirEntry_placed h hr
  have hold := (h.search_none_iff hz hlen buf).mp hnew
  obtain ⟨r, hr', hs, hn⟩ := hp.blocks.search (b := .debug) hlen buf'
  rw [hr']
  cases r with
  | none =>
    have hc := hn rfl k0 hp.index.1 i0 hp.index.2 hp.slot.1
    rw [matches_iff hz hlen, hp.slot.2] at hc
    rw [if_neg hc]
  | some x =>
    obtain ⟨k, i, hk, hi, hl, hm, rfl⟩ := hs x rfl
    have hc := (matches_iff hz hlen k i).mp hm
    obtain ⟨rfl, rfl⟩ := hp.compared_new hne hold hk hi hl hc
    rw [hp.slot.2] at hc ⊢
    rw [if_pos hc]

/-- **A created entry is found iff** its name leaves room for a NUL or the low byte of
its inode number takes the NUL's place. -/
theorem create_dir_entry_found_iff (h : DirBlocks vol (slotAddr vol.disk inode)) {name : List UInt8} (hne : name ≠ [])
    (hz : 0 ∉ name) (hlen : name.length ≤ 16) {buf : Mem}
    (hnew : searchDirEntry .debug vol.disk inode name true buf = .ok none) {no fileType : UInt32}
    (he : createDirEntry .debug name no fileType = .ok e) {ioBuf : Mem} {st : DirWriting part}
    (hr : syncDirEntry .debug vol inode e ioBuf = .ok (st, true)) :
    (∀ buf, ∃ x, searchDirEntry .debug st.vol.disk st.inode name true buf = .ok (some x) ∧
        x.iNo = no ∧ x.fType = fileType) ↔
      name.length ≤ 15 ∨ no.toNat % 256 = 0 := by
  have hs := syncDirEntry_search h hne hz hlen hnew hr
  obtain rfl := createDirEntry_eq he
  rw [← DirEntry.compared_created hz hlen no fileType]
  constructor
  · intro hf
    obtain ⟨x, hx, -, -⟩ := hf buf
    rw [hs buf] at hx
    by_contra hc
    rw [if_neg hc] at hx
    cases hx
  · intro hc buf
    have hx := hs buf
    rw [if_pos hc] at hx
    exact ⟨_, hx, rfl, rfl⟩

end

def longName : List UInt8 := List.replicate 16 97

def longEntry (no : UInt32) : DirEntry := ⟨fun j => longName.getD j 0, no, 1⟩

theorem longName_new (buf : Mem) :
    searchDirEntry .debug (sampleDirVol fun _ _ => false).disk (sampleDirInode 0) longName true buf = .ok none := by
  refine ((sample_dirOk _ 0).blocks.search_none_iff (by decide) (by decide) buf).mpr fun k hk i hi hl => ?_
  have hf := sample_free (fun _ _ => false) 0 (sample_allocated _ 0 hk hl) hi rfl
  exact fun h => absurd (h.symm.trans hf.compared_eq_nil) (by decide)

theorem longEntry_synced (no : UInt32) (h : (syncDirEntry .debug (sampleDirVol fun _ _ => false) (sampleDirInode 0)
    (longEntry no) fun _ => 0).toOption.any (fun r => r.2) = true) :
    ∃ st, syncDirEntry .debug (sampleDirVol fun _ _ => false) (sampleDirInode 0) (longEntry no) (fun _ => 0) = .ok (st, true) := by
  obtain ⟨⟨st, ok⟩, hr, hok⟩ := exists_of_any h
  cases ok with
  | true => exact ⟨st, hr⟩
  | false => cases hok

theorem create_dir_entry_found_256 :
    ∃ st, syncDirEntry .debug (sampleDirVol fun _ _ => false) (sampleDirInode 0) (longEntry 256) (fun _ => 0) = .ok (st, true) ∧
      ∀ buf, ∃ x, searchDirEntry .debug st.vol.disk st.inode longName true buf = .ok (some x) ∧ x.iNo = 256 ∧ x.fType = 1 := by
  obtain ⟨st, hr⟩ := longEntry_synced 256 (by decide +kernel)
  refine ⟨st, hr, ?_⟩
  exact (create_dir_entry_found_iff (sample_dirOk _ 0).blocks (by decide) (by decide) (by decide)
    (longName_new fun _ => 0) rfl hr).mpr (.inr rfl)

theorem create_dir_entry_not_found :
    createDirEntry .debug longName 1 1 = .ok (longEntry 1) ∧
      (∀ buf, searchDirEntry .debug (sampleDirVol fun _ _ => false).disk (sampleDirInode 0) longName true buf = .ok none) ∧
      ∃ st, syncDirEntry .debug (sampleDirVol fun _ _ => false) (sampleDirInode 0) (longEntry 1) (fun _ => 0) = .ok (st, true) ∧
        ∀ buf, searchDirEntry .debug st.vol.disk st.inode longName true buf = .ok none := by
  obtain ⟨st, hr⟩ := longEntry_synced 1 (by decide +kernel)
  refine ⟨rfl, longName_new, st, hr, fun buf => ?_⟩
  rw [syncDirEntry_search (sample_dirOk _ 0).blocks (by decide) (by decide) (by decide) (longName_new buf) hr,
    if_neg (by decide +kernel)]

end OperateSystem
