import OperateSystem.FileLimits

/-!
# `file_write` on a partition that runs full

With `ASSERT` compiled out, `block_bitmap_alloc` returns `-1` when no block is
free, and `file_write` passes that on at five places. It gives nothing back there:
what it had allocated and recorded before the failure stays.
-/

namespace OperateSystem

section
variable {part : Partition} {vol vol' : Volume part} {st st' : Writing part}

theorem blockBitmapAlloc_fails (h : blockBitmapAlloc .ndebug vol = .ok (none, vol')) :
    vol' = vol ∧ vol.blockBitmap.freeBits = [] := by
  have hf : vol.blockBitmap.freeBits = [] := by
    by_contra hne
    obtain ⟨lba, vol1, ha⟩ := blockBitmapAlloc_total .ndebug hne
    rw [ha] at h
    cases h
  refine ⟨?_, hf⟩
  unfold blockBitmapAlloc at h
  rw [bitmapScan_ndebug_full hf] at h
  cases h
  rfl

theorem blockBitmapAlloc_full {b : Build} {lba : Nat} (hf : vol.blockBitmap.freeBits = []) :
    blockBitmapAlloc b vol ≠ .ok (some lba, vol') := fun h => by
  have := (blockBitmapAlloc_ok h).1
  rw [hf] at this
  cases this

structure Fails (st st' : Writing part) : Prop where
  full : st'.vol.blockBitmap.freeBits = []
  same : st.vol.blockBitmap.freeBits = [] → st'.vol = st.vol ∧ st'.inode = st.inode

theorem Fails.of_alloc (h : blockBitmapAlloc .ndebug st.vol = .ok (none, vol')) : Fails st { st with vol := vol' } := by
  obtain ⟨rfl, hf⟩ := blockBitmapAlloc_fails h
  exact ⟨hf, fun _ => ⟨rfl, rfl⟩⟩

theorem Fails.of_taken {lba : Nat} {st1 : Writing part} (ha : blockBitmapAlloc .ndebug st.vol = .ok (some lba, vol'))
    (h : Fails st1 st') : Fails st st' :=
  ⟨h.full, fun hf => absurd ha (blockBitmapAlloc_full hf)⟩

theorem growBlocks_fails : ∀ (n k : Nat) (st st' : Writing part), growBlocks .ndebug n k st = .ok (st', false) → Fails st st'
  | 0, k, st, st', h => by cases h
  | n + 1, k, st, st', h => by
    unfold growBlocks at h
    obtain ⟨⟨a, vol1⟩, ha, h⟩ := bind_ok.mp h
    cases a with
    | none =>
      cases h
      exact .of_alloc ha
    | some lba =>
      obtain ⟨inode, -, h⟩ := bind_ok.mp h
      obtain ⟨-, -, h⟩ := bind_ok.mp h
      obtain ⟨vol2, -, h⟩ := bind_ok.mp h
      exact .of_taken ha (growBlocks_fails n _ _ st' h)

theorem firstBlock_fails (h : firstBlock .ndebug st = .ok (st', false)) : Fails st st' := by
  unfold firstBlock at h
  split at h
  · obtain ⟨⟨a, vol1⟩, ha, h⟩ := bind_ok.mp h
    cases a with
    | none =>
      cases h
      exact .of_alloc ha
    | some lba =>
      obtain ⟨-, -, h⟩ := bind_ok.mp h
      obtain ⟨vol2, -, h⟩ := bind_ok.mp h
      cases h
  · cases h

theorem firstBlock_full (h : firstBlock .ndebug st = .ok (st', true)) (hf : st.vol.blockBitmap.freeBits = []) : st' = st := by
  unfold firstBlock at h
  split at h
  · obtain ⟨⟨a, vol1⟩, ha, h⟩ := bind_ok.mp h
    cases a with
    | none => cases h
    | some lba => exact absurd ha (blockBitmapAlloc_full hf)
  · cases h
    rfl

theorem storeGrown_fails {n k : Nat}
    (h : (do
      let (st, ok) ← growBlocks .ndebug n k st
      if ok then
        let disk ← storeTable .ndebug st.vol.disk (st.inode.sec 12) st.all
        return (st.setDisk disk, true)
      else
        return (st, false)) = .ok (st', false)) : Fails st st' := by
  obtain ⟨⟨st2, ok⟩, hg, h⟩ := bind_ok.mp h
  cases ok with
  | true =>
    obtain ⟨disk, -, h⟩ := bind_ok.mp h
    cases h
  | false =>
    cases h
    exact growBlocks_fails _ _ _ _ hg

theorem collectBlocks_fails {has will : Nat} (h : collectBlocks .ndebug st has will = .ok (st', false)) : Fails st st' := by
  unfold collectBlocks at h
  split at h
  · split at h
    · obtain ⟨st1, -, h⟩ := bind_ok.mp h
      cases h
    · obtain ⟨-, -, h⟩ := bind_ok.mp h
      obtain ⟨all, -, h⟩ := bind_ok.mp h
      cases h
  split at h
  · obtain ⟨-, -, h⟩ := bind_ok.mp h
    obtain ⟨-, -, h⟩ := bind_ok.mp h
    obtain ⟨st1, hk, h⟩ := bind_ok.mp h
    rw [keepBlock_ok hk] at h
    have hf := growBlocks_fails _ _ _ _ h
    exact ⟨hf.full, hf.same⟩
  split at h
  · obtain ⟨st1, hk, h⟩ := bind_ok.mp h
    rw [keepBlock_ok hk] at h
    obtain ⟨⟨a, vol1⟩, ha, h⟩ := bind_ok.mp h
    cases a with
    | none =>
      cases h
      have hf := Fails.of_alloc ha
      exact ⟨hf.full, hf.same⟩
    | some lba =>
      obtain ⟨-, -, h⟩ := bind_ok.mp h
      exact .of_taken ha (storeGrown_fails h)
  · obtain ⟨-, -, h⟩ := bind_ok.mp h
    obtain ⟨all, -, h⟩ := bind_ok.mp h
    have hf := storeGrown_fails h
    exact ⟨hf.full, hf.same⟩

theorem fileWrite_fails {i : Inode} {pos count : UInt32} {buf : Mem} {mem : Buffers}
    (h : fileWrite .ndebug vol i pos buf count mem = .ok (st, none)) :
    (71680 < (i.iSize + count).toNat ∨ mem.ioBuf = false ∨ mem.allBlocks = false) ∧ st = ⟨vol, i, pos, fun _ => 0⟩ ∨
      ¬ (71680 < (i.iSize + count).toNat ∨ mem.ioBuf = false ∨ mem.allBlocks = false) ∧
        Fails ⟨vol, i, pos, fun _ => 0⟩ st := by
  obtain ⟨-, h⟩ | ⟨st₁, hn, -⟩ := fileWrite_ok h
  case inr => cases hn
  unfold writeBlocks at h
  dsimp only at h
  by_cases hbig : 71680 < (i.iSize + count).toNat
  · rw [if_pos hbig] at h
    cases h
    exact .inl ⟨.inl hbig, rfl⟩
  by_cases hmem : mem.ioBuf = false ∨ mem.allBlocks = false
  · rw [if_neg hbig, if_pos hmem] at h
    cases h
    exact .inl ⟨.inr hmem, rfl⟩
  rw [if_neg hbig, if_neg hmem] at h
  refine .inr ⟨not_or.mpr ⟨hbig, hmem⟩, ?_⟩
  obtain ⟨⟨st1, ok1⟩, h1, h⟩ := bind_ok.mp h
  cases ok1 with
  | false =>
    cases h
    exact firstBlock_fails h1
  | true =>
    obtain ⟨-, -, h⟩ := bind_ok.mp h
    obtain ⟨⟨st2, ok2⟩, h2, h⟩ := bind_ok.mp h
    cases ok2 with
    | false =>
      cases h
      have hf := collectBlocks_fails h2
      refine ⟨hf.full, fun hfu => ?_⟩
      rw [firstBlock_full h1 hfu] at hf
      exact hf.same hfu
    | true =>
      obtain ⟨st3, -, h⟩ := bind_ok.mp h
      cases h

structure Untouched (vol : Volume part) (i : Inode) (vol' : Volume part) (i' : Inode) : Prop where
  size : i'.iSize = i.iSize
  sectors : i'.iSectors = i.iSectors
  bitmap : vol'.blockBitmap = vol.blockBitmap
  stored : ∀ k < 512 * part.blockBitmapSects,
    vol'.disk (512 * part.blockBitmapLba + k) = vol.disk (512 * part.blockBitmapLba + k)

theorem Untouched.refl (vol : Volume part) (i : Inode) : Untouched vol i vol i := ⟨rfl, rfl, rfl, fun _ _ => rfl⟩

/-- **A failed write** changes nothing iff it was refused before the first allocation or no block
was free to begin with. -/
theorem failed_write_iff {i : Inode} {pos count : UInt32} {buf : Mem} {mem : Buffers}
    (h : fileWrite .ndebug vol i pos buf count mem = .ok (st, none)) : Untouched vol i st.vol st.inode ↔
      (71680 < (i.iSize + count).toNat ∨ mem.ioBuf = false ∨ mem.allBlocks = false) ∨ vol.blockBitmap.freeBits = [] := by
  rcases fileWrite_fails h with ⟨he, rfl⟩ | ⟨hl, hf⟩
  · exact iff_of_true (.refl vol i) (.inl he)
  · refine ⟨fun hs => .inr ?_, fun hor => ?_⟩
    · rw [← hs.bitmap]
      exact hf.full
    · obtain ⟨hvol, hi⟩ := hf.same (hor.resolve_left hl)
      rw [hvol, hi]
      exact .refl vol i

end

def lastByteVol (last : UInt8) : Volume samplePart where
  disk := fun _ => 0
  blockBitmap := ⟨512, fun k => if k = 511 then last else 0xff, sector_lt⟩
  inodeBitmap := ⟨512, fun _ => 0xff, sector_lt⟩
  block_len := rfl

def growThree (last : UInt8) : Exec (Writing samplePart × Option Nat) :=
  fileWrite .ndebug (lastByteVol last) threeBytes 3 sampleBuf 1200 ⟨true, true⟩

theorem failed_write_full : ∃ st, growThree 0xff = .ok (st, none) ∧ Untouched (lastByteVol 0xff) threeBytes st.vol st.inode := by
  have hret : (growThree 0xff).toOption.map Prod.snd = some none := by decide +kernel
  obtain ⟨⟨st, ret⟩, hrun, rfl⟩ := exists_of_map hret
  exact ⟨st, hrun, (failed_write_iff hrun).mpr (.inr (by decide +kernel))⟩

/-- With one block left the write fails at its second block, and the first stays in the inode. -/
theorem failed_write_keeps_block : ∃ st, growThree 0x7f = .ok (st, none) ∧ threeBytes.sec 1 = 0 ∧ st.inode.sec 1 = 4707 ∧
    ¬ Untouched (lastByteVol 0x7f) threeBytes st.vol st.inode := by
  have hret : (growThree 0x7f).toOption.map (fun r => (r.2, r.1.inode.sec 1)) = some (none, 4707) := by decide +kernel
  obtain ⟨⟨st, ret⟩, hrun, hf⟩ := exists_of_map hret
  obtain ⟨rfl, hsec⟩ := Prod.mk.inj hf
  refine ⟨st, hrun, rfl, hsec, fun h => ?_⟩
  have hk : st.inode.sec 1 = threeBytes.sec 1 := by
    unfold Inode.sec
    rw [h.sectors]
  rw [hsec] at hk
  exact absurd hk (by decide)

end OperateSystem
