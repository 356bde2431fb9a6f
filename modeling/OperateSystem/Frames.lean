import OperateSystem.FileSound

/-!
# What an operation leaves alone

`Touched` bounds the effect of an operation on a volume: data sectors, bits of
the block bitmap and inodes. The bitmaps on disk are not bounded, as nothing
reads them while the partition is mounted.
-/

namespace OperateSystem

section
variable {part : Partition} {b : Build} {vol vol' vol'' : Volume part} {T U N T' U' N' : Set Nat}

structure Touched (vol vol' : Volume part) (T U N : Set Nat) : Prop where
  data : SameOutside part (· ∈ T) vol.disk vol'.disk
  used : ∀ lba ∉ U, vol'.Used lba ↔ vol.Used lba
  table : ∀ n < 4096, n ∉ N → Inode.ofMem vol'.disk (part.inodeAddr n) = Inode.ofMem vol.disk (part.inodeAddr n)
  bits : ∀ n ∉ N, vol'.inodeBitmap.bit n = vol.inodeBitmap.bit n

theorem Touched.refl (vol : Volume part) : Touched vol vol T U N :=
  ⟨.refl _ _, fun _ _ => .rfl, fun _ _ _ => rfl, fun _ _ => rfl⟩

theorem Touched.mono (h : Touched vol vol' T U N) (hT : T ⊆ T') (hU : U ⊆ U') (hN : N ⊆ N') : Touched vol vol' T' U' N' :=
  ⟨h.data.mono fun _ _ hl => hT hl, fun lba hl => h.used lba fun hu => hl (hU hu),
    fun n hn hl => h.table n hn fun hu => hl (hN hu), fun n hn => h.bits n fun hu => hn (hN hu)⟩

theorem Touched.trans (h : Touched vol vol' T U N) (h' : Touched vol' vol'' T U N) : Touched vol vol'' T U N :=
  ⟨h.data.trans h'.data, fun lba hl => (h'.used lba hl).trans (h.used lba hl),
    fun n hn hl => (h'.table n hn hl).trans (h.table n hn hl), fun n hn => (h'.bits n hn).trans (h.bits n hn)⟩

theorem Touched.below {src : Mem} {a o n : Nat} (ha : a + n ≤ 512 * part.inodeTableLba)
    (hd : vol'.disk = blit vol.disk a src o n) (hb : vol'.blockBitmap = vol.blockBitmap)
    (hi : vol'.inodeBitmap = vol.inodeBitmap) : Touched vol vol' T U N := by
  have := part.inode_table_below
  refine ⟨?_, fun lba _ => by rw [used_congr hb], fun m _ _ => ?_, fun m _ => by rw [hi]⟩
  · rw [hd]
    exact .blit_below _ _ (by omega)
  · rw [hd]
    refine ofMem_congr fun j hj => blit_out ?_
    unfold Partition.inodeAddr
    omega

theorem Touched.blockSync (hf : part.Formatted) {i : Nat} (hi : i < 4096 * part.blockBitmapSects)
    (h : bitmapSync b vol i .blockBitmap = .ok vol') : Touched vol vol' T U N := by
  obtain ⟨hd, hb, hn⟩ := bitmapSync_ok h
  have := hf.inodes
  have := hf.table
  exact .below (by omega) hd hb hn

theorem Touched.inodeBitmapSync (hf : part.Formatted) {i : Nat} (hi : i < 4096)
    (h : bitmapSync b vol i .inodeBitmap = .ok vol') : Touched vol vol' T U N ∧ vol'.inodeBitmap = vol.inodeBitmap := by
  simp only [bitmapSync, bind_ok, pure_ok, Except.ok.injEq] at h
  obtain ⟨d, hd, rfl⟩ := h
  have := hf.table
  exact ⟨.below (by omega) (ideWrite_ok hd) rfl rfl, rfl⟩

theorem Touched.sector {buf : Mem} {lba : Nat} (hl : part.dataStartLba ≤ lba)
    (hd : vol'.disk = blit vol.disk (512 * lba) buf 0 (512 * 1)) (hb : vol'.blockBitmap = vol.blockBitmap)
    (hi : vol'.inodeBitmap = vol.inodeBitmap) : Touched vol vol' {lba} U N := by
  have := part.inode_table_below
  refine ⟨fun x _ hx k hk => ?_, fun x _ => by rw [used_congr hb], fun m hm _ => ?_, fun m _ => by rw [hi]⟩
  · have hx : x ≠ lba := hx
    rw [hd]
    exact blit_out (by omega)
  · rw [hd]
    refine ofMem_congr fun j hj => blit_out ?_
    unfold Partition.inodeAddr
    omega

theorem Touched.blockBit {lba : Nat} {v : Bool} (hl : part.dataStartLba ≤ lba) (hd : vol'.disk = vol.disk)
    (hb : vol'.blockBitmap = bitmapSet vol.blockBitmap (lba - part.dataStartLba) v)
    (hi : vol'.inodeBitmap = vol.inodeBitmap) : Touched vol vol' T {lba} N := by
  refine ⟨by rw [hd]; exact .refl _ _, fun x hx => ?_, fun m _ _ => by rw [hd], fun m _ => by rw [hi]⟩
  have hx : x ≠ lba := hx
  unfold Volume.Used
  rw [hb, bit_bitmapSet]
  refine and_congr_right fun hle => ?_
  rw [if_neg (by omega)]

theorem Touched.inodeBit {n : Nat} {v : Bool} (hd : vol'.disk = vol.disk) (hb : vol'.blockBitmap = vol.blockBitmap)
    (hi : vol'.inodeBitmap = bitmapSet vol.inodeBitmap n v) : Touched vol vol' T U {n} := by
  refine ⟨by rw [hd]; exact .refl _ _, fun x _ => by rw [used_congr hb], fun m _ _ => by rw [hd], fun m hm => ?_⟩
  have hm : m ≠ n := hm
  rw [hi, bit_bitmapSet, if_neg hm]

theorem Touched.inode {src : Mem} {n : Nat} (hn : n < 4096) (hd : vol'.disk = blit vol.disk (part.inodeAddr n) src 0 76)
    (hb : vol'.blockBitmap = vol.blockBitmap) (hi : vol'.inodeBitmap = vol.inodeBitmap) : Touched vol vol' T U {n} := by
  have := part.inode_table_below
  refine ⟨?_, fun x _ => by rw [used_congr hb], fun m _ hm => ?_, fun m _ => by rw [hi]⟩
  · rw [hd]
    exact .blit_below _ _ (by unfold Partition.inodeAddr; omega)
  · rw [hd]
    exact slot_blit_apart part _ _ hm

theorem Touched.alloc (hf : part.Formatted) {lba : Nat} (ha : blockBitmapAlloc b vol = .ok (some lba, vol'))
    (hs : bitmapSync b vol' (lba - part.dataStartLba) .blockBitmap = .ok vol'') : Touched vol vol'' T {lba} N := by
  obtain ⟨-, hd, hb, hi⟩ := blockBitmapAlloc_ok ha
  have hin := (blockBitmapAlloc_spec ha).2.1
  have h1 := hin.1
  have h2 := hin.2
  exact (Touched.blockBit h1 hd hb hi).trans (.blockSync hf (by omega) hs)

end

end OperateSystem
