import OperateSystem.Load
import OperateSystem.FileSound

/-!
# Where loading a program stores

`segment_load` tests no address: where the stores of a load go, and which bits it
sets, is up to the segments that it logs.
-/

namespace OperateSystem

/-! ## How much `sys_read` delivers -/

section
variable {b : Build} {disk : Mem} {inode : Inode} {bufs : Nat → Buffers} {st st' : Loading}

def Loading.PosOk (inode : Inode) (st : Loading) : Prop := st.fdPos.toNat ≤ inode.iSize.toNat

theorem lseek_pos (offset : UInt32) (h : st.PosOk inode) : (st.lseek inode offset).PosOk inode := by
  unfold Loading.lseek
  split
  · exact h
  · rename_i pos hpos
    exact UInt32.le_iff_toNat_le.mp (PipeState.seekPos_le hpos)

theorem lseek_log (st : Loading) (inode : Inode) (offset : UInt32) : (st.lseek inode offset).stores = st.stores ∧
    (st.lseek inode offset).bits = st.bits ∧ (st.lseek inode offset).segs = st.segs := by
  unfold Loading.lseek
  split <;> exact ⟨rfl, rfl, rfl⟩

/-! ## Pages and bits -/

theorem vaddrBit_lt {v : UInt32} (h : UserAddr v) : vaddrBit v < 8 * userBitmapLen := by
  obtain ⟨h1, h2⟩ := h
  have hs : (UInt32.ofNat userVaddrStart).toNat = userVaddrStart := rfl
  have hle : UInt32.ofNat userVaddrStart ≤ v := UInt32.le_iff_toNat_le.mpr (by rw [hs]; exact h1)
  unfold vaddrBit
  rw [UInt32.toNat_div, UInt32.toNat_sub_of_le _ _ hle, hs]
  unfold userBitmapLen
  simp only [userVaddrStart, userVaddrEnd, pgSize, UInt32.reduceToNat] at *
  omega

theorem and_low (v : UInt32) : (v &&& 0xfff).toNat = v.toNat % 4096 := by
  rw [UInt32.toNat_and]
  exact Nat.and_two_pow_sub_one_eq_mod v.toNat 12

theorem and_high (v : UInt32) : (v &&& 0xfffff000).toNat = v.toNat - v.toNat % 4096 := by
  have hv := v.toNat_lt
  rw [UInt32.toNat_and, show (0xfffff000 : UInt32).toNat = (2 ^ 20 - 1) <<< 12 from rfl, and_mask]
  omega

theorem occupyPages_toNat {g : Segment} (h : g.InUser) : (occupyPages g.filesz g.vaddr).toNat =
    if g.filesz.toNat > 4096 - g.vaddr.toNat % 4096 then
      (g.filesz.toNat - (4096 - g.vaddr.toNat % 4096) + 4095) / 4096 + 1 else 1 := by
  obtain ⟨_, _, h3⟩ := h
  have hlow := and_low g.vaddr
  have hmod := Nat.mod_lt g.vaddr.toNat (show 0 < 4096 by decide)
  have hle : g.vaddr &&& 0xfff ≤ 4096 := UInt32.le_iff_toNat_le.mpr (by
    rw [hlow]; exact (show _ ≤ 4096 by omega))
  have hf : (4096 - (g.vaddr &&& 0xfff)).toNat = 4096 - g.vaddr.toNat % 4096 := by
    rw [UInt32.toNat_sub_of_le _ _ hle, hlow]
    rfl
  unfold occupyPages
  simp only [gt_iff_lt, UInt32.lt_iff_toNat_lt, hf]
  split
  · rename_i hgt
    have hle' : 4096 - (g.vaddr &&& 0xfff) ≤ g.filesz := UInt32.le_iff_toNat_le.mpr (by rw [hf]; omega)
    have hsub := UInt32.toNat_sub_of_le _ _ hle'
    rw [hf] at hsub
    have hsum : (g.filesz - (4096 - (g.vaddr &&& 0xfff)) + 4096 - 1).toNat =
        g.filesz.toNat - (4096 - g.vaddr.toNat % 4096) + 4095 := by
      have hadd : (g.filesz - (4096 - (g.vaddr &&& 0xfff)) + 4096).toNat =
          g.filesz.toNat - (4096 - g.vaddr.toNat % 4096) + 4096 := by
        rw [UInt32.toNat_add, hsub]
        simp only [userVaddrEnd, UInt32.reduceToNat] at *
        omega
      rw [UInt32.toNat_sub_of_le _ _ (UInt32.le_iff_toNat_le.mpr (by rw [hadd]; exact (show 1 ≤ _ by omega))), hadd]
      rfl
    rw [UInt32.toNat_add, UInt32.toNat_div, hsum]
    simp only [userVaddrEnd, UInt32.reduceToNat] at *
    omega
  · rfl

theorem page_user {g : Segment} (h : g.InUser) {k : Nat} (hk : k < (occupyPages g.filesz g.vaddr).toNat) :
    UserAddr ((g.vaddr &&& 0xfffff000) + .ofNat (4096 * k)) := by
  rw [occupyPages_toNat h] at hk
  obtain ⟨h1, h2, h3⟩ := h
  have hk32 : 4096 * k < 2 ^ 32 := by
    unfold userVaddrEnd at h3
    split at hk <;> omega
  have hkn := UInt32.toNat_ofNat_of_lt' hk32
  unfold UserAddr
  rw [UInt32.toNat_add, and_high, hkn]
  unfold userVaddrStart userVaddrEnd at *
  split at hk <;> omega

theorem mapPages_log : ∀ (n : Nat) (v : UInt32) (st : Loading), (∀ k < n, UserAddr (v + .ofNat (4096 * k))) →
    (∀ i ∈ st.bits, i < 8 * userBitmapLen) →
    (∀ i ∈ (Loading.mapPages n v st).1.bits, i < 8 * userBitmapLen)
  | 0, _, _, _, hb => hb
  | n + 1, v, st, hu, hb => by
    have hn : ∀ k < n, UserAddr (v + 4096 + .ofNat (4096 * k)) := fun k hk => by
      have := hu (k + 1) (by omega)
      rwa [show 4096 * (k + 1) = 4096 + 4096 * k by omega, UInt32.ofNat_add, ← UInt32.add_assoc] at this
    have hv : UserAddr v := by
      have := hu 0 (by omega)
      simpa using this
    unfold Loading.mapPages
    split
    · exact mapPages_log n _ st hn hb
    have hset : ∀ i ∈ (st.getAPage v).1.bits, i < 8 * userBitmapLen := by
      intro i hi
      have hi : i ∈ vaddrBit v :: st.bits := by
        unfold Loading.getAPage at hi
        simp only at hi
        split at hi <;> exact hi
      rcases List.mem_cons.mp hi with rfl | hi
      · exact vaddrBit_lt hv
      · exact hb i hi
    simp only
    split
    · exact mapPages_log n _ _ hn hset
    · exact hset

theorem mapPages_frame : ∀ (n : Nat) (v : UInt32) (st : Loading), (Loading.mapPages n v st).1.stores = st.stores ∧
    (Loading.mapPages n v st).1.segs = st.segs ∧ (Loading.mapPages n v st).1.fdPos = st.fdPos
  | 0, _, _ => ⟨rfl, rfl, rfl⟩
  | n + 1, v, st => by
    have hget : (st.getAPage v).1.stores = st.stores ∧ (st.getAPage v).1.segs = st.segs ∧
        (st.getAPage v).1.fdPos = st.fdPos := by
      unfold Loading.getAPage
      simp only
      split <;> exact ⟨rfl, rfl, rfl⟩
    unfold Loading.mapPages
    split
    · exact mapPages_frame n _ st
    · simp only
      split
      · obtain ⟨h1, h2, h3⟩ := mapPages_frame n (v + 4096) (st.getAPage v).1
        exact ⟨h1.trans hget.1, h2.trans hget.2.1, h3.trans hget.2.2⟩
      · exact hget

/-! ## A load -/

/-- What holds between the segments. -/
structure Loading.Inv (inode : Inode) (st : Loading) : Prop where
  pos : st.PosOk inode
  stores : ∀ r ∈ st.stores, ∃ g ∈ st.segs, r = (g.vaddr, g.bytes) ∧ g.bytes ≤ g.filesz.toNat
  bits : (∀ g ∈ st.segs, g.InUser) → ∀ i ∈ st.bits, i < 8 * userBitmapLen
  stored : ∀ g ∈ st.segs, 0 < g.bytes → (g.vaddr, g.bytes) ∈ st.stores

theorem Segment.InUser.store {g : Segment} (h : g.InUser) (hn : g.bytes ≤ g.filesz.toNat) {k : Nat} (hk : k < g.bytes) :
    UserAddr (g.vaddr + .ofNat k) := by
  obtain ⟨h1, h2, h3⟩ := h
  have hf := g.filesz.toNat_lt
  have hkn := UInt32.toNat_ofNat_of_lt' (show k < 2 ^ 32 by omega)
  unfold UserAddr
  rw [UInt32.toNat_add, hkn]
  unfold userVaddrStart userVaddrEnd at *
  omega

theorem Loading.Inv.readLocal {count : UInt32} {buf : Mem} {ret : Option Nat} (h : st.Inv inode)
    (hr : st.readLocal b disk inode bufs count = .ok (st', buf, ret)) : st'.Inv inode := by
  simp only [Loading.readLocal, bind_ok, pure_ok, Except.ok.injEq, Prod.mk.injEq] at hr
  obtain ⟨r, hr, rfl, -, -⟩ := hr
  exact ⟨(fileRead_bounds h.pos hr).2, h.stores, h.bits, h.stored⟩

theorem Loading.Inv.lseek (offset : UInt32) (h : st.Inv inode) : (st.lseek inode offset).Inv inode := by
  obtain ⟨hs, hb, hg⟩ := lseek_log st inode offset
  refine ⟨lseek_pos offset h.pos, ?_, ?_, ?_⟩
  · rw [hs, hg]; exact h.stores
  · rw [hb, hg]; exact h.bits
  · rw [hs, hg]; exact h.stored

theorem Loading.Inv.segmentLoad {offset filesz vaddr : UInt32} {ok : Bool} (h : st.Inv inode)
    (hr : segmentLoad b disk inode bufs offset filesz vaddr st = .ok (st', ok)) : st'.Inv inode := by
  obtain ⟨hs, hg, hp⟩ := mapPages_frame (occupyPages filesz vaddr).toNat (vaddr &&& 0xfffff000) st
  have hb : ∀ n, (Segment.mk offset filesz vaddr n).InUser → (∀ g ∈ st.segs, g.InUser) →
      ∀ i ∈ (Loading.mapPages (occupyPages filesz vaddr).toNat (vaddr &&& 0xfffff000) st).1.bits,
        i < 8 * userBitmapLen := fun n hn hall =>
    mapPages_log _ _ st (fun k hk => page_user hn hk) (h.bits hall)
  unfold OperateSystem.segmentLoad at hr
  generalize Loading.mapPages (occupyPages filesz vaddr).toNat (vaddr &&& 0xfffff000) st = m at hs hg hp hb hr
  obtain ⟨m, okm⟩ := m
  simp only at hs hg hp hb hr
  split at hr
  · cases hr
    refine ⟨?_, fun r hr => ?_, fun hall => ?_, fun g hg' hn => ?_⟩
    · simpa only [Loading.PosOk, hp] using h.pos
    · obtain ⟨g, hg', hrg⟩ := h.stores r (hs ▸ hr)
      exact ⟨g, .tail _ (by rw [hg]; exact hg'), hrg⟩
    · exact hb 0 (hall _ (List.mem_cons_self ..)) fun g hg' => hall g (.tail _ (hg ▸ hg'))
    · rw [hs]
      rcases List.mem_cons.mp hg' with rfl | hg'
      · exact absurd hn (Nat.lt_irrefl 0)
      · exact h.stored g (hg ▸ hg') hn
  · simp only [bind_ok, Prod.exists, pure_ok, Except.ok.injEq, Prod.mk.injEq] at hr
    obtain ⟨t, n, hre, rfl, -⟩ := hr
    obtain ⟨hls, hlb, hlg⟩ := lseek_log m inode offset
    have hpos : (m.lseek inode offset).PosOk inode :=
      lseek_pos offset (by simpa only [Loading.PosOk, hp] using h.pos)
    simp only [Loading.readTo, bind_ok, inBounds_ok, pure_ok, Except.ok.injEq, Prod.mk.injEq] at hre
    obtain ⟨_, _, r, hre, _, _, rfl, rfl⟩ := hre
    obtain ⟨hn, hpos'⟩ := fileRead_bounds hpos hre
    refine ⟨hpos', fun x hx => ?_, fun hall => ?_, fun g hg' hn => ?_⟩
    · rcases List.mem_cons.mp hx with rfl | hx
      · exact ⟨_, List.mem_cons_self .., rfl, hn⟩
      · rw [hls, hs] at hx
        obtain ⟨g, hg', hrg⟩ := h.stores x hx
        exact ⟨g, .tail _ (by rw [hlg, hg]; exact hg'), hrg⟩
    · simp only [hlb]
      exact hb _ (hall _ (List.mem_cons_self ..)) fun g hg' =>
        hall g (.tail _ (by rw [hlg, hg]; exact hg'))
    · rcases List.mem_cons.mp hg' with rfl | hg'
      · exact List.mem_cons_self ..
      · refine .tail _ ?_
        rw [hlg, hg] at hg'
        rw [hls, hs]
        exact h.stored g hg' hn

theorem Loading.Inv.loadSegments : ∀ (n : Nat) (offset : UInt32) (st st' : Loading) (ok : Bool), st.Inv inode →
    loadSegments b disk inode bufs n offset st = .ok (st', ok) → st'.Inv inode
  | 0, _, _, _, _, h, hr => by cases hr; exact h
  | n + 1, offset, st, st', ok, h, hr => by
    simp only [OperateSystem.loadSegments, bind_ok, Prod.exists] at hr
    obtain ⟨t, buf, ret, hre, hr⟩ := hr
    have ht := (h.lseek offset).readLocal hre
    split at hr
    · cases hr; exact ht
    split at hr
    · simp only [bind_ok, Prod.exists] at hr
      obtain ⟨u, oku, hseg, hr⟩ := hr
      have hu := ht.segmentLoad hseg
      split at hr
      · exact loadSegments n _ u st' ok hu hr
      · cases hr; exact hu
    · exact loadSegments n _ t st' ok ht hr

theorem Loading.Inv.load {ret : Option UInt32} (h : st.Inv inode) (hr : load b disk inode bufs st = .ok (st', ret)) :
    st'.Inv inode := by
  simp only [OperateSystem.load, bind_ok, Prod.exists] at hr
  obtain ⟨t, buf, got, hre, hr⟩ := hr
  have ht := h.readLocal hre
  split at hr
  · cases hr; exact ht
  split at hr
  · simp only [bind_ok, Prod.exists, pure_ok, Except.ok.injEq, Prod.mk.injEq] at hr
    obtain ⟨u, ok, hl, rfl, -⟩ := hr
    exact Loading.Inv.loadSegments _ _ t u ok ht hl
  · cases hr; exact ht

theorem Loading.Fresh.inv (h : st.Fresh) : st.Inv inode := by
  obtain ⟨h1, h2, h3, h4⟩ := h
  refine ⟨?_, fun r hr => ?_, fun _ i hi => ?_, fun g hg => ?_⟩
  · rw [Loading.PosOk, h1]; exact Nat.zero_le _
  · rw [h2] at hr; cases hr
  · rw [h3] at hi; cases hi
  · rw [h4] at hg; cases hg

end

/-- A program with one segment, the four bytes behind its headers. -/
def sampleElf (vaddr : UInt32) : List UInt8 :=
  [0x7f, 0x45, 0x4c, 0x46, 1, 1, 1, 0, 0, 0, 0, 0, 0, 0, 0, 0, 2, 0, 3, 0, 1, 0, 0, 0, 0, 0x80, 4, 8, 52, 0, 0, 0,
    0, 0, 0, 0, 0, 0, 0, 0, 52, 0, 32, 0, 1, 0, 0, 0, 0, 0, 0, 0] ++
  [1, 0, 0, 0, 84, 0, 0, 0, wordByte vaddr 0, wordByte vaddr 1, wordByte vaddr 2, wordByte vaddr 3, 0, 0, 0, 0,
    4, 0, 0, 0, 4, 0, 0, 0, 5, 0, 0, 0, 0, 16, 0, 0] ++ [0xaa, 0xbb, 0xcc, 0xdd]

def sampleElfDisk (vaddr : UInt32) : Mem := fun a => if a < 5120 then 0 else (sampleElf vaddr).getD (a - 5120) 0

def sampleElfInode : Inode := { sampleInode 7 with iSize := 88, iSectors := fun j => if j.val = 0 then 10 else 0 }

def sampleLoading : Loading where
  mem _ := 0
  mapped p := decide (0xc0000 ≤ p)
  vaddrBitmap := .ofBytes userBitmapLen fun _ => 0
  frames := 100
  heap _ := false
  spare := false
  fdPos := 0
  reads := 0
  stores := []
  bits := []
  segs := []
  bitmap_len := rfl

end OperateSystem
