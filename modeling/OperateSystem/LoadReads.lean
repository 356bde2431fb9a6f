import OperateSystem.LoadSound

/-!
# What a load reads

`load` tests how much it gets of a program header, but neither what `sys_lseek`
returns nor how much it gets of a segment. A `sys_lseek` out of the file leaves
the position where it was.
-/

namespace OperateSystem

/-! ## One read -/

section
variable {b : Build} {disk : Mem} {inode : Inode}

def readSize (inode : Inode) (pos count : UInt32) : UInt32 := if pos + count > inode.iSize then inode.iSize - pos else count

theorem fileRead_cases {pos count : UInt32} {buf : Mem} {mem : Buffers} {r : ReadResult}
    (h : fileRead b disk inode pos buf count mem = .ok r) :
    (r = ⟨none, buf, pos⟩ ∧ (pos + count > inode.iSize ∧ readSize inode pos count = 0 ∨ mem.ioBuf = false ∨ mem.allBlocks = false)) ∨
    ∃ all buf' pos', readData b disk all (readSize inode pos count).toNat (readSize inode pos count).toNat 0 pos buf = .ok (buf', pos') ∧
      r = ⟨some (readSize inode pos count).toNat, buf', pos'⟩ ∧ mem.ioBuf = true ∧ mem.allBlocks = true := by
  unfold fileRead at h
  change (if pos + count > inode.iSize ∧ readSize inode pos count = 0 then _ else _) = _ at h
  split at h
  · next hend =>
    cases h
    exact .inl ⟨rfl, .inl hend⟩
  split at h
  · next hno =>
    cases h
    exact .inl ⟨rfl, .inr hno⟩
  · next hno =>
    simp only [bind_ok, Prod.exists, pure_ok, Except.ok.injEq] at h
    obtain ⟨_, _, all, _, buf', pos', hr, rfl⟩ := h
    exact .inr ⟨all, buf', pos', hr, rfl, by simpa using hno⟩

theorem fileRead_all {pos count : UInt32} {buf : Mem} {mem : Buffers} {r : ReadResult} (hs : inode.iSize.toNat < 2 ^ 31)
    (hpos : pos.toNat ≤ inode.iSize.toNat) (h : fileRead b disk inode pos buf count mem = .ok r) :
    r.ret.getD 0 = count.toNat ↔
      count = 0 ∨ pos.toNat + count.toNat ≤ inode.iSize.toNat ∧ mem.ioBuf = true ∧ mem.allBlocks = true := by
  have hc : count = 0 ↔ count.toNat = 0 := UInt32.toNat_inj.symm
  have hre := UInt32.toNat_sub_of_le _ _ (UInt32.le_iff_toNat_le.mpr hpos)
  have ho : pos + count > inode.iSize → inode.iSize.toNat < pos.toNat + count.toNat := by
    intro hgt
    have := UInt32.lt_iff_toNat_lt.mp hgt
    rw [UInt32.toNat_add] at this
    exact Nat.lt_of_lt_of_le this (Nat.mod_le _ _)
  rcases fileRead_cases h with ⟨rfl, hno⟩ | ⟨all, buf', pos', hr, rfl, hbuf⟩
  · show 0 = count.toNat ↔ _
    rw [hc]
    rcases hno with ⟨hgt, -⟩ | hno
    · have := ho hgt
      omega
    · have hbuf : ¬ (mem.ioBuf = true ∧ mem.allBlocks = true) := by
        rcases hno with hno | hno <;> simp [hno]
      constructor
      · intro e
        exact .inl e.symm
      · rintro (e | ⟨-, e⟩)
        · exact e.symm
        · exact absurd e hbuf
  · show (readSize inode pos count).toNat = count.toNat ↔ _
    rw [hc]
    by_cases hgt : pos + count > inode.iSize
    · have := ho hgt
      unfold readSize
      rw [if_pos hgt, hre]
      omega
    · -- the sum has not wrapped around, since so much would not fit
      unfold readSize at hr ⊢
      rw [if_neg hgt] at hr ⊢
      refine ⟨fun _ => ?_, fun _ => rfl⟩
      by_cases hz : count.toNat = 0
      · exact .inl hz
      · have hfit := (readData_ends _ _ _ _ _ _ hr (by omega) (by omega)).2 (by omega)
        rw [gt_iff_lt, UInt32.lt_iff_toNat_lt, UInt32.toNat_add] at hgt
        exact .inr ⟨by omega, hbuf⟩

end

theorem lseek_fdPos (st : Loading) {inode : Inode} (hs : inode.iSize.toNat < 2 ^ 31) (offset : UInt32) :
    (st.lseek inode offset).fdPos = if offset.toNat < inode.iSize.toNat then offset else st.fdPos := by
  have ho := toInt_toInt32 offset
  have hi := toInt_toInt32 inode.iSize
  rw [if_pos hs] at hi
  have hlt := offset.toNat_lt
  have h1 : (1 : Int32).toInt = 1 := rfl
  have hone : (inode.iSize.toInt32 - 1).toInt = inode.iSize.toInt32.toInt - (1 : Int32).toInt :=
    toInt_sub_small (by omega) (by omega)
  rw [hi, h1] at hone
  have ht : (offset.toInt32 < 0 ∨ offset.toInt32 > inode.iSize.toInt32 - 1) ↔ ¬ offset.toNat < inode.iSize.toNat := by
    rw [Int32.lt_iff_toInt_lt, gt_iff_lt, Int32.lt_iff_toInt_lt, hone, ho, show (0 : Int32).toInt = 0 from rfl]
    split <;> omega
  unfold Loading.lseek PipeState.seekPos
  by_cases hin : offset.toNat < inode.iSize.toNat
  · simp only [ht, hin, not_true, if_false, if_true]
    rfl
  · simp only [ht, hin, not_false_iff, if_true, if_false]

/-! ## The reads of a load -/

structure ReadAt where
  asked : UInt32
  pos : UInt32
  count : UInt32
  got : Nat
  bufs : Buffers

def ReadAt.Whole (a : ReadAt) (off : Nat) : Prop := a.got = a.count.toNat ∧ (a.count ≠ 0 → a.pos.toNat = off)

instance (a : ReadAt) (off : Nat) : Decidable (a.Whole off) := inferInstanceAs (Decidable (_ ∧ _))

structure Pass where
  header : ReadAt
  segment : Option ReadAt

section
variable (b : Build) (disk : Mem) (inode : Inode) (bufs : Nat → Buffers)

def loadPasses : Nat → UInt32 → Loading → Exec (Loading × Bool × List Pass)
  | 0, _, st => .ok (st, true, [])
  | n + 1, progHeaderOffset, st => do
    let (st1, buf, ret) ← (st.lseek inode progHeaderOffset).readLocal b disk inode bufs 32
    let header : ReadAt := ⟨progHeaderOffset, (st.lseek inode progHeaderOffset).fdPos, 32, ret.getD 0, bufs st.reads⟩
    if ret ≠ some 32 then return (st1, false, [⟨header, none⟩])
    else if (Phdr.ofMem buf).pType = 1 then do
      let ph := Phdr.ofMem buf
      let (st2, ok) ← segmentLoad b disk inode bufs ph.pOffset ph.pFilesz ph.pVaddr st1
      if ok then do
        let (st3, ok, l) ← loadPasses n (progHeaderOffset + 32) st2
        let got := (st2.segs.head?.map Segment.bytes).getD 0
        return (st3, ok, ⟨header, some ⟨ph.pOffset, (st1.lseek inode ph.pOffset).fdPos, ph.pFilesz, got, bufs st1.reads⟩⟩ :: l)
      else return (st2, false, [⟨header, none⟩])
    else do
      let (st2, ok, l) ← loadPasses n (progHeaderOffset + 32) st1
      return (st2, ok, ⟨header, none⟩ :: l)

def loadTraced (st : Loading) : Exec (Loading × Option UInt32 × Ehdr × List Pass) := do
  let (st, buf, ret) ← st.readLocal b disk inode bufs 52
  let e := Ehdr.ofMem buf
  if ret ≠ some 52 then return (st, none, e, [])
  else if e.Valid then do
    let (st, ok, l) ← loadPasses b disk inode bufs e.ePhnum e.ePhoff st
    return (st, if ok then some e.eEntry else none, e, l)
  else return (st, none, e, [])

end

section
variable {b : Build} {disk : Mem} {inode : Inode} {bufs : Nat → Buffers} {st st' : Loading}

theorem loadPasses_fst : ∀ (n : Nat) (off : UInt32) (st : Loading), loadSegments b disk inode bufs n off st =
    (fun r => (r.1, r.2.1)) <$> loadPasses b disk inode bufs n off st
  | 0, _, _ => rfl
  | n + 1, off, st => by
    unfold loadSegments loadPasses
    rw [map_bind]
    refine bind_congr fun r => ?_
    dsimp only
    split
    · rfl
    split
    · rw [map_bind]
      refine bind_congr fun r => ?_
      split
      · rw [loadPasses_fst, map_bind]
        rfl
      · rfl
    · rw [loadPasses_fst, map_bind]
      rfl

theorem load_eq_traced (st : Loading) :
    load b disk inode bufs st = (fun r => (r.1, r.2.1)) <$> loadTraced b disk inode bufs st := by
  unfold load loadTraced
  rw [map_bind]
  refine bind_congr fun r => ?_
  dsimp only
  split
  · rfl
  split
  · rw [loadPasses_fst, map_bind]
    exact bind_map_left ..
  · rfl

theorem exists_traced {ret : Option UInt32} (h : load b disk inode bufs st = .ok (st', ret)) :
    ∃ e l, loadTraced b disk inode bufs st = .ok (st', ret, e, l) := by
  rw [load_eq_traced] at h
  cases hr : loadTraced b disk inode bufs st with
  | error f =>
    rw [hr] at h
    cases h
  | ok r =>
    rw [hr] at h
    cases h
    exact ⟨_, _, rfl⟩

/-! ## One pass -/

theorem lseek_keeps (st : Loading) (inode : Inode) (offset : UInt32) : (st.lseek inode offset).mem = st.mem ∧
    (st.lseek inode offset).mapped = st.mapped ∧ (st.lseek inode offset).vaddrBitmap = st.vaddrBitmap ∧
    (st.lseek inode offset).reads = st.reads := by
  unfold Loading.lseek
  split <;> exact ⟨rfl, rfl, rfl, rfl⟩

theorem mapPages_keeps : ∀ (n : Nat) (v : UInt32) (st : Loading), (Loading.mapPages n v st).1.mem = st.mem ∧
    (Loading.mapPages n v st).1.reads = st.reads
  | 0, _, _ => ⟨rfl, rfl⟩
  | n + 1, v, st => by
    have hget : (st.getAPage v).1.mem = st.mem ∧ (st.getAPage v).1.reads = st.reads := by
      unfold Loading.getAPage
      dsimp only
      split <;> exact ⟨rfl, rfl⟩
    unfold Loading.mapPages
    split
    · exact mapPages_keeps n _ st
    · dsimp only
      split
      · obtain ⟨h1, h2⟩ := mapPages_keeps n (v + 4096) (st.getAPage v).1
        exact ⟨h1.trans hget.1, h2.trans hget.2⟩
      · exact hget

theorem lseek_congr {st1 st2 : Loading} (h : st1.fdPos = st2.fdPos) (inode : Inode) (offset : UInt32) :
    (st1.lseek inode offset).fdPos = (st2.lseek inode offset).fdPos := by
  unfold Loading.lseek
  rw [h]
  split
  · exact h
  · rfl

/-- What `segment_load` does with the result `r` of its read, behind the pages that
it has mapped in `m`. -/
structure SegmentRead (st m st' : Loading) (offset filesz vaddr : UInt32) (r : ReadResult) : Prop where
  pages : Loading.mapPages (occupyPages filesz vaddr).toNat (vaddr &&& 0xfffff000) st = (m, true)
  mem : st'.mem = storeBytes st.mem vaddr r.buf (r.ret.getD 0)
  mapped : st'.mapped = m.mapped
  vaddrBitmap : st'.vaddrBitmap = m.vaddrBitmap
  there : ∀ k < r.ret.getD 0, m.mapped (pageOf (vaddr + .ofNat k)) = true
  fdPos : st'.fdPos = r.fdPos
  segs : st'.segs = ⟨offset, filesz, vaddr, r.ret.getD 0⟩ :: st.segs

theorem segmentLoad_true {offset filesz vaddr : UInt32}
    (h : segmentLoad b disk inode bufs offset filesz vaddr st = .ok (st', true)) :
    ∃ m r, fileRead b disk inode (st.lseek inode offset).fdPos (fun k => st.mem ((vaddr.toNat + k) % 2 ^ 32)) filesz
      (bufs st.reads) = .ok r ∧ SegmentRead st m st' offset filesz vaddr r := by
  obtain ⟨-, hs, hpos⟩ := mapPages_frame (occupyPages filesz vaddr).toNat (vaddr &&& 0xfffff000) st
  obtain ⟨hmem, hr⟩ := mapPages_keeps (occupyPages filesz vaddr).toNat (vaddr &&& 0xfffff000) st
  unfold segmentLoad at h
  generalize hm : Loading.mapPages (occupyPages filesz vaddr).toNat (vaddr &&& 0xfffff000) st = p at h hs hpos hmem hr
  obtain ⟨m, ok⟩ := p
  dsimp only at h hs hpos hmem hr
  obtain _ | _ := ok
  · cases h
  obtain ⟨⟨t, n⟩, hre, hend⟩ := bind_ok.mp h
  cases hend
  obtain ⟨hlm, hlp, hlb, hlr⟩ := lseek_keeps m inode offset
  simp only [Loading.readTo, bind_ok, inBounds_ok, pure_ok, Except.ok.injEq, Prod.mk.injEq] at hre
  obtain ⟨_, _, r, hre, _, ht, rfl, rfl⟩ := hre
  rw [hlm, hlr, hmem, hr, lseek_congr hpos] at hre
  refine ⟨m, r, hre, hm, ?_, hlp, hlb, ?_, rfl, ?_⟩
  · show storeBytes (m.lseek inode offset).mem _ _ _ = _
    rw [hlm, hmem]
  · rw [← hlp]
    exact ht
  · show _ :: (m.lseek inode offset).segs = _
    rw [(lseek_log m inode offset).2.2, hs]

structure ReadAt.Spec (inode : Inode) (a : ReadAt) : Prop where
  seek : a.asked.toNat < inode.iSize.toNat → a.pos = a.asked
  all : a.got = a.count.toNat ↔
    a.count = 0 ∨ a.pos.toNat + a.count.toNat ≤ inode.iSize.toNat ∧ a.bufs.ioBuf = true ∧ a.bufs.allBlocks = true

theorem ReadAt.spec (hs : inode.iSize.toNat < 2 ^ 31) (hpos : st.PosOk inode) {offset count : UInt32} {buf : Mem}
    {mem : Buffers} {r : ReadResult} (h : fileRead b disk inode (st.lseek inode offset).fdPos buf count mem = .ok r) :
    ReadAt.Spec inode ⟨offset, (st.lseek inode offset).fdPos, count, r.ret.getD 0, mem⟩ :=
  ⟨fun hin => (lseek_fdPos st hs offset).trans (if_pos hin), fileRead_all hs (lseek_pos offset hpos) h⟩

structure Pass.Spec (inode : Inode) (p : Pass) : Prop where
  header : p.header.Spec inode
  count : p.header.count = 32
  got : p.header.got = 32
  segment : ∀ g ∈ p.segment, g.Spec inode

theorem loadPasses_spec (hs : inode.iSize.toNat < 2 ^ 31) : ∀ {n : Nat} {off : UInt32} {st st' : Loading} {l : List Pass},
    st.Inv inode → loadPasses b disk inode bufs n off st = .ok (st', true, l) →
    l.length = n ∧ (∀ i p, l[i]? = some p → p.header.asked = off + .ofNat (32 * i)) ∧ ∀ p ∈ l, p.Spec inode
  | 0, _, _, _, _, _, h => by
    cases h
    exact ⟨rfl, by simp, by simp⟩
  | n + 1, off, st, st', l, hinv, h => by
    unfold loadPasses at h
    obtain ⟨⟨st1, buf, ret⟩, hre, hrs⟩ := bind_ok.mp h
    have hinv1 := (hinv.lseek off).readLocal hre
    have hh : ReadAt.Spec inode ⟨off, (st.lseek inode off).fdPos, 32, ret.getD 0, bufs st.reads⟩ := by
      simp only [Loading.readLocal, bind_ok, pure_ok, Except.ok.injEq, Prod.mk.injEq] at hre
      obtain ⟨r, hre, -, -, rfl⟩ := hre
      rw [(lseek_keeps st inode off).2.2.2] at hre
      exact ReadAt.spec hs hinv.pos hre
    dsimp only at hrs
    split at hrs
    · cases hrs
    next hret =>
    obtain rfl := not_not.mp hret
    -- the passes behind this one
    have hc : ∀ {t : Loading} {rest : List Pass} {g : Option ReadAt}, t.Inv inode →
        loadPasses b disk inode bufs n (off + 32) t = .ok (st', true, rest) → (∀ a ∈ g, a.Spec inode) →
        l = ⟨⟨off, (st.lseek inode off).fdPos, 32, 32, bufs st.reads⟩, g⟩ :: rest →
        l.length = n + 1 ∧ (∀ i p, l[i]? = some p → p.header.asked = off + .ofNat (32 * i)) ∧ ∀ p ∈ l, p.Spec inode := by
      rintro t rest g ht hl hg rfl
      obtain ⟨hlen, hak, hsp⟩ := loadPasses_spec hs ht hl
      refine ⟨congrArg (· + 1) hlen, fun i p hp => ?_, List.forall_mem_cons.mpr ⟨⟨hh, rfl, rfl, hg⟩, hsp⟩⟩
      cases i with
      | zero =>
        cases hp
        simp
      | succ i =>
        rw [hak i p hp, UInt32.add_assoc]
        congr 1
        rw [show 32 * (i + 1) = 32 + 32 * i by omega, UInt32.ofNat_add]
        rfl
    split at hrs
    · obtain ⟨⟨st2, ok⟩, hseg, hend⟩ := bind_ok.mp hrs
      obtain _ | _ := ok
      · cases hend
      obtain ⟨⟨st3, ok, rest⟩, hl, hend⟩ := bind_ok.mp hend
      cases hend
      obtain ⟨m, r, hr, hsr⟩ := segmentLoad_true hseg
      refine hc (hinv1.segmentLoad hseg) hl (fun a ha => ?_) rfl
      cases ha
      rw [hsr.segs]
      exact ReadAt.spec hs hinv1.pos hr
    · obtain ⟨⟨st2, ok, rest⟩, hl, hend⟩ := bind_ok.mp hrs
      cases hend
      exact hc hinv1 hl (by simp) rfl

end

/-- **When a load reads a complete file**: the table and the segments lie inside the file, and no
read of a segment lacked its buffers. The open inode, `fd_pos` and the buffers of `file_read` are
kept apart from `mem`, so what a segment overwrites does not change the later reads. -/
theorem load_reads_whole_iff (b : Build) (disk : Mem) (inode : Inode) (bufs : Nat → Buffers) (st st' : Loading)
    (entry : UInt32) (hsize : inode.iSize.toNat < 2 ^ 31) (h0 : st.Fresh)
    (h : load b disk inode bufs st = .ok (st', some entry)) :
    ∃ (e : Ehdr) (l : List Pass), loadTraced b disk inode bufs st = .ok (st', some entry, e, l) ∧ l.length = e.ePhnum ∧
      (((∀ (i : Nat) (p : Pass), l[i]? = some p → p.header.Whole (e.ePhoff.toNat + i * e.ePhentsize)) ∧
          ∀ p ∈ l, ∀ g ∈ p.segment, g.Whole g.asked.toNat) ↔
        (∀ i < e.ePhnum, e.ePhoff.toNat + i * e.ePhentsize + 32 ≤ inode.iSize.toNat) ∧
          ∀ p ∈ l, ∀ g ∈ p.segment, g.count = 0 ∨
            g.asked.toNat + g.count.toNat ≤ inode.iSize.toNat ∧ g.bufs.ioBuf = true ∧ g.bufs.allBlocks = true) := by
  obtain ⟨e, l, ht⟩ := exists_traced h
  have hlo : e.Valid ∧ ∃ st1, st1.Inv inode ∧ loadPasses b disk inode bufs e.ePhnum e.ePhoff st1 = .ok (st', true, l) := by
    unfold loadTraced at ht
    obtain ⟨⟨st1, buf, got⟩, hre, hr⟩ := bind_ok.mp ht
    dsimp only at hr
    split at hr
    · cases hr
    split at hr
    · next hv =>
      obtain ⟨⟨st2, ok, l2⟩, hl, hend⟩ := bind_ok.mp hr
      cases ok with
      | false => cases hend
      | true =>
        cases hend
        exact ⟨hv, st1, h0.inv.readLocal hre, hl⟩
    · cases hr
  obtain ⟨hv, st1, hinv, hl⟩ := hlo
  obtain ⟨hlen, ha, hsp⟩ := loadPasses_spec hsize hinv hl
  have hent := hv.2.2.2.2.2
  refine ⟨e, l, ht, hlen, fun ⟨hh, hse⟩ => ⟨fun i hi => ?_, fun p hp g hg => ?_⟩,
    fun ⟨hta, hra⟩ => ⟨fun i p hp => ?_, fun p hp g hg => ?_⟩⟩
  · -- a header that was delivered lies in the file
    obtain ⟨p, hp⟩ : ∃ p, l[i]? = some p := ⟨_, List.getElem?_eq_getElem (hlen ▸ hi)⟩
    have hs := hsp p (List.mem_of_getElem? hp)
    have hall := hs.header.all.mp (by rw [hs.got, hs.count]; rfl)
    rw [hs.count] at hall
    obtain ⟨hle, -⟩ := hall.resolve_left (by decide)
    rw [(hh i p hp).2 (by rw [hs.count]; decide)] at hle
    exact hle
  · obtain ⟨hgot, hpos⟩ := hse p hp g hg
    by_cases hz : g.count = 0
    · exact .inl hz
    · have := (((hsp p hp).segment g hg).all.mp hgot).resolve_left hz
      rw [hpos hz] at this
      exact .inr this
  · have hs := hsp p (List.mem_of_getElem? hp)
    have hi : i < e.ePhnum := hlen ▸ (List.getElem?_eq_some_iff.mp hp).1
    have hle := hta i hi
    rw [hent] at hle ⊢
    have hat : p.header.asked.toNat = e.ePhoff.toNat + i * 32 := by
      rw [ha i p hp, UInt32.toNat_add, UInt32.toNat_ofNat']
      omega
    refine ⟨by rw [hs.got, hs.count]; rfl, fun _ => ?_⟩
    rw [hs.header.seek (by omega), hat]
  · have hs := (hsp p hp).segment g hg
    rcases hra p hp g hg with hz | ⟨hle, hb⟩
    · exact ⟨hs.all.mpr (.inl hz), fun hne => absurd hz hne⟩
    have hpos : g.count ≠ 0 → g.pos = g.asked := by
      intro hne
      have : g.count.toNat ≠ 0 := fun e => hne (UInt32.toNat_inj.mp e)
      exact hs.seek (by omega)
    refine ⟨?_, fun hne => by rw [hpos hne]⟩
    by_cases hz : g.count = 0
    · exact hs.all.mpr (.inl hz)
    · exact hs.all.mpr (.inr ⟨by rw [hpos hz]; exact hle, hb⟩)

section
variable (disk : Mem) (iSize : UInt32)

def sampleFileLoad : Exec (Loading × Option UInt32) :=
  load .debug disk { sampleElfInode with iSize := iSize } (fun _ => ⟨true, true⟩) sampleLoading

def sampleFileTraced : Exec (Loading × Option UInt32 × Ehdr × List Pass) :=
  loadTraced .debug disk { sampleElfInode with iSize := iSize } (fun _ => ⟨true, true⟩) sampleLoading

end

theorem sampleFile_traced (disk : Mem) (iSize : UInt32) (q : Ehdr → List Pass → Bool)
    (h : (sampleFileLoad disk iSize).toOption.any (fun r => r.2 == some 0x8048000) = true)
    (hq : (sampleFileTraced disk iSize).toOption.any (fun r => q r.2.2.1 r.2.2.2) = true) :
    ∃ st' e l, sampleFileLoad disk iSize = .ok (st', some 0x8048000) ∧
      sampleFileTraced disk iSize = .ok (st', some 0x8048000, e, l) ∧ q e l = true := by
  obtain ⟨⟨st', ret⟩, hl, hret⟩ := exists_of_any h
  obtain rfl : ret = some 0x8048000 := by simpa using hret
  obtain ⟨e, l, ht⟩ := exists_traced hl
  obtain ⟨r, hr, hq⟩ := exists_of_any hq
  cases ht.symm.trans hr
  exact ⟨st', e, l, hl, ht, hq⟩

theorem load_reads_whole_sample : ∃ st' e l, sampleFileLoad (sampleElfDisk 0x8048000) 88 = .ok (st', some 0x8048000) ∧
    sampleFileTraced (sampleElfDisk 0x8048000) 88 = .ok (st', some 0x8048000, e, l) ∧ l.length = 1 ∧
    ∀ p ∈ l, ∀ g ∈ p.segment, g.Whole g.asked.toNat := by
  obtain ⟨st', e, l, hl, htr, hq⟩ := sampleFile_traced (sampleElfDisk 0x8048000) 88
    (fun e l => e.ePhnum == 1 && e.ePhentsize == 32 && e.ePhoff == 52 && l.all fun p =>
      p.segment.all fun (g : ReadAt) => decide (g.asked.toNat + g.count.toNat ≤ 88) && g.bufs.ioBuf && g.bufs.allBlocks)
    (by decide +kernel) (by decide +kernel)
  simp only [Bool.and_eq_true, beq_iff_eq, List.all_eq_true, Option.all_eq_true, decide_eq_true_eq] at hq
  obtain ⟨⟨⟨hnum, hent⟩, hoff⟩, hs⟩ := hq
  obtain ⟨e1, l1, ht, hlen, hiff⟩ := load_reads_whole_iff .debug _ _ _ sampleLoading _ _ (by decide) ⟨rfl, rfl, rfl, rfl⟩ hl
  cases ht.symm.trans htr
  refine ⟨st', e, l, hl, htr, hlen.trans hnum, (hiff.mpr ⟨fun i hi => ?_, fun p hp g hg => .inr ?_⟩).2⟩
  · obtain rfl : i = 0 := by omega
    rw [hoff, hent]
    decide
  · obtain ⟨⟨h1, h2⟩, h3⟩ := hs p hp g hg
    exact ⟨h1, h2, h3⟩

def strayElfDisk : Mem := fun a => if a = 5149 then 16 else sampleElfDisk 0x8048000 a

/-- A file that ends inside its segment, and one whose table of program headers lies behind its
end. -/
theorem load_accepts_incomplete :
    (∃ st' e l, sampleFileLoad (sampleElfDisk 0x8048000) 86 = .ok (st', some 0x8048000) ∧
      sampleFileTraced (sampleElfDisk 0x8048000) 86 = .ok (st', some 0x8048000, e, l) ∧
      ∃ p ∈ l, ∃ g ∈ p.segment, ¬ g.Whole g.asked.toNat) ∧
    ∃ st' e l, sampleFileLoad strayElfDisk 88 = .ok (st', some 0x8048000) ∧
      sampleFileTraced strayElfDisk 88 = .ok (st', some 0x8048000, e, l) ∧
      e.ePhoff = 4148 ∧ ∃ p ∈ l, p.header.asked = 4148 ∧ ¬ p.header.Whole 4148 := by
  constructor
  · obtain ⟨st', e, l, hl, ht, hq⟩ := sampleFile_traced (sampleElfDisk 0x8048000) 86
      (fun _ l => l.any fun p => p.segment.any fun (g : ReadAt) => !decide (g.Whole g.asked.toNat))
      (by decide +kernel) (by decide +kernel)
    refine ⟨st', e, l, hl, ht, ?_⟩
    simpa [Option.any_eq_true] using hq
  · obtain ⟨st', e, l, hl, ht, hq⟩ := sampleFile_traced strayElfDisk 88
      (fun e l => e.ePhoff == 4148 && l.any fun p => p.header.asked == 4148 && !decide (p.header.Whole 4148))
      (by decide +kernel) (by decide +kernel)
    refine ⟨st', e, l, hl, ht, ?_⟩
    simpa using hq

end OperateSystem
