import OperateSystem.LoadHeaders

/-!
# The image that a load leaves

The control flow of `load` does not depend on the memory it loads into. Of a
segment it stores the bytes in the file; of the rest, up to `p_memsz`, it neither
maps nor clears anything.
-/

namespace OperateSystem

open Function List

/-! ## Loading over other contents of memory -/

section
variable {b : Build} {disk : Mem} {inode : Inode} {bufs : Nat → Buffers} {st st' : Loading}

end

/-! ## The segments of a file -/

def ptLoads (F : Mem) : Nat → Nat → List PtLoad
  | 0, _ => []
  | n + 1, off => (ptLoad F off).toList ++ ptLoads F n (off + 32)

def elfSegments (F : Mem) : List PtLoad := ptLoads F (Ehdr.ofMem F).ePhnum (Ehdr.ofMem F).ePhoff.toNat

def PtLoad.Has (g : PtLoad) (a : Nat) : Prop := g.vaddr.toNat ≤ a ∧ a < g.vaddr.toNat + g.memsz.toNat

structure ElfFile (F : Mem) (size : Nat) : Prop where
  valid : (Ehdr.ofMem F).Valid
  header : 52 ≤ size
  table : (Ehdr.ofMem F).ePhoff.toNat + 32 * (Ehdr.ofMem F).ePhnum ≤ size
  inFile : ∀ g ∈ elfSegments F, g.offset.toNat + g.filesz.toNat ≤ size
  sizes : ∀ g ∈ elfSegments F, g.filesz.toNat ≤ g.memsz.toNat
  user : ∀ g ∈ elfSegments F, userVaddrStart ≤ g.vaddr.toNat ∧ g.vaddr.toNat + g.memsz.toNat ≤ 0xbffff000
  apart : (elfSegments F).Pairwise fun g g' => ∀ a, g.Has a → ¬ g'.Has a

/-- The segment is in memory as the format has it: the bytes of the file, then
zeros, all of it mapped. -/
def Loading.Holds (st : Loading) (F : Mem) (g : PtLoad) : Prop :=
  ∀ k < g.memsz.toNat, st.mapped ((g.vaddr.toNat + k) / pgSize) = true ∧
    st.mem (g.vaddr.toNat + k) = if k < g.filesz.toNat then F (g.offset.toNat + k) else 0

/-! ## Storing segments -/

theorem storeBytes_apply {vaddr : UInt32} {n : Nat} (h : vaddr.toNat + n ≤ 2 ^ 32) (mem buf : Mem) (a : Nat) :
    storeBytes mem vaddr buf n a = if vaddr.toNat ≤ a ∧ a < vaddr.toNat + n then buf (a - vaddr.toNat) else mem a := by
  unfold storeBytes
  dsimp only
  by_cases hin : vaddr.toNat ≤ a ∧ a < vaddr.toNat + n
  · have hk : (a + 2 ^ 32 - vaddr.toNat) % 2 ^ 32 = a - vaddr.toNat := by omega
    rw [if_pos hin, hk, if_pos (by omega)]
  · rw [if_neg hin, if_neg (by omega)]

theorem storeBytes_congr {vaddr : UInt32} {n : Nat} {buf buf' : Mem} (h : ∀ k < n, buf k = buf' k) (mem : Mem) :
    storeBytes mem vaddr buf n = storeBytes mem vaddr buf' n := by
  funext a
  unfold storeBytes
  dsimp only
  split
  · next hin => exact h _ hin.2
  · rfl

def place (F mem : Mem) (p : PtLoad × Nat) : Mem := storeBytes mem p.1.vaddr (fun k => F (p.1.offset.toNat + k)) p.2

def Fits (p : PtLoad × Nat) : Prop := p.2 ≤ p.1.memsz.toNat ∧ p.1.vaddr.toNat + p.1.memsz.toNat ≤ 2 ^ 32

section
variable {F : Mem} {a : Nat} {p : PtLoad × Nat}

theorem place_out (hp : Fits p) (ha : ¬ p.1.Has a) (mem : Mem) : place F mem p a = mem a := by
  unfold PtLoad.Has at ha
  unfold place
  rw [storeBytes_apply (by have := hp.1; have := hp.2; omega), if_neg (by have := hp.1; omega)]

theorem foldl_place_out {l : List (PtLoad × Nat)} (hl : ∀ p ∈ l, Fits p) (ha : ∀ p ∈ l, ¬ p.1.Has a) (mem : Mem) :
    l.foldl (place F) mem a = mem a := by
  induction l generalizing mem with
  | nil => rfl
  | cons p l ih =>
    obtain ⟨hp, hl⟩ := forall_mem_cons.mp hl
    obtain ⟨hpa, ha⟩ := forall_mem_cons.mp ha
    rw [foldl_cons, ih hl ha, place_out hp hpa]

theorem foldl_place_in {l : List (PtLoad × Nat)} (hl : ∀ p ∈ l, Fits p)
    (ha : (l.map Prod.fst).Pairwise fun g g' => ∀ a, g.Has a → ¬ g'.Has a) (hp : p ∈ l) {k : Nat} (hk : k < p.1.memsz.toNat)
    (mem : Mem) : l.foldl (place F) mem (p.1.vaddr.toNat + k) =
      if k < p.2 then F (p.1.offset.toNat + k) else mem (p.1.vaddr.toNat + k) := by
  have hhas : p.1.Has (p.1.vaddr.toNat + k) := ⟨by omega, by omega⟩
  induction l generalizing mem with
  | nil => cases hp
  | cons q l ih =>
    obtain ⟨hq, hre⟩ := forall_mem_cons.mp hl
    obtain ⟨hf, hn⟩ := pairwise_cons.mp ha
    rw [foldl_cons]
    rcases mem_cons.mp hp with rfl | hp
    · rw [foldl_place_out hre fun r hr => hf r.1 (mem_map_of_mem hr) _ hhas]
      unfold place
      rw [storeBytes_apply (by have := hq.1; have := hq.2; omega), Nat.add_sub_cancel_left]
      by_cases hlt : k < p.2
      · rw [if_pos hlt, if_pos (by omega)]
      · rw [if_neg hlt, if_neg (by omega)]
    · rw [ih hre hn hp, place_out hq fun hqa => hf p.1 (mem_map_of_mem hp) _ hqa hhas]

end

/-! ## What a load stores -/

section
variable {disk : Mem} {inode : Inode} {F : Mem} {st st1 st' : Loading}

/-- The segments `l`, each with what was delivered of it, are stored one after the
other. -/
structure ImagePlaced (F : Mem) (st st' : Loading) (l : List (PtLoad × Nat)) : Prop where
  segs : st'.segs = (l.map fun p => p.1.delivered p.2).reverse ++ st.segs
  mem : st'.mem = l.foldl (place F) st.mem
  whole : ∀ p ∈ l, p.2 = p.1.filesz.toNat
  there : ∀ p ∈ l, ∀ k < p.2, st'.mapped (pageOf (p.1.vaddr + .ofNat k)) = true
  grows : ∀ q, st.mapped q = true → st'.mapped q = true

theorem ImagePlaced.none (hs : st'.segs = st.segs) (hm : st'.mem = st.mem) (hp : st'.mapped = st.mapped) : ImagePlaced F st st' [] :=
  ⟨hs, hm, by simp, by simp, fun q hq => hp ▸ hq⟩

theorem ImagePlaced.trans {l1 l2 : List (PtLoad × Nat)} (h1 : ImagePlaced F st st1 l1) (h2 : ImagePlaced F st1 st' l2) :
    ImagePlaced F st st' (l1 ++ l2) := by
  refine ⟨?_, ?_, ?_, ?_, fun q hq => h2.grows q (h1.grows q hq)⟩
  · rw [h2.segs, h1.segs]
    simp
  · rw [h2.mem, h1.mem, foldl_append]
  · exact forall_mem_append.mpr ⟨h1.whole, h2.whole⟩
  · exact forall_mem_append.mpr ⟨fun p hp k hk => h2.grows _ (h1.there p hp k hk), h2.there⟩

theorem mapPages_grows : ∀ (n : Nat) (v : UInt32) (st : Loading) (q : Nat), st.mapped q = true →
    (Loading.mapPages n v st).1.mapped q = true
  | 0, _, _, _, hq => hq
  | n + 1, v, st, q, hq => by
    have hget : (st.getAPage v).1.mapped q = true := by
      unfold Loading.getAPage
      dsimp only
      split
      · exact hq
      · show update st.mapped (pageOf v) true q = true
        rw [update_apply]
        split
        · rfl
        · exact hq
    unfold Loading.mapPages
    split
    · exact mapPages_grows n _ st q hq
    · dsimp only
      split
      · exact mapPages_grows n _ _ q hget
      · exact hget

theorem ImagePlaced.segmentLoad {g : PtLoad} (hf : FileInv disk inode F) (hpos : st.PosOk inode)
    (hin : g.offset.toNat + g.filesz.toNat ≤ inode.iSize.toNat)
    (h : segmentLoad .debug disk inode granted g.offset g.filesz g.vaddr st = .ok (st', true)) :
    ImagePlaced F st st' [(g, g.filesz.toNat)] := by
  have hsi := hf.size_le
  obtain ⟨m, r, hr, hs⟩ := segmentLoad_true h
  have hret : r.ret.getD 0 = g.filesz.toNat := by
    obtain ⟨-, n, hlog, hn⟩ := segmentLoad_reads (by omega) hpos h
    have hgot : r.ret.getD 0 = n := congrArg Segment.bytes (List.cons.inj (hs.segs.symm.trans hlog)).1
    rw [hgot, hn hin]
  -- an empty segment may be anywhere, the others are inside the file
  have hb : ∀ k < r.ret.getD 0, r.buf k = F (g.offset.toNat + k) := by
    intro k hk
    have hse := lseek_fdPos st (show inode.iSize.toNat < 2 ^ 31 by omega) g.offset
    rw [if_pos (by omega)] at hse
    rw [hse] at hr
    exact fileRead_bytes hf hin hr k hk
  rw [← hret]
  refine ⟨hs.segs, ?_, by simpa using hret, ?_, fun q hq => ?_⟩
  · rw [hs.mem, storeBytes_congr hb]
    rfl
  · rw [hs.mapped]
    simpa using hs.there
  · have := mapPages_grows (occupyPages g.filesz g.vaddr).toNat (g.vaddr &&& 0xfffff000) st q hq
    rw [hs.pages] at this
    rw [hs.mapped]
    exact this

theorem ImagePlaced.readLocal {count : UInt32} {buf : Mem} {ret : Option Nat} (offset : UInt32)
    (h : (st.lseek inode offset).readLocal .debug disk inode granted count = .ok (st', buf, ret)) : ImagePlaced F st st' [] := by
  obtain ⟨hm, hp, -⟩ := lseek_keeps st inode offset
  unfold Loading.readLocal at h
  obtain ⟨r, -, hend⟩ := bind_ok.mp h
  cases hend
  exact ImagePlaced.none (lseek_log st inode offset).2.2 hm hp

theorem ImagePlaced.loadSegments (hfi : FileInv disk inode F) : ∀ {n : Nat} {off : UInt32} {st st' : Loading}, st.Inv inode →
    off.toNat + 32 * n ≤ inode.iSize.toNat → (∀ g ∈ ptLoads F n off.toNat, g.offset.toNat + g.filesz.toNat ≤ inode.iSize.toNat) →
    loadSegments .debug disk inode granted n off st = .ok (st', true) →
    ∃ l, l.map Prod.fst = ptLoads F n off.toNat ∧ ImagePlaced F st st' l
  | 0, _, st, st', _, _, _, h => by
    cases h
    exact ⟨[], rfl, ImagePlaced.none rfl rfl rfl⟩
  | n + 1, off, st, st', hinv, ht, hin, h => by
    have hsi := hfi.size_le
    unfold OperateSystem.loadSegments at h
    obtain ⟨⟨st1, buf, ret⟩, hre, hr⟩ := bind_ok.mp h
    have hinv1 := (hinv.lseek off).readLocal hre
    have hp1 : ImagePlaced F st st1 [] := ImagePlaced.readLocal off hre
    dsimp only at hr
    split at hr
    · cases hr
    next hret =>
    obtain rfl := not_not.mp hret
    have hs := lseek_fdPos st (show inode.iSize.toNat < 2 ^ 31 by omega) off
    rw [if_pos (by omega)] at hs
    have hb := readLocal_bytes hfi (by rw [hs]; show off.toNat + 32 ≤ _; omega) hre
    rw [hs] at hb
    have hh := Phdr.ofMem_congr hb
    have hn : (off + 32).toNat = off.toNat + 32 := by
      rw [UInt32.toNat_add]
      show (off.toNat + 32) % 2 ^ 32 = _
      omega
    unfold ptLoads at hin ⊢
    rw [← hn] at hin ⊢
    obtain ⟨hf, hla⟩ := forall_mem_append.mp hin
    unfold ptLoad at hf ⊢
    dsimp only at hf ⊢
    rw [← hh] at hf ⊢
    split at hr
    · next hlo =>
      rw [if_pos hlo] at hf ⊢
      obtain ⟨⟨st2, ok⟩, hseg, hend⟩ := bind_ok.mp hr
      cases ok with
      | false => cases hend
      | true =>
        have hp2 := ImagePlaced.segmentLoad (g := ⟨_, _, _, word (fun k => F (off.toNat + k)) 20⟩) hfi hinv1.pos
          (hf _ (by simp)) hseg
        obtain ⟨l, hl, hp3⟩ := ImagePlaced.loadSegments hfi (hinv1.segmentLoad hseg) (by omega) hla hend
        refine ⟨_, ?_, hp1.trans (hp2.trans hp3)⟩
        simp [hl]
    · next hlo =>
      rw [if_neg hlo] at hf ⊢
      obtain ⟨l, hl, hp3⟩ := ImagePlaced.loadSegments hfi hinv1 (by omega) hla hr
      exact ⟨l, by simpa using hl, hp1.trans hp3⟩

theorem ImagePlaced.load {entry : UInt32} (hf : FileInv disk inode F) (helf : ElfFile F inode.iSize.toNat) (h0 : st.Fresh)
    (h : load .debug disk inode granted st = .ok (st', some entry)) :
    ∃ l, l.map Prod.fst = elfSegments F ∧ ImagePlaced F st st' l := by
  have hz : st.fdPos.toNat = 0 := by rw [h0.1]; rfl
  unfold OperateSystem.load at h
  obtain ⟨⟨st1, buf, ret⟩, hre, hr⟩ := bind_ok.mp h
  have hinv1 := h0.inv.readLocal hre
  have hp1 : ImagePlaced F st st1 [] := by
    unfold Loading.readLocal at hre
    obtain ⟨r, -, hend⟩ := bind_ok.mp hre
    cases hend
    exact ImagePlaced.none rfl rfl rfl
  dsimp only at hr
  split at hr
  · cases hr
  next hret =>
  obtain rfl := not_not.mp hret
  have hb := readLocal_bytes hf (by rw [hz]; exact helf.header) hre
  simp only [hz, Nat.zero_add] at hb
  have hh := Ehdr.ofMem_congr hb
  split at hr
  · obtain ⟨⟨st2, ok⟩, hlo, hend⟩ := bind_ok.mp hr
    cases ok with
    | false => cases hend
    | true =>
      cases hend
      rw [hh] at hlo
      obtain ⟨l, hl, hp2⟩ := ImagePlaced.loadSegments hf hinv1 helf.table helf.inFile hlo
      exact ⟨l, hl, hp1.trans hp2⟩
  · cases hr

theorem ImagePlaced.byte {l : List (PtLoad × Nat)} (h : ImagePlaced F st st' l) (helf : ElfFile F inode.iSize.toNat)
    (hl : l.map Prod.fst = elfSegments F) {p : PtLoad × Nat} (hp : p ∈ l) {k : Nat} (hk : k < p.1.memsz.toNat) :
    st'.mem (p.1.vaddr.toNat + k) = if k < p.2 then F (p.1.offset.toNat + k) else st.mem (p.1.vaddr.toNat + k) := by
  have hmem : ∀ q ∈ l, q.1 ∈ elfSegments F := fun q hq => hl ▸ mem_map_of_mem hq
  have hf : ∀ q ∈ l, Fits q := by
    intro q hq
    obtain ⟨-, hend⟩ := helf.user q.1 (hmem q hq)
    exact ⟨(h.whole q hq).trans_le (helf.sizes q.1 (hmem q hq)), by omega⟩
  rw [h.mem, foldl_place_in hf (hl ▸ helf.apart) hp hk]

end

end OperateSystem
