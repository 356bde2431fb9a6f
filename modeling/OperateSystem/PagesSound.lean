import OperateSystem.Accounting
import OperateSystem.Outcome
import OperateSystem.Pages

/-!
# Kernel pages are exclusive

The proof keeps a map `own` from the pages of the heap to the frames behind them.
`Mapped` relates it to the page table and the frame bitmap, `Inv` to the bitmap
of pages and the ranges that were handed out. Everything is relative to the state
`s0` the system started with.
-/

namespace OperateSystem

open Function

/-! ## Page table words -/

theorem pteAddr_pteWord {p : Nat} (hp : p % pgSize = 0) (hlt : p < 2 ^ 32) : pteAddr (pteWord p) = p := by
  have hm : ∀ i < 32, (0xfffff000 : UInt32).toBitVec.getLsbD i = decide (12 ≤ i) := by decide
  have hlow : ∀ i < 32, 12 ≤ i → (4 : UInt32).toBitVec.getLsbD i = false ∧ (2 : UInt32).toBitVec.getLsbD i = false ∧
      (1 : UInt32).toBitVec.getLsbD i = false := by decide
  have hw : pteWord p &&& 0xfffff000 = .ofNat p := by
    rw [← UInt32.toBitVec_inj, BitVec.eq_of_getLsbD_eq_iff]
    intro i hi
    unfold pteWord
    simp only [UInt32.toBitVec_and, UInt32.toBitVec_or, BitVec.getLsbD_and, BitVec.getLsbD_or, hm i hi]
    by_cases h : 12 ≤ i
    · obtain ⟨h4, h2, h1⟩ := hlow i hi h
      simp only [h4, h2, h1, h, decide_true, Bool.or_false, Bool.and_true]
    · have hz : p.testBit i = false := by
        rw [show p = 2 ^ 12 * (p / 2 ^ 12) by unfold pgSize at hp; omega, Nat.testBit_two_pow_mul]
        simp [h]
      simp [h, hz, UInt32.toBitVec_ofNat', BitVec.getLsbD_ofNat]
  unfold pteAddr
  rw [hw, UInt32.toNat_ofNat', Nat.mod_eq_of_lt hlt]

theorem pteWord_present (p : Nat) : pteWord p &&& 1 ≠ 0 := by
  rw [Ne, ← UInt32.toBitVec_inj, BitVec.eq_of_getLsbD_eq_iff]
  intro h
  have := h 0 (by decide)
  unfold pteWord at this
  simp at this

theorem and_not_one (w : UInt32) : w &&& ~~~1 &&& 1 = 0 := by
  rw [UInt32.and_assoc, show (~~~1 &&& 1 : UInt32) = 0 by decide, UInt32.and_zero]

/-! ## Bitmaps -/

theorem setBits_len (start : Nat) (v : Bool) : ∀ n cnt b, (setBits start v n cnt b).btmpBytesLen = b.btmpBytesLen
  | 0, _, _ => rfl
  | n + 1, cnt, b => setBits_len start v n (cnt + 1) (bitmapSet b (start + cnt) v)

theorem bit_setBits (start : Nat) (v : Bool) (j : Nat) : ∀ n cnt b,
    (setBits start v n cnt b).bit j = if start + cnt ≤ j ∧ j < start + cnt + n then v else b.bit j
  | 0, cnt, b => by rw [if_neg (by omega)]; rfl
  | n + 1, cnt, b => by
    unfold setBits
    rw [bit_setBits start v j n (cnt + 1), bit_bitmapSet]
    by_cases h : j = start + cnt
    · rw [if_neg (by omega), if_pos h, if_pos (by omega)]
    · rw [if_neg h]
      by_cases h' : start + cnt ≤ j ∧ j < start + cnt + (n + 1)
      · rw [if_pos h', if_pos (by omega)]
      · rw [if_neg h', if_neg (by omega)]

theorem palloc_some {b : Build} {pool pool' : Pool} {a : Nat} (h : palloc b pool = .ok (some a, pool')) :
    ∃ i < 8 * pool.poolBitmap.btmpBytesLen, pool.poolBitmap.bit i = false ∧ a = i * pgSize + pool.phyAddrStart ∧
      pool' = pool.set i true := by
  unfold palloc at h
  obtain ⟨r, hr, h⟩ := bind_ok.mp h
  cases r with
  | none => cases h
  | some i =>
    cases h
    obtain ⟨hc, hlt⟩ := bitmapScan_sound hr
    exact ⟨i, hlt rfl, hc i le_rfl (Nat.lt_succ_self i), rfl, rfl⟩

theorem palloc_spec {bad : Fault → Prop} (hbad : ¬ bad (.assertion "idx_byte < btmp->btmp_bytes_len")) (pool : Pool) :
    Post bad (palloc .debug pool) fun r => ∃ f, f < 8 * pool.poolBitmap.btmpBytesLen ∧ pool.poolBitmap.bit f = false ∧
      r = (some (f * pgSize + pool.phyAddrStart), pool.set f true) := by
  unfold palloc
  cases hs : bitmapScan .debug pool.poolBitmap 1 with
  | error e => exact fun hb => hbad (bitmapScan_error hs ▸ hb)
  | ok r =>
    cases r with
    | none => exact absurd hs (bitmapScan_one _)
    | some f =>
      obtain ⟨hc, hlt⟩ := bitmapScan_sound hs
      exact ⟨f, hlt rfl, hc f le_rfl (Nat.lt_succ_self f), rfl⟩

namespace PageState

/-! ## The start -/

structure Layout (s : PageState) : Prop where
  pde : ∀ i, 768 ≤ i → i ≤ 1022 → s.pde i &&& 1 ≠ 0
  pages : 8 * s.kernelVaddr.btmpBytesLen < 2 ^ 15
  start : s.kernelPool.phyAddrStart = 0x200000
  frames : 8 * s.kernelPool.poolBitmap.btmpBytesLen * pgSize ≤ s.kernelPool.poolSize
  user : s.userPool.phyAddrStart = s.kernelPool.phyAddrStart + s.kernelPool.poolSize
  user_lt : s.userPool.phyAddrStart < 2 ^ 32
  page_clear : ∀ j < 8 * s.kernelVaddr.btmpBytesLen, s.kernelVaddr.bit j = false
  frame_clear : ∀ f < 8 * s.kernelPool.poolBitmap.btmpBytesLen, s.kernelPool.poolBitmap.bit f = false

theorem bit_bitmapInit (btmp : Bitmap) {j : Nat} (hj : j < 8 * btmp.btmpBytesLen) : (bitmapInit btmp).bit j = false := by
  unfold Bitmap.bit bitmapInit
  dsimp only
  rw [fill_in (Nat.zero_le _) (by omega)]
  simp

theorem Boot.layout {s : PageState} (h : s.Boot) : s.Layout := by
  obtain ⟨s0, allMem, rfl, hpde⟩ := h
  have hlt := allFreePages_lt allMem
  have hk : kernelFreePages allMem < 2 ^ 15 := by unfold kernelFreePages; omega
  refine ⟨hpde, ?_, rfl, ?_, rfl, ?_, fun j hj => bit_bitmapInit _ hj, fun f hf => bit_bitmapInit _ hf⟩
  · show 8 * (kernelFreePages allMem / 8) < 2 ^ 15
    omega
  · show 8 * (kernelFreePages allMem / 8) * pgSize ≤ kernelFreePages allMem * pgSize
    exact Nat.mul_le_mul_right _ (Nat.mul_div_le _ _)
  · show 0x200000 + kernelFreePages allMem * pgSize < 2 ^ 32
    unfold pgSize
    omega

/-! ## Pages and frames -/

def heapPage : Nat := kHeapStart / pgSize

def pageAddr (j : Nat) : Nat := kHeapStart + j * pgSize

theorem pageAddr_div (j : Nat) : pageAddr j / pgSize = heapPage + j := by
  unfold pageAddr heapPage kHeapStart pgSize
  omega

theorem pageAddr_mod (j : Nat) : pageAddr j % pgSize = 0 := by
  unfold pageAddr kHeapStart pgSize
  omega

theorem pageAddr_succ (j : Nat) : pageAddr j + pgSize = pageAddr (j + 1) := by
  unfold pageAddr
  rw [Nat.add_mul, Nat.one_mul, Nat.add_assoc]

def frameAddr (s0 : PageState) (f : Nat) : Nat := f * pgSize + s0.kernelPool.phyAddrStart

section
variable {s0 s : PageState} {own : Nat → Option Nat}
variable {f j n : Nat}

theorem Layout.frameAddr_spec (hL : s0.Layout) (hf : f < 8 * s0.kernelPool.poolBitmap.btmpBytesLen) :
    s0.frameAddr f % pgSize = 0 ∧ s0.kernelPool.phyAddrStart ≤ s0.frameAddr f ∧
      s0.frameAddr f < s0.userPool.phyAddrStart ∧ pteAddr (pteWord (s0.frameAddr f)) = s0.frameAddr f := by
  have h1 := hL.frames
  have h2 := hL.user
  have h3 := hL.user_lt
  have hs := hL.start
  unfold frameAddr
  have hmod : (f * pgSize + s0.kernelPool.phyAddrStart) % pgSize = 0 := by unfold pgSize at *; omega
  have hlt : f * pgSize + s0.kernelPool.phyAddrStart < s0.userPool.phyAddrStart := by unfold pgSize at *; omega
  exact ⟨hmod, Nat.le_add_left _ _, hlt, pteAddr_pteWord hmod (by omega)⟩

structure Mapped (s0 s : PageState) (own : Nat → Option Nat) : Prop where
  pde : s.pde = s0.pde
  user : s.userPool = s0.userPool
  start : s.kernelPool.phyAddrStart = s0.kernelPool.phyAddrStart
  size : s.kernelPool.poolSize = s0.kernelPool.poolSize
  len : s.kernelPool.poolBitmap.btmpBytesLen = s0.kernelPool.poolBitmap.btmpBytesLen
  frames : Accounted (· < 8 * s0.kernelPool.poolBitmap.btmpBytesLen) (s0.kernelPool.poolBitmap.bit · = true)
    (s.kernelPool.poolBitmap.bit · = true) own
  mapped : ∀ j f, own j = some f → s.pte (heapPage + j) = pteWord (s0.frameAddr f)
  unmapped : ∀ j, own j = none → s.pte (heapPage + j) &&& 1 = 0 ∨ s.pte (heapPage + j) = s0.pte (heapPage + j)

theorem Mapped.init (s : PageState) : Mapped s s fun _ => none :=
  ⟨rfl, rfl, rfl, rfl, rfl, .start _ _, nofun, fun _ _ => .inr rfl⟩

theorem Mapped.take (h : Mapped s0 s own) (hj : own j = none)
    (hf : f < 8 * s0.kernelPool.poolBitmap.btmpBytesLen) (hb : s.kernelPool.poolBitmap.bit f = false) :
    Mapped s0 (setPte { s with kernelPool := s.kernelPool.set f true } (pageAddr j) (pteWord (s0.frameAddr f)))
      (update own j (some f)) := by
  refine ⟨h.pde, h.user, h.start, h.size, h.len, h.frames.take hj (by simp [hb]) hf fun x => ?_, fun i g hi => ?_, fun i hi => ?_⟩
  · show (bitmapSet s.kernelPool.poolBitmap f true).bit x = true ↔ _
    rw [bit_bitmapSet]
    by_cases hx : x = f <;> simp [hx]
  · show update s.pte _ _ _ = _
    rw [pageAddr_div]
    by_cases hij : i = j
    · rw [hij, update_self] at hi ⊢
      cases hi
      rfl
    · rw [update_of_ne hij] at hi
      rw [update_of_ne (by omega)]
      exact h.mapped i g hi
  · have hij : i ≠ j := fun e => by rw [e, update_self] at hi; cases hi
    rw [update_of_ne hij] at hi
    show update s.pte _ _ _ &&& 1 = 0 ∨ update s.pte _ _ _ = _
    rw [pageAddr_div, update_of_ne (by omega)]
    exact h.unmapped i hi

theorem Mapped.give (hL : s0.Layout) (h : Mapped s0 s own) (hj : own j = some f) :
    s.addrV2p (pageAddr j) = s0.frameAddr f ∧
      Mapped s0 ((s.pfree (s0.frameAddr f)).pageTablePteRemove (pageAddr j)) (update own j none) := by
  obtain ⟨-, hge, hlt, hw⟩ := hL.frameAddr_spec (h.frames.in_dom hj)
  have hidx : (s0.frameAddr f - s.kernelPool.phyAddrStart) / pgSize = f := by
    rw [h.start]
    unfold frameAddr pgSize
    omega
  constructor
  · unfold addrV2p pteAt
    rw [pageAddr_div, h.mapped j f hj, hw, pageAddr_mod, Nat.add_zero]
  · unfold pfree
    rw [if_neg (by rw [h.user]; omega), hidx]
    refine ⟨h.pde, h.user, h.start, h.size, h.len, h.frames.give hj fun x => ?_, fun i g hi => ?_, fun i hi => ?_⟩
    · show (bitmapSet s.kernelPool.poolBitmap f false).bit x = true ↔ _
      rw [bit_bitmapSet]
      by_cases hx : x = f <;> simp [hx]
    · have hij : i ≠ j := fun e => by rw [e, update_self] at hi; cases hi
      rw [update_of_ne hij] at hi
      show update s.pte _ _ _ = _
      rw [pageAddr_div, update_of_ne (by omega)]
      exact h.mapped i g hi
    · show update s.pte _ _ _ &&& 1 = 0 ∨ update s.pte _ _ _ = _
      rw [pageAddr_div]
      by_cases hij : i = j
      · rw [hij, update_self]
        exact .inl (and_not_one _)
      · rw [update_of_ne hij] at hi
        rw [update_of_ne (by omega)]
        exact h.unmapped i hi

/-! ## The loops -/

def Repeats (s0 : PageState) (e : Fault) : Prop := s0.TablesClear ∧ PteRepeat e

theorem not_repeats {cond : String} (h : cond ≠ "!(*pte & 0x00000001)") : ¬ s0.Repeats (.assertion cond) := by
  rintro ⟨-, e | e⟩
  · exact h (Fault.assertion.inj e)
  · cases e

theorem pde_index (hj : j < 2 ^ 15) : 768 ≤ pageAddr j / 2 ^ 22 ∧ pageAddr j / 2 ^ 22 ≤ 1022 := by
  unfold pageAddr kHeapStart pgSize
  omega

theorem Mapped.pageTableAdd (hL : s0.Layout) (h : Mapped s0 s own) (hlt : j < 2 ^ 15)
    (hj : own j = none) (hf : f < 8 * s0.kernelPool.poolBitmap.btmpBytesLen)
    (hb : s.kernelPool.poolBitmap.bit f = false) :
    Post s0.Repeats
      (pageTableAdd { s with kernelPool := s.kernelPool.set f true } (pageAddr j) (s0.frameAddr f)) fun s' => Mapped s0 s' (update own j (some f)) ∧ s'.kernelVaddr = s.kernelVaddr := by
  have hpde : s.pde (pageAddr j / 2 ^ 22) &&& 1 ≠ 0 := by
    rw [h.pde]
    exact hL.pde _ (pde_index hlt).1 (pde_index hlt).2
  unfold PageState.pageTableAdd
  rw [if_pos hpde]
  by_cases hp : s.pte (heapPage + j) &&& 1 = 0
  · have hat : ∀ pool, pteAt { s with kernelPool := pool } (pageAddr j) &&& 1 = 0 := fun pool => by
      show s.pte (pageAddr j / pgSize) &&& 1 = 0
      rwa [pageAddr_div]
    rw [assert_of _ (hat _), ok_bind, if_pos (hat _)]
    exact ⟨h.take hj hf hb, rfl⟩
  · -- The entry is present although nobody owns the page, so it was so at the start.
    have hnot : ∀ e, ¬ s0.Repeats e := fun e he => by
      rcases h.unmapped j hj with h' | h'
      · exact hp h'
      · exact hp (h' ▸ he.1 _ (Nat.le_add_right _ _))
    refine Post.check (hnot _) fun hc => ?_
    rw [if_pos hc]
    refine absurd ?_ hp
    have : s.pte (pageAddr j / pgSize) &&& 1 = 0 := hc
    rwa [pageAddr_div] at this

theorem Mapped.mapPages (hL : s0.Layout) : ∀ n j (s : PageState) (own : Nat → Option Nat), j + n ≤ 2 ^ 15 →
    (∀ i, j ≤ i → i < j + n → own i = none) → Mapped s0 s own →
    Post s0.Repeats (mapPages n (pageAddr j) s) fun r => r.1 = true ∧ r.2.kernelVaddr = s.kernelVaddr ∧
      ∃ own', Mapped s0 r.2 own' ∧ ∀ i, (own' i).isSome ↔ (own i).isSome ∨ (j ≤ i ∧ i < j + n)
  | 0, j, s, own, _, _, h => ⟨rfl, rfl, own, h, fun i => ⟨.inl, fun hi => hi.resolve_right (by omega)⟩⟩
  | n + 1, j, s, own, hlt, hn, h => by
    unfold PageState.mapPages
    refine Post.bind (palloc_spec (not_repeats (by decide)) s.kernelPool) ?_
    rintro - ⟨f, hf, hb, rfl⟩
    dsimp only
    rw [h.len] at hf
    rw [h.start, pageAddr_succ]
    refine Post.bind (h.pageTableAdd hL (by omega) (hn j le_rfl (by omega)) hf hb) ?_
    rintro s' ⟨h', hv⟩
    have hn' : ∀ i, j + 1 ≤ i → i < j + 1 + n → update own j (some f) i = none := fun i h1 h2 => by
      rw [update_of_ne (by omega)]
      exact hn i (by omega) (by omega)
    refine (Mapped.mapPages hL n (j + 1) s' _ (by omega) hn' h').mono ?_
    rintro ⟨ok, s''⟩ ⟨hok, hv', own', hm, hiff⟩
    refine ⟨hok, hv'.trans hv, own', hm, fun i => ?_⟩
    rw [hiff]
    by_cases hij : i = j
    · simp [hij]
    · rw [update_of_ne hij]
      have : j + 1 ≤ i ∧ i < j + 1 + n ↔ j ≤ i ∧ i < j + (n + 1) := by omega
      rw [this]

theorem Mapped.unmapPages (hL : s0.Layout) (isOwn : Nat → Bool) (cond : String)
    (hown : ∀ f < 8 * s0.kernelPool.poolBitmap.btmpBytesLen, isOwn (s0.frameAddr f) = true) :
    ∀ n j (s : PageState) (own : Nat → Option Nat), (∀ i, j ≤ i → i < j + n → (own i).isSome) → Mapped s0 s own →
    ∃ s' own', unmapPages isOwn cond n (pageAddr j) s = .ok s' ∧ s'.kernelVaddr = s.kernelVaddr ∧ Mapped s0 s' own' ∧
      ∀ i, (own' i).isSome ↔ (own i).isSome ∧ ¬ (j ≤ i ∧ i < j + n)
  | 0, j, s, own, _, h => ⟨s, own, rfl, rfl, h, fun i => by simp⟩
  | n + 1, j, s, own, hs, h => by
    obtain ⟨f, hf⟩ := Option.isSome_iff_exists.mp (hs j le_rfl (by omega))
    obtain ⟨ha, h'⟩ := h.give hL hf
    have hso' : ∀ i, j + 1 ≤ i → i < j + 1 + n → (update own j none i).isSome := fun i h1 h2 => by
      rw [update_of_ne (by omega)]
      exact hs i (by omega) (by omega)
    obtain ⟨s', own', hs', hv, hm, hiff⟩ := Mapped.unmapPages hL isOwn cond hown n (j + 1) _ _ hso' h'
    refine ⟨s', own', ?_, hv.trans ?_, hm, fun i => ?_⟩
    · unfold PageState.unmapPages
      simp only [ha, assert_of _ (hown f (h.frames.in_dom hf)), ok_bind, pageAddr_succ, hs']
    · unfold pageTablePteRemove setPte pfree
      split <;> rfl
    · rw [hiff]
      by_cases hij : i = j
      · simp [hij]
      · rw [update_of_ne hij]
        have : j + 1 ≤ i ∧ i < j + 1 + n ↔ j ≤ i ∧ i < j + (n + 1) := by omega
        rw [this]

/-! ## The two calls -/

structure Inv (s0 s : PageState) (live : List (Nat × Nat)) (own : Nat → Option Nat) : Prop extends Mapped s0 s own where
  vlen : s.kernelVaddr.btmpBytesLen = s0.kernelVaddr.btmpBytesLen
  vbit : ∀ j, s.kernelVaddr.bit j = true ↔ s0.kernelVaddr.bit j = true ∨ (own j).isSome
  owned : ∀ j, (own j).isSome ↔ LivePage live (pageAddr j)
  ranges : ∀ r ∈ live, ∃ i, r.1 = pageAddr i ∧ 0 < r.2 ∧ i + r.2 ≤ 8 * s0.kernelVaddr.btmpBytesLen
  apart : live.Pairwise RangesApart

variable {live : List (Nat × Nat)}

theorem Inv.init (s : PageState) : Inv s s [] fun _ => none :=
  ⟨.init s, rfl, by simp, by simp [LivePage], by simp, .nil⟩

theorem Inv.perm {live' : List (Nat × Nat)} (h : Inv s0 s live own) (hp : live.Perm live') : Inv s0 s live' own := by
  refine ⟨h.toMapped, h.vlen, h.vbit, fun j => ?_, fun r hr => h.ranges r (hp.mem_iff.mpr hr), ?_⟩
  · rw [h.owned]
    unfold LivePage
    simp only [hp.mem_iff]
  · exact (hp.pairwise_iff fun h => h.symm).mp h.apart

theorem mem_range_iff {i : Nat} :
    pageAddr i ≤ pageAddr j ∧ pageAddr j < pageAddr i + n * pgSize ↔ i ≤ j ∧ j < i + n := by
  unfold pageAddr pgSize
  omega

theorem livePage_cons {i : Nat} :
    LivePage ((pageAddr i, n) :: live) (pageAddr j) ↔ (i ≤ j ∧ j < i + n) ∨ LivePage live (pageAddr j) := by
  rw [← mem_range_iff]
  unfold LivePage
  simp [pageAddr_mod]

theorem Inv.mallocPage (hL : s0.Layout) (h : Inv s0 s live own) (hin : s.RunInside n) :
    Post s0.Repeats (s.mallocPage n) fun r => ∀ v, r.1 = some v → ∃ own', Inv s0 r.2 ((v, n) :: live) own' := by
  unfold PageState.mallocPage
  refine Post.check (not_repeats (by decide)) fun hn => ?_
  unfold vaddrGet
  cases hs : bitmapScan .debug s.kernelVaddr n with
  | error e => exact fun hb => not_repeats (by decide) (bitmapScan_error hs ▸ hb)
  | ok r =>
    obtain _ | i := r
    · exact fun v hv => nomatch hv
    have hi := h.vlen ▸ hin i hs
    have hc : ∀ j, i ≤ j → j < i + n → own j = none := fun j h1 h2 => by
      have hb := (bitmapScan_sound hs).1 j h1 h2
      have := (h.vbit j).not.mp (by simp [hb])
      simpa using fun e => this (.inr e)
    have hm : Mapped s0 { s with kernelVaddr := setBits i true n 0 s.kernelVaddr } own :=
      ⟨h.pde, h.user, h.start, h.size, h.len, h.frames, h.mapped, h.unmapped⟩
    have hpa := hL.pages
    simp only [ok_bind, pure_ok]
    refine Post.bind (hm.mapPages hL n i _ own (by omega) hc) ?_
    rintro ⟨ok, s'⟩ ⟨rfl, hv, own', hm', hiff⟩ v hv'
    cases hv'
    refine ⟨own', hm', ?_, fun j => ?_, fun j => ?_, ?_, ?_⟩
    · rw [hv]
      exact (setBits_len _ _ _ _ _).trans h.vlen
    · rw [hv, hiff]
      show (setBits i true n 0 s.kernelVaddr).bit j = true ↔ _
      rw [bit_setBits, Nat.add_zero, ← or_assoc, ← h.vbit j]
      by_cases hj : i ≤ j ∧ j < i + n <;> simp [hj]
    · show _ ↔ LivePage ((pageAddr i, n) :: live) _
      rw [hiff, livePage_cons, h.owned, or_comm]
    · rintro r (_ | ⟨_, hr⟩)
      · exact ⟨i, rfl, hn.1, hi⟩
      · exact h.ranges r hr
    · refine List.pairwise_cons.mpr ⟨fun r hr => ?_, h.apart⟩
      -- A common page would own a frame, and the run consists of pages without one.
      obtain ⟨k, hk, hpos, -⟩ := h.ranges r hr
      have hf : ∀ j, i ≤ j → j < i + n → ¬ (k ≤ j ∧ j < k + r.2) := fun j h1 h2 hj => by
        have hl : LivePage live (pageAddr j) := ⟨pageAddr_mod j, r, hr, by rw [hk]; exact mem_range_iff.mpr hj⟩
        have := (h.owned j).mpr hl
        rw [hc j h1 h2] at this
        cases this
      have h1 := hf i le_rfl (by omega)
      have h2 := hf k
      show pageAddr i + n * pgSize ≤ r.1 ∨ r.1 + r.2 * pgSize ≤ pageAddr i
      rw [hk]
      unfold pageAddr pgSize
      omega

theorem Inv.mfreePage (hL : s0.Layout) {v : Nat} (h : Inv s0 s ((v, n) :: live) own) :
    ∃ s' own', s.mfreePage v n = .ok s' ∧ Inv s0 s' live own' := by
  obtain ⟨i, hi, hpos, hin⟩ := h.ranges (v, n) (by simp)
  simp only at hi hpos hin
  subst hi
  have hs : ∀ j, i ≤ j → j < i + n → (own j).isSome := fun j h1 h2 =>
    (h.owned j).mpr (livePage_cons.mpr (.inl ⟨h1, h2⟩))
  obtain ⟨f, hf⟩ := Option.isSome_iff_exists.mp (hs i le_rfl (by omega))
  have hst := hL.start
  obtain ⟨hmod, hge, hlt, -⟩ := hL.frameAddr_spec (h.frames.in_dom hf)
  let isOwn : Nat → Bool := fun p =>
    p % pgSize = 0 ∧ s.kernelPool.phyAddrStart ≤ p ∧ p < s.userPool.phyAddrStart
  have hown : ∀ f < 8 * s0.kernelPool.poolBitmap.btmpBytesLen, isOwn (s0.frameAddr f) = true := fun f hf => by
    obtain ⟨h1, h2, h3, -⟩ := hL.frameAddr_spec hf
    show decide _ = true
    rw [h.start, h.user, decide_eq_true_iff]
    exact ⟨h1, h2, h3⟩
  obtain ⟨s', own', hs', hv, hm, hiff⟩ := h.toMapped.unmapPages hL isOwn _ hown n i s own hs
  refine ⟨s'.vaddrRemove (pageAddr i) n, own', ?_, ?_⟩
  · unfold PageState.mfreePage freePages
    have hn : 1 ≤ n ∧ pageAddr i % pgSize = 0 := ⟨hpos, pageAddr_mod i⟩
    have hp : s0.frameAddr f % pgSize = 0 ∧ 0x102000 ≤ s0.frameAddr f := ⟨hmod, by omega⟩
    rw [assert_of _ hn, ok_bind, (h.give hL hf).1]
    dsimp only
    rw [assert_of _ hp, ok_bind, if_neg (by rw [h.user]; omega), hs']
    rfl
  · have hidx : (pageAddr i - kHeapStart) / pgSize = i := by
      unfold pageAddr pgSize
      omega
    have hap := (List.pairwise_cons.mp h.apart).1
    have ho : ∀ j, LivePage live (pageAddr j) → ¬ (i ≤ j ∧ j < i + n) := by
      rintro j ⟨-, r, hr, hj⟩ hij
      have := mem_range_iff.mpr hij
      rcases hap r hr with h' | h' <;> simp only at h' <;> omega
    refine ⟨⟨hm.pde, hm.user, hm.start, hm.size, hm.len, hm.frames, hm.mapped, hm.unmapped⟩, ?_, fun j => ?_, fun j => ?_,
      fun r hr => h.ranges r (by simp [hr]), (List.pairwise_cons.mp h.apart).2⟩
    · show (setBits _ false n 0 s'.kernelVaddr).btmpBytesLen = _
      rw [setBits_len, hv, h.vlen]
    · show (setBits _ false n 0 s'.kernelVaddr).bit j = true ↔ _
      rw [bit_setBits, hidx, Nat.add_zero, hiff, hv]
      by_cases hj : i ≤ j ∧ j < i + n
      · -- The pages of a range lie in the bitmap, where nothing was marked at the start.
        have := hL.page_clear j (by omega)
        simp [hj, this]
      · simp [hj, h.vbit j]
    · rw [hiff, h.owned, livePage_cons]
      constructor
      · rintro ⟨hj | hj, hne⟩
        · exact absurd hj hne
        · exact hj
      · exact fun hj => ⟨.inr hj, ho j hj⟩

/-! ## What it means for the pages -/

theorem Inv.live_page (h : Inv s0 s live own) {v : Nat} (hv : LivePage live v) : ∃ j f, v = pageAddr j ∧ own j = some f := by
  obtain ⟨hmod, r, hr, hlo, hhi⟩ := hv
  obtain ⟨i, hi, -⟩ := h.ranges r hr
  have hpa : v = pageAddr ((v - kHeapStart) / pgSize) := by
    rw [hi] at hlo
    unfold pageAddr kHeapStart pgSize at *
    omega
  generalize (v - kHeapStart) / pgSize = j at hpa
  obtain ⟨f, hf⟩ := Option.isSome_iff_exists.mp ((h.owned j).mpr (hpa ▸ ⟨hmod, r, hr, hlo, hhi⟩))
  exact ⟨j, f, hpa, hf⟩

theorem Inv.addrV2p (hL : s0.Layout) (h : Inv s0 s live own) (hj : own j = some f) :
    s.addrV2p (pageAddr j) = s.kernelPool.phyAddrStart + f * pgSize := by
  rw [(h.give hL hj).1, h.start, Nat.add_comm]
  rfl

theorem Inv.drained (h : Inv s0 s [] own) : s.kernelVaddr = s0.kernelVaddr ∧ s.kernelPool = s0.kernelPool := by
  have hn : ∀ j, own j = none := fun j => by
    have := (h.owned j).not.mpr fun hl => by simp [LivePage] at hl
    simpa using this
  constructor
  · refine Bitmap.ext_bit h.vlen fun j => ?_
    rw [Bool.eq_iff_iff, h.vbit, hn]
    simp
  · have hb : s.kernelPool.poolBitmap = s0.kernelPool.poolBitmap := by
      refine Bitmap.ext_bit h.len fun f => ?_
      rw [Bool.eq_iff_iff, h.frames.used_iff]
      simp [hn]
    rw [Pool.mk.injEq]
    exact ⟨hb, h.start, h.size⟩

theorem Inv.drain (hL : s0.Layout) : ∀ (l : List (Nat × Nat)) (s : PageState) (own : Nat → Option Nat), Inv s0 s l own →
    ∃ s', l.foldlM (fun s r => s.mfreePage r.1 r.2) s = .ok s' ∧ s'.kernelVaddr = s0.kernelVaddr ∧
      s'.kernelPool = s0.kernelPool
  | [], s, own, h => ⟨s, rfl, h.drained⟩
  | (v, n) :: l, s, own, h => by
    obtain ⟨s1, own1, hs1, h1⟩ := h.mfreePage hL
    obtain ⟨s', hs', hd⟩ := Inv.drain hL l s1 own1 h1
    exact ⟨s', by rw [List.foldlM_cons, hs1]; exact hs', hd⟩

theorem Inv.step (hL : s0.Layout) {p p' : PageState × List (Nat × Nat)} (h : ∃ own, Inv s0 p.1 p.2 own)
    (hs : PageStep p p') : ∃ own, Inv s0 p'.1 p'.2 own := by
  obtain ⟨own, h⟩ := h
  cases hs with
  | malloc n hin hr => exact (h.mallocPage hL hin).holds hr _ rfl
  | free v n hl hr =>
    obtain ⟨s', own', hs', h'⟩ := (h.perm (List.perm_cons_erase hl)).mfreePage hL
    rw [hr] at hs'
    cases hs'
    exact ⟨own', h'⟩

theorem Inv.reached (hL : s0.Layout) (hr : Relation.ReflTransGen PageStep (s0, []) (s, live)) :
    ∃ own, Inv s0 s live own := by
  have hre : Reach PageStep (· = (s0, [])) (s, live) := ⟨_, rfl, hr⟩
  apply hre.invariant (P := fun p => ∃ own, Inv s0 p.1 p.2 own)
  · rintro p rfl
    exact ⟨_, .init s0⟩
  · exact fun p p' h hs => Inv.step hL h hs

structure Exclusive (s0 s : PageState) (live : List (Nat × Nat)) : Prop where
  apart : live.Pairwise RangesApart
  present : ∀ v, LivePage live v → s.pteAt v &&& 1 ≠ 0
  frame_inj : ∀ v w, LivePage live v → LivePage live w → s.addrV2p v = s.addrV2p w → v = w
  in_pool : ∀ v, LivePage live v → s.kernelPool.phyAddrStart ≤ s.addrV2p v ∧
    s.addrV2p v + pgSize ≤ s.kernelPool.phyAddrStart + s.kernelPool.poolSize
  page_bit : ∀ j < 8 * s.kernelVaddr.btmpBytesLen, s.kernelVaddr.bit j = true ↔ LivePage live (kHeapStart + j * pgSize)
  frame_bit : ∀ f < 8 * s.kernelPool.poolBitmap.btmpBytesLen, s.kernelPool.poolBitmap.bit f = true ↔
    ∃ v, LivePage live v ∧ s.addrV2p v = s.kernelPool.phyAddrStart + f * pgSize
  no_repeat : ∀ n e, s.RunInside n → s.mallocPage n = .error e → ¬ PteRepeat e
  drain : ∀ l : List (Nat × Nat), l.Perm live → ∃ s', l.foldlM (fun s r => s.mfreePage r.1 r.2) s = .ok s' ∧
    s'.kernelVaddr = s0.kernelVaddr ∧ s'.kernelPool = s0.kernelPool

theorem Inv.exclusive (hL : s0.Layout) (hc : s0.TablesClear) (h : Inv s0 s live own) : Exclusive s0 s live where
  apart := h.apart
  present v hv := by
    obtain ⟨j, f, rfl, hf⟩ := h.live_page hv
    unfold pteAt
    rw [pageAddr_div, h.mapped j f hf]
    exact pteWord_present _
  frame_inj v w hv hw e := by
    obtain ⟨j, f, rfl, hf⟩ := h.live_page hv
    obtain ⟨k, g, rfl, hg⟩ := h.live_page hw
    rw [h.addrV2p hL hf, h.addrV2p hL hg] at e
    have : f = g := by unfold pgSize at e; omega
    rw [h.frames.inj hf (this ▸ hg)]
  in_pool v hv := by
    obtain ⟨j, f, rfl, hf⟩ := h.live_page hv
    have hlt := h.frames.in_dom hf
    have hs := hL.frames
    rw [h.addrV2p hL hf, h.size]
    unfold pgSize at *
    omega
  page_bit j hj := by
    rw [h.vlen] at hj
    rw [h.vbit, hL.page_clear j hj, h.owned]
    simp [pageAddr]
  frame_bit f hf := by
    rw [h.len] at hf
    rw [h.frames.used_iff, hL.frame_clear f hf]
    simp only [Bool.false_eq_true, false_or]
    constructor
    · rintro ⟨j, hj⟩
      exact ⟨pageAddr j, (h.owned j).mp (by simp [hj]), h.addrV2p hL hj⟩
    · rintro ⟨v, hv, e⟩
      obtain ⟨j, g, rfl, hg⟩ := h.live_page hv
      rw [h.addrV2p hL hg] at e
      have : g = f := by unfold pgSize at e; omega
      exact ⟨j, this ▸ hg⟩
  no_repeat n e hin he hrep := (h.mallocPage hL hin).fails he ⟨hc, hrep⟩
  drain l hl := Inv.drain hL l s own (h.perm hl.symm)

end

end PageState

open PageState

/-- **Kernel pages are exclusive and can be given back**, after any sequence of allocations and
releases, if the page tables of the heap were clear. -/
theorem kernel_pages_exclusive {s0 s : PageState} {live : List (Nat × Nat)} (h0 : s0.Boot) (hc : s0.TablesClear)
    (hr : Relation.ReflTransGen PageStep (s0, []) (s, live)) : Exclusive s0 s live := by
  obtain ⟨own, h⟩ := Inv.reached h0.layout hr
  exact h.exclusive h0.layout hc

def PageState.afterMalloc (s : PageState) (n : Nat) : PageState :=
  match s.mallocPage n with
  | .ok r => r.2
  | .error _ => s

/-- The state at boot over page tables that are full of `w`. -/
def bootPages (w : UInt32) : PageState :=
  memPoolInit ⟨.ofBytes 0 fun _ => 0xff, ⟨.ofBytes 0 fun _ => 0xff, 0, 0⟩, ⟨.ofBytes 0 fun _ => 0xff, 0, 0⟩,
    fun _ => 7, fun _ => w⟩ 0x2000000

theorem bootPages_boot (w : UInt32) : (bootPages w).Boot := by
  refine ⟨_, _, rfl, fun i _ _ => ?_⟩
  show (7 : UInt32) &&& 1 ≠ 0
  decide

theorem runInside_of {s : PageState} {n i : Nat} (hs : bitmapScan .debug s.kernelVaddr n = .ok (some i))
    (hle : i + n ≤ 8 * s.kernelVaddr.btmpBytesLen) : s.RunInside n := by
  intro j hj
  rw [hs] at hj
  cases hj
  exact hle

theorem kernel_pages_exclusive_boot : (bootPages 0).Boot ∧ (bootPages 0).TablesClear ∧
    ∃ s, Relation.ReflTransGen PageStep (bootPages 0, []) (s, [(0xc0102000, 1)]) ∧
      Exclusive (bootPages 0) s [(0xc0102000, 1)] := by
  have hb := bootPages_boot 0
  have hc : (bootPages 0).TablesClear := fun i _ => by show (0 : UInt32) &&& 1 = 0; decide
  have hin1 : (bootPages 0).RunInside 2 := runInside_of (i := 0) rfl (by decide)
  have hin2 : ((bootPages 0).afterMalloc 2).RunInside 1 := runInside_of (i := 2) rfl (by decide +kernel)
  have h1 : PageStep (bootPages 0, []) ((bootPages 0).afterMalloc 2, [(0xc0100000, 2)]) := .malloc 2 hin1 rfl
  have h2 : PageStep ((bootPages 0).afterMalloc 2, [(0xc0100000, 2)])
      (((bootPages 0).afterMalloc 2).afterMalloc 1, [(0xc0102000, 1), (0xc0100000, 2)]) := .malloc 1 hin2 rfl
  obtain ⟨s, hs⟩ : ∃ s, (((bootPages 0).afterMalloc 2).afterMalloc 1).mfreePage 0xc0100000 2 = .ok s := ⟨_, rfl⟩
  have hrun := ((Relation.ReflTransGen.single h1).tail h2).tail (.free 0xc0100000 2 (by decide) hs)
  exact ⟨hb, hc, s, hrun, kernel_pages_exclusive hb hc hrun⟩

/-- A page table that holds an old entry where the heap begins. -/
theorem kernel_pages_stale : (bootPages 7).Boot ∧ (bootPages 7).RunInside 1 ∧
    ∃ e, (bootPages 7).mallocPage 1 = .error e ∧ PteRepeat e :=
  ⟨bootPages_boot 7, runInside_of (i := 0) rfl (by decide), _, rfl, .inl rfl⟩

end OperateSystem
