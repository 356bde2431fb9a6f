import OperateSystem.Fork
import OperateSystem.PagesSound

/-!
# The pages of a child

The proofs keep two maps beside the pools: which kernel frame is behind a page of
the heap or behind an entry of the child's directory, and which user frame is
behind a page of the child. `Frames` relates them to the tables and the pools,
`Held` also to the bitmap of the kernel's pages. Everything is relative to the
state `a` before the fork.
-/

namespace OperateSystem

open Function

inductive Holder where
  | page (j : Nat)
  | table (i : Nat)
  deriving DecidableEq

theorem palloc_ok {pool : Pool} {r : Option Nat × Pool} (h : palloc .debug pool = .ok r) :
    ∃ f, f < 8 * pool.poolBitmap.btmpBytesLen ∧ pool.poolBitmap.bit f = false ∧
      r = (some (f * pgSize + pool.phyAddrStart), pool.set f true) := by
  have hpo : Post (fun _ : Fault => False) (palloc .debug pool) _ := palloc_spec id pool
  exact hpo.holds h

namespace PageState

variable {a s s' : PageState} {pde pte : Nat → UInt32} {kown : Holder → Option Nat} {uown : Nat → Option Nat}
variable {f i j : Nat}

/-! ## The layout of the memory -/

structure Geometry (a : PageState) : Prop where
  pages : 8 * a.kernelVaddr.btmpBytesLen < 2 ^ 15
  start : a.kernelPool.phyAddrStart = 0x200000
  frames : 8 * a.kernelPool.poolBitmap.btmpBytesLen * pgSize ≤ a.kernelPool.poolSize
  user : a.userPool.phyAddrStart = a.kernelPool.phyAddrStart + a.kernelPool.poolSize
  aligned : a.userPool.phyAddrStart % pgSize = 0
  userFrames : a.userPool.phyAddrStart + 8 * a.userPool.poolBitmap.btmpBytesLen * pgSize ≤ 2 ^ 32

theorem Since.geometry {b : PageState} (h : Since b s) : s.Geometry := by
  obtain ⟨s0, allMem, hb, -⟩ := h.boot
  have hlt := allFreePages_lt allMem
  obtain ⟨kbits, hk⟩ := h.kernelPool
  obtain ⟨ubits, hu⟩ := h.userPool
  have hv := h.kernelVaddr
  subst hb
  constructor
  · rw [hv]
    simp only [memPoolInit, pageBitmap, bitmapInit]
    unfold kernelFreePages
    omega
  · rw [hk]
    rfl
  · rw [hk]
    simp only [memPoolInit, pageBitmap, bitmapInit]
    unfold pgSize
    omega
  · rw [hk, hu]
    rfl
  · rw [hu]
    simp only [memPoolInit]
    unfold pgSize
    omega
  · rw [hu]
    simp only [memPoolInit, pageBitmap, bitmapInit]
    unfold userFreePages kernelFreePages pgSize
    omega

def userFrameAddr (a : PageState) (f : Nat) : Nat := f * pgSize + a.userPool.phyAddrStart

theorem Geometry.frameAddr_spec (hG : a.Geometry) (hf : f < 8 * a.kernelPool.poolBitmap.btmpBytesLen) :
    a.frameAddr f % pgSize = 0 ∧ a.kernelPool.phyAddrStart ≤ a.frameAddr f ∧ a.frameAddr f < a.userPool.phyAddrStart ∧
      pteAddr (pteWord (a.frameAddr f)) = a.frameAddr f := by
  obtain ⟨-, hs, hfr, hu, -, hlt⟩ := hG
  have hmod : a.frameAddr f % pgSize = 0 := by
    unfold frameAddr pgSize
    omega
  have hb : a.frameAddr f < a.userPool.phyAddrStart := by
    unfold frameAddr pgSize at *
    omega
  exact ⟨hmod, by unfold frameAddr; omega, hb, pteAddr_pteWord hmod (by omega)⟩

theorem Geometry.userFrameAddr_spec (hG : a.Geometry) (hf : f < 8 * a.userPool.poolBitmap.btmpBytesLen) :
    a.userFrameAddr f % pgSize = 0 ∧ a.userPool.phyAddrStart ≤ a.userFrameAddr f ∧
      pteAddr (pteWord (a.userFrameAddr f)) = a.userFrameAddr f := by
  have ha := hG.aligned
  have hlt := hG.userFrames
  have hmod : a.userFrameAddr f % pgSize = 0 := by
    unfold userFrameAddr pgSize at *
    omega
  have hb : a.userFrameAddr f < 2 ^ 32 := by
    unfold userFrameAddr pgSize at *
    omega
  exact ⟨hmod, by unfold userFrameAddr; omega, pteAddr_pteWord hmod hb⟩

structure SameShape (a s : PageState) : Prop where
  kstart : s.kernelPool.phyAddrStart = a.kernelPool.phyAddrStart
  ksize : s.kernelPool.poolSize = a.kernelPool.poolSize
  klen : s.kernelPool.poolBitmap.btmpBytesLen = a.kernelPool.poolBitmap.btmpBytesLen
  ustart : s.userPool.phyAddrStart = a.userPool.phyAddrStart
  usize : s.userPool.poolSize = a.userPool.poolSize
  ulen : s.userPool.poolBitmap.btmpBytesLen = a.userPool.poolBitmap.btmpBytesLen

/-! ## Frames of the child -/

/-- `pde` and `pte` are the tables of the child; above them the tables of `s` count. -/
structure Frames (a s : PageState) (pde pte : Nat → UInt32) (kown : Holder → Option Nat) (uown : Nat → Option Nat) :
    Prop extends SameShape a s where
  kernelPde : ∀ i, 768 ≤ i → i ≤ 1022 → s.pde i &&& 1 ≠ 0
  low : s.pte (768 * 1024) &&& 1 ≠ 0
  kernel : Accounted (· < 8 * a.kernelPool.poolBitmap.btmpBytesLen) (a.kernelPool.poolBitmap.bit · = true)
    (s.kernelPool.poolBitmap.bit · = true) kown
  user : Accounted (· < 8 * a.userPool.poolBitmap.btmpBytesLen) (a.userPool.poolBitmap.bit · = true)
    (s.userPool.poolBitmap.bit · = true) uown
  page : ∀ j f, kown (.page j) = some f → s.pte (heapPage + j) = pteWord (a.frameAddr f)
  table : ∀ i f, kown (.table i) = some f → i < 768 ∧ pde i = pteWord (a.frameAddr f)
  noTable : ∀ i < 768, kown (.table i) = none → pde i &&& 1 = 0
  userPage : ∀ q f, uown q = some f → (kown (.table (q / 1024))).isSome ∧ pte q = pteWord (a.userFrameAddr f)
  noUserPage : ∀ q, uown q = none → (kown (.table (q / 1024))).isSome → pte q &&& 1 = 0

theorem heapPage_eq : heapPage = 768 * 1024 + 256 := rfl

theorem bit_set_true {pool : Pool} (x : Nat) :
    (pool.set f true).poolBitmap.bit x = true ↔ pool.poolBitmap.bit x = true ∨ x = f := by
  show (bitmapSet pool.poolBitmap f true).bit x = true ↔ _
  rw [bit_bitmapSet]
  by_cases hx : x = f <;> simp [hx]

theorem bit_set_false {pool : Pool} (x : Nat) :
    (pool.set f false).poolBitmap.bit x = true ↔ pool.poolBitmap.bit x = true ∧ x ≠ f := by
  show (bitmapSet pool.poolBitmap f false).bit x = true ↔ _
  rw [bit_bitmapSet]
  by_cases hx : x = f <;> simp [hx]

theorem SameShape.pfree_kernel (hG : a.Geometry) (h : SameShape a s)
    (hf : f < 8 * a.kernelPool.poolBitmap.btmpBytesLen) :
    s.pfree (a.frameAddr f) = { s with kernelPool := s.kernelPool.set f false } := by
  obtain ⟨-, -, hlt, -⟩ := hG.frameAddr_spec hf
  have hidx : (a.frameAddr f - s.kernelPool.phyAddrStart) / pgSize = f := by
    rw [h.kstart]
    unfold frameAddr pgSize
    omega
  unfold pfree
  rw [if_neg (by rw [h.ustart]; omega), hidx]

theorem SameShape.pfree_user (hG : a.Geometry) (h : SameShape a s)
    (hf : f < 8 * a.userPool.poolBitmap.btmpBytesLen) :
    s.pfree (a.userFrameAddr f) = { s with userPool := s.userPool.set f false } := by
  obtain ⟨-, hge, -⟩ := hG.userFrameAddr_spec hf
  have hidx : (a.userFrameAddr f - s.userPool.phyAddrStart) / pgSize = f := by
    rw [h.ustart]
    unfold userFrameAddr pgSize
    omega
  unfold pfree
  rw [if_pos (by rw [h.ustart]; omega), hidx]

/-! ## Pages of the heap -/

theorem Frames.heap (h : Frames a s pde pte kown uown) {kown' : Holder → Option Nat} (hs : SameShape a s')
    (hpde : s'.pde = s.pde) (hlow : s'.pte (768 * 1024) = s.pte (768 * 1024)) (hu : s'.userPool = s.userPool)
    (hk : Accounted (· < 8 * a.kernelPool.poolBitmap.btmpBytesLen) (a.kernelPool.poolBitmap.bit · = true)
      (s'.kernelPool.poolBitmap.bit · = true) kown')
    (hp : ∀ j f, kown' (.page j) = some f → s'.pte (heapPage + j) = pteWord (a.frameAddr f))
    (ht : ∀ i, kown' (.table i) = kown (.table i)) : Frames a s' pde pte kown' uown where
  toSameShape := hs
  kernelPde := hpde ▸ h.kernelPde
  low := hlow ▸ h.low
  kernel := hk
  user := hu ▸ h.user
  page := hp
  table i f hi := h.table i f (ht i ▸ hi)
  noTable i hi ho := h.noTable i hi (ht i ▸ ho)
  userPage q f hq := by
    rw [ht]
    exact h.userPage q f hq
  noUserPage q hq hi := h.noUserPage q hq (ht _ ▸ hi)

theorem Frames.takePage (h : Frames a s pde pte kown uown) (hj : kown (.page j) = none)
    (hf : f < 8 * a.kernelPool.poolBitmap.btmpBytesLen) (hb : s.kernelPool.poolBitmap.bit f = false) :
    Frames a (setPte { s with kernelPool := s.kernelPool.set f true } (pageAddr j) (pteWord (a.frameAddr f))) pde pte
      (update kown (.page j) (some f)) uown := by
  refine h.heap ⟨h.kstart, h.ksize, h.klen, h.ustart, h.usize, h.ulen⟩ rfl ?_ rfl
    (h.kernel.take hj (by simp [hb]) hf bit_set_true) (fun i g hi => ?_) fun i => update_of_ne (by simp) ..
  · show update s.pte _ _ _ = _
    rw [pageAddr_div, update_of_ne (by rw [heapPage_eq]; omega)]
  · show update s.pte _ _ _ = _
    rw [pageAddr_div]
    by_cases hij : i = j
    · subst hij
      rw [update_self] at hi
      cases hi
      rw [update_self]
    · rw [update_of_ne (by simpa using hij)] at hi
      rw [update_of_ne (by omega)]
      exact h.page i g hi

theorem Frames.addrV2p (hG : a.Geometry) (h : Frames a s pde pte kown uown)
    (hj : kown (.page j) = some f) :
    s.addrV2p (pageAddr j) = a.frameAddr f := by
  obtain ⟨-, -, -, hw⟩ := hG.frameAddr_spec (h.kernel.in_dom hj)
  unfold PageState.addrV2p pteAt
  rw [pageAddr_div, h.page j f hj, hw, pageAddr_mod, Nat.add_zero]

theorem Frames.givePage (hG : a.Geometry) (h : Frames a s pde pte kown uown)
    (hj : kown (.page j) = some f) :
    Frames a ((s.pfree (a.frameAddr f)).pageTablePteRemove (pageAddr j)) pde pte
      (update kown (.page j) none) uown := by
  rw [h.pfree_kernel hG (h.kernel.in_dom hj)]
  refine h.heap ⟨h.kstart, h.ksize, h.klen, h.ustart, h.usize, h.ulen⟩ rfl ?_ rfl
    (h.kernel.give hj bit_set_false) (fun i g hi => ?_) fun i => update_of_ne (by simp) ..
  · show update s.pte _ _ _ = _
    rw [pageAddr_div, update_of_ne (by rw [heapPage_eq]; omega)]
  · have hij : i ≠ j := fun e => by rw [e, update_self] at hi; cases hi
    rw [update_of_ne (by simpa using hij)] at hi
    show update s.pte _ _ _ = _
    rw [pageAddr_div, update_of_ne (by omega)]
    exact h.page i g hi

structure Adds (kown kown' : Holder → Option Nat) (j n : Nat) : Prop where
  fresh : ∀ i, j ≤ i → i < j + n → kown (.page i) = none
  held : ∀ i, j ≤ i → i < j + n → (kown' (.page i)).isSome
  page : ∀ i, ¬ (j ≤ i ∧ i < j + n) → kown' (.page i) = kown (.page i)
  table : ∀ i, kown' (.table i) = kown (.table i)

theorem Frames.mapPages (hG : a.Geometry) : ∀ n j (s s' : PageState) (kown : Holder → Option Nat), j + n ≤ 2 ^ 15 →
    (∀ i, j ≤ i → i < j + n → kown (.page i) = none) → Frames a s pde pte kown uown →
    mapPages n (pageAddr j) s = .ok (true, s') →
    s'.kernelVaddr = s.kernelVaddr ∧ ∃ kown', Frames a s' pde pte kown' uown ∧ Adds kown kown' j n
  | 0, j, s, s', kown, _, hn, h, hr => by
    cases hr
    exact ⟨rfl, kown, h, hn, fun i h1 h2 => by omega, fun _ _ => rfl, fun _ => rfl⟩
  | n + 1, j, s, s', kown, hlt, hn, h, hr => by
    obtain ⟨r, hp, hr⟩ := bind_ok.mp hr
    obtain ⟨f, hf, hb, rfl⟩ := palloc_ok hp
    obtain ⟨s1, hadd, hr⟩ := bind_ok.mp hr
    rw [h.klen] at hf
    have hpde := h.kernelPde _ (pde_index (j := j) (by omega)).1 (pde_index (j := j) (by omega)).2
    unfold PageState.pageTableAdd at hadd
    rw [if_pos hpde] at hadd
    obtain ⟨_, hc, hadd⟩ := bind_ok.mp hadd
    rw [if_pos (assert_debug_ok.mp hc)] at hadd
    cases hadd
    have hj := hn j le_rfl (by omega)
    have h1 := h.takePage hj hf hb
    rw [pageAddr_succ, h.kstart] at hr
    have hn' : ∀ i, j + 1 ≤ i → i < j + 1 + n → update kown (.page j) (some f) (.page i) = none := by
      intro i h1 h2
      rw [update_of_ne (by simp; omega)]
      exact hn i (by omega) (by omega)
    obtain ⟨hv, kown', h', ha⟩ := Frames.mapPages hG n (j + 1) _ s' _ (by omega) hn' h1 hr
    refine ⟨hv, kown', h', hn, fun i hi1 hi2 => ?_, fun i hi => ?_, fun i => ?_⟩
    · by_cases hij : i = j
      · rw [hij, ha.page j (by omega), update_self]
        rfl
      · exact ha.held i (by omega) (by omega)
    · rw [ha.page i (by omega), update_of_ne (by simp; omega)]
    · rw [ha.table, update_of_ne (by simp)]

def without (kown : Holder → Option Nat) (j n : Nat) : Holder → Option Nat
  | .page i => if j ≤ i ∧ i < j + n then none else kown (.page i)
  | .table i => kown (.table i)

@[simp] theorem without_page (kown : Holder → Option Nat) (j n i : Nat) :
    without kown j n (.page i) = if j ≤ i ∧ i < j + n then none else kown (.page i) := rfl

@[simp] theorem without_table (kown : Holder → Option Nat) (j n i : Nat) : without kown j n (.table i) = kown (.table i) :=
  rfl

theorem without_succ (kown : Holder → Option Nat) (j n : Nat) :
    without (update kown (.page j) none) (j + 1) n = without kown j (n + 1) := by
  funext k
  cases k with
  | table i => rw [without_table, without_table, update_of_ne (by simp)]
  | page i =>
    rw [without_page, without_page]
    by_cases hij : i = j
    · subst hij
      rw [if_neg (by omega), update_self, if_pos (by omega)]
    · rw [update_of_ne (by simpa using hij)]
      have : j + 1 ≤ i ∧ i < j + 1 + n ↔ j ≤ i ∧ i < j + (n + 1) := by omega
      simp only [this]

theorem without_zero (kown : Holder → Option Nat) (j : Nat) : without kown j 0 = kown := by
  funext k
  cases k with
  | table i => rfl
  | page i => exact if_neg (by omega)

theorem Frames.unmapPages (hG : a.Geometry) (isOwn : Nat → Bool) (cond : String) : ∀ n j (s s' : PageState)
    (kown : Holder → Option Nat), (∀ i, j ≤ i → i < j + n → (kown (.page i)).isSome) → Frames a s pde pte kown uown →
    unmapPages isOwn cond n (pageAddr j) s = .ok s' →
    s'.kernelVaddr = s.kernelVaddr ∧ Frames a s' pde pte (without kown j n) uown
  | 0, j, s, s', kown, _, h, hr => by
    cases hr
    rw [without_zero]
    exact ⟨rfl, h⟩
  | n + 1, j, s, s', kown, hs, h, hr => by
    obtain ⟨f, hf⟩ := Option.isSome_iff_exists.mp (hs j le_rfl (by omega))
    unfold PageState.unmapPages at hr
    rw [h.addrV2p hG hf, pageAddr_succ] at hr
    obtain ⟨-, -, hr⟩ := bind_ok.mp hr
    have hs' : ∀ i, j + 1 ≤ i → i < j + 1 + n → (update kown (.page j) none (.page i)).isSome := by
      intro i h1 h2
      rw [update_of_ne (by simp; omega)]
      exact hs i (by omega) (by omega)
    obtain ⟨hv, h'⟩ := Frames.unmapPages hG isOwn cond n (j + 1) _ s' _ hs' (h.givePage hG hf) hr
    rw [without_succ] at h'
    refine ⟨hv.trans ?_, h'⟩
    rw [h.pfree_kernel hG (h.kernel.in_dom hf)]
    rfl

/-! ## `malloc_page` and `mfree_page` for the kernel -/

structure Held (a s : PageState) (pde pte : Nat → UInt32) (kown : Holder → Option Nat) (uown : Nat → Option Nat) :
    Prop extends Frames a s pde pte kown uown where
  vlen : s.kernelVaddr.btmpBytesLen = a.kernelVaddr.btmpBytesLen
  vbit : ∀ j, s.kernelVaddr.bit j = true ↔ a.kernelVaddr.bit j = true ∨ (kown (.page j)).isSome
  vfresh : ∀ j, (kown (.page j)).isSome → a.kernelVaddr.bit j = false

theorem Held.mallocPage (hG : a.Geometry) (h : Held a s pde pte kown uown) {n v : Nat}
    (hr : s.mallocPage n = .ok (some v, s')) :
    ∃ i kown', v = pageAddr i ∧ Held a s' pde pte kown' uown ∧ Adds kown kown' i n := by
  obtain ⟨_, hn, hr⟩ := bind_ok.mp hr
  rw [assert_debug_ok] at hn
  obtain ⟨⟨start, s1⟩, hget, hr⟩ := bind_ok.mp hr
  obtain ⟨r, hs, hget⟩ := bind_ok.mp hget
  cases r with
  | none =>
    cases hget
    cases hr
  | some i =>
    cases hget
    obtain ⟨⟨ok, s2⟩, hmap, hr⟩ := bind_ok.mp hr
    have hso := (bitmapScan_sound hs).1
    have hb := bitmapScan_bound hs
    rw [h.vlen] at hb
    have hpa := hG.pages
    have hno : ∀ j, i ≤ j → j < i + n → kown (.page j) = none := fun j h1 h2 => by
      have := (h.vbit j).not.mp (by simp [hso j h1 h2])
      simpa using fun e => this (.inr e)
    obtain _ | _ := ok
    · cases hr
    cases hr
    have hF : Frames a { s with kernelVaddr := setBits i true n 0 s.kernelVaddr } pde pte kown uown :=
      h.toFrames.heap ⟨h.kstart, h.ksize, h.klen, h.ustart, h.usize, h.ulen⟩ rfl rfl rfl h.kernel h.page fun _ => rfl
    obtain ⟨hv, kown', h', ha⟩ := hF.mapPages hG n i _ s' kown (by omega) hno hmap
    refine ⟨i, kown', rfl, ⟨h', ?_, fun j => ?_, fun j hj => ?_⟩, ha⟩
    · rw [hv]
      exact (setBits_len _ _ _ _ _).trans h.vlen
    · rw [hv]
      rw [bit_setBits, Nat.add_zero]
      by_cases hj : i ≤ j ∧ j < i + n
      · simp [hj, ha.held j hj.1 hj.2]
      · rw [if_neg hj, h.vbit, ha.page j hj]
    · by_cases hij : i ≤ j ∧ j < i + n
      · have := (h.vbit j).not.mp (by simp [hso j hij.1 hij.2])
        simpa using fun e => this (.inl e)
      · rw [ha.page j hij] at hj
        exact h.vfresh j hj

theorem freePages_ok {v n : Nat} (hr : s.freePages v n = .ok s') :
    (1 ≤ n ∧ v % pgSize = 0) ∧ ∃ isOwn cond, PageState.unmapPages isOwn cond n v s = .ok s' := by
  obtain ⟨_, hn, hr⟩ := bind_ok.mp hr
  obtain ⟨-, -, hr⟩ := bind_ok.mp hr
  refine ⟨assert_debug_ok.mp hn, ?_⟩
  split at hr
  · exact ⟨_, _, hr⟩
  · exact ⟨_, _, hr⟩

theorem Held.mfreePage (hG : a.Geometry) (h : Held a s pde pte kown uown) {n : Nat}
    (hs : ∀ j, i ≤ j → j < i + n → (kown (.page j)).isSome)
    (hr : s.mfreePage (pageAddr i) n = .ok s') :
    1 ≤ n ∧ Held a s' pde pte (without kown i n) uown := by
  obtain ⟨s1, hf, hr⟩ := bind_ok.mp hr
  cases hr
  obtain ⟨hn, isOwn, cond, hs1⟩ := freePages_ok hf
  obtain ⟨hv, h'⟩ := h.toFrames.unmapPages hG isOwn cond n i s s1 kown hs hs1
  have hidx : (pageAddr i - kHeapStart) / pgSize = i := by
    unfold pageAddr pgSize
    omega
  refine ⟨hn.1, ⟨?_, ?_, fun j => ?_, fun j hj => ?_⟩⟩
  · exact h'.heap ⟨h'.kstart, h'.ksize, h'.klen, h'.ustart, h'.usize, h'.ulen⟩ rfl rfl rfl h'.kernel h'.page fun _ => rfl
  · show (setBits _ false n 0 s1.kernelVaddr).btmpBytesLen = _
    rw [setBits_len, hv, h.vlen]
  · show (setBits _ false n 0 s1.kernelVaddr).bit j = true ↔ _
    rw [bit_setBits, hidx, Nat.add_zero, hv]
    by_cases hj : i ≤ j ∧ j < i + n
    · simp [hj, h.vfresh j (hs j hj.1 hj.2)]
    · simp [hj, h.vbit j]
  · rw [without_page] at hj
    by_cases hij : i ≤ j ∧ j < i + n
    · simp [hij] at hj
    · rw [if_neg hij] at hj
      exact h.vfresh j hj

/-! ## Pages of the child -/

theorem div_pgSize (q : Nat) : q * pgSize / pgSize = q := Nat.mul_div_cancel q (by decide)

theorem succ_mul_pgSize (q : Nat) : q * pgSize + pgSize = (q + 1) * pgSize := (Nat.succ_mul q pgSize).symm

theorem div_table (q : Nat) : q * pgSize / 2 ^ 22 = q / 1024 := by
  unfold pgSize
  omega

theorem Frames.pde_present (h : Frames a s pde pte kown uown) (hi : i < 768) :
    pde i &&& 1 ≠ 0 ↔ (kown (.table i)).isSome := by
  cases ho : kown (.table i) with
  | none => simp [h.noTable i hi ho]
  | some f => simp [(h.table i f ho).2, pteWord_present]

theorem Frames.pte_present (h : Frames a s pde pte kown uown) {q : Nat} (hq : (kown (.table (q / 1024))).isSome) :
    pte q &&& 1 ≠ 0 ↔ (uown q).isSome := by
  cases ho : uown q with
  | none => simp [h.noUserPage q ho hq]
  | some f => simp [(h.userPage q f ho).2, pteWord_present]

theorem Frames.takeTable (h : Frames a s s.pde s.pte kown uown) (hi : i < 768)
    (ho : kown (.table i) = none) (hf : f < 8 * a.kernelPool.poolBitmap.btmpBytesLen)
    (hb : s.kernelPool.poolBitmap.bit f = false) (hs : s' = { s with
      kernelPool := s.kernelPool.set f true
      pde := update s.pde i (pteWord (a.frameAddr f))
      pte := fun x => if x / 1024 = i then 0 else s.pte x }) :
    Frames a s' s'.pde s'.pte (update kown (.table i) (some f)) uown := by
  subst hs
  have hne : ∀ q g, uown q = some g → q / 1024 ≠ i := fun q g hq e => by
    have := (h.userPage q g hq).1
    rw [e, ho] at this
    cases this
  refine ⟨⟨h.kstart, h.ksize, h.klen, h.ustart, h.usize, h.ulen⟩, fun j h1 h2 => ?_, ?_,
    h.kernel.take ho (by simp [hb]) hf bit_set_true, h.user, fun j g hj => ?_, fun j g hj => ?_, fun j hj hjo => ?_,
    fun q g hq => ?_, fun q hq ht => ?_⟩
  · dsimp only
    rw [update_of_ne (by omega)]
    exact h.kernelPde j h1 h2
  · dsimp only
    rw [if_neg (by omega)]
    exact h.low
  · dsimp only
    rw [if_neg (by rw [heapPage_eq]; omega)]
    exact h.page j g hj
  · dsimp only
    by_cases hji : j = i
    · subst hji
      rw [update_self] at hj ⊢
      cases hj
      exact ⟨hi, rfl⟩
    · rw [update_of_ne (by simpa using hji)] at hj
      rw [update_of_ne hji]
      exact h.table j g hj
  · dsimp only
    by_cases hji : j = i
    · subst hji
      rw [update_self] at hjo
      cases hjo
    · rw [update_of_ne (by simpa using hji)] at hjo
      rw [update_of_ne hji]
      exact h.noTable j hj hjo
  · dsimp only
    have hqi := hne q g hq
    rw [update_of_ne (by simpa using hqi), if_neg hqi]
    exact h.userPage q g hq
  · dsimp only
    by_cases hqi : q / 1024 = i
    · rw [if_pos hqi]
      rfl
    · rw [update_of_ne (by simpa using hqi)] at ht
      rw [if_neg hqi]
      exact h.noUserPage q hq ht

theorem Frames.userChange (h : Frames a s s.pde s.pte kown uown) {q : Nat} {w : UInt32} {o : Option Nat} {p : Pool}
    (hq : q < 768 * 1024) (ht : (kown (.table (q / 1024))).isSome) (hs : SameShape a { s with userPool := p })
    (hu : Accounted (· < 8 * a.userPool.poolBitmap.btmpBytesLen) (a.userPool.poolBitmap.bit · = true)
      (p.poolBitmap.bit · = true) (update uown q o))
    (hso : ∀ f, o = some f → w = pteWord (a.userFrameAddr f)) (hn : o = none → w &&& 1 = 0) :
    Frames a { s with userPool := p, pte := update s.pte q w } s.pde (update s.pte q w) kown
      (update uown q o) := by
  refine ⟨⟨hs.kstart, hs.ksize, hs.klen, hs.ustart, hs.usize, hs.ulen⟩, h.kernelPde, ?_, h.kernel, hu, fun j g hj => ?_,
    h.table, h.noTable, fun x g hx => ?_, fun x hx hxt => ?_⟩
  · show update s.pte q w _ &&& 1 ≠ 0
    rw [update_of_ne (by omega)]
    exact h.low
  · show update s.pte q w _ = _
    rw [update_of_ne (by rw [heapPage_eq]; omega)]
    exact h.page j g hj
  · by_cases hxq : x = q
    · subst hxq
      rw [update_self] at hx ⊢
      exact ⟨ht, hso g hx⟩
    · rw [update_of_ne hxq] at hx ⊢
      exact h.userPage x g hx
  · by_cases hxq : x = q
    · subst hxq
      rw [update_self] at hx ⊢
      exact hn hx
    · rw [update_of_ne hxq] at hx ⊢
      exact h.noUserPage x hx hxt

def Mapping (a s s' : PageState) (kown : Holder → Option Nat) : Prop :=
  s'.kernelVaddr = s.kernelVaddr ∧ ∃ kown' uown', Frames a s' s'.pde s'.pte kown' uown' ∧
    ∀ j, kown' (.page j) = kown (.page j)

theorem Mapping.refl (h : Frames a s s.pde s.pte kown uown) : Mapping a s s kown := ⟨rfl, kown, uown, h, fun _ => rfl⟩

theorem Mapping.trans {s1 : PageState} (h : Mapping a s s1 kown)
    (h' : ∀ kown1 uown1, Frames a s1 s1.pde s1.pte kown1 uown1 → Mapping a s1 s' kown1) : Mapping a s s' kown := by
  obtain ⟨hv, kown1, uown1, h1, hpa⟩ := h
  obtain ⟨hv', kown', uown', h2, hp'⟩ := h' kown1 uown1 h1
  exact ⟨hv'.trans hv, kown', uown', h2, fun j => (hp' j).trans (hpa j)⟩

theorem Frames.addUser (h : Frames a s s.pde s.pte kown uown) {q : Nat} (hq : q ≤ 768 * 1024)
    (hf : f < 8 * a.userPool.poolBitmap.btmpBytesLen) (hb : s.userPool.poolBitmap.bit f = false)
    (hr : pageTableAdd { s with userPool := s.userPool.set f true } (q * pgSize) (a.userFrameAddr f) = .ok s') :
    Mapping a s s' kown := by
  unfold PageState.pageTableAdd pteAt at hr
  simp only [div_table, div_pgSize] at hr
  by_cases hlow : q = 768 * 1024
  · -- The page behind the last one of a process is mapped.
    subst hlow
    rw [if_pos (h.kernelPde 768 (by decide) (by decide))] at hr
    obtain ⟨_, hc, -⟩ := bind_ok.mp hr
    exact absurd (assert_debug_ok.mp hc) h.low
  have hlt : q < 768 * 1024 := by omega
  have hi : q / 1024 < 768 := by omega
  by_cases hp : s.pde (q / 1024) &&& 1 ≠ 0
  · have ht := (h.pde_present hi).mp hp
    rw [if_pos hp] at hr
    obtain ⟨_, hc, hr⟩ := bind_ok.mp hr
    rw [assert_debug_ok] at hc
    rw [if_pos hc] at hr
    cases hr
    have hno : uown q = none := by simpa using (h.pte_present ht).not.mp (by simpa using hc)
    refine ⟨rfl, kown, update uown q (some f), ?_, fun _ => rfl⟩
    unfold setPte
    rw [div_pgSize]
    exact h.userChange hlt ht ⟨h.kstart, h.ksize, h.klen, h.ustart, h.usize, h.ulen⟩
      (h.user.take hno (by simp [hb]) hf bit_set_true) (fun g hg => by cases hg; rfl) fun hn => by cases hn
  · have ho : kown (.table (q / 1024)) = none := by simpa using (h.pde_present hi).not.mp hp
    rw [if_neg hp] at hr
    obtain ⟨s1, hnew, hr⟩ := bind_ok.mp hr
    obtain ⟨r, hpal, hnew⟩ := bind_ok.mp hnew
    obtain ⟨g, hg, hgb, rfl⟩ := palloc_ok hpal
    cases hnew
    obtain ⟨_, -, hr⟩ := bind_ok.mp hr
    cases hr
    rw [h.klen] at hg
    have h1 := h.takeTable hi ho hg hgb rfl
    have ht : (update kown (.table (q / 1024)) (some g) (.table (q / 1024))).isSome := by simp
    have hno : uown q = none := by
      cases hu : uown q with
      | none => rfl
      | some x =>
        have := (h.userPage q x hu).1
        rw [ho] at this
        cases this
    have h2 := h1.userChange (w := pteWord (a.userFrameAddr f)) (o := some f) (p := s.userPool.set f true) hlt ht
      ⟨h.kstart, h.ksize, h.klen, h.ustart, h.usize, h.ulen⟩ (h1.user.take hno (by simp [hb]) hf bit_set_true)
      (fun g hg => by cases hg; rfl) fun hn => by cases hn
    refine ⟨rfl, update kown (.table (q / 1024)) (some g), update uown q (some f), ?_,
      fun j => update_of_ne (by simp) ..⟩
    unfold setPte
    rw [div_pgSize]
    simp only [div_table, Option.getD_some, h.kstart]
    exact h2

theorem Frames.mapUserPages : ∀ n q (s s' : PageState) (kown : Holder → Option Nat) (uown : Nat → Option Nat) ok,
    q + n ≤ 768 * 1024 + 1 → Frames a s s.pde s.pte kown uown → mapUserPages n (q * pgSize) s = .ok (ok, s') →
    Mapping a s s' kown
  | 0, q, s, s', kown, uown, ok, _, h, hr => by
    cases hr
    exact .refl h
  | n + 1, q, s, s', kown, uown, ok, hle, h, hr => by
    obtain ⟨r, hp, hr⟩ := bind_ok.mp hr
    obtain ⟨f, hf, hb, rfl⟩ := palloc_ok hp
    obtain ⟨s1, hadd, hr⟩ := bind_ok.mp hr
    rw [h.ulen] at hf
    rw [h.ustart] at hadd
    rw [succ_mul_pgSize] at hr
    refine (h.addUser (by omega) hf hb hadd).trans fun kown1 uown1 h1 => ?_
    exact Frames.mapUserPages n (q + 1) s1 s' kown1 uown1 ok (by omega) h1 hr

theorem Frames.getAPage (h : Frames a s s.pde s.pte kown uown) {q : Nat} (hq : q < 768 * 1024)
    (hr : s.getAPageWithoutOpvaddrbitmap (q * pgSize) = .ok s') :
    Mapping a s s' kown := by
  obtain ⟨r, hp, hr⟩ := bind_ok.mp hr
  obtain ⟨f, hf, hb, rfl⟩ := palloc_ok hp
  rw [h.ulen] at hf
  rw [h.ustart] at hr
  exact h.addUser (by omega) hf hb hr

theorem Valid.page {g : UserProg} (h : g.Valid) {idxByte idxBit : Nat} (hby : idxByte < g.vaddrBitmap.btmpBytesLen)
    (hbit : idxBit < 8) : ∃ q < 768 * 1024, (idxByte * 8 + idxBit) * pgSize + g.vaddrStart = q * pgSize := by
  have ha := h.aligned
  have hb := h.below
  refine ⟨idxByte * 8 + idxBit + g.vaddrStart / pgSize, ?_, ?_⟩
  · unfold userVaddrEnd pgSize at *
    omega
  · unfold pgSize at *
    omega

theorem Frames.copyByte {g : UserProg} (hg : g.Valid) {idxByte : Nat} (hb : idxByte < g.vaddrBitmap.btmpBytesLen) :
    ∀ n idxBit (s s' : PageState) (kown : Holder → Option Nat) (uown : Nat → Option Nat), idxBit + n = 8 →
    Frames a s s.pde s.pte kown uown → copyByte g idxByte n idxBit s = .ok s' → Mapping a s s' kown
  | 0, _, s, s', kown, uown, _, h, hr => by
    cases hr
    exact .refl h
  | n + 1, idxBit, s, s', kown, uown, hn, h, hr => by
    obtain ⟨s1, hs1, hr⟩ := bind_ok.mp hr
    have h1 : Mapping a s s1 kown := by
      split at hs1
      · obtain ⟨q, hq, e⟩ := Valid.page hg hb (show idxBit < 8 by omega)
        rw [e] at hs1
        exact h.getAPage hq hs1
      · cases hs1
        exact .refl h
    exact h1.trans fun kown1 uown1 h1 => Frames.copyByte hg hb n (idxBit + 1) s1 s' kown1 uown1 (by omega) h1 hr

theorem Frames.copyBytes {g : UserProg} (hg : g.Valid) : ∀ n idxByte (s s' : PageState) (kown : Holder → Option Nat)
    (uown : Nat → Option Nat), idxByte + n = g.vaddrBitmap.btmpBytesLen → Frames a s s.pde s.pte kown uown →
    copyBytes g n idxByte s = .ok s' → Mapping a s s' kown
  | 0, _, s, s', kown, uown, _, h, hr => by
    cases hr
    exact .refl h
  | n + 1, idxByte, s, s', kown, uown, hn, h, hr => by
    obtain ⟨s1, hs1, hr⟩ := bind_ok.mp hr
    have h1 : Mapping a s s1 kown := by
      split at hs1
      · exact h.copyByte hg (by omega) 8 0 s s1 kown uown rfl hs1
      · cases hs1
        exact .refl h
    exact h1.trans fun kown1 uown1 h1 => Frames.copyBytes hg n (idxByte + 1) s1 s' kown1 uown1 (by omega) h1 hr

theorem Frames.unmapUser (hG : a.Geometry) (isOwn : Nat → Bool) (cond : String) : ∀ n q (s s' : PageState)
    (uown : Nat → Option Nat), q + n ≤ 768 * 1024 → (∀ i, q ≤ i → i < q + n → (uown i).isSome) →
    Frames a s s.pde s.pte kown uown → PageState.unmapPages isOwn cond n (q * pgSize) s = .ok s' → Mapping a s s' kown
  | 0, _, s, s', uown, _, _, h, hr => by
    cases hr
    exact .refl h
  | n + 1, q, s, s', uown, hle, hs, h, hr => by
    obtain ⟨f, hf⟩ := Option.isSome_iff_exists.mp (hs q le_rfl (by omega))
    obtain ⟨ht, hpte⟩ := h.userPage q f hf
    have hdom := h.user.in_dom hf
    have ha : s.addrV2p (q * pgSize) = a.userFrameAddr f := by
      unfold PageState.addrV2p pteAt
      rw [div_pgSize, hpte, (hG.userFrameAddr_spec hdom).2.2, Nat.mul_mod_left, Nat.add_zero]
    unfold PageState.unmapPages at hr
    dsimp only at hr
    rw [ha, succ_mul_pgSize, h.pfree_user hG hdom] at hr
    obtain ⟨_, -, hr⟩ := bind_ok.mp hr
    unfold pageTablePteRemove setPte pteAt at hr
    simp only [div_pgSize] at hr
    have h1 := h.userChange (w := s.pte q &&& ~~~1) (o := none) (p := s.userPool.set f false) (by omega) ht
      ⟨h.kstart, h.ksize, h.klen, h.ustart, h.usize, h.ulen⟩ (h.user.give hf bit_set_false) (fun g hg => by cases hg)
      fun _ => and_not_one _
    have hs' : ∀ i, q + 1 ≤ i → i < q + 1 + n → (update uown q none i).isSome := fun i h1 h2 => by
      rw [update_of_ne (by omega)]
      exact hs i (by omega) (by omega)
    have h' := Frames.unmapUser hG isOwn cond n (q + 1) _ s' _ (by omega) hs' h1 hr
    exact h'

/-! ## `release_prog_resource` -/

def tablesFrom (kown : Holder → Option Nat) (d : Nat) : Holder → Option Nat
  | .table i => if i < d then none else kown (.table i)
  | .page j => kown (.page j)

def pagesFrom (uown : Nat → Option Nat) (q : Nat) : Nat → Option Nat := fun x => if x < q then none else uown x

theorem tablesFrom_succ (kown : Holder → Option Nat) (d : Nat) :
    tablesFrom kown (d + 1) = update (tablesFrom kown d) (.table d) none := by
  funext k
  cases k with
  | page j => rw [update_of_ne (by simp)]; rfl
  | table i =>
    by_cases hi : i = d
    · subst hi
      rw [update_self]
      exact if_pos (Nat.lt_succ_self i)
    · rw [update_of_ne (by simpa using hi)]
      show (if i < d + 1 then _ else _) = if i < d then _ else _
      simp only [show i < d + 1 ↔ i < d by omega]

theorem pagesFrom_succ (uown : Nat → Option Nat) (q : Nat) :
    pagesFrom uown (q + 1) = update (pagesFrom uown q) q none := by
  funext x
  unfold pagesFrom
  by_cases hx : x = q
  · subst hx
    rw [update_self, if_pos (Nat.lt_succ_self x)]
  · rw [update_of_ne hx]
    simp only [show x < q + 1 ↔ x < q by omega]

structure Freed (a s0 s : PageState) (kown : Holder → Option Nat) (uown : Nat → Option Nat) (d q : Nat) : Prop
    extends SameShape a s where
  pde : s.pde = s0.pde
  pte : s.pte = s0.pte
  vaddr : s.kernelVaddr = s0.kernelVaddr
  kernel : Accounted (· < 8 * a.kernelPool.poolBitmap.btmpBytesLen) (a.kernelPool.poolBitmap.bit · = true)
    (s.kernelPool.poolBitmap.bit · = true) (tablesFrom kown d)
  user : Accounted (· < 8 * a.userPool.poolBitmap.btmpBytesLen) (a.userPool.poolBitmap.bit · = true)
    (s.userPool.poolBitmap.bit · = true) (pagesFrom uown q)

variable {s0 : PageState} {d q : Nat}

theorem Freed.init (h : Frames a s s.pde s.pte kown uown) : Freed a s s kown uown 0 0 := by
  have hk : tablesFrom kown 0 = kown := by funext k; cases k <;> rfl
  have hu : pagesFrom uown 0 = uown := rfl
  exact ⟨h.toSameShape, rfl, rfl, rfl, hk ▸ h.kernel, hu ▸ h.user⟩

theorem Freed.page (hG : a.Geometry) (h0 : Frames a s0 s0.pde s0.pte kown uown) (h : Freed a s0 s kown uown d q)
    (ht : (kown (.table (q / 1024))).isSome) :
    Freed a s0 (if s.pte q &&& 1 ≠ 0 then s.pfree (pteAddr (s.pte q)) else s) kown uown d (q + 1) := by
  have hq : pagesFrom uown q q = uown q := if_neg (Nat.lt_irrefl q)
  have hp := h0.pte_present ht
  rw [h.pte]
  cases hu : uown q with
  | none =>
    rw [if_neg (by rw [hp, hu]; simp)]
    have he : pagesFrom uown (q + 1) = pagesFrom uown q := by
      rw [pagesFrom_succ, ← hu, ← hq, update_eq_self]
    exact ⟨h.toSameShape, h.pde, h.pte, h.vaddr, h.kernel, he ▸ h.user⟩
  | some f =>
    rw [if_pos (by rw [hp, hu]; rfl), (h0.userPage q f hu).2, (hG.userFrameAddr_spec (h0.user.in_dom hu)).2.2,
      h.pfree_user hG (h0.user.in_dom hu)]
    refine ⟨⟨h.kstart, h.ksize, h.klen, h.ustart, h.usize, h.ulen⟩, h.pde, h.pte, h.vaddr, h.kernel, ?_⟩
    rw [pagesFrom_succ]
    exact h.user.give (hq.trans hu) bit_set_false

theorem Freed.freeTable (hG : a.Geometry) (h0 : Frames a s0 s0.pde s0.pte kown uown) {i : Nat}
    (ht : (kown (.table i)).isSome) : ∀ n q (s : PageState), i * 1024 ≤ q → q + n ≤ (i + 1) * 1024 →
    Freed a s0 s kown uown d q → Freed a s0 (PageState.freeTable n q s) kown uown d (q + n)
  | 0, _, _, _, _, h => h
  | n + 1, q, s, hge, hle, h => by
    have hqi : q / 1024 = i := by omega
    have h1 := h.page hG h0 (hqi ▸ ht)
    have h' := Freed.freeTable hG h0 ht n (q + 1) _ (by omega) (by omega) h1
    rw [Nat.add_assoc, Nat.add_comm 1 n] at h'
    exact h'

theorem Freed.skip (h0 : Frames a s0 s0.pde s0.pte kown uown) (hk : kown (.table d) = none)
    (h : Freed a s0 s kown uown d (d * 1024)) : Freed a s0 s kown uown (d + 1) ((d + 1) * 1024) := by
  have hs : tablesFrom kown d (.table d) = kown (.table d) := if_neg (Nat.lt_irrefl d)
  have hko : tablesFrom kown (d + 1) = tablesFrom kown d := by
    rw [tablesFrom_succ, ← hk, ← hs, update_eq_self]
  have huo : pagesFrom uown ((d + 1) * 1024) = pagesFrom uown (d * 1024) := by
    funext x
    unfold pagesFrom
    by_cases hx : x / 1024 = d
    · have hn : uown x = none := by
        cases hu : uown x with
        | none => rfl
        | some f =>
          have := (h0.userPage x f hu).1
          rw [hx, hk] at this
          cases this
      rw [hn, ite_self, ite_self]
    · simp only [show x < (d + 1) * 1024 ↔ x < d * 1024 by omega]
  exact ⟨h.toSameShape, h.pde, h.pte, h.vaddr, by rw [hko]; exact h.kernel, by rw [huo]; exact h.user⟩

theorem Freed.giveTable (h : Freed a s0 s kown uown d q) (hk : kown (.table d) = some f) :
    Freed a s0 { s with kernelPool := s.kernelPool.set f false } kown uown (d + 1) q := by
  have hs : tablesFrom kown d (.table d) = kown (.table d) := if_neg (Nat.lt_irrefl d)
  refine ⟨⟨h.kstart, h.ksize, h.klen, h.ustart, h.usize, h.ulen⟩, h.pde, h.pte, h.vaddr, ?_, h.user⟩
  rw [tablesFrom_succ]
  exact h.kernel.give (hs.trans hk) bit_set_false

theorem Freed.table (hG : a.Geometry) (h0 : Frames a s0 s0.pde s0.pte kown uown) (hd : d < 768)
    (h : Freed a s0 s kown uown d (d * 1024)) :
    Freed a s0 (if s.pde d &&& 1 ≠ 0 then (PageState.freeTable 1024 (d * 1024) s).pfree (pteAddr (s.pde d)) else s) kown uown
      (d + 1) ((d + 1) * 1024) := by
  have hp := h0.pde_present hd
  rw [h.pde]
  cases hk : kown (.table d) with
  | none =>
    rw [if_neg (by rw [hp, hk]; simp)]
    exact h.skip h0 hk
  | some f =>
    have hdom := h0.kernel.in_dom hk
    have h1 := Freed.freeTable hG h0 (by rw [hk]; rfl) 1024 (d * 1024) s le_rfl (by omega) h
    rw [if_pos (by rw [hp, hk]; rfl), (h0.table d f hk).2, (hG.frameAddr_spec hdom).2.2.2, h1.pfree_kernel hG hdom]
    rw [Nat.succ_mul]
    exact h1.giveTable hk

theorem Freed.freeTables (hG : a.Geometry) (h0 : Frames a s0 s0.pde s0.pte kown uown) : ∀ n d (s : PageState),
    d + n ≤ 768 → Freed a s0 s kown uown d (d * 1024) →
    Freed a s0 (PageState.freeTables n d s) kown uown (d + n) ((d + n) * 1024)
  | 0, _, _, _, h => h
  | n + 1, d, s, hle, h => by
    have h' := Freed.freeTables hG h0 n (d + 1) _ (by omega) (h.table hG h0 (by omega))
    rw [Nat.add_assoc, Nat.add_comm 1 n] at h'
    exact h'

def heapOnly (kown : Holder → Option Nat) : Holder → Option Nat
  | .page j => kown (.page j)
  | .table _ => none

theorem Frames.freeTables (hG : a.Geometry) (h : Frames a s s.pde s.pte kown uown) :
    (PageState.freeTables 768 0 s).kernelVaddr = s.kernelVaddr ∧
      Frames a (PageState.freeTables 768 0 s) (fun _ => 0) (fun _ => 0) (heapOnly kown) fun _ => none := by
  have hF := (Freed.init h).freeTables hG h 768 0 s (by decide)
  have hko : tablesFrom kown 768 = heapOnly kown := by
    funext k
    cases k with
    | page j => rfl
    | table i =>
      show (if i < 768 then none else kown (.table i)) = none
      split
      · rfl
      · next hi =>
        cases hk : kown (.table i) with
        | none => rfl
        | some f => exact absurd (h.table i f hk).1 hi
  have huo : pagesFrom uown (768 * 1024) = fun _ => none := by
    funext x
    unfold pagesFrom
    split
    · rfl
    · next hx =>
      cases hu : uown x with
      | none => rfl
      | some f =>
        obtain ⟨g, hg⟩ := Option.isSome_iff_exists.mp (h.userPage x f hu).1
        exact absurd (h.table _ g hg).1 (by omega)
  refine ⟨hF.vaddr, hF.toSameShape, ?_, ?_, hko ▸ hF.kernel, huo ▸ hF.user, fun j f hj => ?_, nofun,
    fun _ _ _ => rfl, nofun, nofun⟩
  · rw [hF.pde]
    exact h.kernelPde
  · rw [hF.pte]
    exact h.low
  · rw [hF.pte]
    exact h.page j f hj

/-! ## The tables of the child made active -/

theorem Frames.under {g : UserProg} (h : Frames a s g.pde g.pte kown uown) :
    Frames a (s.under g) (s.under g).pde (s.under g).pte kown uown := by
  have hpte : ∀ q, (kown (.table (q / 1024))).isSome → (s.under g).pte q = g.pte q := fun q hq => by
    obtain ⟨f, hf⟩ := Option.isSome_iff_exists.mp hq
    have := (h.table _ f hf).1
    exact if_pos (by omega)
  refine ⟨⟨h.kstart, h.ksize, h.klen, h.ustart, h.usize, h.ulen⟩, fun i h1 h2 => ?_, ?_, h.kernel, h.user, fun j f hj => ?_,
    fun i f hi => ?_, fun i hi ho => ?_, fun q f hq => ?_, fun q hq ht => ?_⟩
  · rw [show (s.under g).pde i = s.pde i from if_neg (by omega)]
    exact h.kernelPde i h1 h2
  · unfold PageState.under
    exact h.low
  · rw [show (s.under g).pte (heapPage + j) = s.pte (heapPage + j) from if_neg (by rw [heapPage_eq]; omega)]
    exact h.page j f hj
  · obtain ⟨hlt, he⟩ := h.table i f hi
    exact ⟨hlt, (if_pos hlt).trans he⟩
  · rw [show (s.under g).pde i = g.pde i from if_pos hi]
    exact h.noTable i hi ho
  · obtain ⟨ht, he⟩ := h.userPage q f hq
    exact ⟨ht, (hpte q ht).trans he⟩
  · rw [hpte q ht]
    exact h.noUserPage q hq ht

theorem Held.mapping {s1 : PageState} (h : Held a s pde pte kown uown) (hv : s1.kernelVaddr = s.kernelVaddr)
    (hm : Mapping a s1 s' kown) : ∃ kown' uown', Held a s' s'.pde s'.pte kown' uown' ∧
      ∀ j, kown' (.page j) = kown (.page j) := by
  obtain ⟨hv', kown', uown', h', hpa⟩ := hm
  rw [hv] at hv'
  refine ⟨kown', uown', ⟨h', hv' ▸ h.vlen, fun j => ?_, fun j hj => h.vfresh j (hpa j ▸ hj)⟩, hpa⟩
  rw [hv', hpa]
  exact h.vbit j

theorem Held.init (hs : SameShape a a) (hpde : ∀ i, 768 ≤ i → i ≤ 1022 → a.pde i &&& 1 ≠ 0)
    (hlow : a.pte (768 * 1024) &&& 1 ≠ 0) : Held a a (fun _ => 0) (fun _ => 0) (fun _ => none) fun _ => none where
  toSameShape := hs
  kernelPde := hpde
  low := hlow
  kernel := .start ..
  user := .start ..
  page := nofun
  table := nofun
  noTable _ _ _ := rfl
  userPage := nofun
  noUserPage _ _ _ := rfl
  vlen := rfl
  vbit := by simp
  vfresh := nofun

theorem Held.user_drained (h : Held a s pde pte kown uown) (hu : ∀ q, uown q = none) : s.userPool = a.userPool := by
  have hub : s.userPool.poolBitmap = a.userPool.poolBitmap := by
    refine Bitmap.ext_bit h.ulen fun f => ?_
    rw [Bool.eq_iff_iff, h.user.used_iff]
    simp [hu]
  rw [Pool.mk.injEq]
  exact ⟨hub, h.ustart, h.usize⟩

theorem Held.kernel_drained (h : Held a s pde pte kown uown) (hk : ∀ k, kown k = none) :
    s.kernelPool = a.kernelPool ∧ s.kernelVaddr = a.kernelVaddr := by
  have hkb : s.kernelPool.poolBitmap = a.kernelPool.poolBitmap := by
    refine Bitmap.ext_bit h.klen fun f => ?_
    rw [Bool.eq_iff_iff, h.kernel.used_iff]
    simp [hk]
  refine ⟨?_, Bitmap.ext_bit h.vlen fun j => ?_⟩
  · rw [Pool.mk.injEq]
    exact ⟨hkb, h.kstart, h.ksize⟩
  · rw [Bool.eq_iff_iff, h.vbit, hk]
    simp

end PageState

end OperateSystem
