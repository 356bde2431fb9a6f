import OperateSystem.Mmu
import OperateSystem.PagesSound

/-!
# Where the pools lie

`mem_pool_init` in the widths of its variables. The number of free pages passes
through a `uint16_t`, is halved and rounded down to whole bytes of the bitmaps,
and the three bitmaps are laid end to end in the kernel's memory.
-/

namespace OperateSystem

structure BitmapAt where
  btmpBytesLen : UInt32
  bits : UInt32

def BitmapAt.init (btmp : BitmapAt) (mem : Mem) : Mem := fill mem btmp.bits.toNat btmp.btmpBytesLen.toNat 0

structure PoolAt where
  poolBitmap : BitmapAt
  phyAddrStart : UInt32
  poolSize : UInt32

/-- What `mem_pool_init` sets: `kernel_pool`, `user_pool`, `kernel_vaddr` and the
memory of their bitmaps. -/
structure MemPools where
  mem : Mem
  kernelPool : PoolAt
  userPool : PoolAt
  vaddrBitmap : BitmapAt
  vaddrStart : UInt32

def memBitmapBase : UInt32 := 0xc009a000

def mainPcb : UInt32 := 0xc009e000

namespace MemPools

def usedMem : UInt32 := 4096 * 256 + 0x100000

def allFreePages (allMem : UInt32) : UInt16 := ((allMem - usedMem) / 4096).toUInt16

def kernelFreePages (allMem : UInt32) : UInt16 := allFreePages allMem / 2

def userFreePages (allMem : UInt32) : UInt16 := allFreePages allMem - kernelFreePages allMem

def memPoolInit (mem : Mem) (allMem : UInt32) : MemPools :=
  let kbmLength := (kernelFreePages allMem / 8).toUInt32
  let ubmLength := (userFreePages allMem / 8).toUInt32
  let kernelBitmap : BitmapAt := ⟨kbmLength, memBitmapBase⟩
  let userBitmap : BitmapAt := ⟨ubmLength, memBitmapBase + kbmLength⟩
  let vaddrBitmap : BitmapAt := ⟨kbmLength, memBitmapBase + kbmLength + ubmLength⟩
  { mem := vaddrBitmap.init (userBitmap.init (kernelBitmap.init mem))
    kernelPool := ⟨kernelBitmap, usedMem, (kernelFreePages allMem).toUInt32 * 4096⟩
    userPool := ⟨userBitmap, usedMem + (kernelFreePages allMem).toUInt32 * 4096, (userFreePages allMem).toUInt32 * 4096⟩
    vaddrBitmap := vaddrBitmap
    vaddrStart := .ofNat kHeapStart }

end MemPools

/-! ## What the fields stand for -/

def BitmapAt.bytes (btmp : BitmapAt) : Finset Nat := .Ico btmp.bits.toNat (btmp.bits.toNat + btmp.btmpBytesLen.toNat)

def PoolAt.frames (p : PoolAt) : Finset Nat :=
  (Finset.range (8 * p.poolBitmap.btmpBytesLen.toNat)).image fun i => i * pgSize + p.phyAddrStart.toNat

/-- The whole page frames above the memory in use, whether a pool has them or not. -/
def freeFrames (allMem : UInt32) : Finset Nat :=
  (Finset.range ((allMem.toNat - 0x200000) / pgSize)).image fun i => i * pgSize + 0x200000

def MemPools.lost (P : MemPools) (allMem : UInt32) : Finset Nat := freeFrames allMem \ (P.kernelPool.frames ∪ P.userPool.frames)

def PoolAt.Describes (p : PoolAt) (pool : Pool) : Prop :=
  pool.poolBitmap.btmpBytesLen = p.poolBitmap.btmpBytesLen.toNat ∧ pool.phyAddrStart = p.phyAddrStart.toNat

/-- `free_a_phy_page` has the body of `pfree`. -/
def Vm.freeAPhyPage {τ : Type} (s : Vm τ) (phyaddr : Nat) : Vm τ := s.pfree phyaddr

theorem BitmapAt.mem_bytes {btmp : BitmapAt} {a : Nat} :
    a ∈ btmp.bytes ↔ btmp.bits.toNat ≤ a ∧ a < btmp.bits.toNat + btmp.btmpBytesLen.toNat := Finset.mem_Ico

theorem PoolAt.mem_frames {p : PoolAt} {a : Nat} :
    a ∈ p.frames ↔ ∃ i < 8 * p.poolBitmap.btmpBytesLen.toNat, i * pgSize + p.phyAddrStart.toNat = a := by
  simp [frames]

theorem frame_injective (start : Nat) : Function.Injective fun i : Nat => i * pgSize + start := by
  intro i j h
  have h : i * 4096 + start = j * 4096 + start := h
  omega

theorem PoolAt.card_frames (p : PoolAt) : p.frames.card = 8 * p.poolBitmap.btmpBytesLen.toNat := by
  rw [frames, Finset.card_image_of_injective _ (frame_injective _), Finset.card_range]

theorem card_freeFrames (allMem : UInt32) : (freeFrames allMem).card = (allMem.toNat - 0x200000) / pgSize := by
  rw [freeFrames, Finset.card_image_of_injective _ (frame_injective _), Finset.card_range]

namespace MemPools

/-! ## Widths -/

theorem allFreePages_toNat (allMem : UInt32) : (allFreePages allMem).toNat = PageState.allFreePages allMem := by
  unfold allFreePages PageState.allFreePages
  rw [UInt32.toNat_toUInt16, UInt32.toNat_div]
  rfl

theorem kernelFreePages_toNat (allMem : UInt32) : (kernelFreePages allMem).toNat = PageState.kernelFreePages allMem := by
  unfold kernelFreePages PageState.kernelFreePages
  rw [UInt16.toNat_div, allFreePages_toNat]
  rfl

theorem userFreePages_toNat (allMem : UInt32) : (userFreePages allMem).toNat = PageState.userFreePages allMem := by
  have hle : kernelFreePages allMem ≤ allFreePages allMem := by
    rw [UInt16.le_iff_toNat_le, kernelFreePages_toNat, allFreePages_toNat]
    exact Nat.div_le_self _ 2
  unfold userFreePages PageState.userFreePages
  rw [UInt16.toNat_sub_of_le _ _ hle, kernelFreePages_toNat, allFreePages_toNat]

theorem halves (allMem : UInt32) : PageState.kernelFreePages allMem < 2 ^ 15 ∧ PageState.userFreePages allMem ≤ 2 ^ 15 ∧
    PageState.kernelFreePages allMem + PageState.userFreePages allMem = PageState.allFreePages allMem := by
  have := PageState.allFreePages_lt allMem
  unfold PageState.userFreePages PageState.kernelFreePages
  omega

theorem allFreePages_le {allMem : UInt32} (h : 0x200000 ≤ allMem.toNat) :
    PageState.allFreePages allMem = (allMem.toNat - 0x200000) / pgSize % 2 ^ 16 := by
  have hle : (0x200000 : UInt32) ≤ allMem := UInt32.le_iff_toNat_le.mpr h
  unfold PageState.allFreePages
  rw [UInt32.toNat_sub_of_le _ _ hle]
  rfl

section
variable (mem : Mem) (allMem : UInt32)

theorem kernelLen : (memPoolInit mem allMem).kernelPool.poolBitmap.btmpBytesLen.toNat = PageState.kernelFreePages allMem / 8 := by
  show (kernelFreePages allMem / 8).toUInt32.toNat = _
  rw [UInt16.toNat_toUInt32, UInt16.toNat_div, kernelFreePages_toNat]
  rfl

theorem userLen : (memPoolInit mem allMem).userPool.poolBitmap.btmpBytesLen.toNat = PageState.userFreePages allMem / 8 := by
  show (userFreePages allMem / 8).toUInt32.toNat = _
  rw [UInt16.toNat_toUInt32, UInt16.toNat_div, userFreePages_toNat]
  rfl

theorem vaddrLen : (memPoolInit mem allMem).vaddrBitmap.btmpBytesLen.toNat = PageState.kernelFreePages allMem / 8 :=
  kernelLen mem allMem

theorem kernelStart : (memPoolInit mem allMem).kernelPool.phyAddrStart.toNat = 0x200000 := rfl

theorem userStart :
    (memPoolInit mem allMem).userPool.phyAddrStart.toNat = 0x200000 + PageState.kernelFreePages allMem * pgSize := by
  have hlt := (halves allMem).1
  show (usedMem + (kernelFreePages allMem).toUInt32 * 4096).toNat = _
  rw [UInt32.toNat_add, UInt32.toNat_mul, UInt16.toNat_toUInt32, kernelFreePages_toNat]
  unfold pgSize
  simp only [UInt32.reduceToNat, show usedMem.toNat = 0x200000 from rfl]
  omega

theorem kernelBits : (memPoolInit mem allMem).kernelPool.poolBitmap.bits.toNat = 0xc009a000 := rfl

theorem userBits : (memPoolInit mem allMem).userPool.poolBitmap.bits.toNat =
    0xc009a000 + PageState.kernelFreePages allMem / 8 := by
  have hk := (halves allMem).1
  show (memBitmapBase + (memPoolInit mem allMem).kernelPool.poolBitmap.btmpBytesLen).toNat = _
  rw [UInt32.toNat_add, kernelLen, show memBitmapBase.toNat = 0xc009a000 from rfl]
  omega

theorem vaddrBits : (memPoolInit mem allMem).vaddrBitmap.bits.toNat =
    0xc009a000 + PageState.kernelFreePages allMem / 8 + PageState.userFreePages allMem / 8 := by
  obtain ⟨hk, hu, -⟩ := halves allMem
  show ((memPoolInit mem allMem).userPool.poolBitmap.bits + (memPoolInit mem allMem).userPool.poolBitmap.btmpBytesLen).toNat = _
  rw [UInt32.toNat_add, userBits, userLen]
  omega

theorem describes (s : PageState) :
    (memPoolInit mem allMem).kernelPool.Describes (s.memPoolInit allMem).kernelPool ∧
      (memPoolInit mem allMem).userPool.Describes (s.memPoolInit allMem).userPool ∧
      (s.memPoolInit allMem).kernelVaddr.btmpBytesLen = (memPoolInit mem allMem).vaddrBitmap.btmpBytesLen.toNat :=
  ⟨⟨(kernelLen mem allMem).symm, rfl⟩, ⟨(userLen mem allMem).symm, (userStart mem allMem).symm⟩,
    (vaddrLen mem allMem).symm⟩

/-! ## The bitmaps -/

theorem bytes_apart : Disjoint (memPoolInit mem allMem).kernelPool.poolBitmap.bytes (memPoolInit mem allMem).userPool.poolBitmap.bytes ∧
    Disjoint (memPoolInit mem allMem).kernelPool.poolBitmap.bytes (memPoolInit mem allMem).vaddrBitmap.bytes ∧
    Disjoint (memPoolInit mem allMem).userPool.poolBitmap.bytes (memPoolInit mem allMem).vaddrBitmap.bytes := by
  simp only [Finset.disjoint_left, BitmapAt.mem_bytes, kernelBits, userBits, vaddrBits, kernelLen, userLen, vaddrLen]
  refine ⟨?_, ?_, ?_⟩ <;> intros <;> omega

theorem bytes_inside {a : Nat}
    (h : a ∈ (memPoolInit mem allMem).kernelPool.poolBitmap.bytes ∪ (memPoolInit mem allMem).userPool.poolBitmap.bytes ∪
      (memPoolInit mem allMem).vaddrBitmap.bytes) : memBitmapBase.toNat ≤ a ∧ a < mainPcb.toNat := by
  obtain ⟨hk, hu, -⟩ := halves allMem
  simp only [Finset.mem_union, BitmapAt.mem_bytes, kernelBits, userBits, vaddrBits, kernelLen, userLen, vaddrLen] at h
  rw [show memBitmapBase.toNat = 0xc009a000 from rfl, show mainPcb.toNat = 0xc009e000 from rfl]
  omega

/-! ## The frames -/

theorem frames_apart : Disjoint (memPoolInit mem allMem).kernelPool.frames (memPoolInit mem allMem).userPool.frames := by
  simp only [Finset.disjoint_left, PoolAt.mem_frames, kernelStart, userStart, kernelLen, userLen]
  rintro a ⟨i, hi, rfl⟩ ⟨j, hj, heq⟩
  unfold pgSize at heq
  omega

variable {allMem}

theorem frames_inside (h : 0x200000 ≤ allMem.toNat) {a : Nat}
    (ha : a ∈ (memPoolInit mem allMem).kernelPool.frames ∪ (memPoolInit mem allMem).userPool.frames) :
    0x200000 ≤ a ∧ a + pgSize ≤ allMem.toNat := by
  have hall := allFreePages_le h
  obtain ⟨-, -, hsum⟩ := halves allMem
  simp only [Finset.mem_union, PoolAt.mem_frames, kernelStart, userStart, kernelLen, userLen] at ha
  unfold pgSize at *
  rcases ha with ⟨i, hi, rfl⟩ | ⟨i, hi, rfl⟩ <;> omega

theorem frames_free (h : 0x200000 ≤ allMem.toNat) :
    (memPoolInit mem allMem).kernelPool.frames ∪ (memPoolInit mem allMem).userPool.frames ⊆ freeFrames allMem := by
  intro a ha
  have hin := frames_inside mem h ha
  have hpa : a % pgSize = 0 := by
    simp only [Finset.mem_union, PoolAt.mem_frames, kernelStart, userStart] at ha
    unfold pgSize at *
    rcases ha with ⟨i, -, rfl⟩ | ⟨i, -, rfl⟩ <;> omega
  unfold pgSize at hin hpa
  refine Finset.mem_image.mpr ⟨(a - 0x200000) / pgSize, Finset.mem_range.mpr ?_, ?_⟩ <;> unfold pgSize <;> omega

theorem card_lost (h : 0x200000 ≤ allMem.toNat) : ((memPoolInit mem allMem).lost allMem).card =
    (allMem.toNat - 0x200000) / pgSize - (8 * (PageState.kernelFreePages allMem / 8) + 8 * (PageState.userFreePages allMem / 8)) := by
  unfold lost
  rw [Finset.card_sdiff_of_subset (frames_free mem h), Finset.card_union_of_disjoint (frames_apart mem allMem),
    card_freeFrames, PoolAt.card_frames, PoolAt.card_frames, kernelLen, userLen]

/-- From 258 MB on the number of free pages does not fit its `uint16_t`. -/
theorem memPoolInit_lost_iff (hmin : 0x200000 + 16 * pgSize ≤ allMem.toNat) (hmax : allMem.toNat ≤ 0x20000000) :
    ((memPoolInit mem allMem).lost allMem).card ≤ 14 ↔ allMem.toNat < 0x10200000 := by
  have h : 0x200000 ≤ allMem.toNat := by omega
  have hall := allFreePages_le h
  obtain ⟨-, -, hsum⟩ := halves allMem
  rw [card_lost mem h]
  unfold pgSize at *
  omega

theorem memPoolInit_lost_32MB : ((memPoolInit (fun _ => 0) 0x2000000).lost 0x2000000).card ≤ 14 :=
  (memPoolInit_lost_iff (fun _ => 0) (by decide) (by decide)).mpr (by decide)

theorem memPoolInit_lost_512MB : ((memPoolInit (fun _ => 0) 0x20000000).lost 0x20000000).card = 65536 := by
  rw [card_lost _ (by decide)]
  decide

end

/-! ## Taking and returning a frame -/

section
variable {τ : Type} {mem : Mem} {allMem : UInt32} {b : Build}

structure Laid (mem : Mem) (allMem : UInt32) (s : Vm τ) : Prop where
  kernel : (memPoolInit mem allMem).kernelPool.Describes s.kernelPool
  user : (memPoolInit mem allMem).userPool.Describes s.userPool

def pool (P : MemPools) : PoolFlags → PoolAt
  | .pfKernel => P.kernelPool
  | .pfUser => P.userPool

theorem Laid.pool {s : Vm τ} (h : Laid mem allMem s) (pf : PoolFlags) : ((memPoolInit mem allMem).pool pf).Describes (s.pool pf) := by
  cases pf with
  | pfKernel => exact h.kernel
  | pfUser => exact h.user

theorem Laid.pfree_frame {s : Vm τ} (h : Laid mem allMem s) (pf : PoolFlags) {i : Nat}
    (hi : i < 8 * ((memPoolInit mem allMem).pool pf).poolBitmap.btmpBytesLen.toNat) :
    s.pfree (i * pgSize + ((memPoolInit mem allMem).pool pf).phyAddrStart.toNat) = s.setPool pf ((s.pool pf).set i false) := by
  have hu := h.user.2.trans (userStart mem allMem)
  have hpa : ∀ start, (i * pgSize + start - start) / pgSize = i := fun start => by
    rw [Nat.add_sub_cancel]
    exact Nat.mul_div_cancel _ (by decide)
  rw [← (h.pool pf).2]
  cases pf with
  | pfKernel =>
    have hi : i < 8 * (PageState.kernelFreePages allMem / 8) := by rwa [← kernelLen mem allMem]
    have hlow : ¬ s.userPool.phyAddrStart ≤ i * pgSize + s.kernelPool.phyAddrStart := by
      rw [hu, h.kernel.2, kernelStart]
      unfold pgSize
      omega
    refine (if_neg hlow).trans ?_
    rw [Vm.pool, hpa]
  | pfUser =>
    refine (if_pos (Nat.le_add_left s.userPool.phyAddrStart _)).trans ?_
    rw [Vm.pool, hpa]

/-- **`mem_pool_init` lays the pools and bitmaps out apart**, and a frame comes from the pool that it
goes back to. -/
theorem memPoolInit_separates (hmin : 0x200000 ≤ allMem.toNat) :
    Disjoint (memPoolInit mem allMem).kernelPool.frames (memPoolInit mem allMem).userPool.frames ∧
    (∀ a ∈ (memPoolInit mem allMem).kernelPool.frames ∪ (memPoolInit mem allMem).userPool.frames,
      0x200000 ≤ a ∧ a + pgSize ≤ allMem.toNat) ∧
    (Disjoint (memPoolInit mem allMem).kernelPool.poolBitmap.bytes (memPoolInit mem allMem).userPool.poolBitmap.bytes ∧
      Disjoint (memPoolInit mem allMem).kernelPool.poolBitmap.bytes (memPoolInit mem allMem).vaddrBitmap.bytes ∧
      Disjoint (memPoolInit mem allMem).userPool.poolBitmap.bytes (memPoolInit mem allMem).vaddrBitmap.bytes) ∧
    (∀ a ∈ (memPoolInit mem allMem).kernelPool.poolBitmap.bytes ∪ (memPoolInit mem allMem).userPool.poolBitmap.bytes ∪
        (memPoolInit mem allMem).vaddrBitmap.bytes, 0xc009a000 ≤ a ∧ a < 0xc009e000) ∧
    ∀ (s : Vm τ) (b : Build) (pf : PoolFlags) (a : Nat) (p : Pool), Laid mem allMem s →
      palloc b (s.pool pf) = .ok (some a, p) →
      ∃ i, (s.pool pf).poolBitmap.bit i = false ∧ p = (s.pool pf).set i true ∧
        ∀ t : Vm τ, Laid mem allMem t →
          t.pfree a = t.setPool pf ((t.pool pf).set i false) ∧ t.freeAPhyPage a = t.setPool pf ((t.pool pf).set i false) := by
  refine ⟨frames_apart mem allMem, fun a => frames_inside mem hmin, bytes_apart mem allMem, fun a => bytes_inside mem allMem, ?_⟩
  intro s b pf a p hs ha
  obtain ⟨i, hi, hbit, rfl, hp⟩ := palloc_some ha
  rw [(hs.pool pf).1] at hi
  refine ⟨i, hbit, hp, fun t ht => ?_⟩
  rw [(hs.pool pf).2]
  exact ⟨ht.pfree_frame pf hi, ht.pfree_frame pf hi⟩

theorem memPoolInit_separates_4GB :
    Disjoint (memPoolInit (fun _ => 0) 0xfffff000).kernelPool.frames (memPoolInit (fun _ => 0) 0xfffff000).userPool.frames :=
  (memPoolInit_separates (τ := Unit) (by decide)).1

end

end MemPools

end OperateSystem
