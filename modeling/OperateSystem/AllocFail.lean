import OperateSystem.PageAdd

/-!
# What a failed allocation leaves behind

Without `ASSERT`s `malloc_page` and `get_a_page` return `NULL` when the pool has
no frame. Neither gives back the virtual addresses it has marked before, nor the
frames and mappings of earlier pages.
-/

namespace OperateSystem

open Function

namespace Vm

variable {τ : Type} {s s' : Vm τ} {b : Build}
variable {vaddr : Nat} {pf : PoolFlags} {cur : τ}

/-! ## The pools of virtual addresses -/

def vaddrPool (s : Vm τ) (cur : τ) : PoolFlags → VirtualAddr
  | .pfKernel => s.kernelVaddr
  | .pfUser => s.userprogVaddr cur

structure SameVaddr (s s' : Vm τ) : Prop where
  kernel : s'.kernelVaddr = s.kernelVaddr
  user : s'.userprogVaddr = s.userprogVaddr

theorem SameVaddr.refl (s : Vm τ) : SameVaddr s s := ⟨rfl, rfl⟩

theorem SameVaddr.trans {s1 : Vm τ} (h : SameVaddr s s1) (h' : SameVaddr s1 s') : SameVaddr s s' :=
  ⟨h'.kernel.trans h.kernel, h'.user.trans h.user⟩

theorem SameVaddr.vaddrPool (h : SameVaddr s s') (cur : τ) (pf : PoolFlags) : s'.vaddrPool cur pf = s.vaddrPool cur pf := by
  cases pf with
  | pfKernel => exact h.kernel
  | pfUser => exact congrFun h.user cur

theorem sameVaddr_setPool (pf : PoolFlags) (pool : Pool) : SameVaddr s (s.setPool pf pool) := by
  cases pf <;> exact ⟨rfl, rfl⟩

theorem sameVaddr_store {w : UInt32} (h : s.store vaddr w = .ok s') : SameVaddr s s' := by
  obtain ⟨f, -, h⟩ := bind_ok.mp h
  cases h
  exact ⟨rfl, rfl⟩

theorem sameVaddr_clearPage (h : s.clearPage vaddr = .ok s') : SameVaddr s s' := by
  obtain ⟨f, -, h⟩ := bind_ok.mp h
  cases h
  exact ⟨rfl, rfl⟩

theorem sameVaddr_clearPages : ∀ {n vaddr : Nat} {s : Vm τ}, clearPages n vaddr s = .ok s' → SameVaddr s s'
  | 0, _, _, h => by
    cases h
    exact .refl _
  | n + 1, vaddr, s, h => by
    obtain ⟨s1, h1, h⟩ := bind_ok.mp h
    exact (sameVaddr_clearPage h1).trans (sameVaddr_clearPages h)

theorem sameVaddr_pageTableAdd {phyaddr : Nat} (h : s.pageTableAdd b vaddr phyaddr = .ok s') :
    SameVaddr s s' := by
  unfold Vm.pageTableAdd at h
  obtain ⟨pde, -, h⟩ := bind_ok.mp h
  split at h
  · obtain ⟨pte, -, h⟩ := bind_ok.mp h
    obtain ⟨_, -, h⟩ := bind_ok.mp h
    split at h
    · exact sameVaddr_store h
    · cases h
  · obtain ⟨s1, hnew, h⟩ := bind_ok.mp h
    obtain ⟨pte, -, h⟩ := bind_ok.mp h
    obtain ⟨_, -, h⟩ := bind_ok.mp h
    refine SameVaddr.trans ?_ (sameVaddr_store h)
    unfold Vm.pageTableNew at hnew
    obtain ⟨⟨frame, pool⟩, -, hnew⟩ := bind_ok.mp hnew
    obtain ⟨s2, hs, hnew⟩ := bind_ok.mp hnew
    exact ((sameVaddr_setPool _ _).trans (sameVaddr_store hs)).trans (sameVaddr_clearPage hnew)

theorem mapPage_cases {ok : Bool} (h : s.mapPage b pf vaddr = .ok (ok, s')) :
    ok = false ∧ s' = s ∨ ok = true ∧ SameVaddr s s' := by
  unfold Vm.mapPage at h
  obtain ⟨⟨frame, pool⟩, -, h⟩ := bind_ok.mp h
  cases frame with
  | none =>
    cases h
    exact .inl ⟨rfl, rfl⟩
  | some phyaddr =>
    obtain ⟨s1, hadd, h⟩ := bind_ok.mp h
    cases h
    exact .inr ⟨rfl, (sameVaddr_setPool _ _).trans (sameVaddr_pageTableAdd hadd)⟩

theorem sameVaddr_mapPages {pf : PoolFlags} {ok : Bool} : ∀ {n vaddr : Nat} {s : Vm τ},
    Vm.mapPages b pf n vaddr s = .ok (ok, s') → SameVaddr s s'
  | 0, _, _, h => by
    cases h
    exact .refl _
  | n + 1, vaddr, s, h => by
    unfold Vm.mapPages at h
    obtain ⟨⟨ok1, s1⟩, hpa, hr⟩ := bind_ok.mp h
    rcases mapPage_cases hpa with ⟨rfl, rfl⟩ | ⟨rfl, hs⟩
    · cases hr
      exact .refl _
    · exact hs.trans (sameVaddr_mapPages hr)

variable [DecidableEq τ]

def setVaddrPool (s : Vm τ) (cur : τ) (pf : PoolFlags) (v : VirtualAddr) : Vm τ :=
  match pf with
  | .pfKernel => { s with kernelVaddr := v }
  | .pfUser => s.setUserprog cur v

theorem setVaddrPool_self (cur : τ) (pf : PoolFlags) : s.setVaddrPool cur pf (s.vaddrPool cur pf) = s := by
  cases pf with
  | pfKernel => rfl
  | pfUser =>
    show { s with userprogVaddr := update s.userprogVaddr cur (s.userprogVaddr cur) } = s
    rw [update_eq_self]

theorem vaddrPool_set (cur : τ) (pf : PoolFlags) (v : VirtualAddr) : (s.setVaddrPool cur pf v).vaddrPool cur pf = v := by
  cases pf with
  | pfKernel => rfl
  | pfUser => exact update_self ..

theorem vaddrGet_cases {n : Nat} {o : Option Nat} (h : s.vaddrGet b cur pf n = .ok (o, s')) :
    o = none ∧ s' = s ∧ bitmapScan b (s.vaddrPool cur pf).vaddrBitmap n = .ok none ∨
    ∃ i, bitmapScan b (s.vaddrPool cur pf).vaddrBitmap n = .ok (some i) ∧ o.isSome ∧
      s' = s.setVaddrPool cur pf
        { s.vaddrPool cur pf with vaddrBitmap := setBits i true n 0 (s.vaddrPool cur pf).vaddrBitmap } := by
  cases pf with
  | pfKernel =>
    unfold Vm.vaddrGet at h
    obtain ⟨r, hs, h⟩ := bind_ok.mp h
    cases r with
    | none =>
      cases h
      exact .inl ⟨rfl, rfl, hs⟩
    | some i =>
      cases h
      exact .inr ⟨i, hs, rfl, rfl⟩
  | pfUser =>
    unfold Vm.vaddrGet at h
    obtain ⟨r, hs, h⟩ := bind_ok.mp h
    cases r with
    | none =>
      cases h
      exact .inl ⟨rfl, rfl, hs⟩
    | some i =>
      obtain ⟨_, -, h⟩ := bind_ok.mp h
      cases h
      exact .inr ⟨i, hs, rfl, rfl⟩

/-! ## A failed call -/

structure SamePages (s s' : Vm τ) : Prop where
  vaddr : SameVaddr s s'
  kernelPool : s'.kernelPool = s.kernelPool
  userPool : s'.userPool = s.userPool
  walk : ∀ d v, ({ s' with cr3 := d } : Vm τ).walk v = ({ s with cr3 := d } : Vm τ).walk v

omit [DecidableEq τ] in
theorem SamePages.refl (s : Vm τ) : SamePages s s := ⟨.refl s, rfl, rfl, fun _ _ => rfl⟩

theorem mallocPage_cases {n : Nat} {o : Option Nat} (h : s.mallocPage b cur pf n = .ok (o, s')) :
    bitmapScan b (s.vaddrPool cur pf).vaddrBitmap n = .ok none ∧ o = none ∧ s' = s ∨
    ∃ i, bitmapScan b (s.vaddrPool cur pf).vaddrBitmap n = .ok (some i) ∧ (o = none → 1 ≤ n) ∧
      (1 ≤ n → (s.vaddrPool cur pf).vaddrBitmap.bit i = false ∧ (s'.vaddrPool cur pf).vaddrBitmap.bit i = true) ∧
      ∀ j, (s.vaddrPool cur pf).vaddrBitmap.bit j = true → (s'.vaddrPool cur pf).vaddrBitmap.bit j = true := by
  unfold Vm.mallocPage at h
  obtain ⟨_, -, h⟩ := bind_ok.mp h
  obtain ⟨⟨o1, s1⟩, hget, hr⟩ := bind_ok.mp h
  rcases vaddrGet_cases hget with ⟨rfl, rfl, hs⟩ | ⟨i, hs, ho, rfl⟩
  · cases hr
    exact .inl ⟨hs, rfl, rfl⟩
  · obtain ⟨v, rfl⟩ := Option.isSome_iff_exists.mp ho
    obtain ⟨⟨ok, s2⟩, hmap, hend⟩ := bind_ok.mp hr
    cases hend
    have hbit : ∀ j, (s'.vaddrPool cur pf).vaddrBitmap.bit j = (setBits i true n 0 (s.vaddrPool cur pf).vaddrBitmap).bit j := by
      intro j
      rw [(sameVaddr_mapPages hmap).vaddrPool, vaddrPool_set]
    refine .inr ⟨i, hs, fun ho => ?_, fun hn => ⟨?_, ?_⟩, fun j hj => ?_⟩
    · cases n with
      | zero =>
        cases hmap
        cases ho
      | succ n => exact Nat.succ_le_succ (Nat.zero_le n)
    · exact (bitmapScan_sound hs).1 i le_rfl (by omega)
    · rw [hbit, bit_setBits, if_pos (by omega)]
    · rw [hbit, bit_setBits]
      split
      · rfl
      · exact hj

theorem markPage_cases (h : s.markPage b cur pf vaddr = .ok s') :
    s' = s.setVaddrPool cur pf ((s.vaddrPool cur pf).set ((s.vaddrPool cur pf).bitIdx vaddr) true) := by
  unfold Vm.markPage at h
  split at h
  · rename_i hpf
    obtain ⟨_, -, h⟩ := bind_ok.mp h
    cases h
    rw [hpf.2]
    rfl
  · split at h
    · rename_i hpf
      obtain ⟨_, -, h⟩ := bind_ok.mp h
      obtain ⟨_, -, h⟩ := bind_ok.mp h
      cases h
      rw [hpf.2]
      rfl
    · cases h

theorem getAPage_null (h : s.getAPage b cur pf vaddr = .ok (none, s')) :
    s' = s.setVaddrPool cur pf ((s.vaddrPool cur pf).set ((s.vaddrPool cur pf).bitIdx vaddr) true) := by
  unfold Vm.getAPage Vm.getAPageWithoutOpvaddrbitmap at h
  obtain ⟨s1, hm, h⟩ := bind_ok.mp h
  obtain ⟨⟨ok, s2⟩, hpa, hend⟩ := bind_ok.mp h
  rw [← markPage_cases hm]
  rcases mapPage_cases hpa with ⟨rfl, rfl⟩ | ⟨rfl, -⟩
  · cases hend
    rfl
  · cases hend

/-- **What a failed allocation changes.** `malloc_page` leaves everything as it was
only if it found no addresses, and `get_a_page` only if its address was marked
before. -/
theorem failed_allocation_iff (s : Vm τ) (cur : τ) (pf : PoolFlags) :
    (∀ pgCnt s', s.mallocPage .ndebug cur pf pgCnt = .ok (none, s') →
      (SamePages s s' ↔ bitmapScan .ndebug (s.vaddrPool cur pf).vaddrBitmap pgCnt = .ok none)) ∧
    (∀ vaddr s', s.getAPage .ndebug cur pf vaddr = .ok (none, s') →
      (SamePages s s' ↔ (s.vaddrPool cur pf).vaddrBitmap.bit ((s.vaddrPool cur pf).bitIdx vaddr) = true)) := by
  refine ⟨fun n s' h => ⟨fun hs => ?_, fun hsc => ?_⟩, fun vaddr s' h => ⟨fun hs => ?_, fun hbit => ?_⟩⟩
  · rcases mallocPage_cases h with ⟨hsc, -⟩ | ⟨i, -, hn, hm, -⟩
    · exact hsc
    · obtain ⟨hc, hset⟩ := hm (hn rfl)
      rw [hs.vaddr.vaddrPool, hc] at hset
      cases hset
  · rcases mallocPage_cases h with ⟨-, -, rfl⟩ | ⟨i, hso, -⟩
    · exact .refl s'
    · rw [hsc] at hso
      cases hso
  · have hset : (s'.vaddrPool cur pf).vaddrBitmap.bit ((s.vaddrPool cur pf).bitIdx vaddr) = true := by
      rw [getAPage_null h, vaddrPool_set]
      show (bitmapSet _ _ true).bit _ = true
      rw [bit_bitmapSet, if_pos rfl]
    rwa [hs.vaddr.vaddrPool] at hset
  · have hs : (s.vaddrPool cur pf).set ((s.vaddrPool cur pf).bitIdx vaddr) true = s.vaddrPool cur pf := by
      unfold VirtualAddr.set
      rw [bitmapSet_same hbit]
    rw [getAPage_null h, hs, setVaddrPool_self]
    exact .refl s

def eightFrames : Vm Unit :=
  { bareDir with
    userPool := ⟨.ofBytes 1 fun _ => 0, 0x208 * pgSize, 8 * pgSize⟩
    pgdir := fun _ => some kHeapStart
    userprogVaddr := fun _ => ⟨.ofBytes 2 fun _ => 0, userVaddrStart⟩ }

theorem failed_allocation_no_addresses : bitmapScan .ndebug (eightFrames.vaddrPool () .pfUser).vaddrBitmap 18 = .ok none ∧
    ∃ s', eightFrames.mallocPage .ndebug () .pfUser 18 = .ok (none, s') ∧ SamePages eightFrames s' := by
  have hs : bitmapScan .ndebug (eightFrames.vaddrPool () .pfUser).vaddrBitmap 18 = .ok none := by decide +kernel
  obtain ⟨⟨o, s'⟩, hr, ho⟩ : ∃ r, eightFrames.mallocPage .ndebug () .pfUser 18 = .ok r ∧ r.1.isNone = true :=
    exists_of_any (by decide +kernel)
  obtain rfl : o = none := Option.isNone_iff_eq_none.mp ho
  exact ⟨hs, s', hr, ((failed_allocation_iff eightFrames () .pfUser).1 18 s' hr).mpr hs⟩

/-- The ninth page fails, and the eight before it stay mapped. -/
theorem failed_allocation_keeps_pages :
    (∃ s', eightFrames.mallocPage .ndebug () .pfUser 9 = .ok (none, s') ∧
      eightFrames.walk 0x8048000 = none ∧ s'.walk 0x8048000 = some 0x208 ∧ ¬ SamePages eightFrames s') ∧
    ∃ s s' : Vm Unit, s.getAPage .ndebug () .pfUser 0x8048000 = .ok (none, s') ∧
      (s.userprogVaddr ()).vaddrBitmap.bit 0 = false ∧ (s'.userprogVaddr ()).vaddrBitmap.bit 0 = true := by
  constructor
  · obtain ⟨⟨o, s'⟩, hr, hq⟩ : ∃ r, eightFrames.mallocPage .ndebug () .pfUser 9 = .ok r ∧
        (r.1.isNone && r.2.walk 0x8048000 == some 0x208) = true := exists_of_any (by decide +kernel)
    rw [Bool.and_eq_true, beq_iff_eq] at hq
    obtain rfl : o = none := Option.isNone_iff_eq_none.mp hq.1
    have hw : eightFrames.walk 0x8048000 = none := by decide +kernel
    have hw' := hq.2
    refine ⟨s', hr, hw, hw', fun hs => ?_⟩
    rcases mallocPage_cases hr with ⟨hsc, -⟩ | ⟨i, -, -, hm, -⟩
    · exact absurd hsc (by decide +kernel)
    · obtain ⟨hc, hset⟩ := hm (by decide)
      rw [hs.vaddr.vaddrPool, hc] at hset
      cases hset
  · obtain ⟨⟨o, s'⟩, hr, hq⟩ : ∃ r, Vm.getAPage .ndebug { eightFrames with userPool := bareDir.userPool } () .pfUser 0x8048000 = .ok r ∧
        (r.1.isNone && (r.2.userprogVaddr ()).vaddrBitmap.bit 0) = true := exists_of_any (by decide +kernel)
    rw [Bool.and_eq_true] at hq
    obtain rfl : o = none := Option.isNone_iff_eq_none.mp hq.1
    exact ⟨_, s', hr, by decide +kernel, hq.2⟩

end Vm

end OperateSystem
