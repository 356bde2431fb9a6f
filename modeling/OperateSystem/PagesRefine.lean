import OperateSystem.MmuSound

/-!
# The kernel's pages in memory

`PageState` has the page table entries of the kernel as one table, `Vm` as words of page frames
that are reached through the active directory. On the kernel's pages `malloc_page` and `mfree_page`
of the second do what those of the first say.
-/

namespace OperateSystem

open Function

namespace Vm

variable {τ : Type} {s s' : Vm τ} {v n p : Nat} {w : UInt32} {ok : Bool}

def pages (s : Vm τ) : PageState :=
  ⟨s.kernelVaddr.vaddrBitmap, s.kernelPool, s.userPool, bootEntry,
    fun i => if 0xc0000 ≤ i ∧ i < 0xffc00 then s.kpte (i * pgSize) else 0⟩

/-- The active directory leads to itself and to the tables of the kernel. -/
structure Window (mem : Nat → Nat → UInt32) (cr3 : Nat) : Prop where
  present : Present (mem cr3 1023)
  self : frameOf (mem cr3 1023) = cr3
  apart : cr3 < 0x101 ∨ 0x1ff < cr3
  pde : ∀ i, 768 ≤ i → i ≤ 1022 → mem cr3 i = bootEntry i

theorem Inv.window (h : s.Inv) : Window s.mem s.cr3 := by
  have hb := (h.dir_bounds h.active).1
  unfold bootDir pgSize at hb
  exact ⟨h.selfRef.present, h.selfRef.self, by omega, h.kernel _ h.active⟩

def KernelPage (v : Nat) : Prop := 0xc0000000 ≤ v ∧ v < 0xffc00000

/-- The word that `pte_ptr` of a kernel address leads to. -/
def setKpte (s : Vm τ) (v : Nat) (w : UInt32) : Vm τ := s.setWord (0x101 + (v / 2 ^ 22 - 768)) (v / pgSize % 1024) w

theorem pages_pteAt (hv : KernelPage v) : s.pages.pteAt v = s.kpte v := by
  obtain ⟨h1, h2⟩ := hv
  show ite _ _ _ = _
  unfold kpte pgSize
  rw [if_pos (by omega), Nat.mul_div_cancel _ (by decide), show v / 4096 * 4096 / 2 ^ 22 = v / 2 ^ 22 by omega]

theorem pages_setKpte (hv : KernelPage v) : (s.setKpte v w).pages = s.pages.setPte v w := by
  obtain ⟨h1, h2⟩ := hv
  unfold pages PageState.setPte
  congr 1
  funext i
  unfold kpte setKpte
  by_cases hi : i = v / pgSize
  · subst hi
    unfold pgSize
    rw [update_self, if_pos (by omega), Nat.mul_div_cancel _ (by decide), show v / 4096 * 4096 / 2 ^ 22 = v / 2 ^ 22 by omega]
    exact setWord_self
  · rw [update_of_ne hi]
    refine if_ctx_congr Iff.rfl (fun hk => setWord_of_ne ?_) fun _ => rfl
    unfold pgSize at hi ⊢
    omega

theorem Window.setKpte (h : Window s.mem s.cr3) (hv : KernelPage v) : Window (s.setKpte v w).mem s.cr3 := by
  have hd : ∀ i, (s.setKpte v w).mem s.cr3 i = s.mem s.cr3 i := fun i => setWord_of_ne (by
    have := h.apart
    unfold KernelPage at hv
    omega)
  exact ⟨hd _ ▸ h.present, hd _ ▸ h.self, h.apart, fun i h1 h2 => (hd i).trans (h.pde i h1 h2)⟩

theorem Window.entry (h : Window s.mem s.cr3) (hv : KernelPage v) : Present (bootEntry (v / 2 ^ 22)) ∧
    s.load (pdePtr v) = .ok (bootEntry (v / 2 ^ 22)) ∧ s.load (ptePtr v) = .ok (s.pages.pteAt v) ∧
      ∀ w, s.store (ptePtr v) w = .ok (s.setKpte v w) := by
  have hi : 768 ≤ v / 2 ^ 22 ∧ v / 2 ^ 22 ≤ 1022 ∧ v < 2 ^ 32 := by
    unfold KernelPage at hv
    omega
  have hs : s.SelfRef := ⟨h.present, h.self⟩
  have he := h.pde _ hi.1 hi.2.1
  have hp := present_bootEntry hi.1 hi.2.1
  have ht : s.tableOf v = 0x101 + (v / 2 ^ 22 - 768) := by
    rw [tableOf, he, frameOf_bootEntry hi.1 hi.2.1]
  refine ⟨hp, he ▸ hs.load_pde hi.2.2, ?_, fun w => ?_⟩
  · rw [hs.load_pte hi.2.2 (he ▸ hp), ht, pages_pteAt hv]
    rfl
  · rw [hs.store_pte hi.2.2 (he ▸ hp), ht]
    rfl

/-! ## `malloc_page` -/

theorem Window.pageTableAdd (h : Window s.mem s.cr3) (hv : KernelPage v) (hr : s.pageTableAdd .debug v p = .ok s') :
    s.pages.pageTableAdd v p = .ok s'.pages ∧ Window s'.mem s'.cr3 := by
  obtain ⟨hp, hpde, hpte, hst⟩ := h.entry hv
  unfold Vm.pageTableAdd at hr
  rw [hpde, ok_bind, if_pos hp, hpte, ok_bind] at hr
  obtain ⟨_, hn, hr⟩ := bind_ok.mp hr
  rw [assert_debug_ok] at hn
  rw [if_pos hn, hst] at hr
  cases hr
  have hz : s.pages.pteAt v &&& 1 = 0 := not_not.mp hn
  refine ⟨?_, h.setKpte hv⟩
  unfold PageState.pageTableAdd
  rw [if_pos (show s.pages.pde (v / 2 ^ 22) &&& 1 ≠ 0 from hp), assert_of _ hz, ok_bind, if_pos hz, pages_setKpte hv]
  rfl

theorem Window.mapPages : ∀ {n v : Nat} {s : Vm τ}, Window s.mem s.cr3 → 0xc0000000 ≤ v → v + n * pgSize ≤ 0xffc00000 →
    Vm.mapPages .debug .pfKernel n v s = .ok (ok, s') → PageState.mapPages n v s.pages = .ok (ok, s'.pages)
  | 0, v, s, _, _, _, hr => by
    cases hr
    rfl
  | n + 1, v, s, h, h1, h2, hr => by
    rw [Nat.succ_mul] at h2
    unfold Vm.mapPages Vm.mapPage at hr
    obtain ⟨_, hm, hr⟩ := bind_ok.mp hr
    obtain ⟨⟨frame, pool⟩, hp, hm⟩ := bind_ok.mp hm
    unfold PageState.mapPages
    rw [show palloc .debug s.pages.kernelPool = _ from hp, ok_bind]
    cases frame with
    | none =>
      cases hm
      cases hr
      rfl
    | some p =>
      obtain ⟨s1, ha, hm⟩ := bind_ok.mp hm
      cases hm
      have hv : KernelPage v := ⟨h1, by unfold pgSize at h2; omega⟩
      obtain ⟨ht, h'⟩ := Window.pageTableAdd (s := s.setPool .pfKernel pool) h hv ha
      dsimp only
      rw [show PageState.pageTableAdd { s.pages with kernelPool := pool } v p = _ from ht]
      exact Window.mapPages h' (Nat.le_add_right_of_le h1) (by omega) hr

/-! ## `mfree_page` -/

theorem Window.addrV2p (h : Window s.mem s.cr3) (hv : KernelPage v) : s.addrV2p v = .ok (s.pages.addrV2p v) := by
  unfold Vm.addrV2p
  rw [(h.entry hv).2.2.1]
  rfl

theorem Window.unmapPages {own : Nat → Bool} {cond : String} : ∀ {n v : Nat} {s : Vm τ}, Window s.mem s.cr3 →
    0xc0000000 ≤ v → v + n * pgSize ≤ 0xffc00000 → Vm.unmapPages .debug own cond n v s = .ok s' →
    PageState.unmapPages own cond n v s.pages = .ok s'.pages ∧ s'.kernelVaddr = s.kernelVaddr
  | 0, v, s, _, _, _, hr => by
    cases hr
    exact ⟨rfl, rfl⟩
  | n + 1, v, s, h, h1, h2, hr => by
    rw [Nat.succ_mul] at h2
    have hv : KernelPage v := ⟨h1, by unfold pgSize at h2; omega⟩
    have hpf : ∀ p, (s.pfree p).pages = s.pages.pfree p ∧ Window (s.pfree p).mem (s.pfree p).cr3 ∧
        (s.pfree p).kernelVaddr = s.kernelVaddr := by
      intro p
      unfold Vm.pfree PageState.pfree
      split
      · exact ⟨(if_pos ‹_›).symm, h, rfl⟩
      · exact ⟨(if_neg ‹_›).symm, h, rfl⟩
    unfold Vm.unmapPages Vm.pageTablePteRemove at hr
    rw [h.addrV2p hv] at hr
    simp only [((hpf _).2.1.entry hv).2.2, ok_bind] at hr
    obtain ⟨_, hc, hr⟩ := bind_ok.mp hr
    unfold PageState.unmapPages PageState.pageTablePteRemove
    dsimp only
    rw [hc, ok_bind, ← (hpf _).1, ← pages_setKpte hv]
    obtain ⟨ht, hk⟩ := Window.unmapPages ((hpf _).2.1.setKpte hv) (Nat.le_add_right_of_le h1) (by omega) hr
    exact ⟨ht, hk.trans (hpf _).2.2⟩

/-! ## The calls -/

variable [DecidableEq τ] {cur : τ}

/-- For the kernel `malloc_page` does what `PageState.mallocPage` says. -/
theorem Inv.mallocPage_pages {o : Option Nat} (h : s.Inv) (hr : s.mallocPage .debug cur .pfKernel n = .ok (o, s')) :
    s.pages.mallocPage n = .ok (o, s'.pages) := by
  unfold Vm.mallocPage Vm.vaddrGet at hr
  unfold PageState.mallocPage PageState.vaddrGet
  obtain ⟨_, hn, hr⟩ := bind_ok.mp hr
  obtain ⟨⟨start, s1⟩, hv, hr⟩ := bind_ok.mp hr
  obtain ⟨i, hs, hv⟩ := bind_ok.mp hv
  rw [hn, ok_bind, show bitmapScan .debug s.pages.kernelVaddr n = _ from hs, ok_bind]
  cases i with
  | none =>
    cases hv
    cases hr
    rfl
  | some i =>
    cases hv
    obtain ⟨⟨ok, s2⟩, hm, hr⟩ := bind_ok.mp hr
    cases hr
    have hb := bitmapScan_bound hs
    have hz := h.shape.heapSize
    rw [h.shape.heapStart] at hm ⊢
    have hlow : 0xc0000000 ≤ kHeapStart + i * pgSize := by
      unfold kHeapStart
      omega
    have hend : kHeapStart + i * pgSize + n * pgSize ≤ 0xffc00000 := by
      unfold kHeapStart pgSize
      omega
    have ht := Window.mapPages (by exact h.window) hlow hend hm
    show PageState.mapPages n _ _ >>= _ = _
    exact bind_ok.mpr ⟨_, ht, rfl⟩

/-- For the kernel `mfree_page` does what `PageState.mfreePage` says. -/
theorem Inv.mfreePage_pages (h : s.Inv) (h1 : kHeapStart ≤ v) (h2 : v + n * pgSize ≤ 0xffc00000)
    (hr : s.mfreePage .debug cur .pfKernel v n = .ok s') : s.pages.mfreePage v n = .ok s'.pages := by
  have hlow : 0xc0000000 ≤ v := Nat.le_trans (by decide) h1
  unfold Vm.mfreePage at hr
  obtain ⟨_, hn, hr⟩ := bind_ok.mp hr
  have hpos := (assert_debug_ok.mp hn).1
  have hv : KernelPage v := ⟨hlow, by unfold pgSize at h2; omega⟩
  rw [h.window.addrV2p hv, ok_bind] at hr
  obtain ⟨_, hp, hr⟩ := bind_ok.mp hr
  obtain ⟨s1, hu, hr⟩ := bind_ok.mp hr
  obtain ⟨_, -, hr⟩ := bind_ok.mp hr
  cases hr
  have hf : s.pages.freePages v n = .ok s1.pages ∧ s1.kernelVaddr = s.kernelVaddr := by
    unfold PageState.freePages
    rw [hn, ok_bind]
    dsimp only
    rw [hp, ok_bind]
    split at hu <;> obtain ⟨ht, hk⟩ := h.window.unmapPages hlow h2 hu
    · exact ⟨(if_pos ‹_›).trans ht, hk⟩
    · exact ⟨(if_neg ‹_›).trans ht, hk⟩
  unfold PageState.mfreePage
  have hi : s1.kernelVaddr.bitIdx v = (v - kHeapStart) / pgSize := by
    unfold VirtualAddr.bitIdx
    rw [hf.2, h.shape.heapStart]
    unfold KernelPage at hv
    unfold kHeapStart pgSize at *
    omega
  rw [hf.1, hi]
  rfl

end Vm

end OperateSystem
