import OperateSystem.MmuSound

/-!
# One mapping at a time

`page_table_add` reaches the entries it writes through the translation that it
changes. In a directory whose last entry is the directory itself and whose tables
are distinct it fills the entry of one page and leaves every other translation
alone, with or without a new table.
-/

namespace OperateSystem

/-! ## Pointers in words -/

namespace Word

def pdeIdx (addr : UInt32) : UInt32 := (addr &&& 0xffc00000) >>> 22

def pteIdx (addr : UInt32) : UInt32 := (addr &&& 0x003ff000) >>> 12

def ptePtr (vaddr : UInt32) : UInt32 := (0xffc00000 : UInt32) + ((vaddr &&& 0xffc00000) >>> 10) + pteIdx vaddr * 4

def pdePtr (vaddr : UInt32) : UInt32 := 0xfffff000 + pdeIdx vaddr * 4

theorem and_dir (v : UInt32) : (v &&& 0xffc00000).toNat = v.toNat / 2 ^ 22 * 2 ^ 22 := by
  have hv := v.toNat_lt
  rw [UInt32.toNat_and, show (0xffc00000 : UInt32).toNat = (2 ^ 10 - 1) <<< 22 from rfl, and_mask]
  omega

theorem pdeIdx_toNat (v : UInt32) : (pdeIdx v).toNat = v.toNat / 2 ^ 22 := by
  unfold pdeIdx
  rw [UInt32.toNat_shiftRight, and_dir, show (22 : UInt32).toNat % 32 = 22 from rfl, Nat.shiftRight_eq_div_pow]
  exact Nat.mul_div_cancel _ (by decide)

theorem pteIdx_toNat (v : UInt32) : (pteIdx v).toNat = v.toNat / pgSize % 1024 := by
  unfold pteIdx
  rw [UInt32.toNat_shiftRight, UInt32.toNat_and, show (0x003ff000 : UInt32).toNat = (2 ^ 10 - 1) <<< 12 from rfl, and_mask,
    show (12 : UInt32).toNat % 32 = 12 from rfl, Nat.shiftRight_eq_div_pow]
  exact Nat.mul_div_cancel _ (by decide)

theorem pdePtr_toNat (v : UInt32) : (pdePtr v).toNat = OperateSystem.pdePtr v.toNat := by
  have hv := v.toNat_lt
  unfold pdePtr OperateSystem.pdePtr
  rw [UInt32.toNat_add, UInt32.toNat_mul, pdeIdx_toNat]
  simp only [UInt32.reduceToNat]
  omega

theorem ptePtr_toNat (v : UInt32) : (ptePtr v).toNat = OperateSystem.ptePtr v.toNat := by
  have hv := v.toNat_lt
  unfold ptePtr OperateSystem.ptePtr
  rw [UInt32.toNat_add, UInt32.toNat_add, UInt32.toNat_mul, pteIdx_toNat, UInt32.toNat_shiftRight, and_dir,
    show (10 : UInt32).toNat % 32 = 10 from rfl, Nat.shiftRight_eq_div_pow]
  simp only [UInt32.reduceToNat]
  unfold pgSize
  omega

end Word

namespace Vm

variable {τ : Type} {s s' : Vm τ} {b : Build} {v x y : Nat}

/-! ## The active directory -/

structure Tables (s : Vm τ) : Prop extends SelfRef s where
  distinct : ∀ i < 1024, ∀ k < 1024, Present (s.mem s.cr3 i) → Present (s.mem s.cr3 k) →
    frameOf (s.mem s.cr3 i) = frameOf (s.mem s.cr3 k) → i = k

def Unheld (s : Vm τ) (y : Nat) : Prop := ∀ i < 1024, Present (s.mem s.cr3 i) → frameOf (s.mem s.cr3 i) ≠ y

structure OwnEntries (s : Vm τ) (v : UInt32) : Prop where
  pde : s.walk (Word.pdePtr v).toNat = some s.cr3
  pdeOffset : (Word.pdePtr v).toNat % pgSize = v.toNat / 2 ^ 22 * 4
  pte : Present (s.mem s.cr3 (v.toNat / 2 ^ 22)) → s.walk (Word.ptePtr v).toNat = some (s.tableOf v.toNat)
  pteOffset : (Word.ptePtr v).toNat % pgSize = v.toNat / pgSize % 1024 * 4

theorem SelfRef.ownEntries (h : s.SelfRef) (v : UInt32) : s.OwnEntries v := by
  have hv := v.toNat_lt
  refine ⟨?_, ?_, fun hp => ?_, ?_⟩
  · rw [Word.pdePtr_toNat, h.walk_pde hv]
  · rw [Word.pdePtr_toNat]
    unfold OperateSystem.pdePtr pgSize
    omega
  · rw [Word.ptePtr_toNat, h.walk_pte hv, if_pos hp]
    rfl
  · rw [Word.ptePtr_toNat]
    unfold OperateSystem.ptePtr pgSize
    omega

theorem Tables.tableOf_ne (h : s.Tables) (hv : v < 0xffc00000) (hp : Present (s.mem s.cr3 (v / 2 ^ 22))) :
    s.tableOf v ≠ s.cr3 := by
  intro e
  have := h.distinct (v / 2 ^ 22) (by omega) 1023 (by decide) hp h.present (e.trans h.self.symm)
  omega

theorem Tables.unheld_ne (h : s.Tables) (hy : s.Unheld y) : s.cr3 ≠ y :=
  fun e => hy 1023 (by decide) h.present (h.self.trans e)

theorem Inv.dir_entry (h : s.Inv) (hb : s.cr3 ≠ bootDir) {i : Nat} (hi : i < 1024) (hp : Present (s.mem s.cr3 i)) :
    s.UserEntry s.cr3 i ∨ 768 ≤ i ∧ i ≤ 1022 ∧ frameOf (s.mem s.cr3 i) = 0x101 + (i - 768) ∨
      i = 1023 ∧ frameOf (s.mem s.cr3 i) = s.cr3 := by
  by_cases hu : i < 768
  · exact .inl ⟨h.active, hu, fun e => hb e.1⟩
  · refine .inr ?_
    by_cases hk : i ≤ 1022
    · rw [h.kernel _ h.active i (by omega) hk, frameOf_bootEntry (by omega) hk]
      exact .inl ⟨by omega, hk, rfl⟩
    · obtain rfl : i = 1023 := by omega
      exact .inr ⟨rfl, h.selfRef.self⟩

theorem Inv.cr3_used (h : s.Inv) (hb : s.cr3 ≠ bootDir) : s.Used s.cr3 := (h.dir_cases h.active).resolve_left hb

theorem Inv.tables (h : s.Inv) (hb : s.cr3 ≠ bootDir) : s.Tables := by
  have hu : ∀ i, s.UserEntry s.cr3 i → Present (s.mem s.cr3 i) →
      0x200 ≤ frameOf (s.mem s.cr3 i) ∧ frameOf (s.mem s.cr3 i) ≠ s.cr3 := fun i hi hp => by
    have ht : s.Table (frameOf (s.mem s.cr3 i)) := ⟨_, _, hi, hp, rfl⟩
    refine ⟨((h.table_used ht).bounds h.shape).1, fun e => h.table_not_dir ht ?_⟩
    rw [e]
    exact h.active
  have hcr3 := ((h.cr3_used hb).bounds h.shape).1
  refine ⟨h.selfRef, fun i hi k hk hpi hpk e => ?_⟩
  rcases h.dir_entry hb hi hpi with hui | ⟨h1, h2, h3⟩ | ⟨h1, h2⟩ <;>
    rcases h.dir_entry hb hk hpk with huk | ⟨h4, h5, h6⟩ | ⟨h4, h5⟩
  · exact (h.inj _ _ _ _ (.inl hui) (.inl huk) hpi hpk e).2
  · have := (hu i hui hpi).1
    omega
  · exact absurd (e.trans h5) (hu i hui hpi).2
  · have := (hu k huk hpk).1
    omega
  · omega
  · omega
  · exact absurd (e.symm.trans h2) (hu k huk hpk).2
  · omega
  · omega

/-- The active directory and the pools: frames have numbers below `2 ^ 20`, and a
free frame of the kernel is no table of the directory. -/
structure Space (s : Vm τ) : Prop extends Tables s where
  aligned : ∀ pf, (s.pool pf).phyAddrStart % pgSize = 0
  top : ∀ pf, s.base pf + 8 * (s.pool pf).poolBitmap.btmpBytesLen ≤ 2 ^ 20
  free : ∀ k < 8 * s.kernelPool.poolBitmap.btmpBytesLen, s.kernelPool.poolBitmap.bit k = false → s.Unheld (s.base .pfKernel + k)

theorem Inv.space (h : s.Inv) (hb : s.cr3 ≠ bootDir) : s.Space := by
  have hk := h.shape.kernelStart
  have hu := h.shape.userAligned
  have ha := h.shape.apart
  have htop := h.shape.top
  have hba : s.base .pfKernel = 0x200 := by
    show s.kernelPool.phyAddrStart / pgSize = 0x200
    rw [hk]
    rfl
  refine ⟨h.tables hb, fun pf => ?_, fun pf => ?_, fun k hk' hbit i hi hp e => ?_⟩
  · cases pf with
    | pfKernel =>
      show s.kernelPool.phyAddrStart % pgSize = 0
      rw [hk]
      rfl
    | pfUser => exact hu
  · cases pf with
    | pfKernel =>
      show s.base .pfKernel + 8 * s.kernelPool.poolBitmap.btmpBytesLen ≤ 2 ^ 20
      rw [hba]
      omega
    | pfUser => exact htop
  · have hf : ¬ s.Used (s.base .pfKernel + k) := h.shape.not_used hk' hbit
    rcases h.dir_entry hb hi hp with hui | ⟨h1, h2, h3⟩ | ⟨h1, h2⟩
    · exact hf (e ▸ h.used _ _ (.inl hui) hp)
    · omega
    · rw [h2] at e
      rw [← e] at hf
      exact hf (h.cr3_used hb)

/-! ## The two cases of `page_table_add` -/

theorem SelfRef.pageTableAdd_old (h : s.SelfRef) (hv : v < 2 ^ 32) (hp : Present (s.mem s.cr3 (v / 2 ^ 22)))
    (hn : ¬ Present (s.mem (s.tableOf v) (v / pgSize % 1024))) (phyaddr : Nat) :
    s.pageTableAdd b v phyaddr = .ok (s.setWord (s.tableOf v) (v / pgSize % 1024) (pteWord phyaddr)) := by
  unfold Vm.pageTableAdd
  rw [h.load_pde hv, ok_bind, if_pos hp, h.load_pte hv hp, ok_bind, assert_of _ hn, ok_bind, if_pos hn, h.store_pte hv hp]

section
variable {pool : Pool}

theorem SelfRef.pageTableNew (h : s.SelfRef) (hv : v < 0xffc00000) (hlt : y < 2 ^ 20)
    (hr : palloc b s.kernelPool = .ok (some (y * pgSize), pool)) :
    s.pageTableNew b v = .ok (s.withTable pool v y) := by
  have hs : (s.setPool .pfKernel pool).SelfRef := ⟨h.present, h.self⟩
  unfold Vm.pageTableNew
  rw [hr, ok_bind]
  show ((s.setPool .pfKernel pool).store (pdePtr v) (pteWord (y * pgSize)) >>= fun s => s.clearPage (ptePtr v)) = _
  rw [hs.store_pde (by omega), ok_bind]
  exact hs.clearPage_newTable hv hlt

theorem SelfRef.pageTableAdd_new (h : s.SelfRef) (hv : v < 0xffc00000) (hn : ¬ Present (s.mem s.cr3 (v / 2 ^ 22)))
    (hy : s.cr3 ≠ y) (hlt : y < 2 ^ 20) (hr : palloc b s.kernelPool = .ok (some (y * pgSize), pool)) (phyaddr : Nat) :
    s.pageTableAdd b v phyaddr = .ok ((s.withTable pool v y).setWord y (v / pgSize % 1024) (pteWord phyaddr)) := by
  have hv' : v < 2 ^ 32 := by omega
  have hs : (s.withTable pool v y).SelfRef := h.withTable hv hy
  have hp : Present ((s.withTable pool v y).mem (s.withTable pool v y).cr3 (v / 2 ^ 22)) := by
    show Present ((s.withTable pool v y).mem s.cr3 (v / 2 ^ 22))
    rw [withTable_entry hy]
    exact present_pteWord _
  have hc : ¬ Present ((s.withTable pool v y).mem y (v / pgSize % 1024)) := by
    rw [withTable_clear]
    exact not_present_zero
  unfold Vm.pageTableAdd
  rw [h.load_pde hv', ok_bind, if_neg hn, h.pageTableNew hv hlt hr, ok_bind, hs.load_pte hv' hp, ok_bind,
    withTable_tableOf hy hlt, assert_of _ hc, ok_bind, hs.store_pte hv' hp, withTable_tableOf hy hlt]

end

/-! ## What is installed -/

structure Installs (s s' : Vm τ) (v x : Nat) : Prop where
  tables : s'.Tables
  cr3 : s'.cr3 = s.cr3
  walk : s'.walk v = some x
  other : ∀ w < 0xffc00000, w / pgSize ≠ v / pgSize → s'.walk w = s.walk w
  mem : ∀ g, g ≠ s.cr3 → g ≠ s'.tableOf v → s'.mem g = s.mem g
  dir : ∀ i, i ≠ v / 2 ^ 22 → s'.mem s.cr3 i = s.mem s.cr3 i

theorem walk_congr {w : Nat} (hc : s'.cr3 = s.cr3) (hd : s'.mem s.cr3 (w / 2 ^ 22) = s.mem s.cr3 (w / 2 ^ 22))
    (ht : s'.mem (s.tableOf w) (w / pgSize % 1024) = s.mem (s.tableOf w) (w / pgSize % 1024)) : s'.walk w = s.walk w := by
  unfold Vm.walk
  rw [hc, hd]
  unfold tableOf at ht
  simp only [ht]

theorem walk_page {w : Nat} (h : w / pgSize = v / pgSize) : s.walk w = s.walk v := by
  have hdir : w / 2 ^ 22 = v / 2 ^ 22 := by
    unfold pgSize at h
    omega
  unfold Vm.walk
  rw [h, hdir]

theorem Tables.of_dir (h : s.Tables) (hc : s'.cr3 = s.cr3) (hd : ∀ i < 1024, s'.mem s.cr3 i = s.mem s.cr3 i) : s'.Tables := by
  refine ⟨h.of_entry hc (hd 1023 (by decide)), fun i hi k hk => ?_⟩
  rw [hc, hd i hi, hd k hk]
  exact h.distinct i hi k hk

theorem Tables.installs_old (h : s.Tables) (hv : v < 0xffc00000) (hx : x < 2 ^ 20) (hp : Present (s.mem s.cr3 (v / 2 ^ 22))) :
    Installs s (s.setWord (s.tableOf v) (v / pgSize % 1024) (pteWord (x * pgSize))) v x := by
  generalize hs' : s.setWord (s.tableOf v) (v / pgSize % 1024) (pteWord (x * pgSize)) = s'
  have hcr3 : s'.cr3 = s.cr3 := by rw [← hs']; rfl
  have hne := h.tableOf_ne hv hp
  have hdir : ∀ i, s'.mem s.cr3 i = s.mem s.cr3 i := fun i => by
    rw [← hs', setWord_of_ne fun e => hne e.1.symm]
  have hs : s'.mem (s.tableOf v) (v / pgSize % 1024) = pteWord (x * pgSize) := by rw [← hs', setWord_self]
  have ht : s'.tableOf v = s.tableOf v := by
    unfold tableOf
    rw [hcr3, hdir]
  refine ⟨h.of_dir hcr3 fun i _ => hdir i, hcr3, ?_, fun w hw hpa => ?_, fun g _ hg => ?_, fun i _ => hdir i⟩
  · rw [walk_eq (by rwa [hcr3, hdir]) (by rw [ht, hs]; exact present_pteWord _), ht, hs, frameOf_pteWord hx]
  · by_cases hpw : Present (s.mem s.cr3 (w / 2 ^ 22))
    · refine walk_congr hcr3 (hdir _) ?_
      rw [← hs', setWord_of_ne]
      -- the same table is the same directory index
      rintro ⟨e1, e2⟩
      have := h.distinct (w / 2 ^ 22) (by omega) (v / 2 ^ 22) (by omega) hpw hp e1
      unfold pgSize at *
      omega
    · unfold Vm.walk
      rw [hcr3, hdir]
      simp only [hpw, false_and, if_false]
  · funext j
    rw [← hs', setWord_of_ne fun e => hg (e.1.trans ht.symm)]

theorem Tables.installs_new {pool : Pool} (h : s.Tables) (hv : v < 0xffc00000) (hx : x < 2 ^ 20) (hy : s.Unheld y) (hlt : y < 2 ^ 20)
    (hn : ¬ Present (s.mem s.cr3 (v / 2 ^ 22))) :
    Installs s ((s.withTable pool v y).setWord y (v / pgSize % 1024) (pteWord (x * pgSize))) v x := by
  have hyc := h.unheld_ne hy
  generalize hs' : (s.withTable pool v y).setWord y (v / pgSize % 1024) (pteWord (x * pgSize)) = s'
  have hcr3 : s'.cr3 = s.cr3 := by rw [← hs']; rfl
  have hwo : ∀ g j, g ≠ y → s'.mem g j = (s.withTable pool v y).mem g j := fun g j hg => by
    rw [← hs', setWord_of_ne fun e => hg e.1]
  have he : s'.mem s.cr3 (v / 2 ^ 22) = pteWord (y * pgSize) := by rw [hwo _ _ hyc, withTable_entry hyc]
  have hdir : ∀ i, i ≠ v / 2 ^ 22 → s'.mem s.cr3 i = s.mem s.cr3 i := fun i hi => by
    rw [hwo _ _ hyc, withTable_dir hyc hi]
  have hs : s'.mem y (v / pgSize % 1024) = pteWord (x * pgSize) := by rw [← hs', setWord_self]
  have hcl : ∀ j, j ≠ v / pgSize % 1024 → s'.mem y j = 0 := fun j hj => by
    rw [← hs', setWord_of_ne fun e => hj e.2, withTable_clear]
  have ht : s'.tableOf v = y := by
    unfold tableOf
    rw [hcr3, he, frameOf_pteWord hlt]
  have hpde : Present (s'.mem s.cr3 (v / 2 ^ 22)) := by
    rw [he]
    exact present_pteWord _
  have hh : ∀ i < 1024, i ≠ v / 2 ^ 22 → Present (s'.mem s.cr3 i) → frameOf (s'.mem s.cr3 i) ≠ y := by
    intro i hi hne hp
    rw [hdir i hne] at hp ⊢
    exact hy i hi hp
  have hnew : frameOf (s'.mem s.cr3 (v / 2 ^ 22)) = y := by rw [he, frameOf_pteWord hlt]
  refine ⟨⟨h.of_entry hcr3 (hdir 1023 (by omega)), fun i hi k hk => ?_⟩, hcr3, ?_, fun w hw hpa => ?_, fun g hc hg => ?_,
    hdir⟩
  · rw [hcr3]
    intro hpi hpk e
    by_cases hiv : i = v / 2 ^ 22 <;> by_cases hkv : k = v / 2 ^ 22
    · rw [hiv, hkv]
    · rw [hiv, hnew] at e
      exact absurd e.symm (hh k hk hkv hpk)
    · rw [hkv, hnew] at e
      exact absurd e (hh i hi hiv hpi)
    · rw [hdir i hiv] at hpi e
      rw [hdir k hkv] at hpk e
      exact h.distinct i hi k hk hpi hpk e
  · rw [walk_eq (by rwa [hcr3]) (by rw [ht, hs]; exact present_pteWord _), ht, hs, frameOf_pteWord hx]
  · by_cases hwv : w / 2 ^ 22 = v / 2 ^ 22
    · -- in the new table only the entry of `v` is filled
      have hj : w / pgSize % 1024 ≠ v / pgSize % 1024 := by
        unfold pgSize at *
        omega
      have hno : s.walk w = none := by
        unfold Vm.walk
        rw [hwv]
        simp only [hn, false_and, if_false]
      rw [hno]
      unfold Vm.walk
      rw [hcr3, hwv]
      simp only [hnew, hcl _ hj, not_present_zero, and_false, if_false]
    · by_cases hpw : Present (s.mem s.cr3 (w / 2 ^ 22))
      · refine walk_congr hcr3 (hdir _ hwv) ?_
        have hne : s.tableOf w ≠ y := hy _ (by omega) hpw
        rw [hwo _ _ hne, withTable_other hne (h.tableOf_ne hw hpw)]
      · unfold Vm.walk
        rw [hcr3, hdir _ hwv]
        simp only [hpw, false_and, if_false]
  · rw [ht] at hg
    funext j
    rw [hwo g j hg, withTable_other hg hc]

theorem walk_none (h : s.walk v = none) (hp : Present (s.mem s.cr3 (v / 2 ^ 22))) :
    ¬ Present (s.mem (s.tableOf v) (v / pgSize % 1024)) := fun hq => by
  rw [walk_eq hp hq] at h
  cases h

theorem Tables.pageTableAdd (h : s.Tables) (hv : v < 0xffc00000) (hn : s.walk v = none) (hx : x < 2 ^ 20)
    (hpa : ¬ Present (s.mem s.cr3 (v / 2 ^ 22)) →
      ∃ y pool, palloc b s.kernelPool = .ok (some (y * pgSize), pool) ∧ y < 2 ^ 20 ∧ s.Unheld y) :
    ∃ s', s.pageTableAdd b v (x * pgSize) = .ok s' ∧ Installs s s' v x := by
  by_cases hp : Present (s.mem s.cr3 (v / 2 ^ 22))
  · exact ⟨_, h.pageTableAdd_old (by omega) hp (walk_none hn hp) _, h.installs_old hv hx hp⟩
  · obtain ⟨y, pool, hr, hlt, hy⟩ := hpa hp
    exact ⟨_, h.pageTableAdd_new hv hp (h.unheld_ne hy) hlt hr _, h.installs_new hv hx hy hlt hp⟩

/-- **`page_table_add` makes one mapping**, through the entries that `pde_ptr` and `pte_ptr` point
to. -/
theorem page_table_add_one_mapping (b : Build) (hs : s.Tables) (v : UInt32) (hv : v < 0xffc00000) (hnone : s.walk v.toNat = none)
    (p : Nat) (hp : p < 2 ^ 20) (hpalloc : ¬ Present (s.mem s.cr3 (v.toNat / 2 ^ 22)) →
      ∃ y pool, palloc b s.kernelPool = .ok (some (y * pgSize), pool) ∧ y < 2 ^ 20 ∧ s.Unheld y) :
    ∃ s', s.pageTableAdd b v.toNat (p * pgSize) = .ok s' ∧
      s'.walk v.toNat = some p ∧ s'.addrV2p v.toNat = .ok (p * pgSize + v.toNat % pgSize) ∧
      (∀ w < 0xffc00000, w / pgSize ≠ v.toNat / pgSize → s'.walk w = s.walk w) ∧
      s.OwnEntries v ∧ s'.OwnEntries v := by
  obtain ⟨s', hr, hin⟩ := hs.pageTableAdd (UInt32.lt_iff_toNat_lt.mp hv) hnone hp hpalloc
  exact ⟨s', hr, hin.walk, hin.tables.addrV2p_walk v.toNat_lt hin.walk, hin.other, hs.ownEntries v, hin.tables.ownEntries v⟩

def bareDir : Vm Unit where
  mem f j := if f = 0x300 ∧ j = 1023 then pteWord (0x300 * pgSize) else 0
  cr3 := 0x300
  kernelVaddr := ⟨.ofBytes 0 fun _ => 0, kHeapStart⟩
  kernelPool := ⟨.ofBytes 1 fun _ => 0, 0x200 * pgSize, 8 * pgSize⟩
  userPool := ⟨.ofBytes 0 fun _ => 0, 0x208 * pgSize, 0⟩
  pgdir _ := none
  userprogVaddr _ := ⟨.ofBytes 0 fun _ => 0, userVaddrStart⟩

theorem bareDir_present {i : Nat} (h : Present (bareDir.mem bareDir.cr3 i)) : i = 1023 := by
  by_contra hi
  have hz : bareDir.mem bareDir.cr3 i = 0 := if_neg fun e => hi e.2
  rw [hz] at h
  exact not_present_zero h

theorem bareDir_tables : bareDir.Tables := by
  refine ⟨⟨by decide, by decide⟩, fun i _ k _ hi hk _ => ?_⟩
  rw [bareDir_present hi, bareDir_present hk]

theorem bareDir_unheld : bareDir.Unheld 0x200 := by
  intro i _ hi
  rw [bareDir_present hi]
  decide

theorem page_table_add_first_table : ∃ s', bareDir.pageTableAdd .debug 0x8048000 (0x1000 * pgSize) = .ok s' ∧
    s'.walk 0x8048000 = some 0x1000 ∧ s'.walk 0x8049000 = none := by
  obtain ⟨s', hr, hw, -, ho, -⟩ := page_table_add_one_mapping .debug bareDir_tables 0x8048000 (by decide) (by decide +kernel)
    0x1000 (by decide) fun _ => ⟨0x200, _, rfl, by decide, bareDir_unheld⟩
  exact ⟨s', hr, hw, (ho 0x8049000 (by decide) (by decide)).trans (by decide +kernel)⟩

end Vm

end OperateSystem
