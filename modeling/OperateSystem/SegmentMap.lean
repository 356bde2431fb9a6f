import OperateSystem.AllocFail
import OperateSystem.LoadSound
import OperateSystem.PageDirSound

/-!
# The pages of a segment

The allocation loop of `segment_load` over the page tables. It maps the pages that
the segment meets and no others, and pages that were mapped keep their frames.
-/

namespace OperateSystem

open Function

namespace Vm

variable {τ : Type}

/-- The test of the loop. The entry of the table is only read when there is a table. -/
def pageThere (s : Vm τ) (vaddrPage : Nat) : Exec Bool := do
  let pde ← s.load (pdePtr vaddrPage)
  if Present pde then do
    let pte ← s.load (ptePtr vaddrPage)
    return decide (Present pte)
  else return false

def segmentPages [DecidableEq τ] (cur : τ) : Nat → UInt32 → Vm τ → Exec (Bool × Vm τ)
  | 0, _, s => return (true, s)
  | n + 1, vaddrPage, s => do
    let there ← s.pageThere vaddrPage.toNat
    if there then segmentPages cur n (vaddrPage + 4096) s
    else do
      let (page, s) ← s.getAPage .debug cur .pfUser vaddrPage.toNat
      match page with
      | none => return (false, s)
      | some _ => segmentPages cur n (vaddrPage + 4096) s

variable {s s' : Vm τ} {v x : Nat}

/-! ## A table more -/

theorem Space.palloc {pf : PoolFlags} {r : Option Nat × Pool} (h : s.Space) (hr : palloc .debug (s.pool pf) = .ok r) :
    ∃ k < 8 * (s.pool pf).poolBitmap.btmpBytesLen, (s.pool pf).poolBitmap.bit k = false ∧ s.base pf + k < 2 ^ 20 ∧
      r = (some ((s.base pf + k) * pgSize), (s.pool pf).set k true) := by
  have hpo : Post (fun _ : Fault => False) (OperateSystem.palloc .debug (s.pool pf)) _ := palloc_spec id (s.pool pf)
  obtain ⟨k, hk, hbit, rfl⟩ := hpo.holds hr
  have htop := h.top pf
  have ha : k * pgSize + (s.pool pf).phyAddrStart = (s.base pf + k) * pgSize := by
    have := h.aligned pf
    unfold base
    unfold pgSize at *
    omega
  exact ⟨k, hk, hbit, by omega, by rw [ha]⟩

theorem Space.of_dir (h : s.Space) (hc : s'.cr3 = s.cr3) (hd : ∀ i < 1024, s'.mem s.cr3 i = s.mem s.cr3 i)
    (hk : s'.kernelPool = s.kernelPool) (hu : ∃ bits, s'.userPool = { s.userPool with poolBitmap := { s.userPool.poolBitmap with bits := bits } }) :
    s'.Space := by
  obtain ⟨bits, hu⟩ := hu
  have hb : s'.base .pfKernel = s.base .pfKernel := by
    show s'.kernelPool.phyAddrStart / pgSize = s.kernelPool.phyAddrStart / pgSize
    rw [hk]
  refine ⟨h.toTables.of_dir hc hd, fun pf => ?_, fun pf => ?_, fun k hk' hbit i hi hp => ?_⟩
  · cases pf with
    | pfKernel =>
      show s'.kernelPool.phyAddrStart % pgSize = 0
      rw [hk]
      exact h.aligned .pfKernel
    | pfUser =>
      show s'.userPool.phyAddrStart % pgSize = 0
      rw [hu]
      exact h.aligned .pfUser
  · cases pf with
    | pfKernel =>
      show s'.kernelPool.phyAddrStart / pgSize + 8 * s'.kernelPool.poolBitmap.btmpBytesLen ≤ 2 ^ 20
      rw [hk]
      exact h.top .pfKernel
    | pfUser =>
      show s'.userPool.phyAddrStart / pgSize + 8 * s'.userPool.poolBitmap.btmpBytesLen ≤ 2 ^ 20
      rw [hu]
      exact h.top .pfUser
  · rw [hk] at hk' hbit
    rw [hc, hd i hi] at hp ⊢
    rw [hb]
    exact h.free k hk' hbit i hi hp

theorem Space.withTable {k : Nat} (h : s.Space) (hv : v < 0xffc00000) (hx : x < 2 ^ 20)
    (hk : k < 8 * s.kernelPool.poolBitmap.btmpBytesLen) (hbit : s.kernelPool.poolBitmap.bit k = false)
    (hn : ¬ Present (s.mem s.cr3 (v / 2 ^ 22))) :
    ((s.withTable (s.kernelPool.set k true) v (s.base .pfKernel + k)).setWord (s.base .pfKernel + k) (v / pgSize % 1024)
      (pteWord (x * pgSize))).Space := by
  have hlt := Nat.lt_of_lt_of_le (Nat.add_lt_add_left hk _) (h.top .pfKernel)
  have hy := h.free k hk hbit
  have hyc := h.unheld_ne hy
  have hin : Installs s ((s.withTable (s.kernelPool.set k true) v _).setWord _ _ _) v x := h.toTables.installs_new hv hx hy hlt hn
  generalize hs' : (s.withTable (s.kernelPool.set k true) v (s.base .pfKernel + k)).setWord (s.base .pfKernel + k)
    (v / pgSize % 1024) (pteWord (x * pgSize)) = s' at hin
  have hdir : ∀ i, s'.mem s.cr3 i = (s.withTable (s.kernelPool.set k true) v (s.base .pfKernel + k)).mem s.cr3 i := fun i => by
    rw [← hs', setWord_of_ne fun e => hyc e.1]
  have hpo : s'.kernelPool = s.kernelPool.set k true := by rw [← hs']; rfl
  have hb : s'.base .pfKernel = s.base .pfKernel := by rw [← hs']; rfl
  refine ⟨hin.tables, fun pf => ?_, fun pf => ?_, fun k' hk' hbit' i hi hp => ?_⟩
  · rw [← hs']
    cases pf with
    | pfKernel => exact h.aligned .pfKernel
    | pfUser => exact h.aligned .pfUser
  · rw [← hs']
    cases pf with
    | pfKernel => exact h.top .pfKernel
    | pfUser => exact h.top .pfUser
  · rw [hpo] at hk' hbit'
    have hbit' : (bitmapSet s.kernelPool.poolBitmap k true).bit k' = false := hbit'
    rw [bit_bitmapSet] at hbit'
    split at hbit'
    · cases hbit'
    rename_i hne
    rw [hb]
    rw [hin.cr3, hdir] at hp ⊢
    by_cases hiv : i = v / 2 ^ 22
    · rw [hiv, withTable_entry hyc, frameOf_pteWord hlt]
      omega
    · rw [withTable_dir hyc hiv] at hp ⊢
      exact h.free k' hk' hbit' i hi hp

theorem Space.pageTableAdd (h : s.Space) (hv : v < 0xffc00000) (hnone : s.walk v = none) (hx : x < 2 ^ 20)
    (hr : s.pageTableAdd .debug v (x * pgSize) = .ok s') : s'.Space ∧ Installs s s' v x := by
  have hv' : v < 2 ^ 32 := by omega
  have hr : s.pageTableAdd .debug v (x * pgSize) = .ok s' := hr
  by_cases hp : Present (s.mem s.cr3 (v / 2 ^ 22))
  · rw [h.pageTableAdd_old hv' hp (walk_none hnone hp)] at hr
    cases hr
    refine ⟨h.of_dir rfl (fun i _ => setWord_of_ne fun e => h.tableOf_ne hv hp e.1.symm) rfl ⟨_, rfl⟩, h.installs_old hv hx hp⟩
  · obtain ⟨r, hpa⟩ : ∃ r, OperateSystem.palloc .debug (s.pool .pfKernel) = .ok r := by
      unfold Vm.pageTableAdd at hr
      rw [h.load_pde hv', ok_bind, if_neg hp] at hr
      obtain ⟨s1, hnew, -⟩ := bind_ok.mp hr
      obtain ⟨r, hr, -⟩ := bind_ok.mp hnew
      exact ⟨r, hr⟩
    obtain ⟨k, hk, hbit, hlt, rfl⟩ := h.palloc hpa
    have hy := h.free k hk hbit
    rw [h.pageTableAdd_new hv hp (h.unheld_ne hy) hlt hpa] at hr
    cases hr
    exact ⟨h.withTable hv hx hk hbit hp, h.installs_new hv hx hy hlt hp⟩

/-! ## One page -/

structure MapsPage (s s' : Vm τ) (v : Nat) : Prop where
  space : s'.Space
  walk : (s'.walk v).isSome
  other : ∀ w < 0xffc00000, w / pgSize ≠ v / pgSize → s'.walk w = s.walk w

theorem Space.setUserPool (h : s.Space) {k : Nat} : (s.setPool .pfUser (s.userPool.set k true)).Space :=
  h.of_dir rfl (fun _ _ => rfl) rfl ⟨_, rfl⟩

theorem Space.mapPage {ok : Bool} (h : s.Space) (hv : v < 0xffc00000) (hnone : s.walk v = none)
    (hr : s.mapPage .debug .pfUser v = .ok (ok, s')) : ok = true ∧ MapsPage s s' v := by
  obtain ⟨⟨o, pool⟩, hpa, hr⟩ := bind_ok.mp hr
  obtain ⟨k, hk, hbit, hlt, he⟩ := h.palloc hpa
  obtain ⟨rfl, rfl⟩ := Prod.mk.inj he
  obtain ⟨s1, hadd, hr⟩ := bind_ok.mp hr
  cases hr
  obtain ⟨hs, hin⟩ := h.setUserPool.pageTableAdd hv hnone hlt hadd
  exact ⟨rfl, hs, by rw [hin.walk]; rfl, hin.other⟩

variable [DecidableEq τ]

theorem Space.getAPage {cur : τ} {o : Option Nat} (h : s.Space) (hv : v < 0xffc00000) (hnone : s.walk v = none)
    (hr : s.getAPage .debug cur .pfUser v = .ok (o, s')) : o = some v ∧ MapsPage s s' v := by
  obtain ⟨s1, hma, hr⟩ := bind_ok.mp hr
  obtain ⟨p, hp⟩ : ∃ p, s1 = s.setUserprog cur p := by
    unfold Vm.markPage at hma
    split at hma
    · obtain ⟨_, -, hma⟩ := bind_ok.mp hma
      cases hma
      exact ⟨_, rfl⟩
    · split at hma
      · rename_i hpf
        cases hpf.2
      · cases hma
  have h1 : s1.Space := by
    rw [hp]
    exact h.of_dir rfl (fun _ _ => rfl) rfl ⟨_, rfl⟩
  have hwa : ∀ w, s1.walk w = s.walk w := fun w => by
    rw [hp]
    rfl
  obtain ⟨⟨ok, s2⟩, hpa, hr⟩ := bind_ok.mp hr
  obtain ⟨rfl, hm⟩ := h1.mapPage hv ((hwa v).trans hnone) hpa
  cases hr
  exact ⟨rfl, hm.space, hm.walk, fun w hw hne => (hm.other w hw hne).trans (hwa w)⟩

omit [DecidableEq τ] in
theorem SelfRef.pageThere (h : s.SelfRef) (hv : v < 2 ^ 32) : s.pageThere v = .ok (s.walk v).isSome := by
  unfold Vm.pageThere
  rw [h.load_pde hv, ok_bind]
  split
  · next hp =>
    rw [h.load_pte hv hp, ok_bind]
    by_cases hq : Present (s.mem (s.tableOf v) (v / pgSize % 1024))
    · rw [walk_eq hp hq, decide_eq_true hq]
      rfl
    · have hnone : s.walk v = none := if_neg fun e => hq e.2
      rw [hnone, decide_eq_false hq]
      rfl
  · next hp =>
    have hnone : s.walk v = none := if_neg fun e => hp e.1
    rw [hnone]
    rfl

/-! ## The loop -/

theorem Space.segmentPages_succ {cur : τ} {n : Nat} {v : UInt32} {ok : Bool} (h : s.Space) (hv : v.toNat < 0xffc00000)
    (hr : segmentPages cur (n + 1) v s = .ok (ok, s')) :
    (s.walk v.toNat).isSome ∧ segmentPages cur n (v + 4096) s = .ok (ok, s') ∨
    s.walk v.toNat = none ∧ ∃ s1, MapsPage s s1 v.toNat ∧ segmentPages cur n (v + 4096) s1 = .ok (ok, s') := by
  unfold segmentPages at hr
  rw [h.pageThere v.toNat_lt, ok_bind] at hr
  cases hw : s.walk v.toNat with
  | some x =>
    rw [hw] at hr
    exact .inl ⟨rfl, hr⟩
  | none =>
    rw [hw] at hr
    obtain ⟨⟨o, s1⟩, hpa, hr⟩ := bind_ok.mp hr
    obtain ⟨rfl, hm⟩ := h.getAPage hv hw hpa
    exact .inr ⟨rfl, s1, hm, hr⟩

theorem next_page {v : UInt32} {n : Nat} (ha : v.toNat % pgSize = 0) (hv : v.toNat + (n + 1) * pgSize ≤ 0xc0000000) :
    v.toNat < 0xffc00000 ∧ (v + 4096).toNat = v.toNat + pgSize ∧ (v + 4096).toNat % pgSize = 0 ∧
      (v + 4096).toNat + n * pgSize ≤ 0xc0000000 := by
  have hn : (v + 4096).toNat = (v.toNat + 4096) % 2 ^ 32 := UInt32.toNat_add v 4096
  unfold pgSize at *
  omega

structure MapsPages (s s' : Vm τ) (v n : Nat) : Prop where
  mapped : ∀ k < n, (s'.walk (v + k * pgSize)).isSome
  kept : ∀ w < 0xffc00000, ∀ x, s.walk w = some x → s'.walk w = some x
  outside : ∀ w < 0xffc00000, (∀ k < n, w / pgSize ≠ v / pgSize + k) → s'.walk w = s.walk w

theorem Space.segmentPages {cur : τ} {ok : Bool} : ∀ {n : Nat} {v : UInt32} {s : Vm τ}, s.Space → v.toNat % pgSize = 0 →
    v.toNat + n * pgSize ≤ 0xc0000000 → Vm.segmentPages cur n v s = .ok (ok, s') → ok = true ∧ MapsPages s s' v.toNat n
  | 0, v, s, _, _, _, hr => by
    cases hr
    exact ⟨rfl, fun k hk => by omega, fun _ _ _ hx => hx, fun _ _ _ => rfl⟩
  | n + 1, v, s, h, ha, hv, hr => by
    obtain ⟨hlt, hn, ha', hv'⟩ := next_page ha hv
    have hdiv : (v + 4096).toNat / pgSize = v.toNat / pgSize + 1 := by
      rw [hn]
      exact Nat.add_div_right _ (by decide)
    have hall : ∀ s1 : Vm τ, MapsPages s1 s' (v + 4096).toNat n → (s1.walk v.toNat).isSome →
        ∀ k < n + 1, (s'.walk (v.toNat + k * pgSize)).isSome := by
      intro s1 hm hs k hk
      cases k with
      | zero =>
        -- the first page is not touched again
        rw [Nat.zero_mul, Nat.add_zero, hm.outside _ hlt fun k _ => by rw [hdiv]; omega]
        exact hs
      | succ k =>
        have := hm.mapped k (by omega)
        rwa [hn, Nat.add_assoc, Nat.add_comm pgSize, ← Nat.succ_mul] at this
    have hsh : ∀ w, (∀ k < n + 1, w / pgSize ≠ v.toNat / pgSize + k) → ∀ k < n, w / pgSize ≠ (v + 4096).toNat / pgSize + k := by
      intro w hw k hk
      have := hw (k + 1) (by omega)
      rw [hdiv]
      omega
    rcases h.segmentPages_succ hlt hr with ⟨hs, hr1⟩ | ⟨hnone, s1, hm1, hr1⟩
    · obtain ⟨rfl, hm⟩ := Space.segmentPages h ha' hv' hr1
      exact ⟨rfl, hall s hm hs, hm.kept, fun w hw hout => hm.outside w hw (hsh w hout)⟩
    · obtain ⟨rfl, hm⟩ := Space.segmentPages hm1.space ha' hv' hr1
      refine ⟨rfl, hall s1 hm hm1.walk, fun w hw x hx => ?_, fun w hw hout => ?_⟩
      · by_cases hpa : w / pgSize = v.toNat / pgSize
        · rw [walk_page hpa, hnone] at hx
          cases hx
        · exact hm.kept w hw x ((hm1.other w hw hpa).trans hx)
      · rw [hm.outside w hw (hsh w hout)]
        exact hm1.other w hw (hout 0 (by omega))

/-! ## The pages of a segment -/

def Meets (vaddr filesz : UInt32) (v : Nat) : Prop :=
  ∃ a, vaddr.toNat ≤ a ∧ a < vaddr.toNat + filesz.toNat ∧ a / pgSize = v / pgSize

theorem meets_iff {vaddr filesz : UInt32} {v : Nat} (hf : 1 ≤ filesz.toNat) (hlo : userVaddrStart ≤ vaddr.toNat)
    (hhi : vaddr.toNat + filesz.toNat ≤ userVaddrEnd) :
    Meets vaddr filesz v ↔ ∃ k < (occupyPages filesz vaddr).toNat, v / pgSize = vaddr.toNat / pgSize + k := by
  have hn := occupyPages_toNat (g := ⟨0, filesz, vaddr, 0⟩) ⟨hlo, show vaddr.toNat < userVaddrEnd by omega, hhi⟩
  dsimp only at hn
  unfold Meets pgSize
  rw [hn]
  constructor
  · rintro ⟨a, h1, h2, h3⟩
    refine ⟨v / 4096 - vaddr.toNat / 4096, ?_, by omega⟩
    split <;> omega
  · rintro ⟨k, hk, hv⟩
    -- the first byte of the page, or of the segment
    refine ⟨max vaddr.toNat (v / 4096 * 4096), by omega, ?_, by omega⟩
    split at hk <;> omega

/-- **`segment_load` maps the pages of the segment** and no others, and keeps what was mapped. -/
theorem segment_load_maps_pages {cur : τ} (hs : s.Space) (vaddr filesz : UInt32) (hf : 1 ≤ filesz.toNat)
    (hlo : userVaddrStart ≤ vaddr.toNat) (hhi : vaddr.toNat + filesz.toNat ≤ userVaddrEnd)
    (hr : segmentPages cur (occupyPages filesz vaddr).toNat (vaddr &&& 0xfffff000) s = .ok (true, s')) :
    (∀ v, Meets vaddr filesz v → (s'.walk v).isSome) ∧
    (∀ v < 0xffc00000, ∀ x, s.walk v = some x → s'.walk v = some x) ∧
    ∀ v < 0xffc00000, ¬ Meets vaddr filesz v → s'.walk v = s.walk v := by
  have hn := occupyPages_toNat (g := ⟨0, filesz, vaddr, 0⟩) ⟨hlo, show vaddr.toNat < userVaddrEnd by omega, hhi⟩
  dsimp only at hn
  have hfi := and_high vaddr
  have hpa : (vaddr &&& 0xfffff000).toNat / pgSize = vaddr.toNat / pgSize := by
    rw [hfi]
    unfold pgSize
    omega
  have hend : (vaddr &&& 0xfffff000).toNat + (occupyPages filesz vaddr).toNat * pgSize ≤ 0xc0000000 := by
    rw [hfi, hn]
    unfold pgSize userVaddrEnd at *
    split <;> omega
  have ha : (vaddr &&& 0xfffff000).toNat % pgSize = 0 := by
    rw [hfi]
    unfold pgSize
    omega
  obtain ⟨-, hm⟩ := hs.segmentPages ha hend hr
  refine ⟨fun v hv => ?_, hm.kept, fun v hv hout => hm.outside v hv fun k hk hvk => hout ?_⟩
  · obtain ⟨k, hk, hvk⟩ := (meets_iff hf hlo hhi).mp hv
    rw [walk_page (v := (vaddr &&& 0xfffff000).toNat + k * pgSize)]
    · exact hm.mapped k hk
    · rw [hvk, ← hpa]
      unfold pgSize
      omega
  · exact (meets_iff hf hlo hhi).mpr ⟨k, hk, hpa ▸ hvk⟩

theorem Space.mapPages_eq {cur : τ} : ∀ {n : Nat} {v : UInt32} {s : Vm τ} {st : Loading}, s.Space → v.toNat % pgSize = 0 →
    v.toNat + n * pgSize ≤ 0xc0000000 → (∀ p < 0xffc00, st.mapped p = (s.walk (p * pgSize)).isSome) → n ≤ st.frames →
    Vm.segmentPages cur n v s = .ok (true, s') →
    ∃ st', Loading.mapPages n v st = (st', true) ∧ ∀ p < 0xffc00, st'.mapped p = (s'.walk (p * pgSize)).isSome
  | 0, v, s, st, _, _, _, hmap, _, hr => by
    cases hr
    exact ⟨st, rfl, hmap⟩
  | n + 1, v, s, st, h, ha, hv, hmap, hfr, hr => by
    obtain ⟨hlt, -, ha', hv'⟩ := next_page ha hv
    have hpa : pageOf v * pgSize = v.toNat := Nat.div_mul_cancel (Nat.dvd_of_mod_eq_zero ha)
    have hlow : pageOf v < 0xffc00 := by
      unfold pageOf pgSize
      omega
    have ht : st.mapped (pageOf v) = (s.walk v.toNat).isSome := by
      rw [hmap _ hlow, hpa]
    unfold Loading.mapPages
    rw [ht]
    rcases h.segmentPages_succ hlt hr with ⟨hs, hr1⟩ | ⟨hnone, s1, hm1, hr1⟩
    · rw [if_pos hs]
      exact Space.mapPages_eq h ha' hv' hmap (by omega) hr1
    · have hget : st.getAPage v = ({ st.setBit (vaddrBit v) with
          mapped := update st.mapped (pageOf v) true, frames := st.frames - 1 }, true) :=
        if_neg (show ¬ st.frames = 0 by omega)
      rw [if_neg (by rw [hnone]; exact Bool.false_ne_true), hget]
      refine Space.mapPages_eq hm1.space ha' hv' (fun p hp => ?_) (show n ≤ st.frames - 1 by omega) hr1
      show update st.mapped (pageOf v) true p = _
      by_cases hpv : p = pageOf v
      · rw [hpv, update_self, hpa, hm1.walk]
      · rw [update_of_ne hpv, hmap p hp, hm1.other (p * pgSize) (by unfold pgSize; omega)]
        rw [Nat.mul_div_cancel _ (by decide)]
        exact hpv

theorem eightFrames_space : eightFrames.Space := by
  refine ⟨⟨⟨by decide, by decide⟩, bareDir_tables.distinct⟩, fun pf => ?_, fun pf => ?_, fun k _ _ i _ hp => ?_⟩
  · cases pf <;> decide
  · cases pf <;> decide
  · have hi : i = 1023 := bareDir_present hp
    have hf : frameOf (eightFrames.mem eightFrames.cr3 1023) = 0x300 := by decide
    have hk : k < 8 := by assumption
    have hb : eightFrames.base .pfKernel = 0x200 := by decide
    rw [hi, hf, hb]
    omega

theorem segment_load_maps_two_pages : ∃ s', segmentPages () (occupyPages 5000 0x8048800).toNat (0x8048800 &&& 0xfffff000) eightFrames = .ok (true, s') ∧
    (s'.walk 0x8048000).isSome ∧ (s'.walk 0x8049000).isSome ∧ s'.walk 0x804a000 = none := by
  obtain ⟨⟨ok, s'⟩, hr, hok⟩ : ∃ r, segmentPages () (occupyPages 5000 0x8048800).toNat (0x8048800 &&& 0xfffff000) eightFrames = .ok r ∧
      r.1 = true := exists_of_any (by decide +kernel)
  obtain rfl : ok = true := hok
  obtain ⟨hin, -, hout⟩ := segment_load_maps_pages eightFrames_space 0x8048800 5000 (by decide) (by decide) (by decide) hr
  refine ⟨s', hr, hin _ ⟨0x8048800, by decide, by decide, by decide⟩, hin _ ⟨0x8049000, by decide, by decide, by decide⟩, ?_⟩
  refine (hout _ (by decide) ?_).trans (by decide +kernel)
  rintro ⟨a, -, ha, hpa⟩
  have ha : a < 0x8048800 + 5000 := ha
  unfold pgSize at hpa
  omega

end Vm

end OperateSystem
