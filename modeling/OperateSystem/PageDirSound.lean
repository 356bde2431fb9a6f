import OperateSystem.MmuSound

/-!
# Every process maps the kernel alike

The calls that allocate and free pages and make and load page directories, over
whole runs: each directory keeps the entries that `create_page_dir` copied, so an
address of the kernel below the page tables has one frame in all of them.
-/

namespace OperateSystem

open Function

namespace Vm

variable {τ : Type} {s s' : Vm τ} {d f i j v x : Nat} {w : UInt32}
variable {n : Nat} {o : Option Nat} {pf : PoolFlags} {cur : τ} {b : τ → VirtualAddr}

/-! ## The calls -/

theorem Core.congr (h : s.Core) (hs : s'.Shape) (hm : s'.mem = s.mem) (hus : ∀ x, s.Used x → s'.Used x)
    (hdir : ∀ d, s'.Dir d ↔ s.Dir d) (ha : s.Dir s'.cr3)
    (hpgdir : ∀ t v, s'.pgdir t = some v → s.pgdir t = some v) : s'.Core := by
  have hen : ∀ g k, s'.Entry g k ↔ s.Entry g k := fun g k =>
    entry_iff hdir fun f => table_iff hdir fun _ _ _ => by rw [hm]
  refine ⟨hs, fun d hd => ?_, fun d hd => ?_, ?_, ?_, (hdir _).mpr ha, fun g k hgk => ?_,
    fun g k g' k' hgk hgk' => ?_, fun t v ht => h.heap t v (hpgdir t v ht)⟩ <;> rw [hm]
  · exact h.kernel d ((hdir d).mp hd)
  · exact h.self d ((hdir d).mp hd)
  · exact h.first
  · exact h.low
  · exact fun hp => hus _ (h.used g k ((hen g k).mp hgk) hp)
  · exact h.inj g k g' k' ((hen g k).mp hgk) ((hen g' k').mp hgk')

theorem Core.vaddr (h : s.Core) {a : VirtualAddr} (ha : a.vaddrStart = kHeapStart)
    (hlen : a.vaddrBitmap.btmpBytesLen = s.kernelVaddr.vaddrBitmap.btmpBytesLen) :
    ({ s with kernelVaddr := a, userprogVaddr := b } : Vm τ).Core := by
  refine h.congr ⟨h.shape.1, h.shape.2, h.shape.3, h.shape.4, ha, ?_⟩ rfl (fun _ hx => hx)
    (fun d => dir_iff rfl fun _ _ _ => rfl) h.active fun _ _ ht => ht
  show 8 * a.vaddrBitmap.btmpBytesLen < 2 ^ 15
  rw [hlen]
  exact h.shape.6

theorem Inv.vaddr (h : s.Inv) {a : VirtualAddr} (ha : a.vaddrStart = kHeapStart)
    (hlen : a.vaddrBitmap.btmpBytesLen = s.kernelVaddr.vaddrBitmap.btmpBytesLen) :
    ({ s with kernelVaddr := a, userprogVaddr := b } : Vm τ).Inv := ⟨h.toCore.vaddr ha hlen, h.mapped⟩

theorem Inv.activate (h : s.Inv) (hd : s.Dir d) : ({ s with cr3 := d } : Vm τ).Inv :=
  ⟨h.toCore.congr ⟨h.shape.1, h.shape.2, h.shape.3, h.shape.4, h.shape.5, h.shape.6⟩ rfl (fun _ hx => hx)
    (fun _ => dir_iff rfl fun _ _ _ => rfl) hd fun _ _ ht => ht, h.mapped⟩

theorem Core.kernel_page (h : s.Core) (hd : s.Dir d) (h1 : 0xc0000000 ≤ v) (h2 : v < 0xffc00000) :
    Present (s.mem d (v / 2 ^ 22)) ∧ frameOf (s.mem d (v / 2 ^ 22)) = 0x101 + (v / 2 ^ 22 - 768) := by
  have hi : 768 ≤ v / 2 ^ 22 ∧ v / 2 ^ 22 ≤ 1022 := by omega
  rw [h.kernel d hd _ hi.1 hi.2]
  exact ⟨present_bootEntry hi.1 hi.2, frameOf_bootEntry hi.1 hi.2⟩

theorem Core.walk_kernel (h : s.Core) (h1 : 0xc0000000 ≤ v) (h2 : v < 0xffc00000) :
    s.walk v = if Present (s.kpte v) then some (frameOf (s.kpte v)) else none := by
  obtain ⟨hp, hf⟩ := h.kernel_page h.active h1 h2
  unfold walk kpte
  dsimp only
  rw [hf]
  simp only [hp, true_and]

theorem Inv.dir_of_pgdir {t : τ} (h : s.Inv) (ht : s.pgdir t = some v) : s.walk v = some (frameOf (s.kpte v)) ∧
    s.Dir (frameOf (s.kpte v)) := by
  obtain ⟨h1, h2, -⟩ := h.heap t v ht
  have hp := h.mapped t v ht
  rw [h.walk_kernel (by unfold kHeapStart at h1; omega) h2, if_pos hp]
  exact ⟨rfl, .proc ht hp⟩

def dirOf (s : Vm τ) (t : τ) : Nat :=
  match s.pgdir t with
  | none => bootDir
  | some v => frameOf (s.kpte v)

theorem Inv.dirOf (h : s.Inv) (t : τ) : s.Dir (s.dirOf t) := by
  unfold Vm.dirOf
  cases ht : s.pgdir t with
  | none => exact .boot
  | some v => exact (h.dir_of_pgdir ht).2

theorem Inv.pageDirActivate (h : s.Inv) (t : τ) : s.pageDirActivate t = .ok { s with cr3 := s.dirOf t } := by
  unfold Vm.pageDirActivate Vm.dirOf
  cases ht : s.pgdir t with
  | none => rfl
  | some v =>
    obtain ⟨hw, -⟩ := h.dir_of_pgdir ht
    obtain ⟨-, h2, ha⟩ := h.heap t v ht
    show (s.addrV2p v >>= _) = _
    rw [addrV2p_eq h.selfRef (by omega) ha hw, ok_bind, Nat.mul_div_cancel _ (by decide), pure_ok]

theorem Inv.getAPageWithoutOpvaddrbitmap (h : s.Inv) (hv : v < 0xffc00000)
    (hr : s.getAPageWithoutOpvaddrbitmap .debug pf v = .ok (o, s')) : s'.Inv := by
  unfold Vm.getAPageWithoutOpvaddrbitmap at hr
  obtain ⟨⟨ok, s1⟩, hmap, hr⟩ := bind_ok.mp hr
  cases hr
  obtain ⟨-, x, hm⟩ := h.mapPage hv hmap
  exact hm.inv

theorem Core.dropDirs (h : s.Core) : s.dropDirs.Inv := by
  have hpgdir : ∀ t v, s.dropDirs.pgdir t = some v ↔ s.pgdir t = some v ∧ Present (s.kpte v) := by
    intro t v
    unfold Vm.dropDirs
    rw [Option.filter_eq_some_iff]
    refine and_congr_right fun ht => ?_
    obtain ⟨h1, h2, -⟩ := h.heap t v ht
    rw [h.walk_kernel (by unfold kHeapStart at h1; omega) h2]
    split <;> simp_all
  have hdir : ∀ d, s.dropDirs.Dir d ↔ s.Dir d := by
    intro d
    constructor
    · intro hd
      cases hd with
      | boot => exact .boot
      | proc ht hp => exact .proc ((hpgdir _ _).mp ht).1 hp
    · intro hd
      cases hd with
      | boot => exact .boot
      | proc ht hp => exact .proc (s := s.dropDirs) ((hpgdir _ _).mpr ⟨ht, hp⟩) hp
  exact ⟨h.congr ⟨h.shape.1, h.shape.2, h.shape.3, h.shape.4, h.shape.5, h.shape.6⟩ rfl (fun _ hx => hx) hdir h.active
    fun t v ht => ((hpgdir t v).mp ht).1, fun t v ht => ((hpgdir t v).mp ht).2⟩

theorem Mapped.scratch (h : Mapped s s' v x) (h1 : 0xc0000000 ≤ v) (h2 : v < 0xffc00000) (m : Nat → UInt32) :
    Mapped s { s' with mem := update s'.mem x m } v x := by
  have hinv := h.inv.scratch h.bound.1 h.not_dir h.not_table m
  have hold : ∀ g k, g ≠ x → ({ s' with mem := update s'.mem x m } : Vm τ).mem g k = s'.mem g k := by
    intro g k hg
    show update s'.mem x m g k = s'.mem g k
    rw [update_of_ne hg]
  have hdir : ∀ d, ({ s' with mem := update s'.mem x m } : Vm τ).Dir d ↔ s'.Dir d := by
    refine fun d => dir_iff rfl fun t v ht => hold _ _ ?_
    obtain ⟨h3, h4, -⟩ := h.inv.heap t v ht
    have := h.bound
    omega
  have hne : ∀ d, s'.Dir d → d ≠ x := fun d hd e => h.not_dir (e ▸ hd)
  refine ⟨hinv, ?_, h.bound, fun hd => h.not_dir ((hdir x).mp hd),
    fun ht => h.not_table ((table_iff hdir fun d i hi => hold d i (hne d hi.dir)).mp ht), h.pgdir, h.cr3, h.kernelVaddr⟩
  have hw := h.walk
  have hk : ({ s' with mem := update s'.mem x m } : Vm τ).kpte v = s'.kpte v := hold _ _ (by have := h.bound; omega)
  rw [h.inv.walk_kernel h1 h2] at hw
  rw [hinv.walk_kernel h1 h2, hk]
  exact hw

theorem frame_of_walk (h : s.walk v = some f) : s.frame v = .ok f := by
  unfold Vm.frame
  rw [h]
  rfl

theorem walk_add {o : Nat} (hv : v % pgSize = 0) (ho : o < pgSize) : s.walk (v + o) = s.walk v := by
  have h1 : (v + o) / 2 ^ 22 = v / 2 ^ 22 := by unfold pgSize at *; omega
  have h2 : (v + o) / pgSize = v / pgSize := by unfold pgSize at *; omega
  unfold walk
  rw [h1, h2]

def newEntries (s : Vm τ) (x j : Nat) : UInt32 :=
  if j = 1023 then pteWord (x * pgSize) else if 0x300 ≤ j then s.mem s.cr3 j else s.mem x j

theorem Mapped.fillDir {s1 : Vm τ} (hm : Mapped s s1 v x) (h1 : 0xc0000000 ≤ v) (h2 : v < 0xffc00000)
    (ha : v % pgSize = 0) (hc : s1.copyEntries v = .ok s') :
    s'.addrV2p v = .ok (x * pgSize) ∧ s'.store (v + 1023 * 4) (pteWord (x * pgSize)) =
      .ok { s1 with mem := update s1.mem x (s1.newEntries x) } := by
  have hdst : s1.frame (v + 0x300 * 4) = .ok x := frame_of_walk ((walk_add ha (by decide)).trans hm.walk)
  have hsrc : s1.frame (0xfffff000 + 0x300 * 4) = .ok s1.cr3 := by
    rw [show 0xfffff000 + 0x300 * 4 = pdePtr (0x300 * 2 ^ 22) by decide]
    exact hm.inv.selfRef.frame_pde (by decide)
  unfold Vm.copyEntries at hc
  rw [hdst, ok_bind, hsrc, ok_bind, pure_ok] at hc
  have hs' := Except.ok.inj hc
  have hm2 := hm.scratch h1 h2 fun j => if 0x300 ≤ j then s1.mem s1.cr3 j else s1.mem x j
  rw [hs'] at hm2
  have hw : (v + 1023 * 4) % pgSize / 4 = 1023 := by
    unfold pgSize at *
    omega
  refine ⟨addrV2p_eq hm2.inv.selfRef (by omega) ha hm2.walk, ?_⟩
  unfold Vm.store
  rw [frame_of_walk ((walk_add ha (by decide)).trans hm2.walk), ok_bind, hw, pure_ok, ← hs']
  unfold setWord
  refine congrArg Except.ok (congrArg (fun m => { s1 with mem := m }) ?_)
  dsimp only
  rw [update_idem, update_self]
  congr 1
  funext j
  unfold newEntries
  by_cases hj : j = 1023
  · rw [hj, update_self, if_pos rfl]
  · rw [update_of_ne hj, if_neg hj]

variable [DecidableEq τ]

theorem Inv.vaddrGet (h : s.Inv) (hn : 1 ≤ n ∧ n < 3840) (hr : s.vaddrGet .debug cur pf n = .ok (o, s')) :
    s'.Inv ∧ s'.pgdir = s.pgdir ∧
      ∀ v, o = some v → v + n * pgSize ≤ 0xffc00000 ∧ (pf = .pfKernel → kHeapStart ≤ v ∧ v % pgSize = 0) := by
  cases pf with
  | pfKernel =>
    unfold Vm.vaddrGet at hr
    obtain ⟨r, hsc, hr⟩ := bind_ok.mp hr
    cases r with
    | none =>
      cases hr
      exact ⟨h, rfl, by simp⟩
    | some i =>
      cases hr
      have hb := bitmapScan_bound hsc
      have hlen := h.shape.heapSize
      have hs := h.shape.heapStart
      refine ⟨h.vaddr (a := ⟨_, _⟩) hs (setBits_len ..), rfl, fun v e => ?_⟩
      cases e
      rw [hs]
      refine ⟨?_, fun _ => ⟨Nat.le_add_right .., ?_⟩⟩ <;> unfold kHeapStart pgSize <;> omega
  | pfUser =>
    unfold Vm.vaddrGet at hr
    obtain ⟨r, hsc, hr⟩ := bind_ok.mp hr
    cases r with
    | none =>
      cases hr
      exact ⟨h, rfl, by simp⟩
    | some i =>
      obtain ⟨_, ha, hr⟩ := bind_ok.mp hr
      rw [assert_debug_ok] at ha
      cases hr
      refine ⟨h.vaddr h.shape.heapStart rfl, rfl, fun v e => ⟨?_, by simp⟩⟩
      cases e
      unfold pgSize at *
      omega

theorem Inv.mallocPage (h : s.Inv) (hr : s.mallocPage .debug cur pf n = .ok (o, s')) : s'.Inv := by
  unfold Vm.mallocPage at hr
  obtain ⟨_, ha, hr⟩ := bind_ok.mp hr
  rw [assert_debug_ok] at ha
  obtain ⟨⟨o1, s1⟩, hget, hr⟩ := bind_ok.mp hr
  obtain ⟨hinv, -, hv⟩ := h.vaddrGet ha hget
  cases o1 with
  | none =>
    cases hr
    exact hinv
  | some v =>
    obtain ⟨⟨ok, s2⟩, hmap, hr⟩ := bind_ok.mp hr
    cases hr
    exact (hinv.mapPages (hv v rfl).1 hmap).1

theorem Inv.markPage (h : s.Inv) (hr : s.markPage .debug cur pf v = .ok s') : s'.Inv := by
  unfold Vm.markPage at hr
  split at hr
  · obtain ⟨_, -, hr⟩ := bind_ok.mp hr
    cases hr
    exact h.vaddr h.shape.heapStart rfl
  · split at hr
    · obtain ⟨_, -, hr⟩ := bind_ok.mp hr
      obtain ⟨_, -, hr⟩ := bind_ok.mp hr
      cases hr
      exact h.vaddr (a := ⟨_, _⟩) h.shape.heapStart rfl
    · cases hr

theorem Inv.getAPage (h : s.Inv) (hv : v < 0xffc00000) (hr : s.getAPage .debug cur pf v = .ok (o, s')) : s'.Inv := by
  unfold Vm.getAPage at hr
  obtain ⟨s1, hm, hr⟩ := bind_ok.mp hr
  exact (h.markPage hm).getAPageWithoutOpvaddrbitmap hv hr

theorem Core.vaddrRemove (h : s.Core) (hr : s.vaddrRemove cur pf v n = .ok s') : s'.Core := by
  unfold Vm.vaddrRemove at hr
  cases pf with
  | pfKernel =>
    obtain ⟨_, -, hr⟩ := bind_ok.mp hr
    cases hr
    exact h.vaddr (a := ⟨_, _⟩) h.shape.heapStart (setBits_len ..)
  | pfUser =>
    obtain ⟨_, -, hr⟩ := bind_ok.mp hr
    cases hr
    exact h.vaddr h.shape.heapStart rfl

theorem Core.mfreePage (h : s.Core) (hf : s.Fits (.mfreePage cur pf v n))
    (hr : s.mfreePage .debug cur pf v n = .ok s') : s'.Core := by
  obtain ⟨hs, hmap⟩ := hf
  unfold Vm.mfreePage at hr
  obtain ⟨_, ha, hr⟩ := bind_ok.mp hr
  rw [assert_debug_ok] at ha
  obtain ⟨p, -, hr⟩ := bind_ok.mp hr
  obtain ⟨_, -, hr⟩ := bind_ok.mp hr
  have hk := h.shape.kernelStart
  have hu := h.shape.apart
  obtain ⟨s1, hl, hr⟩ := bind_ok.mp hr
  refine Core.vaddrRemove ?_ hr
  split at hl
  · refine (Core.unmapPages (fun q hq => ?_) h ha.2 hs hmap hl).core
    have hq := (of_decide_eq_true hq).2
    unfold pgSize at *
    omega
  · refine (Core.unmapPages (fun q hq => ?_) h ha.2 hs hmap hl).core
    have hq := (of_decide_eq_true hq).2
    omega

/-! ## A new directory -/

theorem Inv.addDir {t : τ} (h : s.Inv) (ht : s.pgdir t = none)
    (hv : kHeapStart ≤ v ∧ v < 0xffc00000 ∧ v % pgSize = 0) (hp : Present (s.kpte v))
    (hf : frameOf (s.kpte v) = x) (huser : ∀ i < 768, s.mem x i = 0)
    (hke : ∀ i, 768 ≤ i → i ≤ 1022 → s.mem x i = bootEntry i)
    (hs : s.mem x 1023 = pteWord (x * pgSize)) :
    ({ s with userprogVaddr := b, pgdir := update s.pgdir t (some v) } : Vm τ).Inv := by
  generalize hs' : ({ s with userprogVaddr := b, pgdir := update s.pgdir t (some v) } : Vm τ) = s'
  have hmem : s'.mem = s.mem := by rw [← hs']
  have hkp : ∀ q, s'.kpte q = s.kpte q := fun q => by unfold kpte; rw [hmem]
  have hpgdir : ∀ u q, s'.pgdir u = some q ↔ s.pgdir u = some q ∨ u = t ∧ q = v := by
    intro u q
    rw [← hs']
    show update s.pgdir t (some v) u = some q ↔ _
    by_cases hu : u = t
    · subst hu
      simp [ht, eq_comm]
    · simp [hu]
  have hdir : ∀ g, s'.Dir g ↔ s.Dir g ∨ g = x := by
    intro g
    constructor
    · intro hg
      cases hg with
      | boot => exact .inl .boot
      | @proc u q hu hq =>
        rw [hkp] at hq ⊢
        rcases (hpgdir u q).mp hu with hu | ⟨-, rfl⟩
        · exact .inl (.proc hu hq)
        · exact .inr hf
    · rintro (hg | rfl)
      · cases hg with
        | boot => exact .boot
        | @proc u q hu hq =>
          rw [← hkp] at hq ⊢
          exact .proc ((hpgdir u q).mpr (.inl hu)) hq
      · rw [← hf, ← hkp]
        exact .proc ((hpgdir t v).mpr (.inr ⟨rfl, rfl⟩)) (by rwa [hkp])
  have hus : ∀ g i, s'.UserEntry g i → s.UserEntry g i ∨ g = x ∧ i < 768 := by
    intro g i hg
    rcases (hdir g).mp hg.dir with hd' | rfl
    · exact .inl ⟨hd', hg.lt, hg.ne⟩
    · exact .inr ⟨rfl, hg.lt⟩
  -- the new directory has no entry for user addresses
  have hz : ∀ i < 768, ¬ Present (s.mem x i) := fun i hi => by
    rw [huser i hi]
    exact not_present_zero
  have hen : ∀ g k, s'.Entry g k → Present (s.mem g k) → s.Entry g k := by
    rintro g k (hg | hg) hgp
    · rcases hus g k hg with hg | ⟨rfl, hk⟩
      · exact .inl hg
      · exact absurd hgp (hz k hk)
    · refine .inr ⟨hg.lt, hg.table.imp_right ?_⟩
      rintro ⟨d, i, hi, hpi, rfl⟩
      rw [hmem] at hpi ⊢
      rcases hus d i hi with hi | ⟨rfl, hi⟩
      · exact ⟨d, i, hi, hpi, rfl⟩
      · exact absurd hpi (hz i hi)
  refine ⟨⟨?_, fun g hg i h1 h2 => ?_, fun g hg => ?_, ?_, ?_, ?_, fun g k hgk hgp => ?_, fun g k g' k' hgk hgk' hgp hgp' => ?_,
    fun u q hu => ?_⟩, fun u q hu => ?_⟩
  · rw [← hs']
    exact ⟨h.shape.1, h.shape.2, h.shape.3, h.shape.4, h.shape.5, h.shape.6⟩
  · rw [hmem]
    rcases (hdir g).mp hg with hg | rfl
    · exact h.kernel g hg i h1 h2
    · exact hke i h1 h2
  · rw [hmem]
    rcases (hdir g).mp hg with hg | rfl
    · exact h.self g hg
    · exact hs
  · rw [hmem]
    exact h.first
  · rw [hmem]
    exact h.low
  · refine (hdir _).mpr (.inl ?_)
    rw [← hs']
    exact h.active
  · rw [hmem] at hgp ⊢
    have hu := h.used g k (hen g k hgk hgp) hgp
    rw [← hs']
    exact hu
  · rw [hmem] at hgp hgp' ⊢
    exact h.inj g k g' k' (hen g k hgk hgp) (hen g' k' hgk' hgp') hgp hgp'
  · rcases (hpgdir u q).mp hu with hu | ⟨-, rfl⟩
    · exact h.heap u q hu
    · exact hv
  · rw [hkp]
    rcases (hpgdir u q).mp hu with hu | ⟨-, rfl⟩
    · exact h.mapped u q hu
    · exact hp

theorem Inv.getKernelPage (h : s.Inv) (hr : s.getKernelPages .debug cur 1 = .ok (o, s')) :
    o = none ∧ s'.Inv ∧ s'.pgdir = s.pgdir ∨ ∃ v x s1, o = some v ∧ (kHeapStart ≤ v ∧ v < 0xffc00000 ∧ v % pgSize = 0) ∧
      Mapped s1 s' v x ∧ s1.pgdir = s.pgdir ∧ ∀ j, s'.mem x j = 0 := by
  unfold Vm.getKernelPages at hr
  obtain ⟨⟨o1, s1⟩, hma, hr⟩ := bind_ok.mp hr
  unfold Vm.mallocPage at hma
  obtain ⟨_, ha, hma⟩ := bind_ok.mp hma
  rw [assert_debug_ok] at ha
  obtain ⟨⟨o2, s2⟩, hget, hma⟩ := bind_ok.mp hma
  obtain ⟨hinv, hpgdir, hv⟩ := h.vaddrGet ha hget
  cases o2 with
  | none =>
    cases hma
    cases hr
    exact .inl ⟨rfl, hinv, hpgdir⟩
  | some v =>
    obtain ⟨hlt, hh⟩ := hv v rfl
    obtain ⟨hs, hal⟩ := hh rfl
    have hlt : v < 0xffc00000 := by
      unfold pgSize at hlt
      omega
    obtain ⟨⟨ok, s3⟩, hmap, hma⟩ := bind_ok.mp hma
    obtain ⟨⟨ok', s4⟩, hpa, hmap⟩ := bind_ok.mp hmap
    obtain ⟨rfl, x, hm⟩ := hinv.mapPage hlt hpa
    cases hmap
    cases hma
    obtain ⟨s5, hclear, hr⟩ := bind_ok.mp hr
    cases hr
    obtain ⟨s6, hone, hclear⟩ := bind_ok.mp hclear
    cases hclear
    unfold Vm.clearPage at hone
    rw [frame_of_walk hm.walk, ok_bind] at hone
    cases hone
    refine .inr ⟨v, x, s2, rfl, ⟨hs, hlt, hal⟩, hm.scratch ?_ hlt _, hpgdir, fun j => ?_⟩
    · unfold kHeapStart at hs
      omega
    · simp

theorem Inv.createPageDir (h : s.Inv) (hr : s.createPageDir .debug cur = .ok (o, s')) :
    o = none ∧ s'.Inv ∧ s'.pgdir = s.pgdir ∨ ∃ v x s1, o = some v ∧ (kHeapStart ≤ v ∧ v < 0xffc00000 ∧ v % pgSize = 0) ∧
      Mapped s1 s' v x ∧ s1.pgdir = s.pgdir ∧ (∀ i < 768, s'.mem x i = 0) ∧
      (∀ i, 768 ≤ i → i ≤ 1022 → s'.mem x i = bootEntry i) ∧ s'.mem x 1023 = pteWord (x * pgSize) := by
  unfold Vm.createPageDir at hr
  obtain ⟨⟨o1, s1⟩, hpa, hr⟩ := bind_ok.mp hr
  rcases h.getKernelPage hpa with ⟨rfl, hinv, hpgdir⟩ | ⟨v, x, s0, rfl, hv, hm, hpgdir, hz⟩
  · cases hr
    exact .inl ⟨rfl, hinv, hpgdir⟩
  have hv1 : 0xc0000000 ≤ v := by
    have := hv.1
    unfold kHeapStart at this
    omega
  obtain ⟨s2, hc, hr⟩ := bind_ok.mp hr
  obtain ⟨ha, hs⟩ := hm.fillDir hv1 hv.2.1 hv.2.2 hc
  rw [ha, ok_bind, hs, ok_bind, pure_ok] at hr
  obtain ⟨rfl, rfl⟩ := Prod.mk.inj (Except.ok.inj hr)
  have hmem : ∀ i, ({ s1 with mem := update s1.mem x (s1.newEntries x) } : Vm τ).mem x i = s1.newEntries x i := by
    intro i
    show update s1.mem x (s1.newEntries x) x i = _
    rw [update_self]
  refine .inr ⟨v, x, s0, rfl, hv, hm.scratch hv1 hv.2.1 _, hpgdir, fun i hi => ?_, fun i h1 h2 => ?_, ?_⟩
  · rw [hmem, newEntries, if_neg (by omega), if_neg (by omega)]
    exact hz i
  · rw [hmem, newEntries, if_neg (by omega), if_pos (by omega)]
    exact hm.inv.kernel _ hm.inv.active i h1 h2
  · rw [hmem, newEntries, if_pos rfl]

/-! ## Every call -/

theorem Inv.run {op : VmOp τ} (h : s.Inv) (hf : s.Fits op) (hr : s.run op = .ok s') : s'.Inv := by
  have hsnd : ∀ {α : Type} {y : Exec (α × Vm τ)}, Prod.snd <$> y = .ok s' → ∃ a, y = .ok (a, s') := by
    intro α y hy
    cases y with
    | error e => cases hy
    | ok r =>
      cases hy
      exact ⟨r.1, rfl⟩
  cases op with
  | createPageDir cur t v =>
    have ht : s.pgdir t = none := hf
    obtain ⟨⟨o, s1⟩, hc, hr⟩ := bind_ok.mp hr
    cases hr
    rcases h.createPageDir hc with ⟨rfl, hinv, hpgdir⟩ | ⟨q, x, s2, rfl, hq, hm, hpgdir, huser, hke, hs⟩
    · have he : update s1.pgdir t none = s1.pgdir := by
        rw [update_eq_self_iff, hpgdir, ht]
      show ({ s1 with userprogVaddr := _, pgdir := update s1.pgdir t none } : Vm τ).Inv
      rw [he]
      exact hinv.vaddr hinv.shape.heapStart rfl
    · have hkp := hm.walk
      rw [hm.inv.walk_kernel (by have := hq.1; unfold kHeapStart at this; omega) hq.2.1] at hkp
      split at hkp
      · next hp =>
        refine hm.inv.addDir ?_ hq hp (Option.some.inj hkp) huser hke hs
        rw [hm.pgdir, hpgdir, ht]
      · cases hkp
  | pageDirActivate t =>
    have hr : s.pageDirActivate t = .ok s' := hr
    rw [h.pageDirActivate t] at hr
    cases hr
    exact h.activate (h.dirOf t)
  | mallocPage cur pf n =>
    obtain ⟨o, hr⟩ := hsnd hr
    exact h.mallocPage hr
  | getAPage cur pf v =>
    obtain ⟨o, hr⟩ := hsnd hr
    exact h.getAPage hf hr
  | getAPageWithoutOpvaddrbitmap pf v =>
    obtain ⟨o, hr⟩ := hsnd hr
    exact h.getAPageWithoutOpvaddrbitmap hf hr
  | mfreePage cur pf v n =>
    have hr : Vm.dropDirs <$> s.mfreePage .debug cur pf v n = .ok s' := hr
    cases hfr : s.mfreePage .debug cur pf v n with
    | error e =>
      rw [hfr] at hr
      cases hr
    | ok s1 =>
      rw [hfr] at hr
      cases hr
      exact (h.toCore.mfreePage hf hfr).dropDirs

omit [DecidableEq τ] in
theorem Booted.inv (h : s.Booted) : s.Inv := by
  obtain ⟨⟨mem, hmem, hclear⟩, ⟨p, allMem, hk, hu, hva⟩, hcr3, hpgdir⟩ := h
  have hdir : ∀ d, s.Dir d → d = bootDir := by
    intro d hd
    cases hd with
    | boot => rfl
    | proc ht _ =>
      rw [hpgdir] at ht
      cases ht
  have hboot : ∀ i, s.mem bootDir i = bootEntry i := fun i => by rw [hmem]; exact if_pos rfl
  have hnone : ∀ f j, s.Entry f j → ¬ Present (s.mem f j) := by
    have huser : ∀ d i, s.UserEntry d i → ¬ Present (s.mem d i) := by
      intro d i hi
      obtain rfl := hdir d hi.dir
      have hlt := hi.lt
      have h0 : i ≠ 0 := fun e => hi.ne ⟨rfl, e⟩
      rw [hboot, bootEntry, if_neg h0, if_neg (by omega), if_neg (by omega)]
      exact not_present_zero
    rintro f j (he | he)
    · exact huser f j he
    · rcases he.table with ⟨h1, h2, hlow⟩ | ⟨d, i, hi, hp, -⟩
      · rw [hmem, setupPage, if_neg (by unfold bootDir pgSize; omega), if_neg hlow]
        exact hclear f j h1 h2
      · exact absurd hp (huser d i hi)
  have hlt := PageState.allFreePages_lt allMem
  refine ⟨⟨?_, fun d hd i h1 h2 => ?_, fun d hd => ?_, hboot 0, fun j hj => ?_, by rw [hcr3]; exact .boot,
    fun f j he hp => absurd hp (hnone f j he), fun f j g k he _ hp => absurd hp (hnone f j he), fun t v ht => ?_⟩, fun t v ht => ?_⟩
  · refine ⟨by rw [hk]; rfl, ?_, ?_, ?_, by rw [hva], ?_⟩
    · rw [hu]
      show (0x200000 + PageState.kernelFreePages allMem * pgSize) % pgSize = 0
      unfold pgSize
      omega
    · rw [hk, hu]
      show 0x200 + 8 * (PageState.kernelFreePages allMem / 8) ≤ (0x200000 + PageState.kernelFreePages allMem * pgSize) / pgSize
      unfold pgSize
      omega
    · rw [hu]
      show (0x200000 + PageState.kernelFreePages allMem * pgSize) / pgSize + 8 * (PageState.userFreePages allMem / 8) ≤ 2 ^ 20
      unfold PageState.userFreePages PageState.kernelFreePages pgSize
      omega
    · rw [hva]
      show 8 * (PageState.kernelFreePages allMem / 8) < 2 ^ 15
      unfold PageState.kernelFreePages
      omega
  · obtain rfl := hdir d hd
    exact hboot i
  · obtain rfl := hdir d hd
    rw [hboot, bootEntry, if_neg (by decide), if_neg (by decide), if_pos rfl]
    rfl
  · rw [hmem, setupPage, if_neg (by decide), if_pos ⟨rfl, hj⟩]
  · rw [hpgdir] at ht
    cases ht
  · rw [hpgdir] at ht
    cases ht

def play (s : Vm τ) (ops : List (VmOp τ)) : Option (Vm τ) := ops.foldlM (fun s op => (s.run op).toOption) s

theorem reach_play (hs : s.Booted) (ops : List (VmOp τ)) (d : Vm τ) (h : (s.play ops).isSome = true) :
    Reach VmCall Booted ((s.play ops).getD d) := by
  refine Reach.played (fun s op s' hr => ⟨op, ?_⟩) ops d (.refl hs) h
  cases hrun : s.run op with
  | ok a =>
    rw [hrun] at hr
    cases hr
    rfl
  | error e =>
    rw [hrun] at hr
    cases hr

end Vm

open Vm

/-- **The kernel's half of the page directories** is that of the boot directory, in every
reachable state. -/
theorem kernel_mapped_alike {τ : Type} [DecidableEq τ] {s : Vm τ} (h : Reach VmStep Booted s) (t : τ) :
    s.pageDirActivate t = .ok { s with cr3 := s.dirOf t } ∧
      (∀ i, 768 ≤ i → i ≤ 1022 → s.mem (s.dirOf t) i = bootEntry i ∧ s.mem bootDir i = bootEntry i) ∧
      s.mem (s.dirOf t) 1023 = pteWord (s.dirOf t * pgSize) ∧
      ∀ v, 0xc0000000 ≤ v → v < 0xffc00000 → ({ s with cr3 := s.dirOf t } : Vm τ).walk v = ({ s with cr3 := bootDir } : Vm τ).walk v := by
  have hinv : s.Inv := h.invariant (fun _ hb => hb.inv) fun _ _ hi ⟨_, hf, hr⟩ => hi.run hf hr
  have hd := hinv.dirOf t
  refine ⟨hinv.pageDirActivate t, fun i h1 h2 => ⟨hinv.kernel _ hd i h1 h2, hinv.kernel _ .boot i h1 h2⟩, hinv.self _ hd,
    fun v h1 h2 => ?_⟩
  rw [(hinv.activate hd).walk_kernel h1 h2, (hinv.activate .boot).walk_kernel h1 h2]
  rfl

def noBits : Bitmap := .ofBytes 0 fun _ => 0

def emptyPages : PageState := ⟨noBits, ⟨noBits, 0, 0⟩, ⟨noBits, 0, 0⟩, fun _ => 0, fun _ => 0⟩

def firstVm : Vm Bool where
  mem := setupPage fun _ _ => 0
  cr3 := bootDir
  kernelVaddr := ⟨(emptyPages.memPoolInit 0x240000).kernelVaddr, kHeapStart⟩
  kernelPool := (emptyPages.memPoolInit 0x240000).kernelPool
  userPool := (emptyPages.memPoolInit 0x240000).userPool
  pgdir _ := none
  userprogVaddr _ := ⟨noBits, userVaddrStart⟩

theorem firstVm_booted : firstVm.Booted :=
  ⟨⟨_, rfl, fun _ _ _ _ => not_present_zero⟩, ⟨_, 0x240000, rfl, rfl, rfl⟩, rfl, fun _ => rfl⟩

def firstProcess : VmOp Bool := .createPageDir false true ⟨noBits, userVaddrStart⟩

def Vm.after (s : Vm Bool) (op : VmOp Bool) : Vm Bool := (s.run op).toOption.getD s

def oneProcess : Vm Bool := firstVm.after firstProcess

theorem kernel_mapped_alike_first : oneProcess.dirOf true = 0x200 ∧ oneProcess.mem 0x200 768 = pteWord 0x101000 := by
  have hr : firstVm.run firstProcess = .ok oneProcess := ok_getD firstVm (by decide +kernel)
  have hre : Reach VmStep Booted oneProcess := (Reach.refl firstVm_booted).tail ⟨firstProcess, rfl, hr⟩
  have hdir : oneProcess.dirOf true = 0x200 := by decide +kernel
  have hen := ((kernel_mapped_alike hre true).2.1 768 (by decide) (by decide)).1
  rw [hdir] at hen
  exact ⟨hdir, hen⟩

/-- A page is freed twice: its frame belongs to the directory by then. -/
def freeTwice : List (VmOp Bool) :=
  [.getAPageWithoutOpvaddrbitmap .pfKernel 0xc0107000, .mfreePage false .pfKernel 0xc0107000 1, firstProcess,
    .mfreePage false .pfKernel 0xc0107000 1, .getAPageWithoutOpvaddrbitmap .pfUser 0x8048000]

/-- Memory in which a page table of the kernel has an entry already, for the first frame of the
kernel's pool. -/
def staleVm : Vm Bool :=
  { firstVm with mem := setupPage fun f j => if f = 0x101 ∧ j = 0x107 then pteWord (0x200 * pgSize) else 0 }

/-- The address of the active directory has a frame of its own in each, what is not mapped must
not be freed, and the kernel's page tables must start without a mapping. -/
theorem kernel_mapped_differently :
    (∃ s : Vm Bool, Reach VmCall Booted s ∧
      ({ s with cr3 := s.dirOf true } : Vm Bool).walk 0xfffff000 ≠ ({ s with cr3 := s.dirOf false } : Vm Bool).walk 0xfffff000) ∧
    (∃ s : Vm Bool, Reach VmCall Booted s ∧ (s.pgdir true).isSome ∧ s.mem (s.dirOf true) 768 ≠ s.mem bootDir 768) ∧
    ∃ s : Vm Bool, Reach VmStep (fun s0 => ∃ mem, s0 = { firstVm with mem := setupPage mem }) s ∧ (s.pgdir true).isSome ∧
      s.mem (s.dirOf true) 768 ≠ s.mem bootDir 768 := by
  refine ⟨⟨(firstVm.play [firstProcess]).getD firstVm, ?_, by decide +kernel⟩,
    ⟨(firstVm.play freeTwice).getD firstVm, ?_, by decide +kernel, by decide +kernel⟩,
    ((staleVm.after firstProcess).after (.mfreePage false .pfKernel 0xc0107000 1)).after
      (.getAPageWithoutOpvaddrbitmap .pfUser 0x8048000), ?_, by decide +kernel, by decide +kernel⟩
  · exact reach_play firstVm_booted _ _ (by decide +kernel)
  · exact reach_play firstVm_booted _ _ (by decide +kernel)
  · have hw : (staleVm.after firstProcess).walk 0xc0107000 = some 0x200 := by decide +kernel
    refine ((Reach.refl ⟨_, rfl⟩).tail ⟨firstProcess, rfl, ok_getD _ (by decide +kernel)⟩).tail
      ⟨.mfreePage false .pfKernel 0xc0107000 1, ⟨by decide, fun k hk => ?_⟩, ok_getD _ (by decide +kernel)⟩ |>.tail
      ⟨.getAPageWithoutOpvaddrbitmap .pfUser 0x8048000, (by decide : 0x8048000 < 0xffc00000), ok_getD _ (by decide +kernel)⟩
    obtain rfl : k = 0 := by omega
    exact ⟨_, hw, by decide +kernel⟩

end OperateSystem
