import OperateSystem.Mmu
import OperateSystem.PagesSound

/-!
# The kernel's half of every directory

A present entry of a directory or a table below the kernel's tables holds a frame
of a pool, and no two entries hold the same. So a directory is reached from the
heap only, a table from its directory only, and no function of `memory.c` writes
to the kernel's entries of a directory.
-/

namespace OperateSystem

open Function

/-! ## Entries -/

theorem frameOf_pteWord {x : Nat} (hx : x < 2 ^ 20) : frameOf (pteWord (x * pgSize)) = x := by
  unfold frameOf
  rw [pteAddr_pteWord (Nat.mul_mod_left ..) (by unfold pgSize; omega), Nat.mul_div_cancel _ (by decide)]

theorem present_pteWord (p : Nat) : Present (pteWord p) := pteWord_present p

theorem not_present_zero : ¬ Present 0 := by decide

theorem not_present_clear (w : UInt32) : ¬ Present (w &&& ~~~1) := fun h => h (and_not_one w)

theorem bootEntry_kernel {i : Nat} (h1 : 768 ≤ i) (h2 : i ≤ 1022) : bootEntry i = pteWord ((0x101 + (i - 768)) * pgSize) := by
  unfold bootEntry
  rw [if_neg (by omega), if_pos ⟨h1, h2⟩, show (0x101 + (i - 768)) * pgSize = 0x101000 + (i - 768) * 0x1000 by
    unfold pgSize; omega]

theorem frameOf_bootEntry {i : Nat} (h1 : 768 ≤ i) (h2 : i ≤ 1022) : frameOf (bootEntry i) = 0x101 + (i - 768) := by
  rw [bootEntry_kernel h1 h2, frameOf_pteWord (by omega)]

theorem present_bootEntry {i : Nat} (h1 : 768 ≤ i) (h2 : i ≤ 1022) : Present (bootEntry i) := by
  rw [bootEntry_kernel h1 h2]
  exact present_pteWord _

theorem pdePtr_index {v : Nat} (hv : v < 2 ^ 32) : pdePtr v / 2 ^ 22 = 1023 ∧ pdePtr v / pgSize % 1024 = 1023 ∧
    pdePtr v % pgSize / 4 = v / 2 ^ 22 := by
  unfold pdePtr pgSize
  omega

theorem ptePtr_index {v : Nat} (hv : v < 2 ^ 32) : ptePtr v / 2 ^ 22 = 1023 ∧ ptePtr v / pgSize % 1024 = v / 2 ^ 22 ∧
    ptePtr v % pgSize / 4 = v / pgSize % 1024 := by
  unfold ptePtr pgSize
  omega

namespace Vm

variable {τ : Type} {s s' : Vm τ} {d f i j v x : Nat} {w : UInt32}
variable {k y : Nat} {p : Pool} {pf : PoolFlags}

theorem setWord_self : (s.setWord f j w).mem f j = w := by
  simp [setWord]

theorem setWord_of_ne {g : Nat} (h : ¬ (g = f ∧ k = j)) : (s.setWord f j w).mem g k = s.mem g k := by
  unfold setWord
  by_cases hg : g = f
  · subst hg
    have hk : k ≠ j := fun e => h ⟨rfl, e⟩
    simp [hk]
  · simp [hg]

/-! ## What the pools have handed out -/

def Holds (p : Pool) (x : Nat) : Prop :=
  ∃ k < 8 * p.poolBitmap.btmpBytesLen, x = p.phyAddrStart / pgSize + k ∧ p.poolBitmap.bit k = true

def Used (s : Vm τ) (x : Nat) : Prop := Holds s.kernelPool x ∨ Holds s.userPool x

structure Shape (s : Vm τ) : Prop where
  kernelStart : s.kernelPool.phyAddrStart = 0x200000
  userAligned : s.userPool.phyAddrStart % pgSize = 0
  apart : 0x200 + 8 * s.kernelPool.poolBitmap.btmpBytesLen ≤ s.userPool.phyAddrStart / pgSize
  top : s.userPool.phyAddrStart / pgSize + 8 * s.userPool.poolBitmap.btmpBytesLen ≤ 2 ^ 20
  heapStart : s.kernelVaddr.vaddrStart = kHeapStart
  heapSize : 8 * s.kernelVaddr.vaddrBitmap.btmpBytesLen < 2 ^ 15

theorem Used.bounds (h : s.Used x) (hs : s.Shape) : 0x200 ≤ x ∧ x < 2 ^ 20 := by
  have h1 := hs.kernelStart
  have h2 := hs.apart
  have h3 := hs.top
  rcases h with ⟨k, hk, rfl, -⟩ | ⟨k, hk, rfl, -⟩
  · unfold pgSize at *
    omega
  · omega

/-! ## Directories and entries -/

def kpte (s : Vm τ) (v : Nat) : UInt32 := s.mem (0x101 + (v / 2 ^ 22 - 768)) (v / pgSize % 1024)

inductive Dir (s : Vm τ) : Nat → Prop
  | boot : Dir s bootDir
  | proc {t : τ} {v : Nat} (h : s.pgdir t = some v) (hp : Present (s.kpte v)) : Dir s (frameOf (s.kpte v))

/-- An entry of a directory for user addresses. The first entry of the boot
directory stands for a table of the kernel. -/
structure UserEntry (s : Vm τ) (d i : Nat) : Prop where
  dir : s.Dir d
  lt : i < 768
  ne : ¬ (d = bootDir ∧ i = 0)

def Table (s : Vm τ) (f : Nat) : Prop := ∃ d i, s.UserEntry d i ∧ Present (s.mem d i) ∧ f = frameOf (s.mem d i)

/-- An entry for a page: in a table of the kernel above the first megabyte, or in
a table for user addresses. -/
structure PageEntry (s : Vm τ) (f j : Nat) : Prop where
  lt : j < 1024
  table : (0x101 ≤ f ∧ f ≤ 0x1ff ∧ ¬ (f = 0x101 ∧ j < 256)) ∨ s.Table f

def Entry (s : Vm τ) (f j : Nat) : Prop := s.UserEntry f j ∨ s.PageEntry f j

structure Core (s : Vm τ) : Prop where
  shape : s.Shape
  kernel : ∀ d, s.Dir d → ∀ i, 768 ≤ i → i ≤ 1022 → s.mem d i = bootEntry i
  self : ∀ d, s.Dir d → s.mem d 1023 = pteWord (d * pgSize)
  first : s.mem bootDir 0 = bootEntry 0
  low : ∀ j < 256, s.mem 0x101 j = pteWord (j * pgSize)
  active : s.Dir s.cr3
  used : ∀ f j, s.Entry f j → Present (s.mem f j) → s.Used (frameOf (s.mem f j))
  inj : ∀ f j g k, s.Entry f j → s.Entry g k → Present (s.mem f j) → Present (s.mem g k) →
    frameOf (s.mem f j) = frameOf (s.mem g k) → f = g ∧ j = k
  heap : ∀ t v, s.pgdir t = some v → kHeapStart ≤ v ∧ v < 0xffc00000 ∧ v % pgSize = 0

structure Inv (s : Vm τ) : Prop extends Core s where
  mapped : ∀ t v, s.pgdir t = some v → Present (s.kpte v)

theorem kpage_entry (h1 : kHeapStart ≤ v) (h2 : v < 0xffc00000) :
    s.PageEntry (0x101 + (v / 2 ^ 22 - 768)) (v / pgSize % 1024) := by
  unfold kHeapStart at h1
  refine ⟨Nat.mod_lt _ (by decide), .inl ⟨by omega, by omega, ?_⟩⟩
  unfold pgSize
  omega

theorem Core.dir_cases (h : s.Core) (hd : s.Dir d) : d = bootDir ∨ s.Used d := by
  cases hd with
  | boot => exact .inl rfl
  | proc ht hp =>
    obtain ⟨h1, h2, -⟩ := h.heap _ _ ht
    exact .inr (h.used _ _ (.inr (kpage_entry h1 h2)) hp)

theorem Core.dir_bounds (h : s.Core) (hd : s.Dir d) : (d = bootDir ∨ 0x200 ≤ d) ∧ d < 2 ^ 20 := by
  rcases h.dir_cases hd with rfl | hu
  · exact ⟨.inl rfl, by decide⟩
  · obtain ⟨h1, h2⟩ := hu.bounds h.shape
    exact ⟨.inr h1, h2⟩

theorem Core.table_used (h : s.Core) (hf : s.Table f) : s.Used f := by
  obtain ⟨d, i, hi, hp, rfl⟩ := hf
  exact h.used d i (.inl hi) hp

theorem Core.table_not_dir (h : s.Core) (hf : s.Table f) : ¬ s.Dir f := by
  intro hd
  have hu := (h.table_used hf).bounds h.shape
  obtain ⟨d, i, hi, hp, rfl⟩ := hf
  generalize hg : frameOf (s.mem d i) = g at hd hu
  cases hd with
  | boot =>
    unfold bootDir pgSize at hu
    omega
  | proc ht hq =>
    obtain ⟨h1, h2, -⟩ := h.heap _ _ ht
    have hloc := (h.inj _ _ _ _ (.inl hi) (.inr (kpage_entry h1 h2)) hp hq hg).1
    have := (h.dir_bounds hi.dir).1
    unfold bootDir pgSize at this
    omega

theorem Core.page_not_dir (h : s.Core) (hf : s.PageEntry f j) : ¬ s.Dir f := by
  intro hd
  rcases hf.table with ⟨h1, h2, -⟩ | ht
  · have := (h.dir_bounds hd).1
    unfold bootDir pgSize at this
    omega
  · exact h.table_not_dir ht hd

/-! ## What depends on what -/

theorem dir_iff (hp : s'.pgdir = s.pgdir) (hk : ∀ t v, s.pgdir t = some v → s'.kpte v = s.kpte v) :
    s'.Dir d ↔ s.Dir d := by
  constructor
  · intro hd
    cases hd with
    | boot => exact .boot
    | proc ht hq =>
      rw [hp] at ht
      rw [hk _ _ ht] at hq ⊢
      exact .proc ht hq
  · intro hd
    cases hd with
    | boot => exact .boot
    | proc ht hq =>
      rw [← hk _ _ ht] at hq ⊢
      exact .proc (hp ▸ ht) hq

theorem userEntry_iff (hd : ∀ d, s'.Dir d ↔ s.Dir d) : s'.UserEntry d i ↔ s.UserEntry d i :=
  ⟨fun h => ⟨(hd d).mp h.dir, h.lt, h.ne⟩, fun h => ⟨(hd d).mpr h.dir, h.lt, h.ne⟩⟩

theorem entry_iff (hd : ∀ d, s'.Dir d ↔ s.Dir d) (ht : ∀ f, s'.Table f ↔ s.Table f) : s'.Entry f j ↔ s.Entry f j := by
  have hpa : s'.PageEntry f j ↔ s.PageEntry f j :=
    ⟨fun h => ⟨h.lt, h.table.imp_right (ht f).mp⟩, fun h => ⟨h.lt, h.table.imp_right (ht f).mpr⟩⟩
  exact or_congr (userEntry_iff hd) hpa

theorem table_iff (hd : ∀ d, s'.Dir d ↔ s.Dir d) (hm : ∀ d i, s.UserEntry d i → s'.mem d i = s.mem d i) :
    s'.Table f ↔ s.Table f := by
  constructor
  · rintro ⟨d, i, hi, hp, rfl⟩
    have hi := (userEntry_iff hd).mp hi
    rw [hm d i hi] at hp ⊢
    exact ⟨d, i, hi, hp, rfl⟩
  · rintro ⟨d, i, hi, hp, rfl⟩
    rw [← hm d i hi] at hp ⊢
    exact ⟨d, i, (userEntry_iff hd).mpr hi, hp, rfl⟩

structure Fresh (s : Vm τ) (x : Nat) : Prop where
  used : s.Used x
  unheld : ∀ f j, s.Entry f j → Present (s.mem f j) → frameOf (s.mem f j) ≠ x

theorem Fresh.bounds (hx : s.Fresh x) (h : s.Core) : 0x200 ≤ x ∧ x < 2 ^ 20 := hx.used.bounds h.shape

theorem Fresh.not_dir (hx : s.Fresh x) (h : s.Core) : ¬ s.Dir x := by
  intro hd
  have hb := hx.bounds h
  cases hd with
  | boot =>
    unfold bootDir pgSize at hb
    omega
  | proc ht hp =>
    obtain ⟨h1, h2, -⟩ := h.heap _ _ ht
    exact hx.unheld _ _ (.inr (kpage_entry h1 h2)) hp rfl

theorem Fresh.not_table (hx : s.Fresh x) : ¬ s.Table x := by
  rintro ⟨d, i, hi, hp, rfl⟩
  exact hx.unheld d i (.inl hi) hp rfl

theorem Fresh.not_entry (hx : s.Fresh x) (h : s.Core) : ¬ s.Entry x j := by
  have hb := hx.bounds h
  rintro (he | he)
  · exact hx.not_dir h he.dir
  · rcases he.table with ⟨-, h2, -⟩ | ht
    · omega
    · exact hx.not_table ht

/-! ## The elementary changes -/

structure Filled (s s' : Vm τ) (x : Nat) : Prop where
  inv : s'.Inv
  dir : ∀ d, s'.Dir d ↔ s.Dir d
  fresh : ∀ y, s.Fresh y → y ≠ x → s'.Fresh y

theorem Inv.fill (h : s.Inv) (hx : s.Fresh x) (hs : s'.Shape) (hu : ∀ y, s.Used y → s'.Used y)
    (hcr3 : s'.cr3 = s.cr3) (hpg : s'.pgdir = s.pgdir)
    (hold : ∀ g k, ¬ (g = f ∧ k = j) → g ≠ x → s'.mem g k = s.mem g k)
    (hnew : s'.mem f j = pteWord (x * pgSize)) (he : s.Entry f j) (hn : ¬ Present (s.mem f j))
    (hen : (∀ d, s'.Dir d ↔ s.Dir d) → ∀ g k, s'.Entry g k → s.Entry g k ∨ g = x ∧ ¬ Present (s'.mem g k)) :
    Filled s s' x := by
  have hb := hx.bounds h.toCore
  -- a word that is present, or in the kernel's half, is not the one that is filled
  have hw : ∀ g k, g ≠ x → Present (s.mem g k) → s'.mem g k = s.mem g k := by
    intro g k hg hp
    refine hold g k (fun e => hn ?_) hg
    rwa [e.1, e.2] at hp
  have hkp : ∀ t v, s.pgdir t = some v → s'.kpte v = s.kpte v := by
    intro t v ht
    obtain ⟨h1, h2, -⟩ := h.heap t v ht
    refine hw _ _ ?_ (h.mapped t v ht)
    omega
  have hdir : ∀ d, s'.Dir d ↔ s.Dir d := fun d => dir_iff hpg hkp
  have hdx : ∀ d, s.Dir d → d ≠ x := fun d hd e => hx.not_dir h.toCore (e ▸ hd)
  have hc : ∀ g k, s'.Entry g k → Present (s'.mem g k) → s.Entry g k ∧
      ((g = f ∧ k = j) ∨ ¬ (g = f ∧ k = j) ∧ s'.mem g k = s.mem g k) := by
    intro g k hgk hp
    rcases hen hdir g k hgk with hgk | ⟨-, hnp⟩
    · refine ⟨hgk, ?_⟩
      by_cases e : g = f ∧ k = j
      · exact .inl e
      · exact .inr ⟨e, hold g k e fun e => hx.not_entry h.toCore (e ▸ hgk)⟩
    · exact absurd hp hnp
  refine ⟨⟨⟨hs, fun d hd i h1 h2 => ?_, fun d hd => ?_, ?_, fun k hk => ?_, ?_, fun g k hgk hp => ?_, ?_, ?_⟩, ?_⟩, hdir,
    fun y hy hyx => ⟨hu y hy.used, fun g k hgk hp => ?_⟩⟩
  · have hd := (hdir d).mp hd
    rw [hw d i (hdx d hd) (by rw [h.kernel d hd i h1 h2]; exact present_bootEntry h1 h2)]
    exact h.kernel d hd i h1 h2
  · have hd := (hdir d).mp hd
    rw [hw d 1023 (hdx d hd) (by rw [h.self d hd]; exact present_pteWord _)]
    exact h.self d hd
  · rw [hw bootDir 0 (hdx _ .boot) (by rw [h.first]; decide)]
    exact h.first
  · rw [hw 0x101 k (by omega) (by rw [h.low k hk]; exact present_pteWord _)]
    exact h.low k hk
  · rw [hcr3]
    exact (hdir _).mpr h.active
  · obtain ⟨hgk, ⟨rfl, rfl⟩ | ⟨-, e⟩⟩ := hc g k hgk hp
    · rw [hnew, frameOf_pteWord hb.2]
      exact hu x hx.used
    · rw [e] at hp ⊢
      exact hu _ (h.used g k hgk hp)
  · intro g k g' k' hgk hgk' hp hp' e
    obtain ⟨hgk, ⟨rfl, rfl⟩ | ⟨-, e1⟩⟩ := hc g k hgk hp <;> obtain ⟨hgk', ⟨rfl, rfl⟩ | ⟨-, e2⟩⟩ := hc g' k' hgk' hp'
    · exact ⟨rfl, rfl⟩
    · rw [hnew, frameOf_pteWord hb.2] at e
      rw [e2] at hp' e
      exact absurd e.symm (hx.unheld g' k' hgk' hp')
    · rw [hnew, frameOf_pteWord hb.2] at e
      rw [e1] at hp e
      exact absurd e (hx.unheld g k hgk hp)
    · rw [e1] at hp e
      rw [e2] at hp' e
      exact h.inj g k g' k' hgk hgk' hp hp' e
  · intro t v ht
    rw [hpg] at ht
    exact h.heap t v ht
  · intro t v ht
    rw [hpg] at ht
    rw [hkp t v ht]
    exact h.mapped t v ht
  · obtain ⟨hgk, ⟨rfl, rfl⟩ | ⟨-, e⟩⟩ := hc g k hgk hp
    · rw [hnew, frameOf_pteWord hb.2]
      exact hyx.symm
    · rw [e] at hp ⊢
      exact hy.unheld g k hgk hp

theorem Inv.setPage (h : s.Inv) (hf : s.PageEntry f j) (hn : ¬ Present (s.mem f j)) (hx : s.Fresh x) :
    Filled s (s.setWord f j (pteWord (x * pgSize))) x := by
  refine h.fill hx ⟨h.shape.1, h.shape.2, h.shape.3, h.shape.4, h.shape.5, h.shape.6⟩ (fun _ hy => hy) rfl rfl
    (fun g k hne _ => setWord_of_ne hne) setWord_self (.inr hf) hn fun hdir g k hgk => .inl ?_
  refine (entry_iff hdir fun f' => table_iff hdir fun d i hi => setWord_of_ne ?_).mp hgk
  rintro ⟨rfl, -⟩
  exact h.page_not_dir hf hi.dir

def putTable (s : Vm τ) (d i x : Nat) : Vm τ :=
  { s.setWord d i (pteWord (x * pgSize)) with
    mem := Function.update (s.setWord d i (pteWord (x * pgSize))).mem x fun _ => 0 }

theorem putTable_clear : (s.putTable d i x).mem x j = 0 := by
  simp [putTable]

theorem putTable_of_ne (h : f ≠ x) : (s.putTable d i x).mem f j = (s.setWord d i (pteWord (x * pgSize))).mem f j := by
  simp [putTable, h]

theorem Inv.newTable (h : s.Inv) (he : s.UserEntry d i) (hn : ¬ Present (s.mem d i)) (hx : s.Fresh x) :
    Filled s (s.putTable d i x) x ∧ (s.putTable d i x).Table x := by
  have hxd : d ≠ x := fun e => hx.not_dir h.toCore (e ▸ he.dir)
  have hs : (s.putTable d i x).mem d i = pteWord (x * pgSize) := by
    rw [putTable_of_ne hxd, setWord_self]
  have hf := frameOf_pteWord (hx.bounds h.toCore).2
  have hfi : Filled s (s.putTable d i x) x := by
    refine h.fill hx ⟨h.shape.1, h.shape.2, h.shape.3, h.shape.4, h.shape.5, h.shape.6⟩ (fun _ hy => hy) rfl rfl
      (fun g k hne hg => ?_) hs (.inl he) hn fun hdir g k hgk => ?_
    · rw [putTable_of_ne hg, setWord_of_ne hne]
    · by_cases hgx : g = x
      · refine .inr ⟨hgx, ?_⟩
        rw [hgx, putTable_clear]
        exact not_present_zero
      · refine .inl ?_
        rcases hgk with hgk | hgk
        · exact .inl ((userEntry_iff hdir).mp hgk)
        refine .inr ⟨hgk.lt, hgk.table.imp_right ?_⟩
        rintro ⟨d', i', hi', hp', rfl⟩
        have hi' := (userEntry_iff hdir).mp hi'
        have hdx' : d' ≠ x := fun e => hx.not_dir h.toCore (e ▸ hi'.dir)
        by_cases e : d' = d ∧ i' = i
        · rw [e.1, e.2, hs, hf] at hgx
          exact absurd rfl hgx
        · rw [putTable_of_ne hdx', setWord_of_ne e] at hp' ⊢
          exact ⟨d', i', hi', hp', rfl⟩
  refine ⟨hfi, d, i, ⟨(hfi.dir d).mpr he.dir, he.lt, he.ne⟩, ?_, ?_⟩
  · rw [hs]
    exact present_pteWord _
  · rw [hs, hf]

theorem Inv.scratch (h : s.Inv) (hf : 0x200 ≤ f) (hd : ¬ s.Dir f) (ht : ¬ s.Table f) (m : Nat → UInt32) :
    ({ s with mem := update s.mem f m } : Vm τ).Inv := by
  have hold : ∀ g k, g ≠ f → ({ s with mem := update s.mem f m } : Vm τ).mem g k = s.mem g k := by
    intro g k hg
    show update s.mem f m g k = s.mem g k
    rw [update_of_ne hg]
  have hkp : ∀ t v, s.pgdir t = some v → ({ s with mem := update s.mem f m } : Vm τ).kpte v = s.kpte v := by
    intro t v hv
    obtain ⟨h1, h2, -⟩ := h.heap t v hv
    exact hold _ _ (by omega)
  have hdir : ∀ d, ({ s with mem := update s.mem f m } : Vm τ).Dir d ↔ s.Dir d := fun d => dir_iff rfl hkp
  have hne : ∀ d, s.Dir d → d ≠ f := fun d hd' e => hd (e ▸ hd')
  have hen : ∀ g k, ({ s with mem := update s.mem f m } : Vm τ).Entry g k ↔ s.Entry g k := fun g k =>
    entry_iff hdir fun f' => table_iff hdir fun d i hi => hold d i (hne d hi.dir)
  have hef : ∀ g k, s.Entry g k → g ≠ f := by
    rintro g k (he | he) rfl
    · exact hd he.dir
    · rcases he.table with ⟨-, h2, -⟩ | he
      · omega
      · exact ht he
  refine ⟨⟨⟨h.shape.1, h.shape.2, h.shape.3, h.shape.4, h.shape.5, h.shape.6⟩, fun d hd' i h1 h2 => ?_, fun d hd' => ?_, ?_,
    fun k hk => ?_, (hdir _).mpr h.active, fun g k hgk hp => ?_, fun g k g' k' hgk hgk' hp hp' e => ?_, h.heap⟩, fun t v hv => ?_⟩
  · have hd' := (hdir d).mp hd'
    rw [hold d i (hne d hd')]
    exact h.kernel d hd' i h1 h2
  · have hd' := (hdir d).mp hd'
    rw [hold d 1023 (hne d hd')]
    exact h.self d hd'
  · rw [hold bootDir 0 (hne _ .boot)]
    exact h.first
  · rw [hold 0x101 k (by omega)]
    exact h.low k hk
  · have hgk := (hen g k).mp hgk
    rw [hold g k (hef g k hgk)] at hp ⊢
    exact h.used g k hgk hp
  · have hgk := (hen g k).mp hgk
    have hgk' := (hen g' k').mp hgk'
    rw [hold g k (hef g k hgk)] at hp e
    rw [hold g' k' (hef g' k' hgk')] at hp' e
    exact h.inj g k g' k' hgk hgk' hp hp' e
  · rw [hkp t v hv]
    exact h.mapped t v hv

/-! ## The pools -/

theorem dir_setPool : (s.setPool pf p).Dir d ↔ s.Dir d := by
  cases pf <;> exact dir_iff rfl fun _ _ _ => rfl

theorem entry_setPool : (s.setPool pf p).Entry f j ↔ s.Entry f j := by
  refine entry_iff (fun _ => dir_setPool) fun _ => table_iff (fun _ => dir_setPool) fun d i _ => ?_
  cases pf <;> rfl

theorem Shape.setPool {b : Bool} (h : s.Shape) : (s.setPool pf ((s.pool pf).set k b)).Shape := by
  cases pf
  · exact ⟨h.1, h.2, h.3, h.4, h.5, h.6⟩
  · exact ⟨h.1, h.2, h.3, h.4, h.5, h.6⟩

theorem Core.setPool (h : s.Core) (hs : (s.setPool pf p).Shape)
    (hu : ∀ f j, s.Entry f j → Present (s.mem f j) → (s.setPool pf p).Used (frameOf (s.mem f j))) :
    (s.setPool pf p).Core := by
  have hmem : (s.setPool pf p).mem = s.mem := by cases pf <;> rfl
  have hcr3 : (s.setPool pf p).cr3 = s.cr3 := by cases pf <;> rfl
  have hpg : (s.setPool pf p).pgdir = s.pgdir := by cases pf <;> rfl
  refine ⟨hs, fun d hd => ?_, fun d hd => ?_, ?_, ?_, ?_, fun f j he => ?_, fun f j g k he he' => ?_, ?_⟩
  · rw [hmem]
    exact h.kernel d (dir_setPool.mp hd)
  · rw [hmem]
    exact h.self d (dir_setPool.mp hd)
  · rw [hmem]
    exact h.first
  · rw [hmem]
    exact h.low
  · rw [hcr3]
    exact dir_setPool.mpr h.active
  · rw [hmem]
    exact hu f j (entry_setPool.mp he)
  · rw [hmem]
    exact h.inj f j g k (entry_setPool.mp he) (entry_setPool.mp he')
  · rw [hpg]
    exact h.heap

theorem Inv.setPool (h : s.Inv) (hs : (s.setPool pf p).Shape)
    (hu : ∀ y, s.Used y → (s.setPool pf p).Used y) : (s.setPool pf p).Inv := by
  refine ⟨h.toCore.setPool hs fun f j he hp => hu _ (h.used f j he hp), fun t v ht => ?_⟩
  cases pf <;> exact h.mapped t v ht

theorem holds_set_true (h : Holds p y) : Holds (p.set k true) y := by
  obtain ⟨n, hn, rfl, hbit⟩ := h
  refine ⟨n, hn, rfl, ?_⟩
  show (bitmapSet p.poolBitmap k true).bit n = true
  rw [bit_bitmapSet]
  split
  · rfl
  · exact hbit

theorem used_set_true (h : s.Used y) : (s.setPool pf ((s.pool pf).set k true)).Used y := by
  cases pf
  · exact h.imp_left holds_set_true
  · exact h.imp_right holds_set_true

def base (s : Vm τ) (pf : PoolFlags) : Nat := (s.pool pf).phyAddrStart / pgSize

theorem Shape.base_mul (h : s.Shape) : s.base pf * pgSize = (s.pool pf).phyAddrStart := by
  have h1 := h.kernelStart
  have h2 := h.userAligned
  cases pf
  · show s.kernelPool.phyAddrStart / pgSize * pgSize = s.kernelPool.phyAddrStart
    rw [h1]
    rfl
  · show s.userPool.phyAddrStart / pgSize * pgSize = s.userPool.phyAddrStart
    unfold pgSize at *
    omega

theorem Shape.not_used (h : s.Shape) (hk : k < 8 * (s.pool pf).poolBitmap.btmpBytesLen)
    (hbit : (s.pool pf).poolBitmap.bit k = false) : ¬ s.Used (s.base pf + k) := by
  have h1 := h.kernelStart
  have h2 := h.apart
  have hf : s.kernelPool.phyAddrStart / pgSize = 0x200 := by rw [h1]; rfl
  rintro (⟨n, hn, e, hset⟩ | ⟨n, hn, e, hset⟩) <;> cases pf
  · have hbit : s.kernelPool.poolBitmap.bit k = false := hbit
    rw [Nat.add_left_cancel e, hset] at hbit
    cases hbit
  · have e : s.userPool.phyAddrStart / pgSize + k = s.kernelPool.phyAddrStart / pgSize + n := e
    omega
  · have e : s.kernelPool.phyAddrStart / pgSize + k = s.userPool.phyAddrStart / pgSize + n := e
    have hk : k < 8 * s.kernelPool.poolBitmap.btmpBytesLen := hk
    omega
  · have hbit : s.userPool.poolBitmap.bit k = false := hbit
    rw [Nat.add_left_cancel e, hset] at hbit
    cases hbit

theorem Inv.palloc {r : Option Nat × Pool} (h : s.Inv) (hr : palloc .debug (s.pool pf) = .ok r) :
    ∃ x, r.1 = some (x * pgSize) ∧ (s.setPool pf r.2).Inv ∧ (s.setPool pf r.2).Fresh x ∧ ¬ s.Used x ∧
      ∀ y, s.Fresh y → (s.setPool pf r.2).Fresh y := by
  have hpo : Post (fun _ : Fault => False) (OperateSystem.palloc .debug (s.pool pf)) _ := palloc_spec id (s.pool pf)
  obtain ⟨k, hk, hbit, rfl⟩ := hpo.holds hr
  have hf := h.shape.not_used hk hbit
  have hinv : (s.setPool pf ((s.pool pf).set k true)).Inv := h.setPool h.shape.setPool fun y => used_set_true
  have hmem : (s.setPool pf ((s.pool pf).set k true)).mem = s.mem := by cases pf <;> rfl
  refine ⟨s.base pf + k, ?_, hinv, ⟨?_, fun f j he hp e => ?_⟩, hf, fun y hy => ⟨used_set_true hy.used, fun f j he hp => ?_⟩⟩
  · rw [← h.shape.base_mul, Nat.add_mul, Nat.add_comm]
  · have hset : ((s.pool pf).set k true).poolBitmap.bit k = true := by
      show (bitmapSet (s.pool pf).poolBitmap k true).bit k = true
      rw [bit_bitmapSet, if_pos rfl]
    have hh : Holds ((s.pool pf).set k true) (s.base pf + k) := ⟨k, hk, rfl, hset⟩
    cases pf
    · exact .inl hh
    · exact .inr hh
  · rw [hmem] at hp e
    exact hf (e ▸ h.used f j (entry_setPool.mp he) hp)
  · rw [hmem] at hp ⊢
    exact hy.unheld f j (entry_setPool.mp he) hp

/-! ## Through the last entry -/

structure SelfRef (s : Vm τ) : Prop where
  present : Present (s.mem s.cr3 1023)
  self : frameOf (s.mem s.cr3 1023) = s.cr3

theorem SelfRef.of_entry (h : s.SelfRef) (hc : s'.cr3 = s.cr3) (hm : s'.mem s.cr3 1023 = s.mem s.cr3 1023) : s'.SelfRef := by
  refine ⟨?_, ?_⟩ <;> rw [hc, hm]
  · exact h.present
  · exact h.self

theorem Core.selfRef (h : s.Core) : s.SelfRef := by
  refine ⟨?_, ?_⟩ <;> rw [h.self _ h.active]
  · exact present_pteWord _
  · exact frameOf_pteWord (h.dir_bounds h.active).2

theorem SelfRef.walk_pde (h : s.SelfRef) (hv : v < 2 ^ 32) : s.walk (pdePtr v) = some s.cr3 := by
  obtain ⟨h1, h2, -⟩ := pdePtr_index hv
  unfold walk
  simp only [h1, h2, h.self, h.present, and_self, if_true]

theorem SelfRef.frame_pde (h : s.SelfRef) (hv : v < 2 ^ 32) : s.frame (pdePtr v) = .ok s.cr3 := by
  unfold frame
  rw [h.walk_pde hv]
  rfl

theorem SelfRef.walk_pte (h : s.SelfRef) (hv : v < 2 ^ 32) : s.walk (ptePtr v) =
    if Present (s.mem s.cr3 (v / 2 ^ 22)) then some (frameOf (s.mem s.cr3 (v / 2 ^ 22))) else none := by
  obtain ⟨h1, h2, -⟩ := ptePtr_index hv
  unfold walk
  simp only [h1, h2, h.self, h.present, true_and]

def tableOf (s : Vm τ) (v : Nat) : Nat := frameOf (s.mem s.cr3 (v / 2 ^ 22))

theorem SelfRef.frame_pte (h : s.SelfRef) (hv : v < 2 ^ 32) (hp : Present (s.mem s.cr3 (v / 2 ^ 22))) :
    s.frame (ptePtr v) = .ok (s.tableOf v) := by
  unfold frame
  rw [h.walk_pte hv, if_pos hp]
  rfl

theorem SelfRef.load_pde (h : s.SelfRef) (hv : v < 2 ^ 32) : s.load (pdePtr v) = .ok (s.mem s.cr3 (v / 2 ^ 22)) := by
  unfold load
  rw [h.frame_pde hv, ok_bind, (pdePtr_index hv).2.2]
  rfl

theorem SelfRef.store_pde (h : s.SelfRef) (hv : v < 2 ^ 32) : s.store (pdePtr v) w = .ok (s.setWord s.cr3 (v / 2 ^ 22) w) := by
  unfold store
  rw [h.frame_pde hv, ok_bind, (pdePtr_index hv).2.2]
  rfl

theorem SelfRef.load_pte (h : s.SelfRef) (hv : v < 2 ^ 32) (hp : Present (s.mem s.cr3 (v / 2 ^ 22))) :
    s.load (ptePtr v) = .ok (s.mem (s.tableOf v) (v / pgSize % 1024)) := by
  unfold load
  rw [h.frame_pte hv hp, ok_bind, (ptePtr_index hv).2.2]
  rfl

theorem SelfRef.store_pte (h : s.SelfRef) (hv : v < 2 ^ 32) (hp : Present (s.mem s.cr3 (v / 2 ^ 22))) :
    s.store (ptePtr v) w = .ok (s.setWord (s.tableOf v) (v / pgSize % 1024) w) := by
  unfold store
  rw [h.frame_pte hv hp, ok_bind, (ptePtr_index hv).2.2]
  rfl

/-! A directory with a new table. -/

def withTable (s : Vm τ) (pool : Pool) (v y : Nat) : Vm τ := (s.setPool .pfKernel pool).putTable s.cr3 (v / 2 ^ 22) y

section
variable {pool : Pool}

theorem withTable_dir (hy : s.cr3 ≠ y) {i : Nat} (hi : i ≠ v / 2 ^ 22) :
    (s.withTable pool v y).mem s.cr3 i = s.mem s.cr3 i := by
  unfold withTable
  rw [putTable_of_ne hy, setWord_of_ne fun e => hi e.2]
  rfl

theorem withTable_entry (hy : s.cr3 ≠ y) : (s.withTable pool v y).mem s.cr3 (v / 2 ^ 22) = pteWord (y * pgSize) := by
  unfold withTable
  rw [putTable_of_ne hy, setWord_self]

theorem withTable_clear (j : Nat) : (s.withTable pool v y).mem y j = 0 := putTable_clear

theorem withTable_other {g j : Nat} (hg : g ≠ y) (hc : g ≠ s.cr3) : (s.withTable pool v y).mem g j = s.mem g j := by
  unfold withTable
  rw [putTable_of_ne hg, setWord_of_ne fun e => hc e.1]
  rfl

theorem withTable_tableOf (hy : s.cr3 ≠ y) (hlt : y < 2 ^ 20) : (s.withTable pool v y).tableOf v = y := by
  show frameOf ((s.withTable pool v y).mem s.cr3 (v / 2 ^ 22)) = y
  rw [withTable_entry hy, frameOf_pteWord hlt]

theorem SelfRef.withTable (h : s.SelfRef) (hv : v < 0xffc00000) (hy : s.cr3 ≠ y) : (s.withTable pool v y).SelfRef :=
  h.of_entry rfl (withTable_dir hy (by omega))

theorem SelfRef.clearPage_newTable (h : s.SelfRef) (hv : v < 0xffc00000) (hlt : y < 2 ^ 20) :
    (s.setWord s.cr3 (v / 2 ^ 22) (pteWord (y * pgSize))).clearPage (ptePtr v) = .ok (s.putTable s.cr3 (v / 2 ^ 22) y) := by
  have hs : (s.setWord s.cr3 (v / 2 ^ 22) (pteWord (y * pgSize))).SelfRef :=
    h.of_entry rfl (setWord_of_ne fun e => by omega)
  have he : (s.setWord s.cr3 (v / 2 ^ 22) (pteWord (y * pgSize))).mem s.cr3 (v / 2 ^ 22) = pteWord (y * pgSize) :=
    setWord_self
  have hf : (s.setWord s.cr3 (v / 2 ^ 22) (pteWord (y * pgSize))).frame (ptePtr v) = .ok y := by
    have hp : Present ((s.setWord s.cr3 (v / 2 ^ 22) (pteWord (y * pgSize))).mem s.cr3 (v / 2 ^ 22)) := by
      rw [he]
      exact present_pteWord _
    rw [hs.frame_pte (by omega) hp]
    show Except.ok (frameOf ((s.setWord s.cr3 (v / 2 ^ 22) (pteWord (y * pgSize))).mem s.cr3 (v / 2 ^ 22))) = _
    rw [he, frameOf_pteWord hlt]
  unfold Vm.clearPage
  rw [hf]
  rfl

end

theorem walk_eq (hp : Present (s.mem s.cr3 (v / 2 ^ 22))) (hq : Present (s.mem (s.tableOf v) (v / pgSize % 1024))) :
    s.walk v = some (frameOf (s.mem (s.tableOf v) (v / pgSize % 1024))) := if_pos ⟨hp, hq⟩

theorem walk_some (h : s.walk v = some x) : Present (s.mem s.cr3 (v / 2 ^ 22)) ∧
    Present (s.mem (s.tableOf v) (v / pgSize % 1024)) ∧ x = frameOf (s.mem (s.tableOf v) (v / pgSize % 1024)) := by
  unfold walk at h
  dsimp only at h
  split at h
  · next hp => exact ⟨hp.1, hp.2, (Option.some.inj h).symm⟩
  · cases h

theorem Core.page_entry (h : s.Core) (hv : v < 0xffc00000) (hp : Present (s.mem s.cr3 (v / 2 ^ 22))) :
    s.PageEntry (s.tableOf v) (v / pgSize % 1024) ∨ s.tableOf v = 0x101 ∧ v / pgSize % 1024 < 256 := by
  have hlt : v / pgSize % 1024 < 1024 := Nat.mod_lt _ (by decide)
  have hk : ∀ n ≤ 254, s.tableOf v = 0x101 + n → s.PageEntry (s.tableOf v) (v / pgSize % 1024) ∨
      s.tableOf v = 0x101 ∧ v / pgSize % 1024 < 256 := by
    intro n hn e
    by_cases hlow : s.tableOf v = 0x101 ∧ v / pgSize % 1024 < 256
    · exact .inr hlow
    · exact .inl ⟨hlt, .inl ⟨by omega, by omega, hlow⟩⟩
  by_cases hi : 768 ≤ v / 2 ^ 22
  · have hi' : v / 2 ^ 22 ≤ 1022 := by omega
    refine hk (v / 2 ^ 22 - 768) (by omega) ?_
    unfold tableOf
    rw [h.kernel _ h.active _ hi hi', frameOf_bootEntry hi hi']
  · by_cases h0 : s.cr3 = bootDir ∧ v / 2 ^ 22 = 0
    · refine hk 0 (by omega) ?_
      unfold tableOf
      rw [h0.1, h0.2, h.first]
      exact frameOf_pteWord (x := 0x101) (by decide)
    · exact .inl ⟨hlt, .inr ⟨s.cr3, v / 2 ^ 22, ⟨h.active, by omega, h0⟩, hp, rfl⟩⟩

/-! ## Mapping pages -/

structure Mapped (s s' : Vm τ) (v x : Nat) : Prop where
  inv : s'.Inv
  walk : s'.walk v = some x
  bound : 0x200 ≤ x ∧ x < 2 ^ 20
  not_dir : ¬ s'.Dir x
  not_table : ¬ s'.Table x
  pgdir : s'.pgdir = s.pgdir
  cr3 : s'.cr3 = s.cr3
  kernelVaddr : s'.kernelVaddr = s.kernelVaddr

theorem Inv.mapped_setPage (h : s.Inv) (hx : s.Fresh x) (hp : Present (s.mem s.cr3 (v / 2 ^ 22)))
    (hf : s.PageEntry (s.tableOf v) (v / pgSize % 1024)) (hn : ¬ Present (s.mem (s.tableOf v) (v / pgSize % 1024))) :
    Mapped s (s.setWord (s.tableOf v) (v / pgSize % 1024) (pteWord (x * pgSize))) v x := by
  have hfi := h.setPage hf hn hx
  have hb := hx.bounds h.toCore
  have hpde : (s.setWord (s.tableOf v) (v / pgSize % 1024) (pteWord (x * pgSize))).mem s.cr3 (v / 2 ^ 22) =
      s.mem s.cr3 (v / 2 ^ 22) := by
    refine setWord_of_ne fun e => h.page_not_dir hf ?_
    rw [← e.1]
    exact h.active
  have hta : (s.setWord (s.tableOf v) (v / pgSize % 1024) (pteWord (x * pgSize))).tableOf v = s.tableOf v :=
    congrArg frameOf hpde
  have hpte : (s.setWord (s.tableOf v) (v / pgSize % 1024) (pteWord (x * pgSize))).mem (s.tableOf v) (v / pgSize % 1024) =
      pteWord (x * pgSize) := setWord_self
  refine ⟨hfi.inv, ?_, hb, fun hd => hx.not_dir h.toCore ((hfi.dir x).mp hd), ?_, rfl, rfl, rfl⟩
  · rw [walk_eq (hpde ▸ hp) (by rw [hta, hpte]; exact present_pteWord _), hta, hpte, frameOf_pteWord hb.2]
  · refine fun ht => hx.not_table ((table_iff hfi.dir fun d i hi => setWord_of_ne ?_).mp ht)
    rintro ⟨e, -⟩
    exact h.page_not_dir hf (e ▸ hi.dir)

theorem Inv.pageTableNew (h : s.Inv) (hv : v < 0xffc00000) (hn : ¬ Present (s.mem s.cr3 (v / 2 ^ 22)))
    (hr : s.pageTableNew .debug v = .ok s') : ∃ pool y, (s.setPool .pfKernel pool).Inv ∧ (s.setPool .pfKernel pool).Fresh y ∧
      ¬ s.Used y ∧ (∀ x, s.Fresh x → (s.setPool .pfKernel pool).Fresh x) ∧
      (s.setPool .pfKernel pool).UserEntry s.cr3 (v / 2 ^ 22) ∧ s' = s.withTable pool v y := by
  obtain ⟨⟨o, pool⟩, hpa, hr⟩ := bind_ok.mp hr
  obtain ⟨y, ho, hinv, hy, hf, hk⟩ := h.palloc (show OperateSystem.palloc .debug (s.pool .pfKernel) = _ from hpa)
  obtain rfl : o = some (y * pgSize) := ho
  have he : (s.setPool .pfKernel pool).UserEntry s.cr3 (v / 2 ^ 22) := by
    refine ⟨hinv.active, ?_, ?_⟩
    · by_contra hge
      refine hn ?_
      rw [h.kernel _ h.active _ (by omega) (by omega)]
      exact present_bootEntry (by omega) (by omega)
    · rintro ⟨e1, e2⟩
      refine hn ?_
      rw [e1, e2, h.first]
      decide
  refine ⟨pool, y, hinv, hy, hf, hk, he, ?_⟩
  dsimp only [Option.getD_some] at hr
  -- the new table is behind the entry that was just written
  rw [hinv.selfRef.store_pde (by omega), ok_bind, hinv.selfRef.clearPage_newTable hv (hy.bounds hinv.toCore).2] at hr
  cases hr
  rfl

theorem Inv.pageTableAdd (h : s.Inv) (hx : s.Fresh x) (hv : v < 0xffc00000) (hr : s.pageTableAdd .debug v (x * pgSize) = .ok s') :
    Mapped s s' v x := by
  have hv' : v < 2 ^ 32 := by omega
  unfold Vm.pageTableAdd at hr
  rw [h.selfRef.load_pde hv', ok_bind] at hr
  split at hr
  · next hp =>
    rw [h.selfRef.load_pte hv' hp, ok_bind] at hr
    obtain ⟨_, hn, hr⟩ := bind_ok.mp hr
    rw [assert_debug_ok] at hn
    rw [if_pos hn, h.selfRef.store_pte hv' hp] at hr
    cases hr
    rcases h.page_entry hv hp with hf | ⟨e1, e2⟩
    · exact h.mapped_setPage hx hp hf hn
    · rw [e1, h.low _ e2] at hn
      exact absurd (present_pteWord _) hn
  · next hn =>
    obtain ⟨s1, hnew, hr⟩ := bind_ok.mp hr
    obtain ⟨pool, y, hinv, hy, hfr, hk, he, rfl⟩ := h.pageTableNew hv hn hnew
    obtain ⟨hfi, ht⟩ := hinv.newTable he hn hy
    have hyb := hy.bounds hinv.toCore
    have hyc : s.cr3 ≠ y := fun e => hy.not_dir hinv.toCore (e ▸ hinv.active)
    have hx' := hfi.fresh x (hk x hx) fun e => hfr (e ▸ hx.used)
    have hp : Present ((s.withTable pool v y).mem s.cr3 (v / 2 ^ 22)) := by
      rw [withTable_entry hyc]
      exact present_pteWord _
    have hs : (s.withTable pool v y).SelfRef := hfi.inv.selfRef
    rw [hs.load_pte hv' hp, ok_bind] at hr
    obtain ⟨_, hn', hr⟩ := bind_ok.mp hr
    rw [assert_debug_ok] at hn'
    rw [hs.store_pte hv' hp] at hr
    cases hr
    have hpa : (s.withTable pool v y).PageEntry ((s.withTable pool v y).tableOf v) (v / pgSize % 1024) := by
      rw [withTable_tableOf hyc hyb.2]
      exact ⟨Nat.mod_lt _ (by decide), .inr ht⟩
    have hm := hfi.inv.mapped_setPage hx' hp hpa hn'
    exact ⟨hm.inv, hm.walk, hm.bound, hm.not_dir, hm.not_table, hm.pgdir, hm.cr3, hm.kernelVaddr⟩

theorem Inv.mapPage {ok : Bool} (h : s.Inv) (hv : v < 0xffc00000) (hr : s.mapPage .debug pf v = .ok (ok, s')) :
    ok = true ∧ ∃ x, Mapped s s' v x := by
  obtain ⟨⟨o, pool⟩, hpa, hr⟩ := bind_ok.mp hr
  obtain ⟨x, ho, hinv, hx, -⟩ := h.palloc hpa
  obtain rfl : o = some (x * pgSize) := ho
  obtain ⟨s1, hadd, hr⟩ := bind_ok.mp hr
  cases hr
  have hm := hinv.pageTableAdd hx hv hadd
  refine ⟨rfl, x, hm.inv, hm.walk, hm.bound, hm.not_dir, hm.not_table, hm.pgdir.trans ?_, hm.cr3.trans ?_,
    hm.kernelVaddr.trans ?_⟩ <;> cases pf <;> rfl

theorem Inv.mapPages {pf : PoolFlags} {ok : Bool} : ∀ {n v : Nat} {s s' : Vm τ}, s.Inv → v + n * pgSize ≤ 0xffc00000 →
    mapPages .debug pf n v s = .ok (ok, s') → s'.Inv ∧ s'.kernelVaddr = s.kernelVaddr
  | 0, _, _, _, h, _, hr => by
    cases hr
    exact ⟨h, rfl⟩
  | n + 1, v, s, s', h, hv, hr => by
    have hpg : 0 < pgSize := by decide
    have hv1 : v + pgSize + n * pgSize ≤ 0xffc00000 := by
      rw [Nat.add_mul, Nat.one_mul] at hv
      omega
    obtain ⟨⟨b, s1⟩, hmap, hr⟩ := bind_ok.mp hr
    obtain ⟨rfl, x, hm⟩ := h.mapPage (by omega) hmap
    obtain ⟨hinv, hk⟩ := Inv.mapPages hm.inv hv1 hr
    exact ⟨hinv, hk.trans hm.kernelVaddr⟩

/-! ## Freeing pages -/

theorem pteAddr_eq (w : UInt32) : pteAddr w = frameOf w * pgSize := by
  have hmod : pteAddr w % pgSize = 0 := by
    unfold pteAddr
    rw [UInt32.toNat_and, show pgSize = 2 ^ 12 from rfl, Nat.and_mod_two_pow]
    exact Nat.and_zero _
  unfold frameOf
  rw [Nat.div_mul_cancel (Nat.dvd_of_mod_eq_zero hmod)]

theorem Core.clear (h : s.Core) (hf : s.PageEntry f j) (hp : Present (s.mem f j)) (hne : frameOf (s.mem f j) ≠ s.cr3) :
    (s.setWord f j (s.mem f j &&& ~~~1)).Core ∧ (∀ g k, (s.setWord f j (s.mem f j &&& ~~~1)).Entry g k →
      Present ((s.setWord f j (s.mem f j &&& ~~~1)).mem g k) →
        frameOf ((s.setWord f j (s.mem f j &&& ~~~1)).mem g k) ≠ frameOf (s.mem f j)) := by
  generalize hs' : s.setWord f j (s.mem f j &&& ~~~1) = s'
  have hs : ¬ Present (s'.mem f j) := by
    rw [← hs', setWord_self]
    exact not_present_clear _
  have hold : ∀ g k, ¬ (g = f ∧ k = j) → s'.mem g k = s.mem g k := fun g k e => by rw [← hs', setWord_of_ne e]
  have hpg : s'.pgdir = s.pgdir := by rw [← hs']; rfl
  have hcr3 : s'.cr3 = s.cr3 := by rw [← hs']; rfl
  have hpr : ∀ g k, Present (s'.mem g k) → ¬ (g = f ∧ k = j) ∧ s'.mem g k = s.mem g k := by
    intro g k hgk
    have e : ¬ (g = f ∧ k = j) := fun e => hs (by rwa [e.1, e.2] at hgk)
    exact ⟨e, hold g k e⟩
  have hdir : ∀ d, s'.Dir d → s.Dir d := by
    intro d hd
    cases hd with
    | boot => exact .boot
    | proc ht hq =>
      have e : s'.kpte _ = s.kpte _ := (hpr _ _ hq).2
      rw [e] at hq ⊢
      exact .proc (hpg ▸ ht) hq
  have hw : ∀ d k, s.Dir d → s'.mem d k = s.mem d k := by
    intro d k hd
    refine hold d k ?_
    rintro ⟨rfl, -⟩
    exact h.page_not_dir hf hd
  have hen : ∀ g k, s'.Entry g k → s.Entry g k := by
    rintro g k (he | he)
    · exact .inl ⟨hdir _ he.dir, he.lt, he.ne⟩
    · refine .inr ⟨he.lt, he.table.imp_right ?_⟩
      rintro ⟨d, i, hi, hq, rfl⟩
      have hd := hdir _ hi.dir
      rw [hw d i hd] at hq ⊢
      exact ⟨d, i, ⟨hd, hi.lt, hi.ne⟩, hq, rfl⟩
  have hac : s'.Dir s.cr3 := by
    have ha := h.active
    generalize s.cr3 = c at ha hne
    cases ha with
    | boot => exact .boot
    | @proc t v ht hq =>
      have e : s'.kpte v = s.kpte v := by
        refine hold _ _ fun e => hne ?_
        show _ = frameOf (s.mem _ _)
        rw [e.1, e.2]
      rw [← e] at hq ⊢
      exact .proc (hpg ▸ ht) hq
  refine ⟨⟨?_, fun d hd i h1 h2 => ?_, fun d hd => ?_, ?_, fun k hk => ?_, ?_, fun g k hgk hq => ?_, ?_, ?_⟩, fun g k hgk hq e => ?_⟩
  · rw [← hs']
    exact ⟨h.shape.1, h.shape.2, h.shape.3, h.shape.4, h.shape.5, h.shape.6⟩
  · rw [hw d i (hdir d hd)]
    exact h.kernel d (hdir d hd) i h1 h2
  · rw [hw d 1023 (hdir d hd)]
    exact h.self d (hdir d hd)
  · rw [hw bootDir 0 .boot]
    exact h.first
  · rw [hold 0x101 k ?_]
    · exact h.low k hk
    · rintro ⟨rfl, rfl⟩
      rcases hf.table with ⟨-, -, hlow⟩ | ht
      · exact hlow ⟨rfl, hk⟩
      · have := (h.table_used ht).bounds h.shape
        omega
  · rw [hcr3]
    exact hac
  · have ew := (hpr g k hq).2
    rw [ew] at hq ⊢
    have hu := h.used g k (hen g k hgk) hq
    rw [← hs']
    exact hu
  · intro g k g' k' hgk hgk' hq hq' e
    have ew := (hpr g k hq).2
    have ew' := (hpr g' k' hq').2
    rw [ew] at hq e
    rw [ew'] at hq' e
    exact h.inj g k g' k' (hen g k hgk) (hen g' k' hgk') hq hq' e
  · rw [hpg]
    exact h.heap
  · obtain ⟨hloc, ew⟩ := hpr g k hq
    rw [ew] at hq e
    exact hloc (h.inj g k f j (hen g k hgk) (.inr hf) hq hp e)

theorem used_set_false (h : s.Used y) (hne : y ≠ s.base pf + k) :
    (s.setPool pf ((s.pool pf).set k false)).Used y := by
  have hke : ∀ {p : Pool} {k : Nat}, Holds p y → y ≠ p.phyAddrStart / pgSize + k → Holds (p.set k false) y := by
    rintro p k ⟨n, hn, rfl, hbit⟩ hne
    refine ⟨n, hn, rfl, ?_⟩
    show (bitmapSet p.poolBitmap k false).bit n = true
    rw [bit_bitmapSet, if_neg fun e => hne (by rw [e])]
    exact hbit
  cases pf
  · exact h.imp_left fun hk => hke hk hne
  · exact h.imp_right fun hk => hke hk hne

theorem Shape.pfree (h : s.Shape) (hx : s.Used x) : ∃ pf k, x = s.base pf + k ∧
    s.pfree (x * pgSize) = s.setPool pf ((s.pool pf).set k false) := by
  have hk : s.base .pfKernel * pgSize = _ := h.base_mul
  have hu : s.base .pfUser * pgSize = _ := h.base_mul
  have ha := h.apart
  have hs : s.base .pfKernel = 0x200 := by
    show s.kernelPool.phyAddrStart / pgSize = 0x200
    rw [h.kernelStart]
    rfl
  have hk : s.base .pfKernel * pgSize = s.kernelPool.phyAddrStart := hk
  have hu : s.base .pfUser * pgSize = s.userPool.phyAddrStart := hu
  have ha : 0x200 + 8 * s.kernelPool.poolBitmap.btmpBytesLen ≤ s.base .pfUser := ha
  have hidx : ∀ b k, ((b + k) * pgSize - b * pgSize) / pgSize = k := fun b k => by
    rw [Nat.add_mul, Nat.add_sub_cancel_left, Nat.mul_div_cancel _ (by decide)]
  rcases hx with ⟨k, hlt, rfl, -⟩ | ⟨k, hlt, rfl, -⟩
  · refine ⟨.pfKernel, k, rfl, ?_⟩
    have hnot : ¬ s.userPool.phyAddrStart ≤ (s.base .pfKernel + k) * pgSize := by
      rw [← hu, Nat.not_le]
      exact Nat.mul_lt_mul_of_pos_right (by omega) (by decide)
    have hbit := hidx (s.base .pfKernel) k
    rw [hk] at hbit
    exact (if_neg hnot).trans (by rw [show s.kernelPool.phyAddrStart / pgSize = s.base .pfKernel from rfl, hbit]; rfl)
  · refine ⟨.pfUser, k, rfl, ?_⟩
    have hle : s.userPool.phyAddrStart ≤ (s.base .pfUser + k) * pgSize := by
      rw [← hu]
      exact Nat.mul_le_mul_right _ (Nat.le_add_right ..)
    have hbit := hidx (s.base .pfUser) k
    rw [hu] at hbit
    exact (if_pos hle).trans (by rw [show s.userPool.phyAddrStart / pgSize = s.base .pfUser from rfl, hbit]; rfl)

theorem setPool_setWord : (s.setPool pf p).setWord f j w = (s.setWord f j w).setPool pf p := by
  cases pf <;> rfl

structure Freed (s s' : Vm τ) : Prop where
  core : s'.Core
  pgdir : s'.pgdir = s.pgdir
  cr3 : s'.cr3 = s.cr3
  userStart : s'.userPool.phyAddrStart = s.userPool.phyAddrStart
  kernelVaddr : s'.kernelVaddr = s.kernelVaddr

theorem Core.give (h : s.Core) (hf : s.PageEntry f j) (hp : Present (s.mem f j)) (hne : frameOf (s.mem f j) ≠ s.cr3) :
    Freed s ((s.pfree (frameOf (s.mem f j) * pgSize)).setWord f j (s.mem f j &&& ~~~1)) := by
  obtain ⟨hc, hfr⟩ := h.clear hf hp hne
  obtain ⟨pf, k, hx, hpf⟩ := h.shape.pfree (h.used f j (.inr hf) hp)
  rw [hpf, setPool_setWord]
  refine ⟨hc.setPool ?_ fun g k' hgk hq => ?_, ?_, ?_, ?_, ?_⟩
  · exact Shape.setPool (s := s.setWord f j (s.mem f j &&& ~~~1)) hc.shape
  · refine used_set_false (s := s.setWord f j (s.mem f j &&& ~~~1)) (hc.used g k' hgk hq) ?_
    have := hfr g k' hgk hq
    rw [hx] at this
    exact this
  all_goals cases pf <;> rfl

theorem Core.entry_ne (h : s.Core) {q : Nat} (hvq : v / pgSize ≠ q / pgSize) (hv : v < 0xffc00000) (hq : q < 0xffc00000)
    (hs : v / 2 ^ 22 < 768 ∧ q / 2 ^ 22 < 768 ∨ 768 ≤ v / 2 ^ 22 ∧ 768 ≤ q / 2 ^ 22)
    (hpv : Present (s.mem s.cr3 (v / 2 ^ 22))) (hpq : Present (s.mem s.cr3 (q / 2 ^ 22))) :
    ¬ (s.tableOf v = s.tableOf q ∧ v / pgSize % 1024 = q / pgSize % 1024) := by
  rintro ⟨ht, hj⟩
  have hi : v / 2 ^ 22 ≠ q / 2 ^ 22 := by
    unfold pgSize at *
    omega
  unfold tableOf at ht
  rcases hs with ⟨h1, h2⟩ | ⟨h1, h2⟩
  · -- the first entry of the boot directory is the only one outside the pools
    have hc : ∀ a b, a ≠ b → a < 768 → b < 768 → Present (s.mem s.cr3 a) → Present (s.mem s.cr3 b) →
        frameOf (s.mem s.cr3 a) = frameOf (s.mem s.cr3 b) → ¬ (s.cr3 = bootDir ∧ a = 0) → False := by
      intro a b hab ha hb hpa hpb e h0
      by_cases hb0 : s.cr3 = bootDir ∧ b = 0
      · have hu := (h.used s.cr3 a (.inl ⟨h.active, ha, h0⟩) hpa).bounds h.shape
        rw [e, hb0.1, hb0.2, h.first, show frameOf (bootEntry 0) = 0x101 from frameOf_pteWord (x := 0x101) (by decide)] at hu
        omega
      · exact hab (h.inj _ _ _ _ (.inl ⟨h.active, ha, h0⟩) (.inl ⟨h.active, hb, hb0⟩) hpa hpb e).2
    by_cases h0 : s.cr3 = bootDir ∧ v / 2 ^ 22 = 0
    · exact hc _ _ hi.symm h2 h1 hpq hpv ht.symm fun e => hi (h0.2.trans e.2.symm)
    · exact hc _ _ hi h1 h2 hpv hpq ht h0
  · rw [h.kernel _ h.active _ h1 (by omega), h.kernel _ h.active _ h2 (by omega), frameOf_bootEntry h1 (by omega),
      frameOf_bootEntry h2 (by omega)] at ht
    omega

theorem pfree_mem (s : Vm τ) (p : Nat) : (s.pfree p).mem = s.mem ∧ (s.pfree p).cr3 = s.cr3 := by
  unfold Vm.pfree
  split <;> exact ⟨rfl, rfl⟩

theorem pfree_tableOf (s : Vm τ) (p v : Nat) : (s.pfree p).tableOf v = s.tableOf v := by
  unfold tableOf
  rw [(s.pfree_mem p).1, (s.pfree_mem p).2]

theorem SelfRef.addrV2p_walk (h : s.SelfRef) (hv : v < 2 ^ 32) (hw : s.walk v = some x) :
    s.addrV2p v = .ok (x * pgSize + v % pgSize) := by
  obtain ⟨hp, -, rfl⟩ := walk_some hw
  unfold Vm.addrV2p
  rw [h.load_pte hv hp, ok_bind, pteAddr_eq]
  rfl

theorem addrV2p_eq (h : s.SelfRef) (hv : v < 2 ^ 32) (ha : v % pgSize = 0) (hw : s.walk v = some x) :
    s.addrV2p v = .ok (x * pgSize) := by
  rw [h.addrV2p_walk hv hw, ha, Nat.add_zero]

theorem Core.freePage (h : s.Core) (hv : v < 0xffc00000) (hw : s.walk v = some x) (hne : x ≠ s.cr3) (hx : 0x200000 ≤ x * pgSize)
    (hr : (s.pfree (x * pgSize)).pageTablePteRemove v = .ok s') : Freed s s' ∧
      ∀ q, v / pgSize ≠ q / pgSize → q < 0xffc00000 →
        (v / 2 ^ 22 < 768 ∧ q / 2 ^ 22 < 768 ∨ 768 ≤ v / 2 ^ 22 ∧ 768 ≤ q / 2 ^ 22) → ∀ y, s.walk q = some y → s'.walk q = some y := by
  have hv' : v < 2 ^ 32 := by omega
  obtain ⟨hp, hp', rfl⟩ := walk_some hw
  obtain ⟨hmem, hcr3⟩ := s.pfree_mem (frameOf (s.mem (s.tableOf v) (v / pgSize % 1024)) * pgSize)
  have hf : s.PageEntry (s.tableOf v) (v / pgSize % 1024) := by
    rcases h.page_entry hv hp with hf | ⟨e1, e2⟩
    · exact hf
    · rw [e1, h.low _ e2, frameOf_pteWord (by omega)] at hx
      unfold pgSize at *
      omega
  have hs : (s.pfree (frameOf (s.mem (s.tableOf v) (v / pgSize % 1024)) * pgSize)).SelfRef :=
    h.selfRef.of_entry hcr3 (by rw [hmem])
  have hpde : Present ((s.pfree (frameOf (s.mem (s.tableOf v) (v / pgSize % 1024)) * pgSize)).mem
      (s.pfree (frameOf (s.mem (s.tableOf v) (v / pgSize % 1024)) * pgSize)).cr3 (v / 2 ^ 22)) := by rwa [hmem, hcr3]
  unfold Vm.pageTablePteRemove at hr
  rw [hs.load_pte hv' hpde, ok_bind, hs.store_pte hv' hpde, pfree_tableOf, hmem] at hr
  cases hr
  refine ⟨h.give hf hp' hne, fun q hvq hq hsi y hy => ?_⟩
  obtain ⟨hpq, hpq', rfl⟩ := walk_some hy
  have hold : ∀ g k, ¬ (g = s.tableOf v ∧ k = v / pgSize % 1024) →
      ((s.pfree (frameOf (s.mem (s.tableOf v) (v / pgSize % 1024)) * pgSize)).setWord (s.tableOf v) (v / pgSize % 1024)
        (s.mem (s.tableOf v) (v / pgSize % 1024) &&& ~~~1)).mem g k = s.mem g k := by
    intro g k e
    rw [setWord_of_ne e, hmem]
  have hloc := h.entry_ne hvq hv hq hsi hp hpq
  have hdir : ∀ k, ¬ (s.cr3 = s.tableOf v ∧ k = v / pgSize % 1024) := fun k e => h.page_not_dir hf (e.1 ▸ h.active)
  have hcr : ((s.pfree (frameOf (s.mem (s.tableOf v) (v / pgSize % 1024)) * pgSize)).setWord (s.tableOf v) (v / pgSize % 1024)
      (s.mem (s.tableOf v) (v / pgSize % 1024) &&& ~~~1)).cr3 = s.cr3 := hcr3
  unfold walk
  dsimp only
  rw [hcr, hold _ _ (hdir _), show frameOf (s.mem s.cr3 (q / 2 ^ 22)) = s.tableOf q from rfl,
    hold _ _ fun e => hloc ⟨e.1.symm, e.2.symm⟩]
  exact if_pos ⟨hpq, hpq'⟩

theorem Core.unmapPages {own : Nat → Bool} {cond : String} (hown : ∀ p, own p = true → 0x200000 ≤ p) :
    ∀ {n v : Nat} {s s' : Vm τ}, s.Core → v % pgSize = 0 →
      (v + n * pgSize ≤ 0xc0000000 ∨ 0xc0000000 ≤ v ∧ v + n * pgSize ≤ 0xffc00000) →
      (∀ k < n, ∃ x, s.walk (v + k * pgSize) = some x ∧ x ≠ s.cr3) → unmapPages .debug own cond n v s = .ok s' → Freed s s'
  | 0, _, _, _, h, _, _, _, hr => by
    cases hr
    exact ⟨h, rfl, rfl, rfl, rfl⟩
  | n + 1, v, s, s', h, ha, hs, hmap, hr => by
    have hv : v < 0xffc00000 := by
      unfold pgSize at hs
      omega
    obtain ⟨x, hw, hne⟩ := hmap 0 (Nat.succ_pos n)
    unfold Vm.unmapPages at hr
    rw [addrV2p_eq h.selfRef (by omega) ha hw, ok_bind] at hr
    obtain ⟨_, har, hr⟩ := bind_ok.mp hr
    rw [assert_debug_ok] at har
    obtain ⟨s1, hre, hr⟩ := bind_ok.mp hr
    obtain ⟨hf, hke⟩ := h.freePage hv hw hne (hown _ har) hre
    have hrs : ∀ k < n, ∃ y, s1.walk (v + pgSize + k * pgSize) = some y ∧ y ≠ s1.cr3 := by
      intro k hk
      obtain ⟨y, hy, hyne⟩ := hmap (k + 1) (Nat.succ_lt_succ hk)
      have e : v + (k + 1) * pgSize = v + pgSize + k * pgSize := by
        unfold pgSize
        omega
      rw [e] at hy
      refine ⟨y, hke _ ?_ ?_ ?_ y hy, by rw [hf.cr3]; exact hyne⟩
      all_goals
        unfold pgSize at *
        omega
    have hrec := Core.unmapPages hown hf.core (by unfold pgSize at *; omega) (by unfold pgSize at *; omega) hrs hr
    exact ⟨hrec.core, hrec.pgdir.trans hf.pgdir, hrec.cr3.trans hf.cr3, hrec.userStart.trans hf.userStart,
      hrec.kernelVaddr.trans hf.kernelVaddr⟩

end Vm

end OperateSystem
