import OperateSystem.BitmapScan
import OperateSystem.PageAdd
import OperateSystem.PageDirSound

/-!
# Several directories at once

What a change of the memory does to the translations under all directories. The
frames of directories and tables are apart from the frames of pages, so writing to
a page changes no translation, and mapping a page of one process changes no other.
-/

namespace OperateSystem

open Function

namespace Vm

variable {τ : Type} {s s' : Vm τ} {d f g v w x y z : Nat} {b : Build}

def walkIn (s : Vm τ) (d v : Nat) : Option Nat := ({ s with cr3 := d } : Vm τ).walk v

theorem walkIn_cr3 (s : Vm τ) (v : Nat) : s.walkIn s.cr3 v = s.walk v := rfl

def Struct (s : Vm τ) (g : Nat) : Prop := s.Dir g ∨ s.Table g ∨ 0x101 ≤ g ∧ g ≤ 0x1ff

theorem walkIn_congr (hd : s'.mem d (w / 2 ^ 22) = s.mem d (w / 2 ^ 22))
    (ht : Present (s.mem d (w / 2 ^ 22)) → s'.mem (frameOf (s.mem d (w / 2 ^ 22))) = s.mem (frameOf (s.mem d (w / 2 ^ 22)))) :
    s'.walkIn d w = s.walkIn d w := by
  show ({ s' with cr3 := d } : Vm τ).walk w = ({ s with cr3 := d } : Vm τ).walk w
  unfold walk
  dsimp only
  rw [hd]
  by_cases hp : Present (s.mem d (w / 2 ^ 22))
  · rw [ht hp]
  · simp only [hp, false_and, if_false]

theorem walkIn_some (h : s.walkIn d v = some x) : Present (s.mem d (v / 2 ^ 22)) ∧
    Present (s.mem (frameOf (s.mem d (v / 2 ^ 22))) (v / pgSize % 1024)) ∧
    x = frameOf (s.mem (frameOf (s.mem d (v / 2 ^ 22))) (v / pgSize % 1024)) := walk_some h

/-! ## Tables and pages -/

theorem Inv.table_of (h : s.Inv) (hd : s.Dir d) (hw : w < 0xffc00000) :
    s.UserEntry d (w / 2 ^ 22) ∨ 0x101 ≤ frameOf (s.mem d (w / 2 ^ 22)) ∧ frameOf (s.mem d (w / 2 ^ 22)) ≤ 0x1ff := by
  by_cases hu : w / 2 ^ 22 < 768
  · by_cases hb : d = bootDir ∧ w / 2 ^ 22 = 0
    · refine .inr ?_
      rw [hb.1, hb.2, h.first]
      decide
    · exact .inl ⟨hd, hu, hb⟩
  · refine .inr ?_
    rw [h.kernel d hd _ (by omega) (by omega), frameOf_bootEntry (by omega) (by omega)]
    omega

theorem Inv.table_struct (h : s.Inv) (hd : s.Dir d) (hw : w < 0xffc00000) (hp : Present (s.mem d (w / 2 ^ 22))) :
    s.Struct (frameOf (s.mem d (w / 2 ^ 22))) := by
  rcases h.table_of hd hw with hu | hk
  · exact .inr (.inl ⟨d, _, hu, hp, rfl⟩)
  · exact .inr (.inr hk)

theorem user_entry (hd : s.Dir d) (hb : d ≠ bootDir) (hv : v < 0xc0000000) (hx : s.walkIn d v = some x) :
    s.UserEntry d (v / 2 ^ 22) ∧ s.Table (frameOf (s.mem d (v / 2 ^ 22))) ∧
      s.PageEntry (frameOf (s.mem d (v / 2 ^ 22))) (v / pgSize % 1024) := by
  obtain ⟨hp, -, -⟩ := walkIn_some hx
  have hu : s.UserEntry d (v / 2 ^ 22) := ⟨hd, by omega, fun e => hb e.1⟩
  have ht : s.Table (frameOf (s.mem d (v / 2 ^ 22))) := ⟨d, _, hu, hp, rfl⟩
  exact ⟨hu, ht, Nat.mod_lt _ (by decide), .inr ht⟩

structure Data (s : Vm τ) (x : Nat) : Prop where
  used : s.Used x
  not_dir : ¬ s.Dir x
  not_table : ¬ s.Table x

theorem Data.low (hx : s.Data x) (h : s.Inv) : 0x200 ≤ x := (hx.used.bounds h.shape).1

theorem Data.not_struct (hx : s.Data x) (h : s.Inv) : ¬ s.Struct x := by
  have := hx.low h
  rintro (hd | ht | hk)
  · exact hx.not_dir hd
  · exact hx.not_table ht
  · omega

theorem Inv.data_user (h : s.Inv) (hd : s.Dir d) (hb : d ≠ bootDir) (hv : v < 0xc0000000) (hx : s.walkIn d v = some x) :
    s.Data x := by
  obtain ⟨hu, ht, he⟩ := user_entry hd hb hv hx
  obtain ⟨-, hq, rfl⟩ := walkIn_some hx
  have hbo := ((h.table_used ht).bounds h.shape).1
  refine ⟨h.used _ _ (.inr he) hq, fun hdir => ?_, fun htab => ?_⟩
  · generalize hg : frameOf (s.mem (frameOf (s.mem d (v / 2 ^ 22))) (v / pgSize % 1024)) = g at hdir
    have hus := (h.used _ _ (.inr he) hq).bounds h.shape
    cases hdir with
    | boot =>
      rw [hg] at hus
      unfold bootDir pgSize at hus
      omega
    | proc hpg hk =>
      obtain ⟨h1, h2, -⟩ := h.heap _ _ hpg
      have := (h.inj _ _ _ _ (.inr he) (.inr (kpage_entry h1 h2)) hq hk hg).1
      omega
  · obtain ⟨d', i', hi', hp', e⟩ := htab
    have := (h.inj _ _ _ _ (.inr he) (.inl hi') hq hp' e).1
    exact h.table_not_dir ht (this ▸ hi'.dir)

theorem Inv.user_inj (h : s.Inv) (hd : s.Dir d) (hb : d ≠ bootDir) (hg : s.Dir g) (hb' : g ≠ bootDir) (hv : v < 0xc0000000)
    (hw : w < 0xc0000000) (hx : s.walkIn d v = some x) (hy : s.walkIn g w = some x) : d = g ∧ v / pgSize = w / pgSize := by
  obtain ⟨hu, -, he⟩ := user_entry hd hb hv hx
  obtain ⟨hu', -, he'⟩ := user_entry hg hb' hw hy
  obtain ⟨hp, hq, e⟩ := walkIn_some hx
  obtain ⟨hp', hq', e'⟩ := walkIn_some hy
  obtain ⟨hf, hj⟩ := h.inj _ _ _ _ (.inr he) (.inr he') hq hq' (e.symm.trans e')
  obtain ⟨hdg, hi⟩ := h.inj _ _ _ _ (.inl hu) (.inl hu') hp hp' hf
  refine ⟨hdg, ?_⟩
  unfold pgSize at *
  omega

theorem Inv.data_kernel (h : s.Inv) (h1 : kHeapStart ≤ v) (h2 : v < 0xffc00000) (ha : v % pgSize = 0)
    (hno : ∀ t, s.pgdir t ≠ some v) (hx : s.walk v = some x) : s.Data x := by
  have hv : 0xc0000000 ≤ v := by
    unfold kHeapStart at h1
    omega
  rw [h.walk_kernel hv h2] at hx
  split at hx
  · next hp =>
    cases hx
    have he := kpage_entry (s := s) h1 h2
    have hu := (h.used _ _ (.inr he) hp).bounds h.shape
    refine ⟨h.used _ _ (.inr he) hp, fun hdir => ?_, fun htab => ?_⟩
    · generalize hg : frameOf (s.kpte v) = g at hdir
      cases hdir with
      | boot =>
        have hu : 0x200 ≤ frameOf (s.kpte v) ∧ _ := hu
        rw [hg] at hu
        unfold bootDir pgSize at hu
        omega
      | @proc t q hpg hk =>
        obtain ⟨h3, h4, ha'⟩ := h.heap _ _ hpg
        obtain ⟨hf, hj⟩ := h.inj _ _ _ _ (.inr he) (.inr (kpage_entry h3 h4)) hp hk hg
        have hq : q = v := by
          unfold pgSize at ha ha' hj
          unfold kHeapStart at h1 h3
          omega
        exact hno t (hpg.trans (congrArg some hq))
    · obtain ⟨d, i, hi, hp', e⟩ := htab
      have hdi := (h.inj _ _ _ _ (.inr he) (.inl hi) hp hp' e).1
      have := (h.dir_bounds hi.dir).1
      unfold bootDir pgSize at this
      omega
  · cases hx

theorem Inv.user_ne_kernel (h : s.Inv) (hd : s.Dir d) (hb : d ≠ bootDir) (hv : v < 0xc0000000) (hx : s.walkIn d v = some x)
    (h1 : 0xc0000000 ≤ w) (h2 : w < 0xffc00000) (hy : s.walk w = some y) : x ≠ y := by
  obtain ⟨-, ht, he⟩ := user_entry hd hb hv hx
  obtain ⟨-, hq, rfl⟩ := walkIn_some hx
  have hbo := ((h.table_used ht).bounds h.shape).1
  have hu := (h.used _ _ (.inr he) hq).bounds h.shape
  rw [h.walk_kernel h1 h2] at hy
  split at hy
  · next hp =>
    cases hy
    intro e
    by_cases hlow : kHeapStart ≤ w
    · have := (h.inj _ _ _ _ (.inr he) (.inr (kpage_entry hlow h2)) hq hp e).1
      omega
    · -- the first megabyte is mapped to itself
      unfold kHeapStart at hlow
      have hk : s.kpte w = pteWord (w / pgSize % 1024 * pgSize) := by
        unfold kpte
        rw [show w / 2 ^ 22 - 768 = 0 by omega]
        exact h.low _ (by unfold pgSize; omega)
      rw [hk, frameOf_pteWord (by omega)] at e
      unfold pgSize at *
      omega
  · cases hy

/-! ## Writing to a page -/

structure SameSpaces (s s' : Vm τ) : Prop where
  inv : s'.Inv
  pgdir : s'.pgdir = s.pgdir
  mem : ∀ g, s.Struct g → s'.mem g = s.mem g
  userprog : s'.userprogVaddr = s.userprogVaddr
  kernelPool : s'.kernelPool = s.kernelPool
  userPool : s'.userPool = s.userPool

theorem SameSpaces.kpte (hs : SameSpaces s s') (h : s.Inv) {t : τ} (ht : s.pgdir t = some v) : s'.kpte v = s.kpte v := by
  obtain ⟨h1, h2, -⟩ := h.heap t v ht
  exact congrFun (hs.mem _ (.inr (.inr (by unfold kHeapStart at h1; omega)))) _

theorem SameSpaces.dir (hs : SameSpaces s s') (h : s.Inv) (d : Nat) : s'.Dir d ↔ s.Dir d :=
  dir_iff hs.pgdir fun _ _ ht => hs.kpte h ht

theorem SameSpaces.table (hs : SameSpaces s s') (h : s.Inv) (f : Nat) : s'.Table f ↔ s.Table f :=
  table_iff (hs.dir h) fun d i hi => congrFun (hs.mem d (.inl hi.dir)) i

theorem dirOf_congr (hp : s'.pgdir = s.pgdir) (hk : ∀ t v, s.pgdir t = some v → s'.kpte v = s.kpte v) (t : τ) :
    s'.dirOf t = s.dirOf t := by
  unfold Vm.dirOf
  rw [hp]
  cases ht : s.pgdir t with
  | none => rfl
  | some v => exact congrArg frameOf (hk t v ht)

theorem SameSpaces.dirOf (hs : SameSpaces s s') (h : s.Inv) (t : τ) : s'.dirOf t = s.dirOf t :=
  dirOf_congr hs.pgdir (fun _ _ ht => hs.kpte h ht) t

theorem SameSpaces.used (hs : SameSpaces s s') (x : Nat) : s'.Used x ↔ s.Used x := by
  unfold Used
  rw [hs.kernelPool, hs.userPool]

theorem SameSpaces.data (hs : SameSpaces s s') (h : s.Inv) (hx : s.Data x) : s'.Data x :=
  ⟨(hs.used x).mpr hx.used, fun hd => hx.not_dir ((hs.dir h x).mp hd), fun ht => hx.not_table ((hs.table h x).mp ht)⟩

theorem SameSpaces.walkIn (hs : SameSpaces s s') (h : s.Inv) (hd : s.Dir d) (hw : w < 0xffc00000) :
    s'.walkIn d w = s.walkIn d w :=
  walkIn_congr (congrFun (hs.mem d (.inl hd)) _) fun hp => hs.mem _ (h.table_struct hd hw hp)

theorem SameSpaces.trans {s1 : Vm τ} (h : s.Inv) (h1 : SameSpaces s s1) (h2 : SameSpaces s1 s') : SameSpaces s s' := by
  have hs : ∀ g, s.Struct g → s1.Struct g := fun g hg =>
    hg.imp (h1.dir h g).mpr (Or.imp_left (h1.table h g).mpr)
  exact ⟨h2.inv, h2.pgdir.trans h1.pgdir, fun g hg => (h2.mem g (hs g hg)).trans (h1.mem g hg),
    h2.userprog.trans h1.userprog, h2.kernelPool.trans h1.kernelPool, h2.userPool.trans h1.userPool⟩

theorem Inv.write_page (h : s.Inv) (hf : s.Data f) (m : Nat → UInt32) :
    SameSpaces s { s with mem := update s.mem f m } := by
  refine ⟨h.scratch (hf.low h) hf.not_dir hf.not_table m, rfl, fun g hg => update_of_ne (fun e => ?_) _ _, rfl, rfl, rfl⟩
  exact hf.not_struct h (e ▸ hg)

theorem Inv.walkIn_kernel (h : s.Inv) (hd : s.Dir d) (h1 : 0xc0000000 ≤ v) (h2 : v < 0xffc00000) : s.walkIn d v = s.walk v := by
  show ({ s with cr3 := d } : Vm τ).walk v = s.walk v
  rw [(h.activate hd).walk_kernel h1 h2, h.walk_kernel h1 h2]
  rfl

theorem Inv.switch (h : s.Inv) (hd : s.Dir d) : SameSpaces s { s with cr3 := d } :=
  ⟨h.activate hd, rfl, fun _ _ => rfl, rfl, rfl, rfl⟩

/-! ## Mapping a user page -/

theorem palloc_free {pool : Pool} (h : pool.poolBitmap.freeBits ≠ []) : ∃ k < 8 * pool.poolBitmap.btmpBytesLen,
    pool.poolBitmap.bit k = false ∧ pool.poolBitmap.freeBits = k :: (pool.set k true).poolBitmap.freeBits ∧
      ∀ b, palloc b pool = .ok (some (k * pgSize + pool.phyAddrStart), pool.set k true) := by
  obtain ⟨k, hk⟩ := bitmapScan_free .debug h
  have hf := Bitmap.freeBits_scan hk
  obtain ⟨hlt, hbit⟩ := Bitmap.mem_freeBits.mp (hf ▸ .head _ : k ∈ pool.poolBitmap.freeBits)
  refine ⟨k, hlt, hbit, hf, fun b => ?_⟩
  obtain ⟨k', hk'⟩ := bitmapScan_free b h
  have hs : k' = k := by
    have := (Bitmap.freeBits_scan hk').symm.trans hf
    exact (List.cons.inj this).1
  unfold palloc
  rw [hk', hs]
  rfl

structure Adds (s s' : Vm τ) (v x : Nat) : Prop where
  installs : Installs s s' v x
  mapped : Mapped s s' v x
  table : s.Table (s'.tableOf v) ∨ ¬ s.Used (s'.tableOf v)
  userprog : s'.userprogVaddr = s.userprogVaddr
  userPool : s'.userPool = s.userPool
  kernelFree : s.kernelPool.poolBitmap.freeBits.length =
    s'.kernelPool.poolBitmap.freeBits.length + if Present (s.mem s.cr3 (v / 2 ^ 22)) then 0 else 1

theorem Inv.pageTableAdd_free (h : s.Inv) (hb : s.cr3 ≠ bootDir) (hv : v < 0xc0000000) (hn : s.walk v = none) (hx : s.Fresh x)
    (hf : ¬ Present (s.mem s.cr3 (v / 2 ^ 22)) → s.kernelPool.poolBitmap.freeBits ≠ []) :
    ∃ s', (∀ b, s.pageTableAdd b v (x * pgSize) = .ok s') ∧ Adds s s' v x := by
  have hT := h.tables hb
  have hv1 : v < 0xffc00000 := by omega
  have hxlt := (hx.bounds h.toCore).2
  have hu : s.UserEntry s.cr3 (v / 2 ^ 22) := ⟨h.active, by omega, fun e => hb e.1⟩
  by_cases hp : Present (s.mem s.cr3 (v / 2 ^ 22))
  · have hr : ∀ b, s.pageTableAdd b v (x * pgSize) = .ok _ := fun b =>
      hT.pageTableAdd_old (by omega) hp (walk_none hn hp) _
    have hin := hT.installs_old hv1 hxlt hp
    refine ⟨_, hr, hin, h.pageTableAdd hx hv1 (hr .debug), .inl ⟨s.cr3, _, hu, hp, ?_⟩, rfl, rfl, ?_⟩
    · show frameOf ((s.setWord (s.tableOf v) _ _).mem s.cr3 (v / 2 ^ 22)) = _
      rw [setWord_of_ne fun e => hT.tableOf_ne hv1 hp e.1.symm]
    · rw [if_pos hp]
      rfl
  · obtain ⟨k, hk, hbit, hre, hpa⟩ := palloc_free (hf hp)
    have hlt := Nat.lt_of_lt_of_le (Nat.add_lt_add_left hk _) ((h.space hb).top .pfKernel)
    have hh := (h.space hb).free k hk hbit
    have ha : k * pgSize + s.kernelPool.phyAddrStart = (s.base .pfKernel + k) * pgSize := by
      rw [Nat.add_mul, h.shape.base_mul, Nat.add_comm]
      rfl
    rw [ha] at hpa
    have hr : ∀ b, s.pageTableAdd b v (x * pgSize) = .ok _ := fun b =>
      hT.pageTableAdd_new hv1 hp (hT.unheld_ne hh) hlt (hpa b) _
    have hin : Installs s ((s.withTable (s.kernelPool.set k true) v _).setWord _ _ _) v x := hT.installs_new hv1 hxlt hh hlt hp
    refine ⟨_, hr, hin, h.pageTableAdd hx hv1 (hr .debug), .inr ?_, rfl, rfl, ?_⟩
    · show ¬ s.Used (frameOf (((s.withTable _ v _).setWord _ _ _).mem s.cr3 (v / 2 ^ 22)))
      rw [setWord_of_ne fun e => hT.unheld_ne hh e.1, withTable_entry (hT.unheld_ne hh), frameOf_pteWord hlt]
      have hf : ¬ s.Used (s.base .pfKernel + k) := h.shape.not_used hk hbit
      exact hf
    · rw [if_neg hp, hre]
      rfl

structure MapsUser (s s' : Vm τ) (v y : Nat) : Prop where
  inv : s'.Inv
  pgdir : s'.pgdir = s.pgdir
  kpte : ∀ t q, s.pgdir t = some q → s'.kpte q = s.kpte q
  cr3 : s'.cr3 = s.cr3
  userprog : s'.userprogVaddr = s.userprogVaddr
  walk : s'.walk v = some y
  other : ∀ d, s.Dir d → ∀ w < 0xffc00000, ¬ (d = s.cr3 ∧ w / pgSize = v / pgSize) → s'.walkIn d w = s.walkIn d w
  data : ∀ g, s.Data g → s'.mem g = s.mem g
  fresh : s'.Data y
  unused : ¬ s.Used y
  userFree : s.userPool.poolBitmap.freeBits.length = s'.userPool.poolBitmap.freeBits.length + 1
  kernelFree : s.kernelPool.poolBitmap.freeBits.length =
    s'.kernelPool.poolBitmap.freeBits.length + if Present (s.mem s.cr3 (v / 2 ^ 22)) then 0 else 1
  entries : ∀ i, Present (s'.mem s.cr3 i) ↔ Present (s.mem s.cr3 i) ∨ i = v / 2 ^ 22

theorem MapsUser.dir (hm : MapsUser s s' v y) (d : Nat) : s'.Dir d ↔ s.Dir d := dir_iff hm.pgdir hm.kpte

theorem Adds.entry (hadd : Adds s s' v x) (hb : s.cr3 ≠ bootDir) (hv : v < 0xc0000000) : s'.UserEntry s.cr3 (v / 2 ^ 22) ∧ Present (s'.mem s.cr3 (v / 2 ^ 22)) ∧
    s'.tableOf v = frameOf (s'.mem s.cr3 (v / 2 ^ 22)) ∧ 0x200 ≤ s'.tableOf v := by
  have hcr3 := hadd.installs.cr3
  have hinv := hadd.mapped.inv
  have hact : s'.Dir s.cr3 := hcr3 ▸ hinv.active
  have hu : s'.UserEntry s.cr3 (v / 2 ^ 22) := ⟨hact, by omega, fun e => hb e.1⟩
  have hp : Present (s'.mem s.cr3 (v / 2 ^ 22)) := by
    have := (walk_some hadd.installs.walk).1
    rwa [hcr3] at this
  have ht : s'.tableOf v = frameOf (s'.mem s.cr3 (v / 2 ^ 22)) := by
    unfold tableOf
    rw [hcr3]
  refine ⟨hu, hp, ht, ?_⟩
  rw [ht]
  exact ((hinv.table_used ⟨_, _, hu, hp, rfl⟩).bounds hinv.shape).1

theorem Adds.kernel (hadd : Adds s s' v x) (h : s.Inv) (hb : s.cr3 ≠ bootDir) (hv : v < 0xc0000000) (hk : 0x101 ≤ g ∧ g ≤ 0x1ff) : s'.mem g = s.mem g := by
  have hcr3 := ((h.cr3_used hb).bounds h.shape).1
  have htab := (hadd.entry hb hv).2.2.2
  exact hadd.installs.mem g (by omega) (by omega)

theorem Adds.dir (hadd : Adds s s' v x) (h : s.Inv) (hb : s.cr3 ≠ bootDir) (hv : v < 0xc0000000) (d : Nat) : s'.Dir d ↔ s.Dir d := by
  refine dir_iff hadd.mapped.pgdir fun t q hq => ?_
  obtain ⟨h2, h3, -⟩ := h.heap t q hq
  exact congrFun (hadd.kernel h hb hv (by unfold kHeapStart at h2; omega)) _

theorem Adds.other (hadd : Adds s s' v x) (h : s.Inv) (hb : s.cr3 ≠ bootDir) (hv : v < 0xc0000000) (hd : s.Dir d)
    (hw : w < 0xffc00000) (hne : ¬ (d = s.cr3 ∧ w / pgSize = v / pgSize)) : s'.walkIn d w = s.walkIn d w := by
  obtain ⟨hu, hp, ht, hlow⟩ := hadd.entry hb hv
  by_cases hdc : d = s.cr3
  · have hpa : w / pgSize ≠ v / pgSize := fun e => hne ⟨hdc, e⟩
    rw [hdc]
    have := hadd.installs.other w hw hpa
    rwa [← walkIn_cr3, ← walkIn_cr3, hadd.installs.cr3] at this
  · have hinv := hadd.mapped.inv
    have hd' := (hadd.dir h hb hv d).mpr hd
    have hdt : d ≠ s'.tableOf v := fun e => hinv.table_not_dir ⟨_, _, hu, hp, ht⟩ (e ▸ hd')
    have hmem := hadd.installs.mem d hdc hdt
    refine walkIn_congr (congrFun hmem _) fun hpw => ?_
    rcases h.table_of hd hw with huw | hk
    · -- a table of another process
      have hF : s.Table (frameOf (s.mem d (w / 2 ^ 22))) := ⟨_, _, huw, hpw, rfl⟩
      refine hadd.installs.mem _ (fun e => h.table_not_dir hF (e ▸ h.active)) fun e => hdc ?_
      have huw' : s'.UserEntry d (w / 2 ^ 22) := ⟨hd', huw.lt, huw.ne⟩
      have hwo := congrFun hmem (w / 2 ^ 22)
      rw [ht, ← hwo] at e
      rw [← hwo] at hpw
      exact (hinv.inj _ _ _ _ (.inl huw') (.inl hu) hpw hp e).1
    · exact hadd.kernel h hb hv hk

theorem Adds.data (hadd : Adds s s' v x) (h : s.Inv) (hg : s.Data g) : s'.mem g = s.mem g := by
  refine hadd.installs.mem g (fun e => hg.not_dir (e ▸ h.active)) fun e => ?_
  rcases hadd.table with ht | hn
  · exact hg.not_table (e ▸ ht)
  · exact hn (e ▸ hg.used)

theorem Inv.mapUser (h : s.Inv) (hb : s.cr3 ≠ bootDir) (hv : v < 0xc0000000) (hn : s.walk v = none)
    (hus : s.userPool.poolBitmap.freeBits ≠ [])
    (hke : ¬ Present (s.mem s.cr3 (v / 2 ^ 22)) → s.kernelPool.poolBitmap.freeBits ≠ []) :
    ∃ s' y, (∀ b, s.getAPageWithoutOpvaddrbitmap b .pfUser v = .ok (some v, s')) ∧ MapsUser s s' v y := by
  obtain ⟨k, hk, hbit, hre, hpa⟩ := palloc_free hus
  obtain ⟨y, ho, hinv, hf, hu, -⟩ := h.palloc (show OperateSystem.palloc .debug (s.pool .pfUser) = .ok _ from hpa .debug)
  have ha := Option.some.inj ho
  obtain ⟨s', hr, hadd⟩ := hinv.pageTableAdd_free hb hv hn hf hke
  have hda : ∀ g, s.Data g → (s.setPool .pfUser (s.userPool.set k true)).Data g := fun g hg =>
    ⟨(used_set_true hg.used : (s.setPool .pfUser ((s.pool .pfUser).set k true)).Used g), fun hd => hg.not_dir (dir_setPool.mp hd),
      fun ht => hg.not_table ((table_iff (fun _ => dir_setPool) fun _ _ _ => rfl).mp ht)⟩
  have hact := hadd.mapped.inv.active
  have hcr3 := hadd.mapped.cr3
  refine ⟨s', y, fun b => ?_, hadd.mapped.inv, hadd.mapped.pgdir, fun t q hq => ?_, hcr3, hadd.userprog, hadd.mapped.walk,
    fun d hd w hw hne => hadd.other hinv hb hv (dir_setPool.mpr hd) hw hne, fun g hg => hadd.data hinv (hda g hg),
    hadd.mapped.inv.data_user hact (hcr3 ▸ hb) hv hadd.mapped.walk, hu, ?_, hadd.kernelFree, fun i => ?_⟩
  · unfold Vm.getAPageWithoutOpvaddrbitmap Vm.mapPage
    rw [show s.pool .pfUser = s.userPool from rfl, hpa b, ha]
    show (((s.setPool .pfUser (s.userPool.set k true)).pageTableAdd b v (y * pgSize) >>= fun s => pure (true, s)) >>= _) = _
    rw [hr b]
    rfl
  · obtain ⟨h1, h2, -⟩ := h.heap t q hq
    exact congrFun (hadd.kernel hinv hb hv (by unfold kHeapStart at h1; omega)) _
  · rw [hadd.userPool, hre]
    rfl
  · by_cases hi : i = v / 2 ^ 22
    · rw [hi]
      exact iff_of_true (hadd.entry hb hv).2.1 (.inr rfl)
    · have hwo : s'.mem s.cr3 i = s.mem s.cr3 i := hadd.installs.dir i hi
      rw [hwo]
      exact ⟨.inl, fun e => e.resolve_right hi⟩

end Vm

end OperateSystem
