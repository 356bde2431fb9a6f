import OperateSystem.ForkVm
import OperateSystem.Spaces

/-!
# The child has the parent's pages

`copy_body_stack3` copies page by page through a buffer of the kernel, with the
child's directory active while a page is mapped. The two loops visit the set bits
of the parent's bitmap in order, each once.
-/

namespace OperateSystem

open Function List

namespace Vm

variable {τ : Type} {s s' : Vm τ} {child parent : τ} {buf fb v x : Nat}

/-! ## One page -/

structure Ready (s : Vm τ) (child parent : τ) (buf fb : Nat) : Prop where
  inv : s.Inv
  cr3 : s.cr3 = s.dirOf parent
  parentDir : s.dirOf parent ≠ bootDir
  childDir : s.dirOf child ≠ bootDir
  apart : s.dirOf child ≠ s.dirOf parent
  heap : kHeapStart ≤ buf ∧ buf < 0xffc00000
  aligned : buf % pgSize = 0
  walk : s.walk buf = some fb
  noDir : ∀ t, s.pgdir t ≠ some buf

theorem Ready.kernel (h : Ready s child parent buf fb) : 0xc0000000 ≤ buf := by
  have := h.heap.1
  unfold kHeapStart at this
  omega

theorem Ready.data (h : Ready s child parent buf fb) : s.Data fb :=
  h.inv.data_kernel h.heap.1 h.heap.2 h.aligned h.noDir h.walk

structure CopyStep (s s' : Vm τ) (child : τ) (fb v x : Nat) : Prop where
  inv : s'.Inv
  cr3 : s'.cr3 = s.cr3
  pgdir : s'.pgdir = s.pgdir
  userprog : s'.userprogVaddr = s.userprogVaddr
  kpte : ∀ t q, s.pgdir t = some q → s'.kpte q = s.kpte q
  other : ∀ d, s.Dir d → ∀ w < 0xffc00000, ¬ (d = s.dirOf child ∧ w / pgSize = v / pgSize) → s'.walkIn d w = s.walkIn d w
  copied : ∃ y, s'.walkIn (s.dirOf child) v = some y ∧ s'.mem y = s.mem x
  kept : ∀ z, s.Data z → z ≠ fb → s'.mem z = s.mem z
  userFree : s.userPool.poolBitmap.freeBits.length = s'.userPool.poolBitmap.freeBits.length + 1
  kernelFree : s.kernelPool.poolBitmap.freeBits.length = s'.kernelPool.poolBitmap.freeBits.length +
    if Present (s.mem (s.dirOf child) (v / 2 ^ 22)) then 0 else 1
  entries : ∀ i, Present (s'.mem (s.dirOf child) i) ↔ Present (s.mem (s.dirOf child) i) ∨ i = v / 2 ^ 22

theorem Ready.copyUserPage (h : Ready s child parent buf fb) (hv : v < 0xc0000000) (hx : s.walk v = some x)
    (hn : s.walkIn (s.dirOf child) v = none) (hu : s.userPool.poolBitmap.freeBits ≠ [])
    (hk : ¬ Present (s.mem (s.dirOf child) (v / 2 ^ 22)) → s.kernelPool.poolBitmap.freeBits ≠ []) :
    ∃ s', (∀ b, s.copyUserPage b child parent buf v = .ok s') ∧ CopyStep s s' child fb v x := by
  have hD := h.inv.dirOf child
  have hbuf : buf / pgSize ≠ v / pgSize := by
    have := h.kernel
    unfold pgSize
    omega
  -- the page goes to the buffer, and the directory of the child becomes active
  have h1 := h.inv.write_page h.data (s.mem x)
  have hr1 : s.copyPage buf v = .ok { s with mem := update s.mem fb (s.mem x) } := by
    unfold copyPage
    rw [frame_of_walk hx, ok_bind, frame_of_walk h.walk]
    rfl
  have hr2 := h1.inv.pageDirActivate child
  rw [h1.dirOf h.inv child] at hr2
  have h2 := h1.trans h.inv (h1.inv.switch ((h1.dir h.inv _).mpr hD))
  generalize hs2 : ({ s with mem := update s.mem fb (s.mem x), cr3 := s.dirOf child } : Vm τ) = s2 at hr2 h2
  have hcr2 : s2.cr3 = s.dirOf child := by rw [← hs2]
  have hmem2 : s2.mem = update s.mem fb (s.mem x) := by rw [← hs2]
  have he := h2.mem _ (.inl hD)
  -- the page is mapped there
  have hn2 : s2.walk v = none := by rw [← walkIn_cr3, hcr2, h2.walkIn h.inv hD (by omega), hn]
  obtain ⟨s3, y, hr3, hm⟩ := h2.inv.mapUser (hcr2 ▸ h.childDir) hv hn2 (h2.userPool ▸ hu)
    (by rw [hcr2, he, h2.kernelPool]; exact hk)
  have hdir3 : ∀ d, s3.Dir d ↔ s.Dir d := fun d => (hm.dir d).trans (h2.dir h.inv d)
  have hbuf3 : s3.walk buf = some fb := by
    rw [← walkIn_cr3, hm.cr3, hm.other _ h2.inv.active buf h.heap.2 fun e => hbuf e.2, walkIn_cr3, ← walkIn_cr3, hcr2,
      h2.walkIn h.inv hD h.heap.2, h.inv.walkIn_kernel hD h.kernel h.heap.2, h.walk]
  have hfb : s3.mem fb = s.mem x := by rw [hm.data fb (h2.data h.inv h.data), hmem2, update_self]
  -- the buffer goes to the new page, and the parent goes on
  have h4 := hm.inv.write_page hm.fresh (s3.mem fb)
  have hr4 : s3.copyPage v buf = .ok { s3 with mem := update s3.mem y (s3.mem fb) } := by
    unfold copyPage
    rw [frame_of_walk hbuf3, ok_bind, frame_of_walk hm.walk]
    rfl
  have hpa := (dirOf_congr hm.pgdir hm.kpte parent).trans (h2.dirOf h.inv parent)
  have hr5 := h4.inv.pageDirActivate parent
  rw [h4.dirOf hm.inv parent, hpa] at hr5
  have h5 := h4.trans hm.inv (h4.inv.switch ((h4.dir hm.inv _).mpr ((hdir3 _).mpr (h.inv.dirOf parent))))
  generalize hs5 : ({ s3 with mem := update s3.mem y (s3.mem fb), cr3 := s.dirOf parent } : Vm τ) = s5 at hr5 h5
  have hmem5 : s5.mem = update s3.mem y (s3.mem fb) := by rw [← hs5]
  have hcr5 : s5.cr3 = s.dirOf parent := by rw [← hs5]
  have hne : ∀ z, s.Data z → z ≠ y := fun z hz e => hm.unused ((h2.used y).mpr (e ▸ hz.used))
  refine ⟨s5, fun b => ?_, h5.inv, hcr5.trans h.cr3.symm, h5.pgdir.trans (hm.pgdir.trans h2.pgdir),
    h5.userprog.trans (hm.userprog.trans h2.userprog), fun t q hq => ?_, fun d hd w hw hdw => ?_, ⟨y, ?_, ?_⟩,
    fun z hz hzb => ?_, ?_, ?_, fun i => ?_⟩
  · unfold Vm.copyUserPage
    rw [hr1, ok_bind, hr2, ok_bind, hr3 b, ok_bind]
    show (s3.copyPage v buf >>= fun s => s.pageDirActivate parent) = _
    rw [hr4, ok_bind, hr5]
  · have hq2 : s2.pgdir t = some q := by rw [h2.pgdir, hq]
    have hq3 : s3.pgdir t = some q := by rw [hm.pgdir, hq2]
    rw [h5.kpte hm.inv hq3, hm.kpte t q hq2, h2.kpte h.inv hq]
  · rw [h5.walkIn hm.inv ((hdir3 d).mpr hd) hw, hm.other d ((h2.dir h.inv d).mpr hd) w hw (hcr2 ▸ hdw), h2.walkIn h.inv hd hw]
  · rw [h5.walkIn hm.inv ((hdir3 _).mpr hD) (by omega), ← hcr2, ← hm.cr3, walkIn_cr3, hm.walk]
  · rw [hmem5, update_self, hfb]
  · rw [hmem5, update_of_ne (hne z hz), hm.data z (h2.data h.inv hz), hmem2, update_of_ne hzb]
  · rw [← h2.userPool, hm.userFree, h5.userPool]
  · rw [← h2.kernelPool, hm.kernelFree, h5.kernelPool, hcr2, he]
  · rw [h5.mem _ (.inl ((hdir3 _).mpr hD)), ← hcr2, hm.entries i, hcr2, he]

/-! ## The loops -/

def bitPage (a : VirtualAddr) (i : Nat) : Nat := i * pgSize + a.vaddrStart

def usedBits (a : VirtualAddr) : List Nat := (List.range (8 * a.vaddrBitmap.btmpBytesLen)).filter fun i => a.vaddrBitmap.bit i

def tablesOf (a : VirtualAddr) (l : List Nat) : Finset Nat := (l.map fun i => bitPage a i / 2 ^ 22).toFinset

variable {b : Build} {a : VirtualAddr}

def copyList (b : Build) (child parent : τ) (buf : Nat) (a : VirtualAddr) (l : List Nat) (s : Vm τ) : Exec (Vm τ) :=
  l.foldlM (fun s i => s.copyUserPage b child parent buf (bitPage a i)) s

theorem copyList_append (l l' : List Nat) (s : Vm τ) :
    copyList b child parent buf a (l ++ l') s = copyList b child parent buf a l s >>= copyList b child parent buf a l' :=
  foldlM_append ..

theorem mask_bit (btmp : Bitmap) (idxByte : Nat) {k : Nat} (hk : k < 8) :
    bitMask k &&& btmp.bits idxByte ≠ 0 ↔ btmp.bit (8 * idxByte + k) = true := by
  rw [UInt8.and_comm, and_mask_ne_zero hk]
  unfold Bitmap.bit
  rw [show (8 * idxByte + k) / 8 = idxByte by omega, show (8 * idxByte + k) % 8 = k by omega]

theorem copyByte_eq (idxByte : Nat) : ∀ (n k : Nat) (s : Vm τ), k + n = 8 →
    Vm.copyByte b child parent buf a idxByte n k s =
      copyList b child parent buf a ((List.range' (8 * idxByte + k) n).filter fun i => a.vaddrBitmap.bit i) s
  | 0, _, _, _ => rfl
  | n + 1, k, s, hk => by
    have ih := fun s => copyByte_eq idxByte n (k + 1) s (by omega)
    unfold Vm.copyByte
    rw [List.range'_succ, filter_cons]
    by_cases hbit : a.vaddrBitmap.bit (8 * idxByte + k) = true
    · rw [if_pos ((mask_bit _ _ (by omega)).mpr hbit), if_pos hbit, Nat.mul_comm idxByte 8]
      exact bind_congr fun s => ih s
    · rw [if_neg (mt (mask_bit _ _ (by omega)).mp hbit), if_neg hbit]
      exact ih s

theorem copyBytes_eq : ∀ (n idxByte : Nat) (s : Vm τ), Vm.copyBytes b child parent buf a n idxByte s =
    copyList b child parent buf a ((List.range' (8 * idxByte) (8 * n)).filter fun i => a.vaddrBitmap.bit i) s
  | 0, _, _ => rfl
  | n + 1, idxByte, s => by
    have hs : List.range' (8 * idxByte) (8 * (n + 1)) = List.range' (8 * idxByte) 8 ++ List.range' (8 * (idxByte + 1)) (8 * n) := by
      rw [Nat.mul_succ, Nat.mul_succ, Nat.add_comm (8 * n) 8, ← List.range'_append_1]
    unfold Vm.copyBytes
    rw [hs, filter_append, copyList_append]
    have hb : (if a.vaddrBitmap.bits idxByte ≠ 0 then Vm.copyByte b child parent buf a idxByte 8 0 s else pure s) =
        copyList b child parent buf a ((List.range' (8 * idxByte) 8).filter fun i => a.vaddrBitmap.bit i) s := by
      split
      · exact copyByte_eq idxByte 8 0 s rfl
      next hz =>
      have hn : (List.range' (8 * idxByte) 8).filter (fun i => a.vaddrBitmap.bit i) = [] := by
        refine filter_eq_nil_iff.mpr fun i hi => ?_
        obtain ⟨h1, h2⟩ := mem_range'_1.mp hi
        unfold Bitmap.bit
        rw [show i / 8 = idxByte by omega, not_not.mp hz]
        simp
      rw [hn]
      rfl
    rw [hb]
    exact bind_congr fun s => copyBytes_eq n (idxByte + 1) s

theorem copyBodyStack3_eq (s : Vm τ) : s.copyBodyStack3 b child parent buf =
    copyList b child parent buf (s.userprogVaddr parent) (usedBits (s.userprogVaddr parent)) s := by
  unfold Vm.copyBodyStack3 usedBits
  rw [copyBytes_eq, range_eq_range']

/-! ## A run of the loops -/

structure Copied (s s' : Vm τ) (child parent : τ) (buf fb : Nat) (a : VirtualAddr) (l : List Nat) : Prop where
  ready : Ready s' child parent buf fb
  dirOf : ∀ t, s'.dirOf t = s.dirOf t
  walk : ∀ w < 0xffc00000, s'.walk w = s.walk w
  mem : ∀ w < 0xc0000000, ∀ x, s.walk w = some x → s'.mem x = s.mem x
  user : ∀ i ∈ l, bitPage a i < 0xc0000000
  new : ∀ i ∈ l, ∀ x, s.walk (bitPage a i) = some x → ∃ y, s'.walkIn (s'.dirOf child) (bitPage a i) = some y ∧ s'.mem y = s.mem x
  none : ∀ w < 0xc0000000, (∀ i ∈ l, w / pgSize ≠ bitPage a i / pgSize) → s'.walkIn (s'.dirOf child) w = none
  entries : ∀ i < 768, Present (s'.mem (s'.dirOf child) i) ↔ i ∈ tablesOf a l
  userFree : s.userPool.poolBitmap.freeBits.length = s'.userPool.poolBitmap.freeBits.length + l.length
  kernelFree : s.kernelPool.poolBitmap.freeBits.length = s'.kernelPool.poolBitmap.freeBits.length + (tablesOf a l).card

theorem Ready.step (h : Ready s child parent buf fb) (c : CopyStep s s' child fb v x) :
    Ready s' child parent buf fb ∧ (∀ t, s'.dirOf t = s.dirOf t) ∧ ∀ w < 0xffc00000, s'.walk w = s.walk w := by
  have hdir := dirOf_congr c.pgdir c.kpte
  have hwa : ∀ w < 0xffc00000, s'.walk w = s.walk w := by
    intro w hw
    rw [← walkIn_cr3, ← walkIn_cr3, c.cr3, c.other _ h.inv.active w hw fun e => h.apart (e.1.symm.trans h.cr3)]
  refine ⟨⟨c.inv, ?_, ?_, ?_, ?_, h.heap, h.aligned, ?_, ?_⟩, hdir, hwa⟩
  · rw [c.cr3, hdir, h.cr3]
  · rw [hdir]; exact h.parentDir
  · rw [hdir]; exact h.childDir
  · rw [hdir, hdir]; exact h.apart
  · rw [hwa buf h.heap.2, h.walk]
  · rw [c.pgdir]; exact h.noDir

theorem bitPage_inj (a : VirtualAddr) {i j : Nat} (h : bitPage a i / pgSize = bitPage a j / pgSize) : i = j := by
  unfold bitPage pgSize at h
  omega

theorem tablesOf_cons (a : VirtualAddr) (i : Nat) (l : List Nat) :
    tablesOf a (i :: l) = insert (bitPage a i / 2 ^ 22) (tablesOf a l) := by
  simp [tablesOf]

theorem Copied.step {l : List Nat} {i : Nat} (h : Copied s s' child parent buf fb a l) (hi : i ∉ l) (hv : bitPage a i < 0xc0000000)
    (hx : s.walk (bitPage a i) = some x) (hu : l.length < s.userPool.poolBitmap.freeBits.length)
    (hke : (tablesOf a (i :: l)).card ≤ s.kernelPool.poolBitmap.freeBits.length) :
    ∃ s1, (∀ b, s'.copyUserPage b child parent buf (bitPage a i) = .ok s1) ∧ Copied s s1 child parent buf fb a (i :: l) := by
  have hr := h.ready
  have hD := hr.inv.dirOf child
  have hx' : s'.walk (bitPage a i) = some x := by rw [h.walk _ (by omega), hx]
  have ha : ∀ j ∈ l, bitPage a i / pgSize ≠ bitPage a j / pgSize := fun j hj e => hi (bitPage_inj a e ▸ hj)
  have he := h.entries (bitPage a i / 2 ^ 22) (by omega)
  rw [tablesOf_cons] at hke
  obtain ⟨s1, hrun, c⟩ := hr.copyUserPage hv hx' (h.none _ hv ha)
    (fun e => by
      have := h.userFree
      rw [e, length_nil] at this
      omega)
    (fun hp e => by
      have := h.kernelFree
      rw [e, length_nil] at this
      rw [Finset.card_insert_of_notMem (mt he.mpr hp)] at hke
      omega)
  obtain ⟨hr1, hdir1, hw1⟩ := hr.step c
  -- a page of a user that is mapped before the step keeps its contents
  have hkp : ∀ d w z, s'.Dir d → d ≠ bootDir → w < 0xc0000000 → s'.walkIn d w = some z → s1.mem z = s'.mem z :=
    fun d w z hd hb hw hz => c.kept z (hr.inv.data_user hd hb hw hz) (hr.inv.user_ne_kernel hd hb hw hz hr.kernel hr.heap.2 hr.walk)
  have hmem : ∀ w < 0xc0000000, ∀ z, s.walk w = some z → s1.mem z = s.mem z := by
    intro w hw z hz
    have hz' : s'.walk w = some z := by rw [h.walk w (by omega), hz]
    rw [hkp _ w z hr.inv.active (hr.cr3 ▸ hr.parentDir) hw hz', h.mem w hw z hz]
  have ho : ∀ w < 0xc0000000, w / pgSize ≠ bitPage a i / pgSize →
      s1.walkIn (s1.dirOf child) w = s'.walkIn (s'.dirOf child) w := by
    intro w hw hne
    rw [hdir1, c.other _ hD w (by omega) fun e => hne e.2]
  refine ⟨s1, hrun, hr1, fun t => (hdir1 t).trans (h.dirOf t), fun w hw => (hw1 w hw).trans (h.walk w hw), hmem,
    forall_mem_cons.mpr ⟨hv, h.user⟩, fun j hj z hz => ?_, fun w hw hno => ?_, fun k hk => ?_, ?_, ?_⟩
  · rcases mem_cons.mp hj with rfl | hj
    · cases hx.symm.trans hz
      obtain ⟨y, hy, hc⟩ := c.copied
      exact ⟨y, by rw [hdir1, hy], hc.trans (h.mem _ hv x hx)⟩
    · have hw := h.user j hj
      obtain ⟨y, hy, hc⟩ := h.new j hj z hz
      exact ⟨y, (ho _ hw (ha j hj).symm).trans hy, (hkp _ _ y hD hr.childDir hw hy).trans hc⟩
  · rw [ho w hw (hno i (by simp)), h.none w hw fun j hj => hno j (by simp [hj])]
  · rw [hdir1, c.entries, h.entries k hk, tablesOf_cons, Finset.mem_insert, or_comm]
  · rw [h.userFree, c.userFree, length_cons]
    omega
  · rw [h.kernelFree, c.kernelFree, tablesOf_cons]
    split
    · next hp => rw [Finset.insert_eq_of_mem (he.mp hp)]; omega
    · next hp => rw [Finset.card_insert_of_notMem (mt he.mpr hp)]; omega

theorem Copied.run : ∀ (l : List Nat) {s' : Vm τ} {done : List Nat}, Copied s s' child parent buf fb a done → l.Nodup →
    (∀ i ∈ l, i ∉ done) → (∀ i ∈ l, bitPage a i < 0xc0000000 ∧ ∃ x, s.walk (bitPage a i) = some x) →
    done.length + l.length ≤ s.userPool.poolBitmap.freeBits.length →
    (tablesOf a (l.reverse ++ done)).card ≤ s.kernelPool.poolBitmap.freeBits.length →
    ∃ s1, (∀ b, copyList b child parent buf a l s' = .ok s1) ∧ Copied s s1 child parent buf fb a (l.reverse ++ done)
  | [], s', _, h, _, _, _, _, _ => ⟨s', fun _ => rfl, h⟩
  | i :: l, s', done, h, hnd, hdo, hpa, hu, hke => by
    obtain ⟨hi, hnd⟩ := nodup_cons.mp hnd
    obtain ⟨⟨hv, x, hx⟩, hpa⟩ := forall_mem_cons.mp hpa
    obtain ⟨hid, hdo⟩ := forall_mem_cons.mp hdo
    rw [length_cons] at hu
    rw [reverse_cons, append_assoc, singleton_append] at hke ⊢
    have hle : (tablesOf a (i :: done)).card ≤ (tablesOf a (l.reverse ++ i :: done)).card := by
      refine Finset.card_le_card fun k hk => ?_
      unfold tablesOf at *
      rw [map_append, toFinset_append]
      exact Finset.mem_union_right _ hk
    obtain ⟨s1, hrun, h1⟩ := h.step hid hv hx (by omega) (hle.trans hke)
    have hd1 : ∀ j ∈ l, j ∉ i :: done := by
      intro j hj hmem
      rcases mem_cons.mp hmem with rfl | hmem
      · exact hi hj
      · exact hdo j hj hmem
    obtain ⟨s2, hrun2, h2⟩ := Copied.run l h1 hnd hd1 hpa (by rw [length_cons]; omega) hke
    refine ⟨s2, fun b => ?_, h2⟩
    show (s'.copyUserPage b child parent buf (bitPage a i) >>= copyList b child parent buf a l) = _
    rw [hrun b, ok_bind, hrun2 b]

/-! ## The whole image -/

/-- `copy_process` of the running `parent`: the child has a directory of its own without a user
page. -/
structure Forks (s : Vm τ) (child parent : τ) (buf : Nat) : Prop where
  inv : s.Inv
  cr3 : s.cr3 = s.dirOf parent
  parentDir : ∃ q, s.pgdir parent = some q
  childDir : ∃ q, s.pgdir child = some q ∧ s.pgdir parent ≠ some q
  fresh : ∀ i < 768, ¬ Present (s.mem (s.dirOf child) i)
  heap : kHeapStart ≤ buf ∧ buf < 0xffc00000
  aligned : buf % pgSize = 0
  mapped : ∃ fb, s.walk buf = some fb
  noDir : ∀ t, s.pgdir t ≠ some buf
  user : ∀ i ∈ usedBits (s.userprogVaddr parent), bitPage (s.userprogVaddr parent) i < 0xc0000000
  bits : ∀ v < 0xc0000000, (∃ x, s.walk v = some x) ↔
    ∃ i ∈ usedBits (s.userprogVaddr parent), v / pgSize = bitPage (s.userprogVaddr parent) i / pgSize

theorem Inv.dirOf_ne_boot (h : s.Inv) {t : τ} {q : Nat} (ht : s.pgdir t = some q) : s.dirOf t ≠ bootDir := by
  obtain ⟨h1, h2, -⟩ := h.heap t q ht
  have hu : s.Used (frameOf (s.kpte q)) := h.used _ _ (.inr (kpage_entry h1 h2)) (h.mapped t q ht)
  have hdir : s.dirOf t = frameOf (s.kpte q) := by
    unfold Vm.dirOf
    rw [ht]
  have hlow := (hu.bounds h.shape).1
  rw [hdir]
  intro e
  rw [e] at hlow
  exact absurd hlow (by decide)

theorem Inv.dirOf_inj (h : s.Inv) {t t' : τ} {q q' : Nat} (ht : s.pgdir t = some q) (ht' : s.pgdir t' = some q')
    (e : s.dirOf t = s.dirOf t') : q = q' := by
  obtain ⟨h1, h2, ha⟩ := h.heap t q ht
  obtain ⟨h3, h4, ha'⟩ := h.heap t' q' ht'
  unfold Vm.dirOf at e
  rw [ht, ht'] at e
  obtain ⟨hf, hj⟩ := h.inj _ _ _ _ (.inr (kpage_entry h1 h2)) (.inr (kpage_entry h3 h4)) (h.mapped t q ht) (h.mapped t' q' ht') e
  unfold pgSize at ha ha' hj
  unfold kHeapStart at h1 h3
  omega

theorem Forks.ready (h : Forks s child parent buf) : ∃ fb, Ready s child parent buf fb := by
  obtain ⟨fb, hfb⟩ := h.mapped
  obtain ⟨q, hq⟩ := h.parentDir
  obtain ⟨q', hq', hne⟩ := h.childDir
  have ha : s.dirOf child ≠ s.dirOf parent := fun e => hne (h.inv.dirOf_inj hq' hq e ▸ hq)
  exact ⟨fb, h.inv, h.cr3, h.inv.dirOf_ne_boot hq, h.inv.dirOf_ne_boot hq', ha, h.heap, h.aligned, hfb, h.noDir⟩

theorem Forks.start (h : Forks s child parent buf) (hr : Ready s child parent buf fb) (a : VirtualAddr) :
    Copied s s child parent buf fb a [] := by
  refine ⟨hr, fun _ => rfl, fun _ _ => rfl, fun _ _ _ _ => rfl, by simp, by simp, fun w hw _ => ?_, fun i hi => ?_, rfl, rfl⟩
  · cases hw' : s.walkIn (s.dirOf child) w with
    | none => rfl
    | some x => exact absurd (walkIn_some hw').1 (h.fresh _ (by omega))
  · simpa [tablesOf] using h.fresh i hi

theorem walkIn_page (s : Vm τ) (d : Nat) {v w : Nat} (h : v / pgSize = w / pgSize) : s.walkIn d v = s.walkIn d w :=
  walk_page h

end Vm

open Vm

/-- **Fork copies the whole user image.** With enough frames the child has the user pages of the
parent, each in a frame of its own and with the same words, and the parent has the mappings and
the contents that it had. -/
theorem Vm.copy_body_stack3_copies {τ : Type} {s : Vm τ} {child parent : τ} {buf : Nat} (h : Forks s child parent buf)
    (huser : (usedBits (s.userprogVaddr parent)).length ≤ s.userPool.poolBitmap.freeBits.length)
    (hkernel : (tablesOf (s.userprogVaddr parent) (usedBits (s.userprogVaddr parent))).card ≤
      s.kernelPool.poolBitmap.freeBits.length) :
    ∃ s', (∀ b, s.copyBodyStack3 b child parent buf = .ok s') ∧
      (∀ v < 0xc0000000, s.walk v = none → s'.walkIn (s'.dirOf child) v = none) ∧
      (∀ v < 0xc0000000, ∀ x, s.walk v = some x → ∃ y, s'.walkIn (s'.dirOf child) v = some y ∧
        (∀ w < 0xffc00000, s.walk w ≠ some y) ∧ s'.mem y = s.mem x) ∧
      s'.cr3 = s.cr3 ∧ (∀ w < 0xffc00000, s'.walk w = s.walk w) ∧
      ∀ v < 0xc0000000, ∀ x, s.walk v = some x → s'.mem x = s.mem x := by
  obtain ⟨fb, hr⟩ := h.ready
  have hpa : ∀ i ∈ usedBits (s.userprogVaddr parent), bitPage (s.userprogVaddr parent) i < 0xc0000000 ∧
      ∃ x, s.walk (bitPage (s.userprogVaddr parent) i) = some x :=
    fun i hi => ⟨h.user i hi, (h.bits _ (h.user i hi)).mpr ⟨i, hi, rfl⟩⟩
  have hn : (usedBits (s.userprogVaddr parent)).Nodup := nodup_range.filter _
  have hrev : tablesOf (s.userprogVaddr parent) ((usedBits (s.userprogVaddr parent)).reverse ++ []) =
      tablesOf (s.userprogVaddr parent) (usedBits (s.userprogVaddr parent)) := by
    simp [tablesOf]
  obtain ⟨s', hrun, hc⟩ := (h.start hr _).run _ hn (by simp) hpa (by simpa using huser) (hrev ▸ hkernel)
  have hmem : ∀ i, i ∈ (usedBits (s.userprogVaddr parent)).reverse ++ [] ↔ i ∈ usedBits (s.userprogVaddr parent) := by simp
  refine ⟨s', fun b => (copyBodyStack3_eq s).trans (hrun b), fun v hv hno => ?_, fun v hv x hx => ?_, ?_, hc.walk, hc.mem⟩
  · refine hc.none v hv fun i hi e => ?_
    obtain ⟨x, hx⟩ := (h.bits v hv).mpr ⟨i, (hmem i).mp hi, e⟩
    rw [hno] at hx
    cases hx
  · obtain ⟨i, hi, e⟩ := (h.bits v hv).mp ⟨x, hx⟩
    obtain ⟨y, hy, hco⟩ := hc.new i ((hmem i).mpr hi) x ((walk_page e).symm.trans hx)
    rw [← walkIn_page s' _ e] at hy
    refine ⟨y, hy, fun w hw hwy => ?_, hco⟩
    have hD := hc.ready.inv.dirOf child
    rw [← hc.walk w hw] at hwy
    by_cases hlow : w < 0xc0000000
    · have := hc.ready.inv.user_inj hD hc.ready.childDir hc.ready.inv.active (hc.ready.cr3 ▸ hc.ready.parentDir) hv hlow hy hwy
      exact hc.ready.apart (this.1.trans hc.ready.cr3)
    · exact hc.ready.inv.user_ne_kernel hD hc.ready.childDir hv hy (by omega) hw hwy rfl
  · rw [hc.ready.cr3, h.cr3, hc.dirOf]

def firstPage : VirtualAddr := ⟨.ofBytes userBitmapLen fun i => if i = 0 then 1 else 0, userVaddrStart⟩

theorem usedBits_firstPage : usedBits firstPage = [0] := by
  have hl : ∀ i, firstPage.vaddrBitmap.bit (i + 1) = false := by
    intro i
    show (if (i + 1) / 8 = 0 then (1 : UInt8) else 0).toBitVec.getLsbD ((i + 1) % 8) = false
    split
    · next h =>
      have : i < 7 := by omega
      interval_cases i <;> rfl
    · simp
  have hlen : 8 * firstPage.vaddrBitmap.btmpBytesLen = 753591 + 1 := by decide
  unfold usedBits
  rw [hlen, range_succ_eq_map, filter_cons, if_pos (by decide), filter_map]
  have hn : (List.range 753591).filter ((fun i => firstPage.vaddrBitmap.bit i) ∘ Nat.succ) = [] :=
    filter_eq_nil_iff.mpr fun i _ => by simp [hl i]
  rw [hn]
  rfl

namespace Vm

theorem Inv.after {s : Vm Bool} {op : VmOp Bool} (h : s.Inv) (hf : s.Fits op) : (s.after op).Inv := by
  unfold Vm.after
  cases hr : s.run op with
  | error e => exact h
  | ok s' => exact h.run hf hr

end Vm

def twoProcesses : Vm Bool :=
  { ((((firstVm.after (.createPageDir false true firstPage)).after (.createPageDir false false firstPage)).after
      (.mallocPage false .pfKernel 1)).after (.pageDirActivate true)).after (.getAPageWithoutOpvaddrbitmap .pfUser 0x8048000) with
    userprogVaddr := fun _ => firstPage }

theorem twoProcesses_inv : twoProcesses.Inv := by
  have h1 : (firstVm.after (.createPageDir false true firstPage)).Inv := firstVm_booted.inv.after rfl
  have hn : (firstVm.after (.createPageDir false true firstPage)).pgdir false = none := by decide +kernel
  have h2 : Inv (Vm.after _ (.createPageDir false false firstPage)) := h1.after hn
  have h3 : Inv (Vm.after _ (.mallocPage false .pfKernel 1)) := h2.after trivial
  have h4 : Inv (Vm.after _ (.pageDirActivate true)) := h3.after trivial
  have h5 : Inv (Vm.after _ (.getAPageWithoutOpvaddrbitmap .pfUser 0x8048000)) :=
    h4.after (show 0x8048000 < 0xffc00000 by decide)
  exact h5.vaddr h5.shape.5 rfl

theorem twoProcesses_walk {v : Nat} (hv : v < 0xc0000000) : (∃ x, twoProcesses.walk v = some x) ↔ v / pgSize = 0x8048 := by
  constructor
  · rintro ⟨x, hx⟩
    rw [← walkIn_cr3] at hx
    obtain ⟨hp, hq, -⟩ := walkIn_some hx
    have hdir : ∀ i < 768, Present (twoProcesses.mem twoProcesses.cr3 i) → i = 32 := by decide +kernel
    have ht : ∀ j < 1024, Present (twoProcesses.mem (frameOf (twoProcesses.mem twoProcesses.cr3 32)) j) → j = 0x48 := by
      decide +kernel
    have hi := hdir _ (by omega) hp
    rw [hi] at hq
    have hj := ht _ (Nat.mod_lt _ (by decide)) hq
    unfold pgSize at *
    omega
  · intro h
    have hf : twoProcesses.walk 0x8048000 = some 0x220 := by decide +kernel
    exact ⟨0x220, (walk_page (h.trans (by decide))).trans hf⟩

theorem twoProcesses_forks : Forks twoProcesses false true 0xc0102000 where
  inv := twoProcesses_inv
  cr3 := by decide +kernel
  parentDir := ⟨0xc0100000, by decide +kernel⟩
  childDir := ⟨0xc0101000, by decide +kernel, by decide +kernel⟩
  fresh := by decide +kernel
  heap := by decide
  aligned := by decide
  mapped := ⟨0x202, by decide +kernel⟩
  noDir := by decide +kernel
  user i hi := by
    have hi : i ∈ usedBits firstPage := hi
    rw [usedBits_firstPage, mem_singleton] at hi
    subst hi
    decide
  bits v hv := by
    rw [twoProcesses_walk hv]
    show _ ↔ ∃ i ∈ usedBits firstPage, v / pgSize = bitPage firstPage i / pgSize
    rw [usedBits_firstPage]
    simp only [mem_singleton, exists_eq_left]
    exact Iff.rfl

theorem copy_body_stack3_first_page : ∃ s', (∀ b, twoProcesses.copyBodyStack3 b false true 0xc0102000 = .ok s') ∧
    ∃ y, s'.walkIn (s'.dirOf false) 0x8048000 = some y ∧ y ≠ 0x220 ∧ s'.mem y = twoProcesses.mem 0x220 := by
  have hx : twoProcesses.walk 0x8048000 = some 0x220 := by decide +kernel
  have hu : [0].length ≤ twoProcesses.userPool.poolBitmap.freeBits.length := by decide +kernel
  have hk : (tablesOf firstPage [0]).card ≤ twoProcesses.kernelPool.poolBitmap.freeBits.length := by decide +kernel
  rw [← usedBits_firstPage] at hu hk
  obtain ⟨s', hrun, -, hpa, -⟩ := Vm.copy_body_stack3_copies twoProcesses_forks hu hk
  obtain ⟨y, hy, hne, hmem⟩ := hpa 0x8048000 (by decide) 0x220 hx
  exact ⟨s', hrun, y, hy, fun e => hne 0x8048000 (by decide) (e ▸ hx), hmem⟩

end OperateSystem
