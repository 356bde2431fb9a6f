import OperateSystem.Descriptors

/-!
# When a descriptor keeps its file

A slot of `file_table` is cleared by the first process that closes it, whoever
else has a descriptor for it. Descriptors keep their inode exactly as long as no
call closes a slot that another process uses.
-/

namespace OperateSystem

open Function

namespace FdState

variable {s s' : FdState} {p : Nat} {g : Fin 32} {a : Nat} {i : MemInode}
variable {f : File} {k : Fin 32} {d fd : Fin 8} {ret : Option (Fin 8)} {P : Proc}

def slots (s : FdState) (a : Nat) : Finset (Fin 32) := Finset.univ.filter fun g => (s.fileTable g).fdInode = some a

def refs (s : FdState) (a : Nat) : Nat := (s.slots a).card

structure Inv (s : FdState) : Prop where
  kept : s.Kept
  counted : ∀ g a, (s.fileTable g).fdInode = some a → ∃ i, s.inodes a = some i ∧ s.refs a ≤ i.iOpenCnts
  regular : ∀ g, (s.fileTable g).fdFlag ≠ pipeFlag
  inj : ∀ p P d d' g, s.procs p = some P → 3 ≤ d.val → 3 ≤ d'.val → P.fdTable d = some g → P.fdTable d' = some g →
    d = d'

/-! ## Slots and counts -/

theorem mem_slots : g ∈ s.slots a ↔ (s.fileTable g).fdInode = some a := by simp [slots]

@[simp] theorem setFile_self (s : FdState) (g : Fin 32) (f : File) : (s.setFile g f).fileTable g = f :=
  update_self ..

theorem setFile_of_ne (s : FdState) (f : File) (h : k ≠ g) :
    (s.setFile g f).fileTable k = s.fileTable k := update_of_ne h ..

theorem refs_setFile_le (s : FdState) (g : Fin 32) (f : File) (x : Nat) :
    (s.setFile g f).refs x ≤ s.refs x + if f.fdInode = some x then 1 else 0 := by
  have hsub : (s.setFile g f).slots x ⊆ s.slots x ∪ (if f.fdInode = some x then {g} else ∅) := by
    intro k hk
    rw [mem_slots] at hk
    by_cases hkg : k = g
    · subst hkg
      rw [setFile_self] at hk
      simp [hk]
    · rw [setFile_of_ne s f hkg] at hk
      exact Finset.mem_union_left _ (mem_slots.mpr hk)
  refine (Finset.card_le_card hsub).trans ((Finset.card_union_le _ _).trans (Nat.add_le_add_left ?_ _))
  split <;> simp

theorem refs_clear_lt (h : (s.fileTable g).fdInode = some a) (hf : f.fdInode = none) :
    (s.setFile g f).refs a < s.refs a := by
  refine Finset.card_lt_card ((Finset.ssubset_iff_of_subset fun k hk => ?_).mpr ⟨g, mem_slots.mpr h, ?_⟩)
  · rw [mem_slots] at hk ⊢
    by_cases hkg : k = g
    · subst hkg; exact h
    · rwa [setFile_of_ne s f hkg] at hk
  · rw [mem_slots, setFile_self, hf]
    exact nofun

theorem Inv.refs_le (h : s.Inv) (hi : s.inodes a = some i) : s.refs a ≤ i.iOpenCnts := by
  by_cases hz : s.refs a = 0
  · omega
  · obtain ⟨g, hg⟩ := Finset.card_pos.mp (Nat.pos_of_ne_zero hz)
    obtain ⟨i', hi', hle⟩ := h.counted g a (mem_slots.mp hg)
    rw [hi] at hi'
    cases hi'
    exact hle

theorem target_eq_some {x : Nat × UInt32} :
    s.target g = some x ↔ (s.fileTable g).fdInode = some x.1 ∧ ∃ i, s.inodes x.1 = some i ∧ i.iNo = x.2 := by
  obtain ⟨a, n⟩ := x
  simp only [target, Option.bind_eq_some_iff, Option.map_eq_some_iff, Prod.mk.injEq]
  constructor
  · rintro ⟨a, ha, i, hi, rfl, rfl⟩; exact ⟨ha, i, hi, rfl⟩
  · rintro ⟨ha, i, hi, rfl⟩; exact ⟨a, ha, i, hi, rfl, rfl⟩

theorem Kept.of_targets (h : s.Kept) (hp : s'.procs = s.procs)
    (ht : ∀ k x, s.target k = some x → s'.target k = some x) : s'.Kept := by
  intro q Q d k hq hd hk
  rw [hp] at hq
  obtain ⟨x, hx, ho⟩ := h q Q d k hq hd hk
  exact ⟨x, ht k x hx, ho⟩

/-! ## Opening -/

theorem Inv.bump (h : s.Inv) {i' : MemInode} (hi : s.inodes a = some i) (hno : i'.iNo = i.iNo)
    (hle : i.iOpenCnts ≤ i'.iOpenCnts) : (s.setInode a (some i')).Inv := by
  refine ⟨h.kept.of_targets rfl fun k x hx => ?_, fun k x hk => ?_, h.regular, h.inj⟩
  · obtain ⟨h1, j, hj, hn⟩ := target_eq_some.mp hx
    refine target_eq_some.mpr ⟨h1, ?_⟩
    by_cases hxa : x.1 = a
    · rw [hxa] at hj ⊢
      rw [hi] at hj
      cases hj
      exact ⟨i', by simp [setInode], hno.trans hn⟩
    · exact ⟨j, by simpa [setInode, update_of_ne hxa] using hj, hn⟩
  · obtain ⟨j, hj, hc⟩ := h.counted k x hk
    by_cases hxa : x = a
    · subst hxa
      rw [hi] at hj
      cases hj
      exact ⟨i', by simp [setInode], hc.trans hle⟩
    · exact ⟨j, by simpa [setInode, update_of_ne hxa] using hj, hc⟩

theorem Inv.push (h : s.Inv) (hf : s.inodes a = none) : (s.pushInode a i).Inv := by
  have hne : ∀ k x, (s.fileTable k).fdInode = some x → x ≠ a := fun k x hk hxa => by
    obtain ⟨j, hj, _⟩ := h.counted k x hk
    rw [hxa, hf] at hj; cases hj
  refine ⟨h.kept.of_targets rfl fun k x hx => ?_, fun k x hk => ?_, h.regular, h.inj⟩
  · obtain ⟨h1, j, hj, hn⟩ := target_eq_some.mp hx
    refine target_eq_some.mpr ⟨h1, j, ?_, hn⟩
    simpa [pushInode, setInode, update_of_ne (hne k _ h1)] using hj
  · obtain ⟨j, hj, hc⟩ := h.counted k x hk
    exact ⟨j, by simpa [pushInode, setInode, update_of_ne (hne k x hk)] using hj, hc⟩

theorem Inv.free_unused (h : s.Inv) (hg : (s.fileTable g).fdInode = none) (hp : s.procs p = some P)
    (hd : 3 ≤ d.val) : P.fdTable d ≠ some g := fun hk => by
  obtain ⟨x, hx, _⟩ := h.kept p P d g hp hd hk
  rw [(target_eq_some.mp hx).1] at hg
  cases hg

theorem Inv.take (h : s.Inv) (hg : (s.fileTable g).fdInode = none) (hf : f.fdInode = some a)
    (hfl : f.fdFlag ≠ pipeFlag) (hi : s.inodes a = some i) (hr : s.refs a < i.iOpenCnts) :
    (s.setFile g f).Inv := by
  have ho : ∀ k, k ≠ g → (s.setFile g f).fileTable k = s.fileTable k := fun k hk => setFile_of_ne s f hk
  refine ⟨h.kept.of_targets rfl fun k x hx => ?_, fun k x hk => ?_, fun k => ?_, h.inj⟩
  · obtain ⟨h1, hj⟩ := target_eq_some.mp hx
    have hkg : k ≠ g := fun e => by rw [e, hg] at h1; cases h1
    exact target_eq_some.mpr ⟨by rw [ho k hkg]; exact h1, hj⟩
  · have hle := refs_setFile_le s g f x
    rw [hf] at hle
    by_cases hxa : x = a
    · subst hxa
      rw [if_pos rfl] at hle
      exact ⟨i, hi, by omega⟩
    · rw [if_neg (by simpa using Ne.symm hxa)] at hle
      have hkg : k ≠ g := fun e => by rw [e, setFile_self, hf] at hk; exact hxa (Option.some.inj hk).symm
      rw [ho k hkg] at hk
      obtain ⟨j, hj, hc⟩ := h.counted k x hk
      exact ⟨j, hj, by omega⟩
  · by_cases hkg : k = g
    · rw [hkg, setFile_self]; exact hfl
    · rw [ho k hkg]; exact h.regular k

theorem Inv.reset (h : s.Inv) (hg : (s.fileTable g).fdInode = none) : (s.setFile g ⟨0, 0, none⟩).Inv := by
  have ho : ∀ k x, (s.fileTable k).fdInode = some x → (s.setFile g ⟨0, 0, none⟩).fileTable k = s.fileTable k := by
    intro k x hk
    refine setFile_of_ne s _ fun e => ?_
    rw [e, hg] at hk; cases hk
  refine ⟨h.kept.of_targets rfl fun k x hx => ?_, fun k x hk => ?_, fun k => ?_, h.inj⟩
  · obtain ⟨h1, hj⟩ := target_eq_some.mp hx
    exact target_eq_some.mpr ⟨by rw [ho k _ h1]; exact h1, hj⟩
  · by_cases hkg : k = g
    · rw [hkg, setFile_self] at hk; cases hk
    · rw [setFile_of_ne s _ hkg] at hk
      obtain ⟨j, hj, hc⟩ := h.counted k x hk
      exact ⟨j, hj, (refs_setFile_le s g _ x).trans (by simpa using hc)⟩
  · by_cases hkg : k = g
    · rw [hkg, setFile_self]; decide
    · rw [setFile_of_ne s _ hkg]; exact h.regular k

theorem pcbFdInstall_inv (h : s.Inv) {x : Nat × UInt32} (hx : s.target g = some x)
    (hu : ∀ q Q d, s.procs q = some Q → 3 ≤ d.val → Q.fdTable d ≠ some g)
    (hret : s.pcbFdInstall p g = .ok (s', ret)) : s'.Inv := by
  simp only [pcbFdInstall, bind_ok, deref_ok] at hret
  obtain ⟨P, hP, hret⟩ := hret
  split at hret
  · cases hret; exact h
  rename_i d hf
  cases hret
  have hd : 3 ≤ d.val ∧ P.fdTable d = none := by
    have := List.find?_some hf
    simpa using this
  refine ⟨?_, h.counted, h.regular, ?_⟩
  · intro q Q e k hq he hk
    simp only [setProc] at hq
    by_cases hqp : q = p
    · subst hqp
      rw [update_self] at hq
      cases hq
      simp only at hk ⊢
      by_cases hed : e = d
      · subst hed
        rw [update_self] at hk ⊢
        cases hk
        exact ⟨x, hx, hx⟩
      · rw [update_of_ne hed] at hk ⊢
        exact h.kept q P e k hP he hk
    · rw [update_of_ne hqp] at hq
      exact h.kept q Q e k hq he hk
  · intro q Q e e' k hq he he' hk hk'
    simp only [setProc] at hq
    by_cases hqp : q = p
    · subst hqp
      rw [update_self] at hq
      cases hq
      simp only at hk hk'
      by_cases hed : e = d <;> by_cases hed' : e' = d
      · rw [hed, hed']
      · subst hed
        rw [update_self] at hk
        rw [update_of_ne hed'] at hk'
        cases hk
        exact absurd hk' (hu q P e' hP he')
      · subst hed'
        rw [update_self] at hk'
        rw [update_of_ne hed] at hk
        cases hk'
        exact absurd hk (hu q P e hP he)
      · rw [update_of_ne hed] at hk
        rw [update_of_ne hed'] at hk'
        exact h.inj q P e e' k hP he he' hk hk'
    · rw [update_of_ne hqp] at hq
      exact h.inj q Q e e' k hq he he' hk hk'

theorem getFree_spec (h : s.getFreeSlotInGlobal = some g) : (s.fileTable g).fdInode = none := by
  have := List.find?_some h
  simp only [Bool.and_eq_true, Option.isNone_iff_eq_none] at this
  exact this.2

theorem inodeOpen_inv (no : UInt32) (h : s.Inv) (hf : s.inodes a = none) :
    (s.inodeOpen no a).1.Inv ∧ (s.inodeOpen no a).1.fileTable = s.fileTable ∧ (s.inodeOpen no a).1.procs = s.procs ∧
      ∃ i, (s.inodeOpen no a).1.inodes (s.inodeOpen no a).2 = some i ∧
        s.refs (s.inodeOpen no a).2 < i.iOpenCnts := by
  unfold inodeOpen
  split
  · rename_i x hx
    have hany := List.find?_some hx
    obtain ⟨i, hi⟩ : ∃ i, s.inodes x = some i := by
      cases hi : s.inodes x with
      | none => rw [hi] at hany; cases hany
      | some i => exact ⟨i, rfl⟩
    have hle := h.refs_le hi
    refine ⟨?_, rfl, rfl, { i with iOpenCnts := i.iOpenCnts + 1 }, ?_, Nat.lt_succ_of_le hle⟩
    · rw [hi]
      exact h.bump hi rfl (Nat.le_succ _)
    · simp [setInode, hi]
  · refine ⟨h.push hf, rfl, rfl, ⟨no, 1, false⟩, by simp [pushInode, setInode], ?_⟩
    by_contra hc
    obtain ⟨k, hk⟩ := Finset.card_pos.mp (show 0 < s.refs a by simp only at hc; omega)
    obtain ⟨j, hj, _⟩ := h.counted k a (mem_slots.mp hk)
    rw [hf] at hj
    cases hj

theorem flag_ne_pipe (flag : UInt8) : flag.toUInt32 ≠ pipeFlag := by
  intro h
  have := congrArg UInt32.toNat h
  rw [UInt8.toNat_toUInt32] at this
  have hlt := flag.toNat_lt
  simp only [pipeFlag] at this
  have h16 : (0xffff : UInt32).toNat = 65535 := rfl
  omega

theorem fileOpen_inv {no : UInt32} {flag : UInt8} (h : s.Inv) (hf : s.inodes a = none)
    (hret : s.fileOpen p no flag a = .ok (s', ret)) : s'.Inv := by
  unfold fileOpen at hret
  split at hret
  · cases hret; exact h
  rename_i g hg
  have hn := getFree_spec hg
  obtain ⟨h1, hft, hpr, i, hi, hr⟩ := inodeOpen_inv no h hf
  generalize hs1 : s.inodeOpen no a = r at *
  obtain ⟨s1, x⟩ := r
  simp only at *
  have hre : s1.refs x = s.refs x := by simp only [refs, slots, hft]
  have h2 : (s1.setFile g ⟨0, flag.toUInt32, some x⟩).Inv :=
    h1.take (by rw [hft]; exact hn) rfl (flag_ne_pipe flag) hi (by rw [hre]; exact hr)
  have hu : ∀ q Q d, s1.procs q = some Q → 3 ≤ d.val → Q.fdTable d ≠ some g := fun q Q d hq hd => by
    rw [hpr] at hq; exact h.free_unused hn hq hd
  split at hret
  · simp only [bind_ok, deref_ok] at hret
    obtain ⟨j, hj, hret⟩ := hret
    split at hret
    · cases hret; exact h2
    · have h3 : ((s1.setFile g ⟨0, flag.toUInt32, some x⟩).setInode x (some { j with writeDeny := true })).Inv :=
        h2.bump hj rfl le_rfl
      refine pcbFdInstall_inv h3 (x := (x, j.iNo)) ?_ hu hret
      exact target_eq_some.mpr ⟨by simp [setInode], { j with writeDeny := true }, by simp [setInode], rfl⟩
  · refine pcbFdInstall_inv h2 (x := (x, i.iNo)) ?_ hu hret
    exact target_eq_some.mpr ⟨by simp, _, hi, rfl⟩

theorem fileCreate_inv {no : UInt32} {flag : UInt8} {mem dirOk : Bool} (h : s.Inv)
    (hf : s.inodes a = none) (hret : s.fileCreate p no flag a mem dirOk = .ok (s', ret)) : s'.Inv := by
  unfold fileCreate at hret
  split at hret
  · cases hret; exact h
  split at hret
  · cases hret; exact h
  rename_i g hg
  have hn := getFree_spec hg
  split at hret
  · -- the slot and the inode are set in either order
    have h1 : (s.pushInode a ⟨no, 1, false⟩).Inv := h.push hf
    have hz : s.refs a = 0 := by
      by_contra hc
      obtain ⟨k, hk⟩ := Finset.card_pos.mp (Nat.pos_of_ne_zero hc)
      obtain ⟨j, hj, _⟩ := h.counted k a (mem_slots.mp hk)
      rw [hf] at hj
      cases hj
    have h2 := h1.take (g := g) (f := ⟨0, flag.toUInt32, some a⟩) hn rfl (flag_ne_pipe flag)
      (show (s.pushInode a ⟨no, 1, false⟩).inodes a = some ⟨no, 1, false⟩ by simp [pushInode, setInode])
      (by show s.refs a < 1; omega)
    refine pcbFdInstall_inv h2 (x := (a, no)) ?_ (fun q Q d hq hd => h.free_unused hn hq hd) hret
    exact target_eq_some.mpr ⟨by simp, ⟨no, 1, false⟩, by simp [setFile, pushInode, setInode], rfl⟩
  · cases hret
    exact h.reset hn

theorem sysOpen_inv {found : Searched} {flags : UInt8} {mem dirOk : Bool} (h : s.Inv)
    (hf : s.inodes a = none) (hret : s.sysOpen p found flags a mem dirOk = .ok (s', ret)) : s'.Inv := by
  simp only [sysOpen, bind_ok] at hret
  obtain ⟨_, _, hret⟩ := hret
  cases found with
  | refused => cases hret; exact h
  | missing newNo =>
    simp only at hret
    split at hret
    · cases hret; exact h
    · exact fileCreate_inv h hf hret
  | regular no =>
    simp only at hret
    split at hret
    · cases hret; exact h
    · exact fileOpen_inv h hf hret

/-! ## Forking -/

theorem isPipe_false (h : ∀ g, (s.fileTable g).fdFlag ≠ pipeFlag) (g : Fin 32) : s.isPipe g = false :=
  decide_eq_false (h g)

theorem updateInodeOpenCnts_inv (P : Proc) : ∀ (ds : List (Fin 8)) (s s' : FdState), s.Inv →
    updateInodeOpenCnts P ds s = .ok s' → s'.Inv ∧ s'.procs = s.procs
  | [], s, s', h, hret => by cases hret; exact ⟨h, rfl⟩
  | d :: ds, s, s', h, hret => by
    unfold updateInodeOpenCnts at hret
    split at hret
    · exact updateInodeOpenCnts_inv P ds s s' h hret
    · simp only [isPipe_false h.regular, Bool.false_eq_true, ite_false, bind_ok, deref_ok] at hret
      obtain ⟨a, _, i, hi, hret⟩ := hret
      have h1 : (s.setInode a (some { i with iOpenCnts := i.iOpenCnts + 1 })).Inv := h.bump hi rfl (Nat.le_succ _)
      have ih := updateInodeOpenCnts_inv P ds _ s' h1 hret
      exact ih

theorem sysFork_inv {child : Nat} (h : s.Inv) (hret : s.sysFork p child = .ok s') : s'.Inv := by
  simp only [sysFork, bind_ok, deref_ok, pure_ok, Except.ok.injEq] at hret
  obtain ⟨P, hP, s1, hs1, rfl⟩ := hret
  obtain ⟨h1, hpr⟩ := updateInodeOpenCnts_inv P fds s s1 h hs1
  rw [← hpr] at hP
  -- a process of the new state is an old one or a copy of the parent
  have hold : ∀ q Q, (s1.setProc child (some P)).procs q = some Q → ∃ q', s1.procs q' = some Q := by
    intro q Q hq
    by_cases hqc : q = child
    · subst hqc
      simp only [setProc, update_self, Option.some.injEq] at hq
      exact ⟨p, hq ▸ hP⟩
    · simp only [setProc, update_of_ne hqc] at hq
      exact ⟨q, hq⟩
  refine ⟨fun q Q d g hq hd hk => ?_, h1.counted, h1.regular, fun q Q d d' g hq => ?_⟩
  · obtain ⟨q', hq'⟩ := hold q Q hq
    exact h1.kept q' Q d g hq' hd hk
  · obtain ⟨q', hq'⟩ := hold q Q hq
    exact h1.inj q' Q d d' g hq'

/-! ## Closing -/

structure Closed (s s' : FdState) (p : Nat) (fd : Fin 8) (P : Proc) (g : Fin 32) (a : Nat) (i : MemInode) : Prop where
  proc : s.procs p = some P
  slot : P.fdTable fd = some g
  inode : (s.fileTable g).fdInode = some a
  cached : s.inodes a = some i
  procs : s'.procs = Function.update s.procs p
    (some ⟨Function.update P.fdTable fd none, Function.update P.opened fd none⟩)
  files : s'.fileTable = (s.setFile g ⟨(s.fileTable g).fdPos, (s.fileTable g).fdFlag, none⟩).fileTable
  inodes : s'.inodes = (s.inodeClose a { i with writeDeny := false }).inodes

theorem inodeClose_fileTable (s : FdState) (a : Nat) (i : MemInode) : (s.inodeClose a i).fileTable = s.fileTable := by
  unfold inodeClose
  split <;> rfl

theorem inodeClose_procs (s : FdState) (a : Nat) (i : MemInode) : (s.inodeClose a i).procs = s.procs := by
  unfold inodeClose
  split <;> rfl

theorem inodeClose_of_ne (s : FdState) (i : MemInode) {x : Nat} (h : x ≠ a) :
    (s.inodeClose a i).inodes x = s.inodes x := by
  unfold inodeClose
  split <;> simp [setInode, h]

theorem inodeClose_self (s : FdState) (a : Nat) (i : MemInode) (h : 1 < i.iOpenCnts) :
    (s.inodeClose a i).inodes a = some { i with iOpenCnts := i.iOpenCnts - 1 } := by
  unfold inodeClose
  rw [if_neg (by omega)]
  simp [setInode]

theorem sysClose_cases (hreg : ∀ g, (s.fileTable g).fdFlag ≠ pipeFlag) (hret : s.sysClose p fd = .ok s') :
    ∃ P g a i, Closed s s' p fd P g a i := by
  simp only [sysClose, bind_ok, deref_ok] at hret
  obtain ⟨P, hP, hret⟩ := hret
  split at hret
  · simp at hret
  rename_i g hg
  simp only [closeSlot, isPipe_false hreg, Bool.false_eq_true, ite_false, fileClose, bind_ok, deref_ok, pure_ok,
    Except.ok.injEq] at hret
  obtain ⟨_, ⟨a, ha, i, hi, rfl⟩, rfl⟩ := hret
  refine ⟨P, g, a, i, hP, hg, ha, hi, ?_, ?_, rfl⟩
  · simp only [setProc, setFile, inodeClose_procs]
  · simp only [setProc, setFile, inodeClose_fileTable]

theorem Inv.close_inode (h : s.Inv) (ha : (s.fileTable g).fdInode = some a) (hi : s.inodes a = some i)
    (hf : f.fdInode = none) {x : Nat} (hk : k ≠ g) (hx : (s.fileTable k).fdInode = some x) :
    ∃ j j', s.inodes x = some j ∧ (s.inodeClose a { i with writeDeny := false }).inodes x = some j' ∧ j'.iNo = j.iNo ∧
      (s.setFile g f).refs x ≤ j'.iOpenCnts := by
  obtain ⟨j, hj, hc⟩ := h.counted k x hx
  by_cases hxa : x = a
  · subst hxa
    rw [hi] at hj
    cases hj
    have hlt := refs_clear_lt ha hf
    -- slot `k` still counts after slot `g` is cleared
    have hpos : 0 < (s.setFile g f).refs x :=
      Finset.card_pos.mpr ⟨k, mem_slots.mpr (by rw [setFile_of_ne s f hk]; exact hx)⟩
    exact ⟨i, _, hi, inodeClose_self s x { i with writeDeny := false } (by simp only; omega), rfl,
      by simp only; omega⟩
  · have hle := refs_setFile_le s g f x
    rw [hf, if_neg (by simp)] at hle
    exact ⟨j, j, hj, by rw [inodeClose_of_ne s _ hxa]; exact hj, rfl, by omega⟩

section
variable {fd : Fin 8} {P : Proc}

theorem Closed.file_of_ne (hc : Closed s s' p fd P g a i) {k : Fin 32} (hk : k ≠ g) :
    s'.fileTable k = s.fileTable k := by
  rw [hc.files, setFile_of_ne s _ hk]

theorem Closed.file_self (hc : Closed s s' p fd P g a i) : (s'.fileTable g).fdInode = none := by
  rw [hc.files, setFile_self]

theorem Closed.old (hc : Closed s s' p fd P g a i) {q : Nat} {Q : Proc} {d : Fin 8} {k : Fin 32}
    (hq : s'.procs q = some Q) (hk : Q.fdTable d = some k) :
    ∃ Q', s.procs q = some Q' ∧ Q'.fdTable d = some k ∧ Q'.opened d = Q.opened d ∧ (q = p → d ≠ fd) := by
  rw [hc.procs] at hq
  by_cases hqp : q = p
  · subst hqp
    simp only [update_self, Option.some.injEq] at hq
    subst hq
    simp only at hk ⊢
    by_cases hdf : d = fd
    · rw [hdf, update_self] at hk; cases hk
    · rw [update_of_ne hdf] at hk ⊢
      exact ⟨P, hc.proc, hk, rfl, fun _ => hdf⟩
  · rw [update_of_ne hqp] at hq
    exact ⟨Q, hq, hk, rfl, fun e => absurd e hqp⟩

theorem Closed.inv (hc : Closed s s' p fd P g a i) (h : s.Inv) (hfd : 3 ≤ fd.val) (hal : s.Alone p g) : s'.Inv := by
  have hne : ∀ {q Q d k}, s.procs q = some Q → 3 ≤ d.val → Q.fdTable d = some k → (q = p → d ≠ fd) → k ≠ g := by
    rintro q Q d k hq hd hk hdf rfl
    by_cases hqp : q = p
    · subst hqp
      rw [hc.proc] at hq
      cases hq
      exact hdf rfl (h.inj q P d fd k hc.proc hd hfd hk hc.slot)
    · exact hal q Q d hqp hq hd hk
  refine ⟨?_, ?_, ?_, ?_⟩
  · intro q Q d k hq hd hk
    obtain ⟨Q', hq', hk', ho, hdf⟩ := hc.old hq hk
    have hkg := hne hq' hd hk' hdf
    obtain ⟨x, hx, hxo⟩ := h.kept q Q' d k hq' hd hk'
    refine ⟨x, ?_, ho ▸ hxo⟩
    obtain ⟨h1, j, hj, hn⟩ := target_eq_some.mp hx
    obtain ⟨j0, j', hj0, hj', hno, _⟩ := h.close_inode (f := ⟨0, 0, none⟩) hc.inode hc.cached rfl hkg h1
    rw [hj] at hj0
    cases hj0
    exact target_eq_some.mpr ⟨by rw [hc.file_of_ne hkg]; exact h1, j', by rw [hc.inodes]; exact hj', hno.trans hn⟩
  · intro k x hk
    by_cases hkg : k = g
    · rw [hkg, hc.file_self] at hk; cases hk
    · rw [hc.file_of_ne hkg] at hk
      obtain ⟨_, j', _, hj', _, hle⟩ := h.close_inode
        (f := ⟨(s.fileTable g).fdPos, (s.fileTable g).fdFlag, none⟩) hc.inode hc.cached rfl hkg hk
      refine ⟨j', by rw [hc.inodes]; exact hj', Eq.trans_le ?_ hle⟩
      simp only [refs, slots, hc.files]
  · intro k
    by_cases hkg : k = g
    · rw [hkg, hc.files, setFile_self]; exact h.regular g
    · rw [hc.file_of_ne hkg]; exact h.regular k
  · intro q Q d d' k hq hd hd' hk hk'
    obtain ⟨Q', hq', hk1, _⟩ := hc.old hq hk
    obtain ⟨Q'', hq'', hk2, _⟩ := hc.old hq hk'
    rw [hq'] at hq''
    cases hq''
    exact h.inj q Q' d d' k hq' hd hd' hk1 hk2

end

/-! ## Exiting -/

theorem Closed.regular (hc : Closed s s' p fd P g a i) (hreg : ∀ g, (s.fileTable g).fdFlag ≠ pipeFlag) :
    ∀ k, (s'.fileTable k).fdFlag ≠ pipeFlag := by
  intro k
  by_cases hkg : k = g
  · rw [hkg, hc.files, setFile_self]; exact hreg g
  · rw [hc.file_of_ne hkg]; exact hreg k

theorem Closed.alone (hc : Closed s s' p fd P g a i) (h : s.Alone p k) :
    s'.Alone p k := by
  intro q Q d hqp hq
  rw [hc.procs, update_of_ne hqp] at hq
  exact h q Q d hqp hq

def Private (s : FdState) (p : Nat) : Prop :=
  ∀ P d g, s.procs p = some P → 3 ≤ d.val → P.fdTable d = some g → s.Alone p g

theorem closeAll_inv : ∀ (ds : List (Fin 8)) (s s' : FdState), (∀ d ∈ ds, 3 ≤ d.val) → s.Inv → s.Private p →
    closeAll p ds s = .ok s' → s'.Inv
  | [], s, s', _, h, _, hret => by cases hret; exact h
  | d :: ds, s, s', hds, h, hal, hret => by
    simp only [closeAll, bind_ok, deref_ok] at hret
    obtain ⟨P, hP, hret⟩ := hret
    split at hret
    · exact closeAll_inv ds s s' (fun e he => hds e (by simp [he])) h hal hret
    rename_i g hg
    simp only [isPipe_false h.regular, Bool.false_eq_true, ite_false, bind_ok] at hret
    obtain ⟨s1, hs1, hret⟩ := hret
    obtain ⟨P', g', a, i, hc⟩ := sysClose_cases h.regular hs1
    have hd := hds d (by simp)
    refine closeAll_inv ds s1 s' (fun e he => hds e (by simp [he])) (hc.inv h hd (hal P' d g' hc.proc hd hc.slot)) ?_ hret
    intro Q e k hQ he hk
    obtain ⟨Q', hQ', hk', _⟩ := hc.old hQ hk
    exact hc.alone (hal Q' e k hQ' he hk')

structure ClosedAll (p : Nat) (ds : List (Fin 8)) (s s' : FdState) : Prop where
  procs : ∀ q, q ≠ p → s'.procs q = s.procs q
  stay : ∀ k, (s.fileTable k).fdInode = none → (s'.fileTable k).fdInode = none
  cleared : ∀ P d k, s.procs p = some P → d ∈ ds → P.fdTable d = some k → (s'.fileTable k).fdInode = none

theorem closeAll_effect : ∀ (ds : List (Fin 8)) (s s' : FdState), (∀ g, (s.fileTable g).fdFlag ≠ pipeFlag) →
    closeAll p ds s = .ok s' → ClosedAll p ds s s'
  | [], s, s', _, hret => by cases hret; exact ⟨fun _ _ => rfl, fun _ h => h, fun _ _ _ _ h => by cases h⟩
  | d :: ds, s, s', hreg, hret => by
    simp only [closeAll, bind_ok, deref_ok] at hret
    obtain ⟨P, hP, hret⟩ := hret
    split at hret
    · rename_i hn
      have ih := closeAll_effect ds s s' hreg hret
      refine ⟨ih.procs, ih.stay, fun Q e k hQ he hk => ?_⟩
      rw [hP] at hQ
      cases hQ
      rcases List.mem_cons.mp he with rfl | he
      · rw [hn] at hk; cases hk
      · exact ih.cleared P e k hP he hk
    rename_i g hg
    simp only [isPipe_false hreg, Bool.false_eq_true, ite_false, bind_ok] at hret
    obtain ⟨s1, hs1, hret⟩ := hret
    obtain ⟨P', g', a, i, hc⟩ := sysClose_cases hreg hs1
    have ih := closeAll_effect ds s1 s' (hc.regular hreg) hret
    have hs : ∀ k, (s.fileTable k).fdInode = none → (s1.fileTable k).fdInode = none := fun k hk => by
      by_cases hkg : k = g'
      · rw [hkg]; exact hc.file_self
      · rw [hc.file_of_ne hkg]; exact hk
    refine ⟨fun q hq => ?_, fun k hk => ih.stay k (hs k hk), fun Q e k hQ he hk => ?_⟩
    · rw [ih.procs q hq, hc.procs, update_of_ne hq]
    · have hPQ := hc.proc
      rw [hQ] at hPQ
      cases hPQ
      by_cases hed : e = d
      · subst hed
        rw [hc.slot] at hk
        cases hk
        exact ih.stay _ hc.file_self
      · have he : e ∈ ds := (List.mem_cons.mp he).resolve_left hed
        refine ih.cleared _ e k (by rw [hc.procs, update_self]) he ?_
        simp only
        rw [update_of_ne hed]
        exact hk

theorem Inv.drop (h : s.Inv) : (s.setProc p none).Inv := by
  have hold : ∀ q Q, (s.setProc p none).procs q = some Q → s.procs q = some Q := by
    intro q Q hq
    by_cases hqp : q = p
    · subst hqp; simp [setProc] at hq
    · simpa [setProc, update_of_ne hqp] using hq
  exact ⟨fun q Q d g hq => h.kept q Q d g (hold q Q hq), h.counted, h.regular,
    fun q Q d d' g hq => h.inj q Q d d' g (hold q Q hq)⟩

theorem mem_fds : d ∈ fds ↔ 3 ≤ d.val := by
  have : ∀ d : Fin 8, d ∈ fds ↔ 3 ≤ d.val := by decide
  exact this d

/-! ## Runs -/

theorem Start.inv (h : s.Start) : s.Inv := by
  obtain ⟨hft, _, _, hpr⟩ := h
  refine ⟨fun p P d g hp hd hk => ?_, fun g a hg => ?_, fun g => ?_, fun p P d _ g hp hd _ hk _ => ?_⟩
  · rw [hpr p P hp d hd] at hk; cases hk
  · rw [hft g] at hg; cases hg
  · rw [hft g]; decide
  · rw [hpr p P hp d hd] at hk; cases hk

theorem Inv.step {op : FdOp} (h : s.Inv) (hs : FdStep op s s') (hu : op.Unshared s) : s'.Inv := by
  cases hs with
  | sysOpen hf hret => exact sysOpen_inv h hf hret
  | sysFork _ hret => exact sysFork_inv h hret
  | sysClose hfd hret =>
    obtain ⟨P, g, a, i, hc⟩ := sysClose_cases h.regular hret
    exact hc.inv h hfd (hu P g hc.proc hc.slot)
  | sysExit hret =>
    simp only [sysExit, bind_ok, pure_ok, Except.ok.injEq] at hret
    obtain ⟨s1, hs1, rfl⟩ := hret
    exact (closeAll_inv fds s s1 (fun d hd => mem_fds.mp hd) h hu hs1).drop

theorem not_kept_of_cleared {q : Nat} {Q : Proc} (hq : s.procs q = some Q) (hd : 3 ≤ d.val)
    (hk : Q.fdTable d = some g) (hn : (s.fileTable g).fdInode = none) : ¬ s.Kept := fun h => by
  obtain ⟨x, hx, _⟩ := h q Q d g hq hd hk
  rw [(target_eq_some.mp hx).1] at hn
  cases hn

theorem Inv.step_shared {op : FdOp} (h : s.Inv) (hs : FdStep op s s') (hk : s'.Kept) : op.Unshared s := by
  cases hs with
  | sysOpen | sysFork => exact trivial
  | sysClose hfd hret =>
    obtain ⟨P, g, a, i, hc⟩ := sysClose_cases h.regular hret
    intro P' g' hP' hg' q Q d hqp hq hd hQ
    rw [hc.proc] at hP'
    cases hP'
    rw [hc.slot] at hg'
    cases hg'
    exact not_kept_of_cleared (by rw [hc.procs, update_of_ne hqp]; exact hq) hd hQ hc.file_self hk
  | sysExit hret =>
    simp only [sysExit, bind_ok, pure_ok, Except.ok.injEq] at hret
    obtain ⟨s1, hs1, rfl⟩ := hret
    have he := closeAll_effect fds s s1 h.regular hs1
    intro P d g hP hd hg q Q e hqp hq hd' hQ
    refine not_kept_of_cleared (q := q) ?_ hd' hQ ?_ hk
    · simp only [setProc]
      rw [update_of_ne hqp, he.procs q hqp, hq]
    · exact he.cleared P d g hP (mem_fds.mpr hd) hg

end FdState

/-- **When descriptors keep their files**: no call closes a slot of another process. -/
theorem descriptors_kept_iff (s : FdState)
    (h : Reach (fun s s' => ∃ op : FdOp, op.Unshared s ∧ FdStep op s s') FdState.Start s) :
    s.Kept ∧ ∀ (op : FdOp) (s' : FdState), FdStep op s s' → (s'.Kept ↔ op.Unshared s) := by
  have hinv : s.Inv := h.invariant (fun _ hs => hs.inv) fun s s' hs ⟨_, hu, hst⟩ => hs.step hst hu
  exact ⟨hinv.kept, fun op s' hst => ⟨hinv.step_shared hst, fun hu => (hinv.step hst hu).kept⟩⟩

def fdStart : FdState where
  fileTable _ := ⟨0, 0, none⟩
  inodes _ := none
  openInodes := []
  procs p := if p = 1 then some ⟨fun d => if d.val < 3 then some (Fin.ofNat 32 d.val) else none, fun _ => none⟩ else none

theorem fdStart_start : fdStart.Start := by
  refine ⟨fun _ => rfl, fun _ => rfl, rfl, fun p P hp d hd => ?_⟩
  unfold fdStart at hp
  simp only at hp
  split at hp
  · cases hp
    exact if_neg (by omega)
  · cases hp

def FdState.after (r : Exec FdState) : FdState :=
  match r with
  | .ok s => s
  | .error _ => fdStart

def fdOpened : FdState := FdState.after ((fdStart.sysOpen 1 (.regular 5) 0 100 true true).map Prod.fst)

theorem fdOpened_step : FdStep (.sysOpen 1 (.regular 5) 0 100 true true) fdStart fdOpened :=
  .sysOpen rfl (show fdStart.sysOpen 1 (.regular 5) 0 100 true true = .ok (fdOpened, some 3) from rfl)

theorem descriptors_kept_opened : fdOpened.Kept ∧ (∃ P, fdOpened.procs 1 = some P ∧ P.fdTable 3 = some 3) := by
  refine ⟨(descriptors_kept_iff fdOpened ?_).1, _, rfl, rfl⟩
  exact (Reach.refl fdStart_start).tail ⟨.sysOpen 1 (.regular 5) 0 100 true true, trivial, fdOpened_step⟩

def fdForked : FdState := FdState.after (fdOpened.sysFork 1 2)

def fdClosed : FdState := FdState.after (fdForked.sysClose 2 3)

/-- The child closes its copy of the descriptor, and the parent's is gone. -/
theorem child_close_clears_parent : fdStart.Start ∧ FdStep (.sysOpen 1 (.regular 5) 0 100 true true) fdStart fdOpened ∧
    FdStep (.sysFork 1 2) fdOpened fdForked ∧ FdStep (.sysClose 2 3) fdForked fdClosed ∧ ¬ fdClosed.Kept := by
  refine ⟨fdStart_start, fdOpened_step, .sysFork rfl rfl, .sysClose (by decide) rfl, ?_⟩
  exact FdState.not_kept_of_cleared (q := 1) (d := 3) (g := 3) rfl (by decide) rfl rfl

end OperateSystem
