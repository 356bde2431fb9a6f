import OperateSystem.DescriptorsSound

/-!
# Writers of a file

`write_deny` is meant to keep a second writer out of a file. The slot of an open
that is refused stays taken, with the flags it was asked for; so a file has two
writing slots as soon as anyone opens it for writing while one of its slots is
writing.
-/

namespace OperateSystem

open Function

def File.Writing (f : File) : Prop := f.fdFlag &&& oWronly.toUInt32 ≠ 0 ∨ f.fdFlag &&& oRdwr.toUInt32 ≠ 0

namespace FdState

variable {s s' : FdState} {p : Nat} {g : Fin 32} {a : Nat}

def Writes (s : FdState) (g : Fin 32) (a : Nat) : Prop :=
  (s.fileTable g).fdInode = some a ∧ (s.fileTable g).Writing

def SingleWriter (s : FdState) : Prop := ∀ a g g', s.Writes g a → s.Writes g' a → g = g'

def cached (s : FdState) (no : UInt32) : Option Nat := s.openInodes.find? fun a => (s.inodes a).any (·.iNo == no)

end FdState

def FdOp.OpenClose : FdOp → Prop
  | .sysOpen .. | .sysClose .. => True
  | _ => False

/-- An existing file is opened for writing only while none of its slots is
writing, unless the file table is full. -/
def FdOp.FirstWriter (s : FdState) : FdOp → Prop
  | .sysOpen _ (.regular no) flags _ _ _ =>
    flags &&& oCreat = 0 → (File.mk 0 flags.toUInt32 none).Writing → s.getFreeSlotInGlobal ≠ none →
      ∀ a g, s.cached no = some a → ¬ s.Writes g a
  | _ => True

namespace FdState

variable {s s' : FdState} {p : Nat} {g : Fin 32} {a : Nat}
variable {addr : Nat} {ret : Option (Fin 8)}

/-! ## Without `sys_fork` no slot is shared -/

def Solo (s : FdState) : Prop :=
  ∀ p q P Q d e g, s.procs p = some P → s.procs q = some Q → 3 ≤ d.val → 3 ≤ e.val → P.fdTable d = some g →
    Q.fdTable e = some g → p = q

theorem Solo.unshared (h : s.Solo) {op : FdOp} (hop : op.OpenClose) (hs : FdStep op s s') : op.Unshared s := by
  cases hs with
  | sysOpen => exact trivial
  | sysFork => exact hop.elim
  | sysClose hfd _ =>
    intro P g hP hg q Q d hqp hq hd hQ
    exact hqp (h q _ Q P d _ g hq hP hd hfd hQ hg)
  | sysExit => exact hop.elim

theorem Solo.of_procs (h : s.Solo) (hp : s'.procs = s.procs) : s'.Solo := by
  intro q r Q R d e g hq hr
  rw [hp] at hq hr
  exact h q r Q R d e g hq hr

theorem Solo.update (h : s.Solo) {P P' : Proc} (hP : s.procs p = some P)
    (hp : s'.procs = update s.procs p (some P'))
    (hnew : ∀ d g, 3 ≤ d.val → P'.fdTable d = some g → P.fdTable d = some g ∨
      ∀ q Q e, s.procs q = some Q → 3 ≤ e.val → Q.fdTable e ≠ some g) : s'.Solo := by
  have hs : ∀ r R e g, r ≠ p → s.procs r = some R → 3 ≤ e.val → R.fdTable e = some g → ∀ d, 3 ≤ d.val →
      P'.fdTable d ≠ some g := by
    intro r R e g hrp hr he hR d hd hd'
    rcases hnew d g hd hd' with hold | hf
    · exact hrp (h r p R P e d g hr hP he hd hR hold)
    · exact hf r R e hr he hR
  intro q r Q R d e g hq hr hd he hQ hR
  rw [hp] at hq hr
  by_cases hqp : q = p <;> by_cases hrp : r = p
  · rw [hqp, hrp]
  · rw [hqp, update_self] at hq
    rw [update_of_ne hrp] at hr
    cases hq
    exact absurd hQ (hs r R e g hrp hr he hR d hd)
  · rw [hrp, update_self] at hr
    rw [update_of_ne hqp] at hq
    cases hr
    exact absurd hR (hs q Q d g hqp hq hd hQ e he)
  · rw [update_of_ne hqp] at hq
    rw [update_of_ne hrp] at hr
    exact h q r Q R d e g hq hr hd he hQ hR

theorem pcbFdInstall_spec (h : s.pcbFdInstall p g = .ok (s', ret)) :
    s'.fileTable = s.fileTable ∧ (s' = s ∨ ∃ P P' d, s.procs p = some P ∧
      s'.procs = update s.procs p (some P') ∧ P'.fdTable = update P.fdTable d (some g)) := by
  simp only [pcbFdInstall, bind_ok, deref_ok] at h
  obtain ⟨P, hP, h⟩ := h
  split at h
  · cases h; exact ⟨rfl, .inl rfl⟩
  · cases h; exact ⟨rfl, .inr ⟨P, _, _, hP, rfl, rfl⟩⟩

theorem Solo.install (h : s.Solo) (hret : s.pcbFdInstall p g = .ok (s', ret))
    (hf : ∀ q Q e, s.procs q = some Q → 3 ≤ e.val → Q.fdTable e ≠ some g) : s'.Solo := by
  obtain ⟨_, rfl | ⟨P, P', d, hP, hp, hP'⟩⟩ := pcbFdInstall_spec hret
  · exact h
  refine h.update hP hp fun e k _ hk => ?_
  rw [hP'] at hk
  by_cases he : e = d
  · rw [he, update_self] at hk
    cases hk
    exact .inr hf
  · rw [update_of_ne he] at hk
    exact .inl hk

/-! ## What the calls do to the file table -/

def opens (s : FdState) (found : Searched) (flags : UInt8) (addr : Nat) (mem dirOk : Bool) : Option Nat :=
  match found with
  | .refused => none
  | .missing _ => if flags &&& oCreat ≠ 0 ∧ mem = true ∧ dirOk = true then some addr else none
  | .regular no => if flags &&& oCreat = 0 then some ((s.cached no).getD addr) else none

/-- The effect of `sys_open` on the file table: nothing, a slot for the inode
opened, or the rest of a failed creation. -/
inductive Opened (s : FdState) (o : Option Nat) (flags : UInt8) : (Fin 32 → File) → Prop
  | same (h : o = none ∨ s.getFreeSlotInGlobal = none) : Opened s o flags s.fileTable
  | reset {g : Fin 32} (h : o = none) (hg : s.getFreeSlotInGlobal = some g) :
    Opened s o flags (s.setFile g ⟨0, 0, none⟩).fileTable
  | taken {g : Fin 32} {a : Nat} (h : o = some a) (hg : s.getFreeSlotInGlobal = some g) :
    Opened s o flags (s.setFile g ⟨0, flags.toUInt32, some a⟩).fileTable

theorem inodeOpen_cached (s : FdState) (no : UInt32) (addr : Nat) :
    (s.inodeOpen no addr).2 = (s.cached no).getD addr ∧ (s.inodeOpen no addr).1.fileTable = s.fileTable ∧
      (s.inodeOpen no addr).1.procs = s.procs := by
  unfold inodeOpen cached
  split <;> rename_i h <;> simp [h, setInode, pushInode]

theorem fileOpen_effect {no : UInt32} {flag : UInt8} (hg : s.getFreeSlotInGlobal = some g)
    (hret : s.fileOpen p no flag addr = .ok (s', ret)) :
    s'.fileTable = (s.setFile g ⟨0, flag.toUInt32, some ((s.cached no).getD addr)⟩).fileTable ∧
      (s'.procs = s.procs ∨ ∃ s1 : FdState, s1.procs = s.procs ∧ s1.pcbFdInstall p g = .ok (s', ret)) := by
  obtain ⟨ha, hft, hpr⟩ := inodeOpen_cached s no addr
  unfold fileOpen at hret
  rw [hg] at hret
  generalize s.inodeOpen no addr = r at ha hft hpr hret
  obtain ⟨s1, x⟩ := r
  simp only at ha hft hpr hret
  subst ha
  have hf : (s1.setFile g ⟨0, flag.toUInt32, some ((s.cached no).getD addr)⟩).fileTable =
      (s.setFile g ⟨0, flag.toUInt32, some ((s.cached no).getD addr)⟩).fileTable := by
    simp only [setFile, hft]
  split at hret
  · simp only [bind_ok, deref_ok] at hret
    obtain ⟨j, _, hret⟩ := hret
    split at hret
    · cases hret
      exact ⟨hf, .inl hpr⟩
    · refine ⟨(pcbFdInstall_spec hret).1.trans hf, .inr ⟨_, ?_, hret⟩⟩
      exact hpr
  · refine ⟨(pcbFdInstall_spec hret).1.trans hf, .inr ⟨_, ?_, hret⟩⟩
    exact hpr

theorem sysOpen_effect {found : Searched} {flags : UInt8} {mem dirOk : Bool} (h : s.Inv) (hs : s.Solo)
    (hret : s.sysOpen p found flags addr mem dirOk = .ok (s', ret)) :
    Opened s (s.opens found flags addr mem dirOk) flags s'.fileTable ∧ s'.Solo := by
  have hin : ∀ {s1 : FdState} {g}, s1.procs = s.procs → s.getFreeSlotInGlobal = some g →
      s1.pcbFdInstall p g = .ok (s', ret) → s'.Solo := by
    intro s1 g hpr hg hi
    refine (hs.of_procs hpr).install hi fun q Q e hq he => ?_
    rw [hpr] at hq
    exact h.free_unused (getFree_spec hg) hq he
  simp only [sysOpen, bind_ok] at hret
  obtain ⟨_, _, hret⟩ := hret
  cases found with
  | refused => cases hret; exact ⟨.same (.inl rfl), hs⟩
  | missing newNo =>
    simp only [opens]
    simp only at hret
    split at hret
    · rename_i hc
      cases hret
      exact ⟨.same (.inl (by simp [hc])), hs⟩
    rename_i hc
    unfold fileCreate at hret
    split at hret
    · rename_i hm
      cases hret
      exact ⟨.same (.inl (by simp [hm])), hs⟩
    rename_i hm
    split at hret
    · rename_i hg
      cases hret
      exact ⟨.same (.inr hg), hs⟩
    rename_i g hg
    split at hret
    · rename_i hd
      rw [(pcbFdInstall_spec hret).1]
      refine ⟨.taken (by simp [hc, hm, hd]) hg, hin ?_ hg hret⟩
      rfl
    · rename_i hd
      cases hret
      exact ⟨.reset (by simp [hd]) hg, hs⟩
  | regular no =>
    simp only [opens]
    simp only at hret
    split at hret
    · rename_i hc
      cases hret
      exact ⟨.same (.inl (by simp [hc])), hs⟩
    rename_i hc
    simp only [ne_eq, not_not] at hc
    cases hg : s.getFreeSlotInGlobal with
    | none =>
      unfold fileOpen at hret
      rw [hg] at hret
      cases hret
      exact ⟨.same (.inr hg), hs⟩
    | some g =>
      obtain ⟨hft, hpr⟩ := fileOpen_effect hg hret
      rw [hft]
      refine ⟨.taken (by simp [hc]) hg, ?_⟩
      rcases hpr with hpr | ⟨s1, hpr, hi⟩
      · exact hs.of_procs hpr
      · exact hin hpr hg hi

theorem Closed.solo {fd : Fin 8} {P : Proc} {i : MemInode} (hc : Closed s s' p fd P g a i) (h : s.Solo) : s'.Solo := by
  refine h.update hc.proc hc.procs fun d k _ hk => .inl ?_
  simp only at hk
  by_cases hd : d = fd
  · rw [hd, update_self] at hk; cases hk
  · rwa [update_of_ne hd] at hk

/-! ## Slots that write -/

theorem writes_congr {s' : FdState} {g : Fin 32} (h : s'.fileTable g = s.fileTable g) (a : Nat) :
    s'.Writes g a ↔ s.Writes g a := by
  unfold Writes; rw [h]

theorem SingleWriter.clear (h : s.SingleWriter) {f : File} (hf : f.fdInode = none)
    (ht : s'.fileTable = (s.setFile g f).fileTable) : s'.SingleWriter := by
  have hold : ∀ k x, s'.Writes k x → s.Writes k x := by
    intro k x hk
    have hkg : k ≠ g := by
      intro e
      have := hk.1
      rw [e, ht, setFile_self, hf] at this
      cases this
    exact (writes_congr (by rw [ht, setFile_of_ne s f hkg]) x).mp hk
  exact fun x k k' hk hk' => h x k k' (hold k x hk) (hold k' x hk')

theorem SingleWriter.take_iff (h : s.SingleWriter) (hg : (s.fileTable g).fdInode = none) {flag : UInt32}
    (ht : s'.fileTable = (s.setFile g ⟨0, flag, some a⟩).fileTable) :
    s'.SingleWriter ↔ ((File.mk 0 flag none).Writing → ∀ k, ¬ s.Writes k a) := by
  have hse : ∀ x, s'.Writes g x ↔ a = x ∧ (File.mk 0 flag none).Writing := by
    intro x
    unfold Writes
    rw [ht, setFile_self]
    simp [File.Writing]
  have ho : ∀ k x, k ≠ g → (s'.Writes k x ↔ s.Writes k x) := fun k x hk =>
    writes_congr (by rw [ht, setFile_of_ne s _ hk]) x
  have hne : ∀ k x, s.Writes k x → k ≠ g := fun k x hk e => by rw [e] at hk; rw [hk.1] at hg; cases hg
  constructor
  · intro hs hw k hk
    have hkg := hne k a hk
    exact hkg (hs a k g ((ho k a hkg).mpr hk) ((hse a).mpr ⟨rfl, hw⟩))
  · intro hc x k k' hk hk'
    by_cases hkg : k = g <;> by_cases hkg' : k' = g
    · rw [hkg, hkg']
    · rw [hkg, hse] at hk
      obtain ⟨rfl, hw⟩ := hk
      exact absurd ((ho k' _ hkg').mp hk') (hc hw k')
    · rw [hkg', hse] at hk'
      obtain ⟨rfl, hw⟩ := hk'
      exact absurd ((ho k _ hkg).mp hk) (hc hw k)
    · exact h x k k' ((ho k x hkg).mp hk) ((ho k' x hkg').mp hk')

theorem Inv.not_writes (h : s.Inv) (hf : s.inodes a = none) (k : Fin 32) : ¬ s.Writes k a := fun hk => by
  obtain ⟨i, hi, _⟩ := h.counted k a hk.1
  rw [hf] at hi
  cases hi

theorem Opened.single_iff {found : Searched} {flags : UInt8} {mem dirOk : Bool} (h : s.Inv)
    (hfr : s.inodes addr = none) (hw : s.SingleWriter)
    (ho : Opened s (s.opens found flags addr mem dirOk) flags s'.fileTable) :
    s'.SingleWriter ↔ (FdOp.sysOpen p found flags addr mem dirOk).FirstWriter s := by
  generalize hft : s'.fileTable = t at ho
  cases ho with
  | same hn =>
    refine iff_of_true (fun x k k' => ?_) ?_
    · rw [writes_congr (congrFun hft k), writes_congr (congrFun hft k')]
      exact hw x k k'
    · cases found with
      | refused | missing => exact trivial
      | regular no =>
        intro hc _ hg
        simp [opens, hc, hg] at hn
  | reset hn hg =>
    refine iff_of_true (hw.clear rfl hft) ?_
    cases found with
    | refused | missing => exact trivial
    | regular no =>
      intro hc
      simp [opens, hc] at hn
  | taken hn hg =>
    rw [hw.take_iff (getFree_spec hg) hft]
    cases found with
    | refused => cases hn
    | missing newNo =>
      refine iff_of_true (fun _ => h.not_writes ?_) trivial
      simp only [opens] at hn
      split at hn
      · cases hn; exact hfr
      · cases hn
    | regular no =>
      simp only [opens] at hn
      split at hn
      · rename_i hc
        cases hn
        constructor
        · intro hall _ hf _ x k hx hk
          rw [hx] at hall
          exact hall hf k hk
        · intro hall hf k hk
          cases hx : s.cached no with
          | none =>
            rw [hx] at hk
            exact h.not_writes hfr k hk
          | some x =>
            rw [hx] at hk
            exact hall hc hf (by rw [hg]; simp) x k hx hk
      · cases hn

theorem Start.single (h : s.Start) : s.Solo ∧ s.SingleWriter := by
  obtain ⟨hft, _, _, hpr⟩ := h
  refine ⟨fun p q P Q d e g hp hq hd he hP hQ => ?_, fun a g g' hg _ => ?_⟩
  · rw [hpr p P hp d hd] at hP; cases hP
  · have := hg.1
    rw [hft] at this; cases this

theorem step_single {op : FdOp} (h : s.Inv) (hs : s.Solo) (hw : s.SingleWriter) (hop : op.OpenClose)
    (hst : FdStep op s s') : s'.Inv ∧ s'.Solo ∧ (s'.SingleWriter ↔ op.FirstWriter s) := by
  refine ⟨h.step hst (hs.unshared hop hst), ?_⟩
  cases hst with
  | sysOpen hf hret =>
    obtain ⟨ho, hso⟩ := sysOpen_effect h hs hret
    exact ⟨hso, ho.single_iff h hf hw⟩
  | sysFork => exact hop.elim
  | sysClose hfd hret =>
    obtain ⟨P, g, a, i, hc⟩ := sysClose_cases h.regular hret
    exact ⟨hc.solo hs, iff_of_true (hw.clear rfl hc.files) trivial⟩
  | sysExit => exact hop.elim

end FdState

/-- **When a file has one writer**: no file is opened for writing that a slot is writing. -/
theorem single_writer_iff (s : FdState)
    (h : Reach (fun s s' => ∃ op : FdOp, op.OpenClose ∧ op.FirstWriter s ∧ FdStep op s s') FdState.Start s) :
    s.SingleWriter ∧ ∀ (op : FdOp) (s' : FdState), op.OpenClose → FdStep op s s' →
      (s'.SingleWriter ↔ op.FirstWriter s) := by
  have hinv : s.Inv ∧ s.Solo ∧ s.SingleWriter := by
    apply Reach.invariant _ _ h
    · exact fun _ hs => ⟨hs.inv, hs.single⟩
    · rintro s s' ⟨hi, hs, hw⟩ ⟨op, hop, hf, hst⟩
      obtain ⟨hi', hs', hw'⟩ := FdState.step_single hi hs hw hop hst
      exact ⟨hi', hs', hw'.mpr hf⟩
  obtain ⟨hi, hs, hw⟩ := hinv
  exact ⟨hw, fun op s' hop hst => (FdState.step_single hi hs hw hop hst).2.2⟩

def fdCreated : FdState := FdState.after ((fdStart.sysOpen 1 (.missing 5) 6 100 true true).map Prod.fst)

theorem fdCreated_step : FdStep (.sysOpen 1 (.missing 5) 6 100 true true) fdStart fdCreated :=
  .sysOpen rfl (show fdStart.sysOpen 1 (.missing 5) 6 100 true true = .ok (fdCreated, some 3) from rfl)

theorem single_writer_created : fdCreated.SingleWriter ∧ fdCreated.Writes 3 100 := by
  refine ⟨(single_writer_iff fdCreated ?_).1, rfl, .inr (by decide)⟩
  exact (Reach.refl fdStart_start).tail ⟨.sysOpen 1 (.missing 5) 6 100 true true, trivial, trivial, fdCreated_step⟩

def fdRewritten : FdState := FdState.after ((fdCreated.sysOpen 1 (.regular 5) 1 101 true true).map Prod.fst)

/-- Creating a file does not claim it, so a second open for writing succeeds. -/
theorem created_file_gets_two_writers : fdStart.Start ∧
    FdStep (.sysOpen 1 (.missing 5) 6 100 true true) fdStart fdCreated ∧
    fdCreated.sysOpen 1 (.regular 5) 1 101 true true = .ok (fdRewritten, some 4) ∧
    FdStep (.sysOpen 1 (.regular 5) 1 101 true true) fdCreated fdRewritten ∧ ¬ fdRewritten.SingleWriter := by
  have ho : fdCreated.sysOpen 1 (.regular 5) 1 101 true true = .ok (fdRewritten, some 4) := rfl
  refine ⟨fdStart_start, fdCreated_step, ho, .sysOpen rfl ho, fun h => ?_⟩
  have h3 : fdRewritten.Writes 3 100 := ⟨rfl, .inr (by decide)⟩
  have h4 : fdRewritten.Writes 4 100 := ⟨rfl, .inl (by decide)⟩
  exact absurd (h 100 3 4 h3 h4) (by decide)

end OperateSystem
