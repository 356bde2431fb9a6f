import OperateSystem.Pipes
import OperateSystem.DescriptorsSound
import OperateSystem.Accounting

/-!
# When a pipe lives as long as its descriptors

`fd_pos` of a pipe's slot is the number of counted descriptors that lead to it,
as long as every change of a reference is one that the counts show. Closing a
descriptor and ending a process both release a number of references per slot.
-/

namespace OperateSystem

open Function List

namespace PipeState

variable {s s' : PipeState} {p : Nat} {d : Fin 8} {g : Fin 32} {b : Nat} {P : Proc}
variable {slot : Option (Fin 32)} {o : Option Nat} {t : PipeState}

/-! ## Counting references -/

def usesOf (o : Option Proc) (g : Fin 32) : Nat :=
  match o with
  | none => 0
  | some P => uses P.fdTable fds g

def refs (s : PipeState) (g : Fin 32) : Nat := ((List.range 1025).map fun p => usesOf (s.procs p) g).sum

def live (s : PipeState) (b : Nat) : Nat :=
  ((List.finRange 32).map fun g => if (s.fileTable g).fdInode = some b then 1 else 0).sum

theorem uses_pos {T : Fin 8 → Option (Fin 32)} {ds : List (Fin 8)} : 0 < uses T ds g ↔ ∃ d ∈ ds, T d = some g := by
  unfold uses
  rw [List.sum_pos_iff_exists_pos_nat]
  simp only [mem_map]
  constructor
  · rintro ⟨x, ⟨d, hd, rfl⟩, hx⟩
    split at hx
    · exact ⟨d, hd, ‹_›⟩
    · omega
  · rintro ⟨d, hd, hT⟩
    exact ⟨1, ⟨d, hd, if_pos hT⟩, Nat.one_pos⟩

theorem uses_update (T : Fin 8 → Option (Fin 32)) (v : Option (Fin 32)) (hd : 3 ≤ d.val) (g : Fin 32) :
    uses (update T d v) fds g + (if T d = some g then 1 else 0) =
      uses T fds g + if v = some g then 1 else 0 :=
  sum_map_update (fun o : Option (Fin 32) => if o = some g then 1 else 0) T d v (by decide) (FdState.mem_fds.mpr hd)

theorem uses_standard (T : Fin 8 → Option (Fin 32)) (v : Option (Fin 32)) (hd : d.val < 3) (g : Fin 32) :
    uses (update T d v) fds g = uses T fds g :=
  sum_map_update_of_notMem (fun o : Option (Fin 32) => if o = some g then 1 else 0) T v
    (fun h => absurd (FdState.mem_fds.mp h) (by omega))

theorem refs_pos : 0 < s.refs g ↔ ∃ p ≤ 1024, ∃ d, 3 ≤ d.val ∧ s.Refers p d g := by
  unfold refs
  rw [List.sum_pos_iff_exists_pos_nat]
  simp only [mem_map, mem_range]
  constructor
  · rintro ⟨x, ⟨p, hp, rfl⟩, hx⟩
    cases hP : s.procs p with
    | none => rw [hP] at hx; exact absurd hx (Nat.lt_irrefl 0)
    | some P =>
      rw [hP] at hx
      obtain ⟨d, hd, hT⟩ := uses_pos.mp hx
      exact ⟨p, by omega, d, FdState.mem_fds.mp hd, P, hP, hT⟩
  · rintro ⟨p, hp, d, hd, P, hP, hT⟩
    exact ⟨usesOf (s.procs p) g, ⟨p, by omega, rfl⟩, by
      rw [hP]; exact uses_pos.mpr ⟨d, FdState.mem_fds.mpr hd, hT⟩⟩

theorem refs_update {o : Option Proc} (hp : p ≤ 1024) (h : t.procs = update s.procs p o)
    (g : Fin 32) : t.refs g + usesOf (s.procs p) g = s.refs g + usesOf o g := by
  unfold refs
  rw [h]
  exact sum_map_update (fun o => usesOf o g) s.procs p o nodup_range (mem_range.mpr (by omega))

theorem live_pos : 0 < s.live b ↔ ∃ g, (s.fileTable g).fdInode = some b := by
  unfold live
  rw [List.sum_pos_iff_exists_pos_nat]
  simp only [mem_map, mem_finRange, true_and]
  constructor
  · rintro ⟨x, ⟨g, rfl⟩, hx⟩
    split at hx
    · exact ⟨g, ‹_›⟩
    · omega
  · rintro ⟨g, hg⟩
    exact ⟨1, ⟨g, if_pos hg⟩, Nat.one_pos⟩

theorem live_update {f : File} (h : t.fileTable = update s.fileTable g f) (b : Nat) :
    t.live b + (if (s.fileTable g).fdInode = some b then 1 else 0) =
      s.live b + if f.fdInode = some b then 1 else 0 := by
  unfold live
  rw [h]
  exact sum_map_update (fun f : File => if f.fdInode = some b then 1 else 0) s.fileTable g f (nodup_finRange 32)
    (mem_finRange g)

theorem live_congr (h : ∀ g, (s'.fileTable g).fdInode = (s.fileTable g).fdInode) (b : Nat) : s'.live b = s.live b := by
  unfold live
  simp only [h]

/-! ## The invariant -/

structure Inv (s : PipeState) : Prop where
  pids : ∀ p P, s.procs p = some P → p ≤ 1024
  slot : ∀ g b, (s.fileTable g).fdInode = some b →
    3 ≤ g.val ∧ s.isPipe g = true ∧ (s.fileTable g).fdPos.toNat = s.refs g ∧ 0 < s.refs g
  ref : ∀ p d g, s.Refers p d g → (g.val < 3 ∧ d.val < 3 ∧ s.pipeOf p d = none) ∨
    ∃ b, (s.fileTable g).fdInode = some b ∧ s.pipeOf p d = some b
  pipe : ∀ p d b, s.pipeOf p d = some b → ∃ g, s.Refers p d g
  balance : ∀ b, s.freed b + s.live b = if b ∈ s.made then 1 else 0

theorem Inv.lifetime (h : s.Inv) : s.Lifetime := by
  constructor
  · intro p d g b hr hb
    rcases h.ref p d g hr with ⟨_, _, hn⟩ | ⟨b', hi, hb'⟩
    · rw [hn] at hb; cases hb
    · rw [hb] at hb'
      cases hb'
      have hpos := live_pos.mpr ⟨g, hi⟩
      have hbal := h.balance b
      refine ⟨hi, ?_⟩
      split at hbal <;> omega
  · intro b hb hno
    have hbal := h.balance b
    rw [if_pos hb] at hbal
    by_contra hne
    obtain ⟨g, hg⟩ := live_pos.mp (show 0 < s.live b by omega)
    obtain ⟨p, _, d, _, hr⟩ := refs_pos.mp (h.slot g b hg).2.2.2
    rcases h.ref p d g hr with ⟨hlt, _, _⟩ | ⟨b', hi, hb'⟩
    · omega
    · rw [hg] at hi
      cases hi
      exact hno p d g hr hb'

theorem Inv.counted_pipe (h : s.Inv) (hd : 3 ≤ d.val) (hr : s.Refers p d g) :
    ∃ b, (s.fileTable g).fdInode = some b ∧ s.pipeOf p d = some b := by
  rcases h.ref p d g hr with ⟨_, hlt, _⟩ | hb
  · omega
  · exact hb

theorem Inv.isPipe_of_counted (h : s.Inv) (hd : 3 ≤ d.val) (hr : s.Refers p d g) : s.isPipe g = true := by
  obtain ⟨b, hb, _⟩ := h.counted_pipe hd hr
  exact (h.slot g b hb).2.1

structure Led (s : PipeState) (p : Nat) (d : Fin 8) : Prop where
  ref : ∀ g, s.Refers p d g → (g.val < 3 ∧ d.val < 3 ∧ s.pipeOf p d = none) ∨
    ∃ b, (s.fileTable g).fdInode = some b ∧ s.pipeOf p d = some b
  pipe : ∀ b, s.pipeOf p d = some b → ∃ g, s.Refers p d g

theorem Inv.led (h : s.Inv) (p : Nat) (d : Fin 8) : s.Led p d := ⟨h.ref p d, h.pipe p d⟩

theorem Led.congr {q : Nat} (h : s.Led p d) (hr : ∀ g, t.Refers q d g ↔ s.Refers p d g)
    (hp : t.pipeOf q d = s.pipeOf p d)
    (hf : ∀ g b, (s.fileTable g).fdInode = some b → (t.fileTable g).fdInode = some b) : t.Led q d := by
  refine ⟨fun g hg => ?_, fun b hb => ?_⟩
  · rw [hp]
    rcases h.ref g ((hr g).mp hg) with hc | ⟨b, hb, hd⟩
    · exact .inl hc
    · exact .inr ⟨b, hf g b hb, hd⟩
  · obtain ⟨g, hg⟩ := h.pipe b (hp ▸ hb)
    exact ⟨g, (hr g).mpr hg⟩

theorem Inv.refs_free (h : s.Inv) (hg : (s.fileTable g).fdInode = none) : s.refs g = 0 := by
  by_contra hne
  obtain ⟨p, _, d, hd, hr⟩ := refs_pos.mp (Nat.pos_of_ne_zero hne)
  obtain ⟨b, hb, _⟩ := h.counted_pipe hd hr
  rw [hg] at hb
  cases hb

/-! ## Releasing references -/

def dropped (f : File) (n : Nat) : File :=
  { f with fdPos := f.fdPos - .ofNat n, fdInode := if 0 < n ∧ n = f.fdPos.toNat then none else f.fdInode }

structure Released (n : Fin 32 → Nat) (s s' : PipeState) : Prop where
  files : ∀ g, s'.fileTable g = dropped (s.fileTable g) (n g)
  balance : ∀ b, s'.freed b + s'.live b = s.freed b + s.live b
  made : s'.made = s.made
  procs : s'.procs = s.procs
  pipeOf : s'.pipeOf = s.pipeOf

theorem toNat_sub_ofNat (x : UInt32) {n : Nat} (h : n ≤ x.toNat) : (x - .ofNat n).toNat = x.toNat - n := by
  have hn := UInt32.toNat_ofNat_of_lt' (Nat.lt_of_le_of_lt h x.toNat_lt)
  rw [UInt32.toNat_sub_of_le, hn]
  rw [UInt32.le_iff_toNat_le, hn]
  exact h

theorem dropped_zero (f : File) : dropped f 0 = f := by
  simp [dropped]

theorem dropped_dropped (f : File) {n m : Nat} (h : n + m ≤ f.fdPos.toNat) :
    dropped (dropped f n) m = dropped f (n + m) := by
  have hsub := toNat_sub_ofNat f.fdPos (show n ≤ f.fdPos.toNat by omega)
  have hpos : f.fdPos - .ofNat n - .ofNat m = f.fdPos - .ofNat (n + m) := by
    rw [← UInt32.toNat_inj, toNat_sub_ofNat _ (by omega), hsub, toNat_sub_ofNat _ h, Nat.sub_sub]
  unfold dropped
  simp only [hpos, File.mk.injEq, true_and, hsub]
  by_cases hn : 0 < n ∧ n = f.fdPos.toNat
  · rw [if_pos hn, if_pos (show 0 < n + m ∧ n + m = f.fdPos.toNat by omega), ite_self]
  · rw [if_neg hn]
    exact if_congr (by omega) rfl rfl

theorem Released.trans {n m : Fin 32 → Nat} (h1 : Released n s t) (h2 : Released m t s')
    (hle : ∀ g, n g + m g ≤ (s.fileTable g).fdPos.toNat) : Released (fun g => n g + m g) s s' where
  files g := by rw [h2.files, h1.files, dropped_dropped _ (hle g)]
  balance b := (h2.balance b).trans (h1.balance b)
  made := h2.made.trans h1.made
  procs := h2.procs.trans h1.procs
  pipeOf := h2.pipeOf.trans h1.pipeOf

theorem closePipe_files (fs : FdState) (h : 0 < (fs.fileTable g).fdPos.toNat) :
    (fs.closePipe g).fileTable = update fs.fileTable g (dropped (fs.fileTable g) 1) := by
  have hiff : (fs.fileTable g).fdPos - 1 = 0 ↔ 1 = (fs.fileTable g).fdPos.toNat := by
    have := toNat_sub_ofNat (fs.fileTable g).fdPos (show 1 ≤ _ from h)
    rw [← UInt32.toNat_inj]
    change ((fs.fileTable g).fdPos - .ofNat 1).toNat = 0 ↔ _
    omega
  simp only [FdState.closePipe, FdState.setFile, dropped, Nat.one_pos, true_and]
  congr 2
  exact if_congr hiff rfl rfl

theorem closePipe_released (hpos : 0 < (s.fileTable g).fdPos.toNat) (hret : s.closePipe g = .ok s') :
    Released (fun k => if k = g then 1 else 0) s s' := by
  have hf := closePipe_files s.toFdState hpos
  have hdr : ∀ k, update s.fileTable g (dropped (s.fileTable g) 1) k =
      dropped (s.fileTable k) (if k = g then 1 else 0) := by
    intro k
    by_cases hk : k = g
    · subst hk; simp
    · rw [update_of_ne hk, if_neg hk, dropped_zero]
  have hsub := toNat_sub_ofNat (s.fileTable g).fdPos (show 1 ≤ _ from hpos)
  unfold closePipe at hret
  simp only at hret
  split at hret
  · rename_i hz
    simp only [bind_ok, deref_ok, pure_ok, Except.ok.injEq] at hret
    obtain ⟨b, hb, rfl⟩ := hret
    refine ⟨fun k => (congrFun hf k).trans (hdr k), fun x => ?_, rfl, rfl, rfl⟩
    have hone : 1 = (s.fileTable g).fdPos.toNat := by
      have : ((s.fileTable g).fdPos - .ofNat 1).toNat = 0 := congrArg UInt32.toNat hz
      omega
    -- the slot stops pointing to the buffer that is freed
    have hl := live_update (s := s) (t := { s with
      toFdState := s.toFdState.closePipe g, freed := update s.freed b (s.freed b + 1) }) hf x
    rw [show (dropped (s.fileTable g) 1).fdInode = none from if_pos ⟨Nat.one_pos, hone⟩, hb] at hl
    simp only at hl ⊢
    by_cases hx : x = b
    · subst hx
      simp only [update_self, ite_true, reduceCtorEq, ite_false] at hl ⊢
      omega
    · rw [update_of_ne hx]
      simp only [Option.some.injEq, Ne.symm hx, ite_false, reduceCtorEq] at hl
      omega
  · rename_i hz
    cases hret
    refine ⟨fun k => (congrFun hf k).trans (hdr k), fun x => ?_, rfl, rfl, rfl⟩
    have hone : ¬ (0 < 1 ∧ 1 = (s.fileTable g).fdPos.toNat) := by
      rintro ⟨_, hone⟩
      refine hz (UInt32.toNat_inj.mp ?_)
      change ((s.fileTable g).fdPos - .ofNat 1).toNat = 0
      omega
    have hl := live_update (s := s) (t := { s with toFdState := s.toFdState.closePipe g }) hf x
    rw [show (dropped (s.fileTable g) 1).fdInode = (s.fileTable g).fdInode from if_neg hone] at hl
    simp only at hl ⊢
    omega

theorem releaseFds_released : ∀ (ds : List (Fin 8)) (s s' : PipeState), s.procs p = some P →
    (∀ d ∈ ds, ∀ g, P.fdTable d = some g → s.isPipe g = true) →
    (∀ g, uses P.fdTable ds g ≤ (s.fileTable g).fdPos.toNat) → releaseFds p ds s = .ok s' →
    Released (uses P.fdTable ds) s s'
  | [], s, s', _, _, _, hret => by
    cases hret
    exact ⟨fun g => (dropped_zero _).symm, fun _ => rfl, rfl, rfl, rfl⟩
  | d :: ds, s, s', hP, hpi, hle, hret => by
    simp only [releaseFds, hP, deref, ok_bind] at hret
    have hc : ∀ g, uses P.fdTable (d :: ds) g = (if P.fdTable d = some g then 1 else 0) + uses P.fdTable ds g :=
      fun g => by simp [uses]
    cases hd : P.fdTable d with
    | none =>
      rw [hd] at hret
      have ih := releaseFds_released ds s s' hP (fun e he => hpi e (mem_cons_of_mem d he))
        (fun g => by have := hle g; rw [hc] at this; omega) hret
      have heq : uses P.fdTable (d :: ds) = uses P.fdTable ds := funext fun g => by simp [hc, hd]
      rw [heq]
      exact ih
    | some g =>
      rw [hd] at hret
      simp only [hpi d (mem_cons_self ..) g hd, ite_true, bind_ok] at hret
      obtain ⟨t, ht, hret⟩ := hret
      have hg := hle g
      rw [hc, if_pos hd] at hg
      have h1 := closePipe_released (by omega) ht
      have hl : ∀ k, uses P.fdTable ds k ≤ (t.fileTable k).fdPos.toNat := fun k => by
        have := hle k
        rw [hc, hd] at this
        rw [h1.files]
        by_cases hk : k = g
        · subst hk
          simp only [ite_true, dropped] at this ⊢
          rw [toNat_sub_ofNat _ (by omega)]
          omega
        · rw [if_neg hk, dropped_zero]; omega
      have ih := releaseFds_released ds t s' (by rw [h1.procs]; exact hP)
        (fun e he k hk => by
          have := hpi e (mem_cons_of_mem d he) k hk
          simp only [FdState.isPipe, h1.files, dropped] at this ⊢
          exact this) hl hret
      have heq : uses P.fdTable (d :: ds) = fun k => (if k = g then 1 else 0) + uses P.fdTable ds k := by
        funext k
        rw [hc, hd]
        simp [eq_comm]
      rw [heq]
      refine h1.trans ih fun k => ?_
      rw [← congrFun heq k]
      exact hle k

theorem Inv.release {n : Fin 32 → Nat} (h : s.Inv) (hrel : Released n s t)
    (hf : s'.fileTable = t.fileTable) (hfr : s'.freed = t.freed) (hm : s'.made = t.made)
    (hpi : ∀ p P, s'.procs p = some P → p ≤ 1024) (hre : ∀ g, s'.refs g + n g = s.refs g)
    (hsub : ∀ p d g, s'.Refers p d g → s.Refers p d g ∧ s'.pipeOf p d = s.pipeOf p d)
    (hpp : ∀ p d b, s'.pipeOf p d = some b → ∃ g, s'.Refers p d g)
    (hstd : ∀ g, 0 < n g → s'.refs g = 0 → ∀ p d, ¬ s'.Refers p d g) : s'.Inv := by
  have hfi : ∀ g, s'.fileTable g = dropped (s.fileTable g) (n g) := fun g => by rw [hf, hrel.files]
  refine ⟨hpi, fun g b hb => ?_, fun p d g hr => ?_, hpp, fun b => ?_⟩
  · rw [hfi] at hb ⊢
    simp only [dropped] at hb ⊢
    split at hb
    · cases hb
    rename_i hk
    obtain ⟨h3, hp, hpos, hlt⟩ := h.slot g b hb
    have hr := hre g
    refine ⟨h3, ?_, ?_, by omega⟩
    · simpa [FdState.isPipe, hfi, dropped] using hp
    · rw [toNat_sub_ofNat _ (by omega)]
      omega
  · obtain ⟨hr', hp⟩ := hsub p d g hr
    rw [hp]
    rcases h.ref p d g hr' with hc | ⟨b, hb, hd⟩
    · exact .inl hc
    refine .inr ⟨b, ?_, hd⟩
    rw [hfi]
    refine (if_neg ?_).trans hb
    rintro ⟨hn, he⟩
    have := (h.slot g b hb).2.2.1
    exact hstd g hn (by have := hre g; omega) p d hr
  · have hl : s'.live b = t.live b := live_congr (fun g => by rw [hf]) b
    rw [hfr, hm, hl, hrel.balance, hrel.made]
    exact h.balance b

/-! ## The calls -/

theorem refers_update {o : Option Proc} {q : Nat} {e : Fin 8} (h : t.procs = update s.procs p o) :
    t.Refers q e g ↔ if q = p then ∃ P, o = some P ∧ P.fdTable e = some g else s.Refers q e g := by
  unfold Refers
  rw [h]
  by_cases hq : q = p
  · rw [if_pos hq, hq, update_self]
  · rw [if_neg hq, update_of_ne hq]

theorem pids_update {o : Option Proc} (h : ∀ p P, s.procs p = some P → p ≤ 1024) (hp : p ≤ 1024)
    (ht : t.procs = update s.procs p o) : ∀ q Q, t.procs q = some Q → q ≤ 1024 := by
  intro q Q hq
  by_cases hqp : q = p
  · rw [hqp]; exact hp
  · rw [ht, update_of_ne hqp] at hq
    exact h q Q hq

theorem refers_setFd {q : Nat} {e : Fin 8} (hP : s.procs p = some P) :
    (s.setFd p P d slot o).Refers q e g ↔ if q = p ∧ e = d then slot = some g else s.Refers q e g := by
  have h : (s.setFd p P d slot o).procs = update s.procs p _ := rfl
  rw [refers_update h]
  by_cases hq : q = p
  · by_cases he : e = d
    · simp [hq, he]
    · simp [hq, he, Refers, hP]
  · simp [hq]

theorem pipeOf_setPipe (s : PipeState) (p : Nat) (d : Fin 8) (o : Option Nat) (q : Nat) (e : Fin 8) :
    (s.setPipe p d o).pipeOf q e = if q = p ∧ e = d then o else s.pipeOf q e := by
  unfold setPipe
  by_cases hq : q = p
  · subst hq
    by_cases he : e = d
    · simp [he]
    · simp [he]
  · simp [hq]

theorem pipeOf_setFd (s : PipeState) (p : Nat) (P : Proc) (d : Fin 8) (slot : Option (Fin 32)) (o : Option Nat) (q : Nat)
    (e : Fin 8) : (s.setFd p P d slot o).pipeOf q e = if q = p ∧ e = d then o else s.pipeOf q e :=
  pipeOf_setPipe ..

theorem Inv.sysClose {fd : Fin 8} (h : s.Inv) (hc : (PipeOp.sysClose p fd).Counted s) (hret : s.sysClose p fd = .ok s') :
    s'.Inv := by
  unfold PipeState.sysClose at hret
  split at hret
  · cases hret; exact h
  rename_i hfd
  simp only [bind_ok, deref_ok] at hret
  obtain ⟨P, hP, hret⟩ := hret
  split at hret
  · simp at hret
  rename_i g hg
  have hr : s.Refers p fd g := ⟨P, hP, hg⟩
  obtain ⟨b, hb, -⟩ := h.counted_pipe (by omega) hr
  obtain ⟨-, hpp, hpos, hlt⟩ := h.slot g b hb
  simp only [closeSlot, hpp, ite_true, bind_ok, pure_ok, Except.ok.injEq] at hret
  obtain ⟨t, ht, rfl⟩ := hret
  have hrel := closePipe_released (by omega) ht
  have hpr : (t.setFd p P fd none none).procs =
      update s.procs p (some { P with fdTable := update P.fdTable fd none }) := by
    rw [← hrel.procs]; rfl
  have hre : ∀ q e k, (t.setFd p P fd none none).Refers q e k ↔ ¬ (q = p ∧ e = fd) ∧ s.Refers q e k := by
    intro q e k
    rw [refers_setFd (by rw [hrel.procs]; exact hP)]
    simp only [Refers, hrel.procs]
    split <;> simp [*]
  have hpi : ∀ q e, (t.setFd p P fd none none).pipeOf q e = if q = p ∧ e = fd then none else s.pipeOf q e := by
    intro q e
    rw [pipeOf_setFd, hrel.pipeOf]
  have hrf : ∀ k, (t.setFd p P fd none none).refs k + (if k = g then 1 else 0) = s.refs k := by
    intro k
    have hu := uses_update P.fdTable none (show 3 ≤ fd.val by omega) k
    have hall := refs_update (h.pids p P hP) hpr k
    rw [hP] at hall
    simp only [usesOf, hg, Option.some.injEq, reduceCtorEq, ite_false] at hu hall
    by_cases hk : k = g
    · subst hk; simp only [ite_true] at hu ⊢; omega
    · simp only [hk, Ne.symm hk, ite_false] at hu ⊢; omega
  have hpd := pids_update h.pids (h.pids p P hP) hpr
  refine h.release hrel rfl rfl rfl hpd hrf (fun q e k hq => ?_) (fun q e x hx => ?_) fun k hk hz q e hq => ?_
  · obtain ⟨hne, hq⟩ := (hre q e k).mp hq
    exact ⟨hq, by rw [hpi, if_neg hne]⟩
  · rw [hpi] at hx
    split at hx
    · cases hx
    rename_i hne
    obtain ⟨k, hk⟩ := h.pipe q e x hx
    exact ⟨k, (hre q e k).mpr ⟨hne, hk⟩⟩
  · have hkg : k = g := by
      by_contra hne
      rw [if_neg hne] at hk
      omega
    subst hkg
    have hr1 := hrf k
    rw [if_pos rfl] at hr1
    have hone : (s.fileTable k).fdPos = 1 := UInt32.toNat_inj.mp (by
      rw [hpos]; exact (show s.refs k = 1 by omega))
    by_cases he : e.val < 3
    · exact hc k (by omega) hr hone q e (by simp) he ((hre q e k).mp hq).2
    · obtain ⟨Q, hQ, _⟩ := id hq
      have hp := refs_pos.mpr ⟨q, hpd q Q hQ, e, by omega, hq⟩
      omega

theorem Inv.sysExit (h : s.Inv) (hc : (PipeOp.sysExit p).Counted s) (hret : s.sysExit p = .ok s') : s'.Inv := by
  simp only [PipeState.sysExit, bind_ok, pure_ok, Except.ok.injEq] at hret
  obtain ⟨t, ht, rfl⟩ := hret
  obtain ⟨P, hP⟩ : ∃ P, s.procs p = some P := by
    cases hP : s.procs p with
    | none => simp [releaseFds, fds, hP, deref] at ht
    | some P => exact ⟨P, rfl⟩
  have hle : ∀ g, uses P.fdTable fds g ≤ s.refs g := fun g => by
    have := refs_update (s := s) (t := { s with toFdState := s.setProc p none }) (h.pids p P hP) rfl g
    rw [hP] at this
    simp only [usesOf] at this
    omega
  have hco : ∀ g, uses P.fdTable fds g ≤ (s.fileTable g).fdPos.toNat := fun g => by
    by_cases hz : uses P.fdTable fds g = 0
    · omega
    obtain ⟨d, hd, hT⟩ := uses_pos.mp (Nat.pos_of_ne_zero hz)
    obtain ⟨b, hb, _⟩ := h.counted_pipe (FdState.mem_fds.mp hd) ⟨P, hP, hT⟩
    rw [(h.slot g b hb).2.2.1]
    exact hle g
  have hrel := releaseFds_released fds s t hP
    (fun d hd g hT => h.isPipe_of_counted (FdState.mem_fds.mp hd) ⟨P, hP, hT⟩) hco ht
  generalize hs' : PipeState.mk (t.setProc p none) (update t.pipeOf p fun _ => none) t.made t.freed = s'
  have hpr : s'.procs = update s.procs p none := by rw [← hs', ← hrel.procs]; rfl
  have hpi : s'.pipeOf = update s.pipeOf p fun _ => none := by rw [← hs', ← hrel.pipeOf]
  have hre : ∀ q e k, s'.Refers q e k ↔ q ≠ p ∧ s.Refers q e k := by
    intro q e k
    rw [refers_update hpr]
    split <;> simp [*]
  have hrf : ∀ g, s'.refs g + uses P.fdTable fds g = s.refs g := fun g => by
    have := refs_update (h.pids p P hP) hpr g
    rw [hP] at this
    simpa only [usesOf, Nat.add_zero] using this
  have hpd := pids_update h.pids (h.pids p P hP) hpr
  refine h.release hrel (by rw [← hs']; rfl) (by rw [← hs']) (by rw [← hs']) hpd hrf ?_ ?_ ?_
  · intro q e k hq
    obtain ⟨hqp, hq⟩ := (hre q e k).mp hq
    exact ⟨hq, by rw [hpi, update_of_ne hqp]⟩
  · intro q e x hx
    have hqp : q ≠ p := by
      rintro rfl
      rw [hpi, update_self] at hx
      cases hx
    rw [hpi, update_of_ne hqp] at hx
    obtain ⟨k, hk⟩ := h.pipe q e x hx
    exact ⟨k, (hre q e k).mpr ⟨hqp, hk⟩⟩
  · intro k hk hz q e hq
    obtain ⟨hqp, hq'⟩ := (hre q e k).mp hq
    have hr := hrf k
    by_cases he : e.val < 3
    · refine hc P k hP hk ?_ q e (by simpa using hqp) he hq'
      obtain ⟨d, hd, hT⟩ := uses_pos.mp hk
      obtain ⟨b, hb, _⟩ := h.counted_pipe (FdState.mem_fds.mp hd) ⟨P, hP, hT⟩
      have hpos := (h.slot k b hb).2.2.1
      have hlt := (s.fileTable k).fdPos.toNat_lt
      refine UInt32.toNat_inj.mp ?_
      rw [UInt32.toNat_ofNat_of_lt' (show _ < 2 ^ 32 by omega)]
      omega
    · obtain ⟨Q, hQ, _⟩ := id hq
      have := refs_pos.mpr ⟨q, hpd q Q hQ, e, by omega, hq⟩
      omega

theorem updateInodeOpenCnts_pipes : ∀ (ds : List (Fin 8)) (fs fs' : FdState),
    (∀ d ∈ ds, ∀ g, P.fdTable d = some g → fs.isPipe g = true) → FdState.updateInodeOpenCnts P ds fs = .ok fs' →
    fs'.procs = fs.procs ∧ ∀ g, fs'.fileTable g =
      { fs.fileTable g with fdPos := (fs.fileTable g).fdPos + .ofNat (uses P.fdTable ds g) }
  | [], fs, fs', _, hret => by
    cases hret
    exact ⟨rfl, fun g => by simp [uses]⟩
  | d :: ds, fs, fs', hpi, hret => by
    unfold FdState.updateInodeOpenCnts at hret
    have hc : ∀ g, uses P.fdTable (d :: ds) g = (if P.fdTable d = some g then 1 else 0) + uses P.fdTable ds g :=
      fun g => by simp [uses]
    cases hd : P.fdTable d with
    | none =>
      rw [hd] at hret
      obtain ⟨hp, hf⟩ := updateInodeOpenCnts_pipes ds fs fs' (fun e he => hpi e (mem_cons_of_mem d he)) hret
      exact ⟨hp, fun g => by rw [hf, hc, hd]; simp⟩
    | some g =>
      rw [hd] at hret
      simp only [hpi d (mem_cons_self ..) g hd, ite_true] at hret
      obtain ⟨hp, hf⟩ := updateInodeOpenCnts_pipes ds _ fs' (fun e he k hk => by
        have := hpi e (mem_cons_of_mem d he) k hk
        by_cases hkg : k = g
        · subst hkg; simpa [FdState.isPipe, FdState.setFile] using this
        · simpa [FdState.isPipe, FdState.setFile, hkg] using this) hret
      refine ⟨hp, fun k => ?_⟩
      rw [hf, hc, hd]
      by_cases hkg : k = g
      · subst hkg
        simp only [FdState.setFile, update_self, ite_true, UInt32.ofNat_add]
        rw [UInt32.add_assoc]
        rfl
      · simp [FdState.setFile, hkg, Ne.symm hkg]

theorem uses_le (T : Fin 8 → Option (Fin 32)) (g : Fin 32) : uses T fds g ≤ 5 := by
  have hone : ∀ d, (if T d = some g then 1 else 0) ≤ 1 := fun d => by split <;> omega
  have := hone 3; have := hone 4; have := hone 5; have := hone 6; have := hone 7
  simp only [uses, fds, map_cons, map_nil, sum_cons, sum_nil]
  omega

theorem refs_le (s : PipeState) (g : Fin 32) : s.refs g ≤ 1025 * 5 := by
  have hp : ∀ x ∈ (List.range 1025).map fun p => usesOf (s.procs p) g, x ≤ 5 := by
    intro x hx
    obtain ⟨p, _, rfl⟩ := mem_map.mp hx
    cases s.procs p with
    | none => exact Nat.zero_le _
    | some P => exact uses_le P.fdTable g
  have := sum_le_card_nsmul _ 5 hp
  rwa [length_map, length_range, smul_eq_mul] at this

theorem Inv.sysFork {child : Nat} (h : s.Inv) (hpid : s.procs child = none) (hc : child ≤ 1024)
    (hret : s.sysFork p child = .ok s') : s'.Inv := by
  simp only [PipeState.sysFork, FdState.sysFork, bind_ok, deref_ok, pure_ok, Except.ok.injEq] at hret
  obtain ⟨_, ⟨P, hP, fs, hlo, rfl⟩, rfl⟩ := hret
  obtain ⟨hpr, hf⟩ := updateInodeOpenCnts_pipes fds s.toFdState fs
    (fun d hd g hT => h.isPipe_of_counted (FdState.mem_fds.mp hd) ⟨P, hP, hT⟩) hlo
  generalize hs' : PipeState.mk (fs.setProc child (some P)) (update s.pipeOf child (s.pipeOf p)) s.made
    s.freed = s'
  have hpc : s'.procs = update s.procs child (some P) := by rw [← hs', ← hpr]; rfl
  have hfi : ∀ g, s'.fileTable g =
      { s.fileTable g with fdPos := (s.fileTable g).fdPos + .ofNat (uses P.fdTable fds g) } := fun g => by
    rw [← hs']; exact hf g
  have hpi : s'.pipeOf = update s.pipeOf child (s.pipeOf p) := by rw [← hs']
  -- the child has the references of its parent
  have hled : ∀ q d, s'.Led q d := by
    intro q d
    by_cases hq : q = child
    · refine (h.led p d).congr (fun g => ?_) (by rw [hpi, hq, update_self]) fun g b => by rw [hfi]; exact id
      rw [refers_update hpc, if_pos hq]
      simp [Refers, hP]
    · refine (h.led q d).congr (fun g => ?_) (by rw [hpi, update_of_ne hq]) fun g b => by rw [hfi]; exact id
      rw [refers_update hpc, if_neg hq]
  have hre : ∀ g, s'.refs g = s.refs g + uses P.fdTable fds g := fun g => by
    have := refs_update hc hpc g
    rw [hpid] at this
    simpa only [usesOf, Nat.add_zero] using this
  refine ⟨pids_update h.pids hc hpc, fun g b hb => ?_, fun q d => (hled q d).ref, fun q d => (hled q d).pipe,
    fun b => ?_⟩
  · rw [hfi] at hb ⊢
    obtain ⟨h3, hp, hpos, hlt⟩ := h.slot g b hb
    have hu := uses_le P.fdTable g
    have hr := refs_le s g
    refine ⟨h3, by simpa [FdState.isPipe, hfi] using hp, ?_, by rw [hre]; omega⟩
    rw [hre, UInt32.toNat_add, UInt32.toNat_ofNat_of_lt' (show _ < 2 ^ 32 by omega), hpos, Nat.mod_eq_of_lt (by omega)]
  · have hl : s'.live b = s.live b := live_congr (fun g => by rw [hfi]) b
    rw [hl, ← hs']
    exact h.balance b

theorem Inv.setStandard (h : s.Inv) (hP : s.procs p = some P) (hd : d.val < 3)
    (hs : ∀ g, slot = some g → (g.val < 3 ∧ o = none) ∨ ∃ b, (s.fileTable g).fdInode = some b ∧ o = some b)
    (ho : ∀ b, o = some b → slot ≠ none) : (s.setFd p P d slot o).Inv := by
  have hp : (s.setFd p P d slot o).procs = update s.procs p _ := rfl
  have hre : ∀ g, (s.setFd p P d slot o).refs g = s.refs g := fun g => by
    have := refs_update (h.pids p P hP) hp g
    rw [hP] at this
    simp only [usesOf, uses_standard P.fdTable slot hd] at this
    omega
  have hled : ∀ q e, (s.setFd p P d slot o).Led q e := by
    intro q e
    by_cases hqe : q = p ∧ e = d
    · refine ⟨fun g hr => ?_, fun b hb => ?_⟩
      · rw [refers_setFd hP, if_pos hqe] at hr
        rw [pipeOf_setFd, if_pos hqe]
        rcases hs g hr with ⟨hg, hn⟩ | hb
        · exact .inl ⟨hg, by rw [hqe.2]; exact hd, hn⟩
        · exact .inr hb
      · rw [pipeOf_setFd, if_pos hqe] at hb
        obtain ⟨g, hg⟩ := Option.ne_none_iff_exists'.mp (ho b hb)
        exact ⟨g, (refers_setFd hP).mpr (by rw [if_pos hqe]; exact hg)⟩
    · exact (h.led q e).congr (fun g => by rw [refers_setFd hP, if_neg hqe]) (by rw [pipeOf_setFd, if_neg hqe])
        fun _ _ hb => hb
  exact ⟨pids_update h.pids (h.pids p P hP) hp, fun g b hb => by rw [hre]; exact h.slot g b hb,
    fun q e => (hled q e).ref, fun q e => (hled q e).pipe, h.balance⟩

theorem Inv.sysFdRedirect {old new : Nat} (h : s.Inv) (hold : old < 3) (hret : s.sysFdRedirect p old new = .ok s') :
    s'.Inv := by
  simp only [PipeState.sysFdRedirect, bind_ok, deref_ok, inBounds_ok] at hret
  obtain ⟨P, hP, _, _, hret⟩ := hret
  have hd : (Fin.ofNat 8 old).val < 3 := by rw [Fin.val_ofNat, Nat.mod_eq_of_lt (by omega)]; exact hold
  split at hret
  · rename_i hnew
    cases hret
    refine h.setStandard hP hd (fun g hg => .inl ⟨?_, rfl⟩) (fun b hb => by cases hb)
    cases hg
    rw [Fin.val_ofNat, Nat.mod_eq_of_lt (by omega)]
    exact hnew
  · rename_i hnew
    simp only [bind_ok, inBounds_ok, pure_ok, Except.ok.injEq] at hret
    obtain ⟨_, hlt, rfl⟩ := hret
    have hval : 3 ≤ (Fin.ofNat 8 new).val := by rw [Fin.val_ofNat, Nat.mod_eq_of_lt hlt]; omega
    refine h.setStandard hP hd (fun g hg => .inr (h.counted_pipe hval ⟨P, hP, hg⟩)) fun b hb hn => ?_
    obtain ⟨g, Q, hQ, hg⟩ := h.pipe p _ b hb
    rw [hP] at hQ
    cases hQ
    rw [hn] at hg
    cases hg

theorem Inv.sysLseek {fd : Fin 8} {offset : Int32} {whence : Nat} {iSize : UInt32} (h : s.Inv)
    (hc : (PipeOp.sysLseek p fd offset whence iSize).Counted s)
    (hret : s.sysLseek p fd offset whence iSize = .ok s') : s'.Inv := by
  simp only [PipeState.sysLseek, bind_ok, deref_ok] at hret
  obtain ⟨_, _, P, hP, hret⟩ := hret
  split at hret
  · simp at hret
  rename_i g hg
  simp only [bind_ok, deref_ok] at hret
  obtain ⟨b, hb, hret⟩ := hret
  split at hret
  · cases hret; exact h
  rename_i pos hpos
  cases hret
  rcases hc g ⟨P, hP, hg⟩ (h.slot g b hb).2.1 with hn | hs
  · rw [hpos] at hn; cases hn
  · rw [hpos] at hs
    cases hs
    have heq : s.setFile g { s.fileTable g with fdPos := (s.fileTable g).fdPos } = s.toFdState := by
      simp [FdState.setFile]
    rw [heq]
    exact h

theorem pcbFdInstall_ends {fs : FdState} (hP : fs.procs p = some P) (g : Fin 32) :
    (fs.pcbFdInstall p g = .ok (fs, none) ∧ ∀ d : Fin 8, 3 ≤ d.val → P.fdTable d ≠ none) ∨
    ∃ d O, 3 ≤ d.val ∧ P.fdTable d = none ∧
      fs.pcbFdInstall p g = .ok (fs.setProc p (some ⟨update P.fdTable d (some g), O⟩), some d) := by
  simp only [FdState.pcbFdInstall, hP, deref, ok_bind]
  split
  · rename_i hf
    refine .inl ⟨rfl, fun d hd hn => ?_⟩
    have := List.find?_eq_none.mp hf d (mem_finRange d)
    simp [hd, hn] at this
  · rename_i d hf
    have := List.find?_some hf
    simp only [Bool.and_eq_true, decide_eq_true_eq, Option.isNone_iff_eq_none] at this
    exact .inr ⟨d, _, this.1, this.2, rfl⟩

theorem sysPipe_ends (hP : s.procs p = some P) (hg : s.getFreeSlotInGlobal = some g) (b : Nat) :
    ((¬ ∃ d e : Fin 8, 3 ≤ d.val ∧ d < e ∧ P.fdTable d = none ∧ P.fdTable e = none) ∧
      ∃ s' fd, s.sysPipe p (some b) = .ok (s', fd, none)) ∨
    ∃ d e O fs, 3 ≤ d.val ∧ 3 ≤ e.val ∧ e ≠ d ∧ P.fdTable d = none ∧ P.fdTable e = none ∧
      fs.fileTable = update s.fileTable g ⟨2, pipeFlag, some b⟩ ∧
      fs.procs = update s.procs p (some ⟨update (update P.fdTable d (some g)) e (some g), O⟩) ∧
      s.sysPipe p (some b) = .ok ((({ s with toFdState := fs, made := b :: s.made }.label p (some d) b).label p (some e) b), some d, some e) := by
  have hPg : (s.setFile g ⟨2, pipeFlag, some b⟩).procs p = some P := hP
  simp only [PipeState.sysPipe, hg, deref, ok_bind]
  rcases pcbFdInstall_ends hPg g with ⟨h1, hall⟩ | ⟨d, O, hd, hTd, h1⟩
  · refine .inl ⟨?_, by rw [h1, ok_bind, h1]; exact ⟨_, _, rfl⟩⟩
    rintro ⟨d, -, hd, -, hTd, -⟩
    exact hall d hd hTd
  rw [h1, ok_bind]
  have hP1 : ((s.setFile g ⟨2, pipeFlag, some b⟩).setProc p (some ⟨update P.fdTable d (some g), O⟩)).procs p =
      some ⟨update P.fdTable d (some g), O⟩ := update_self ..
  rcases pcbFdInstall_ends hP1 g with ⟨h2, hall⟩ | ⟨e, O', he, hTe, h2⟩
  · refine .inl ⟨?_, by rw [h2]; exact ⟨_, _, rfl⟩⟩
    rintro ⟨d', e', hd', hlt, hTd', hTe'⟩
    -- one of the two is not the descriptor installed first
    by_cases hdd : d' = d
    · exact hall e' (by omega) ((update_of_ne (fun h => by rw [h, hdd] at hlt; omega) ..).trans hTe')
    · exact hall d' hd' ((update_of_ne hdd ..).trans hTd')
  · have hed : e ≠ d := fun hed => by
      rw [hed] at hTe
      simp at hTe
    refine .inr ⟨d, e, O', _, hd, he, hed, hTd, (update_of_ne hed ..).symm.trans hTe, rfl, ?_, by rw [h2]; rfl⟩
    exact update_idem ..

theorem Inv.sysPipe {ret : Option (Fin 8) × Option (Fin 8)} (h : s.Inv) (hnew : b ∉ s.made)
    (hc : (PipeOp.sysPipe p (some b)).Counted s) (hret : s.sysPipe p (some b) = .ok (s', ret)) : s'.Inv := by
  obtain ⟨g, hg⟩ : ∃ g, s.getFreeSlotInGlobal = some g := by
    cases hg : s.getFreeSlotInGlobal with
    | none =>
      unfold PipeState.sysPipe at hret
      rw [hg] at hret
      cases hret
    | some g => exact ⟨g, rfl⟩
  have hf1 := FdState.getFree_spec hg
  have hg3 : 3 ≤ g.val := by
    have := List.find?_some hg
    simp only [Bool.and_eq_true, decide_eq_true_eq] at this
    exact this.1
  obtain ⟨P, hP⟩ : ∃ P, s.procs p = some P := by
    simp only [PipeState.sysPipe, hg, bind_ok, FdState.pcbFdInstall, deref_ok] at hret
    obtain ⟨_, _, _, ⟨P, hP, -⟩, -⟩ := hret
    exact ⟨P, hP⟩
  -- both ends are installed
  rcases sysPipe_ends hP hg b with ⟨hn, -⟩ | ⟨d, e, O', f2, hd, he, hed, hTd, hTe, hf2, hp2, hok⟩
  · exact absurd (hc P hP) hn
  cases hret.symm.trans hok
  generalize hs' : (({ s with toFdState := f2, made := b :: s.made } : PipeState).label p (some d) b).label p (some e) b = s'
  have hf : s'.fileTable = update s.fileTable g ⟨2, pipeFlag, some b⟩ := by
    rw [← hs']; exact hf2
  have hpr : s'.procs = update s.procs p
      (some ⟨update (update P.fdTable d (some g)) e (some g), O'⟩) := by
    rw [← hs']; exact hp2
  have hpi : ∀ q x, s'.pipeOf q x = if q = p ∧ (x = d ∨ x = e) then some b else s.pipeOf q x := by
    intro q x
    rw [← hs']
    simp only [label, pipeOf_setPipe]
    grind
  have hre : ∀ q x k, s'.Refers q x k ↔ if q = p ∧ (x = d ∨ x = e) then k = g else s.Refers q x k := by
    intro q x k
    rw [refers_update hpr]
    by_cases hq : q = p
    · by_cases hx : x = e
      · simp [hq, hx, eq_comm]
      · by_cases hxd : x = d
        · simp [hq, hxd, Ne.symm hed, eq_comm]
        · simp [hq, hx, hxd, Refers, hP]
    · simp [hq]
  have hrf : ∀ k, s'.refs k = s.refs k + if k = g then 2 else 0 := fun k => by
    have hall := refs_update (h.pids p P hP) hpr k
    have hu1 := uses_update P.fdTable (some g) hd k
    have hu2 := uses_update (update P.fdTable d (some g)) (some g) he k
    rw [update_of_ne hed, hTe] at hu2
    rw [hTd] at hu1
    rw [hP] at hall
    simp only [usesOf, reduceCtorEq, ite_false, Option.some.injEq] at hall hu1 hu2
    by_cases hk : k = g
    · subst hk; simp only [ite_true] at hu1 hu2 ⊢; omega
    · simp only [hk, Ne.symm hk, ite_false] at hu1 hu2 ⊢; omega
  have hled : ∀ q x, s'.Led q x := by
    intro q x
    by_cases hq : q = p ∧ (x = d ∨ x = e)
    · refine ⟨fun k hr => .inr ⟨b, ?_, by rw [hpi, if_pos hq]⟩, fun y _ => ⟨g, (hre q x g).mpr (by rw [if_pos hq])⟩⟩
      rw [hre, if_pos hq] at hr
      rw [hr, hf, update_self]
    · refine (h.led q x).congr (fun k => by rw [hre, if_neg hq]) (by rw [hpi, if_neg hq]) fun k y hy => ?_
      have hk : k ≠ g := fun e => by rw [e, hf1] at hy; cases hy
      rw [hf, update_of_ne hk]
      exact hy
  refine ⟨pids_update h.pids (h.pids p P hP) hpr, fun k x hx => ?_, fun q x => (hled q x).ref,
    fun q x => (hled q x).pipe, fun x => ?_⟩
  · rw [hrf]
    simp only [FdState.isPipe, hf] at hx ⊢
    by_cases hk : k = g
    · subst hk
      rw [update_self, if_pos rfl, h.refs_free hf1]
      exact ⟨hg3, by simp, rfl, by omega⟩
    · rw [update_of_ne hk] at hx ⊢
      rw [if_neg hk, Nat.add_zero]
      exact h.slot k x hx
  · have hl := live_update hf x
    have hbal := h.balance x
    have hfr : s'.freed = s.freed := by rw [← hs']; rfl
    have hmd : s'.made = b :: s.made := by rw [← hs']; rfl
    rw [hf1] at hl
    simp only [reduceCtorEq, ite_false, Option.some.injEq] at hl
    rw [hfr, hmd]
    by_cases hx : x = b
    · subst hx
      rw [if_neg hnew] at hbal
      simp only [ite_true, mem_cons, true_or] at hl ⊢
      omega
    · simp only [Ne.symm hx, ite_false, mem_cons, hx, false_or] at hl ⊢
      omega

theorem Start.inv (h : s.Start) : s.Inv := by
  refine ⟨fun p P hP => (h.procs p P hP).1, fun g b hb => ?_, fun p d g hr => .inl ?_, fun p d b hb => ?_, fun b => ?_⟩
  · rw [h.files] at hb; cases hb
  · obtain ⟨P, hP, hT⟩ := hr
    rw [(h.procs p P hP).2 d] at hT
    split at hT
    · cases hT
      exact ⟨by rw [Fin.val_ofNat, Nat.mod_eq_of_lt (by omega)]; assumption, ‹_›, h.pipeOf p d⟩
    · cases hT
  · rw [h.pipeOf] at hb; cases hb
  · have hl : s.live b = 0 := by
      by_contra hne
      obtain ⟨g, hg⟩ := live_pos.mp (Nat.pos_of_ne_zero hne)
      rw [h.files] at hg
      cases hg
    rw [hl, h.freed, h.made]
    simp

theorem Inv.step {op : PipeOp} (h : s.Inv) (hc : op.Counted s) (hs : PipeStep op s s') : s'.Inv := by
  cases hs with
  | sysPipe hnew hret => exact h.sysPipe hnew hc hret
  | sysFork hpid hle hret => exact h.sysFork hpid hle hret
  | sysFdRedirect hret => exact h.sysFdRedirect hc hret
  | sysLseek hret => exact h.sysLseek hc hret
  | sysClose hret => exact h.sysClose hc hret
  | sysExit hret => exact h.sysExit hc hret

end PipeState

/-- **When a pipe lives as long as its descriptors**: the counts show all changes of references.
-/
theorem pipe_lifetime (s : PipeState)
    (h : Reach (fun s s' => ∃ op : PipeOp, op.Counted s ∧ PipeStep op s s') PipeState.Start s) : s.Lifetime := by
  have hinv : s.Inv := h.invariant (fun _ hs => hs.inv) fun _ _ hs ⟨_, hc, hst⟩ => hs.step hc hst
  exact hinv.lifetime

def pipeStart : PipeState where
  toFdState := fdStart
  pipeOf _ _ := none
  made := []
  freed _ := 0

theorem pipeStart_start : pipeStart.Start := by
  refine ⟨fun _ => rfl, fun p P hP => ?_, fun _ _ => rfl, rfl, fun _ => rfl⟩
  have hP : fdStart.procs p = some P := hP
  unfold fdStart at hP
  simp only at hP
  split at hP
  · cases hP
    exact ⟨by omega, fun _ => rfl⟩
  · cases hP

def PipeState.after (r : Exec PipeState) : PipeState :=
  match r with
  | .ok s => s
  | .error _ => pipeStart

def pipeMade : PipeState := .after ((pipeStart.sysPipe 1 (some 7)).map Prod.fst)

theorem pipeMade_step : PipeStep (.sysPipe 1 (some 7)) pipeStart pipeMade :=
  .sysPipe (by decide) (show pipeStart.sysPipe 1 (some 7) = .ok (pipeMade, some 3, some 4) from rfl)

def pipeRedirected : PipeState := .after (pipeMade.sysFdRedirect 1 1 4)

def pipeShared : PipeState := .after (pipeRedirected.sysFork 1 2)

/-- The child closes the reading end after the fork. -/
theorem pipe_lifetime_shared : ∃ s, pipeShared.sysClose 2 3 = .ok s ∧ s.Lifetime ∧ s.Refers 1 1 3 ∧ s.Refers 2 4 3 ∧
    s.pipeOf 1 1 = some 7 := by
  have h1 : Reach (fun s s' => ∃ op : PipeOp, op.Counted s ∧ PipeStep op s s') PipeState.Start pipeMade := by
    refine (Reach.refl pipeStart_start).tail ⟨.sysPipe 1 (some 7), fun P hP => ?_, pipeMade_step⟩
    cases hP
    exact ⟨3, 4, by decide, by decide, rfl, rfl⟩
  have hred : PipeStep (.sysFdRedirect 1 1 4) pipeMade pipeRedirected := .sysFdRedirect rfl
  have hfork : PipeStep (.sysFork 1 2) pipeRedirected pipeShared := .sysFork rfl (by decide) rfl
  have h2 := (h1.tail ⟨.sysFdRedirect 1 1 4, (by decide : 1 < 3), hred⟩).tail ⟨.sysFork 1 2, trivial, hfork⟩
  refine ⟨_, rfl, pipe_lifetime _ (h2.tail ⟨.sysClose 2 3, fun g _ hg hpos => ?_, .sysClose rfl⟩), ⟨_, rfl, rfl⟩,
    ⟨_, rfl, rfl⟩, rfl⟩
  obtain ⟨P, hP, hg⟩ := hg
  cases hP
  cases hg
  exact absurd hpos (by decide)

def pipeHalfClosed : PipeState := .after (pipeRedirected.sysClose 1 (Fin.ofNat 8 3))

def pipeClosed : PipeState := .after (pipeHalfClosed.sysClose 1 (Fin.ofNat 8 4))

/-- Standard output still leads to the slot when the buffer is freed. -/
theorem redirected_pipe_freed : pipeStart.Start ∧ PipeStep (.sysPipe 1 (some 7)) pipeStart pipeMade ∧
    PipeStep (.sysFdRedirect 1 1 4) pipeMade pipeRedirected ∧ PipeStep (.sysClose 1 3) pipeRedirected pipeHalfClosed ∧
    PipeStep (.sysClose 1 4) pipeHalfClosed pipeClosed ∧ ¬ pipeClosed.Lifetime := by
  refine ⟨pipeStart_start, pipeMade_step, .sysFdRedirect rfl, .sysClose rfl, .sysClose rfl, fun h => ?_⟩
  have hk := h.kept 1 1 3 7 ⟨_, rfl, rfl⟩ rfl
  exact absurd hk.1 (by decide)

end OperateSystem
