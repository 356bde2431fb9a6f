import OperateSystem.ForkPages
import OperateSystem.WaitSound

/-!
# What a child leaves behind

The life of a child between the fork and the end of the wait. `Kin` is what the
scheduler keeps of it, `Child` and `Remains` are what it holds before and after its
exit. At the end nothing is held but the pages of the bitmap that
`release_prog_resource` forgets.
-/

namespace OperateSystem

open Function List

namespace Sched

variable {s0 s s' : Sched} {child i : Nat}
variable {status : Int} {pid t : Nat}

/-! ## Turns -/

theorem schedule_turn (h : s.schedule = .ok s') (hne : s.status s.cur = .running ∨ s.readyList ≠ []) :
    s'.cur :: s'.readyList = (if s.status s.cur = .running then s.readyList ++ [s.cur] else s.readyList) ∧
      s'.mainThread = s.mainThread ∧ s'.idleThread = s.idleThread := by
  unfold Sched.schedule at h
  obtain ⟨s1, hreq, h⟩ := bind_ok.mp h
  obtain ⟨s2, hw, h⟩ := bind_ok.mp h
  have h1 : s1.readyList = (if s.status s.cur = .running then s.readyList ++ [s.cur] else s.readyList) ∧
      s1.readyList ≠ [] ∧ s1.mainThread = s.mainThread ∧ s1.idleThread = s.idleThread := by
    unfold requeue at hreq
    by_cases hc : s.status s.cur = .running
    · rw [if_pos hc] at hreq
      obtain ⟨_, -, hreq⟩ := bind_ok.mp hreq
      cases hreq
      rw [if_pos hc]
      exact ⟨rfl, by simp [setStatus], rfl, rfl⟩
    · rw [if_neg hc] at hreq
      cases hreq
      rw [if_neg hc]
      exact ⟨rfl, hne.resolve_left hc, rfl, rfl⟩
  obtain ⟨hr, hn, hm, hi⟩ := h1
  unfold wakeIdle at hw
  rw [if_neg hn] at hw
  cases hw
  unfold switch at h
  rw [← hr]
  cases hl : s1.readyList with
  | nil => exact absurd hl hn
  | cons next rest =>
    rw [hl] at h
    cases h
    exact ⟨rfl, hm, hi⟩

theorem threadBlock_turn {st : TaskStatus} {c : Cont} (h : s.threadBlock st c = .ok s') (hst : st.Asleep)
    (hne : s.readyList ≠ []) :
    s'.cur :: s'.readyList = s.readyList ∧ s'.mainThread = s.mainThread ∧ s'.idleThread = s.idleThread := by
  unfold Sched.threadBlock at h
  obtain ⟨_, -, h⟩ := bind_ok.mp h
  have hs : ((s.setStatus s.cur st).setCont s.cur c).status s.cur = st := setStatus_self ..
  have hrun : st ≠ .running := by rcases hst with rfl | rfl | rfl <;> simp
  have ht := schedule_turn h (.inr hne)
  rw [if_neg (by rw [show ((s.setStatus s.cur st).setCont s.cur c).cur = s.cur from rfl, hs]; exact hrun)] at ht
  exact ht

theorem sysWait_sleeps (h : s.sysWait = .ok (s', .sleeps)) :
    s.findHangingChild s.pcbCur.pid = none ∧ s.threadBlock .waiting .sysWait = .ok s' := by
  unfold Sched.sysWait at h
  split at h
  · obtain ⟨_, -, h⟩ := bind_ok.mp h
    cases h
  · next hn =>
    split at h
    · cases h
    · obtain ⟨s1, hb, h⟩ := bind_ok.mp h
      cases h
      exact ⟨hn, hb⟩

theorem sysExit_turn (hc : s.cur ∈ s.allList) (hown : s.pcbCur.parentPid ≠ some s.pcbCur.pid)
    (h : s.sysExit status = .ok s') : ∃ parent ∈ s.allList, s.pcbCur.parentPid = some (s.pcb parent).pid ∧
      (s.status parent = .waiting → s'.cur :: s'.readyList = parent :: s.readyList ∧ s'.mainThread = s.mainThread ∧
        s'.idleThread = s.idleThread) ∧
      (s.status parent ≠ .waiting → s.readyList ≠ [] → s'.cur :: s'.readyList = s.readyList ∧
        s'.mainThread = s.mainThread ∧ s'.idleThread = s.idleThread) := by
  have hpcb := s.setPcb_exitStatus (Int8.ofInt status)
  unfold Sched.sysExit at h
  dsimp only at h
  generalize hs1 : s.setPcb s.cur { s.pcbCur with exitStatus := Int8.ofInt status } = s1 at h hpcb
  obtain ⟨hst, hall, hcur, hre, hm, hi⟩ : s1.status = s.status ∧ s1.allList = s.allList ∧ s1.cur = s.cur ∧
      s1.readyList = s.readyList ∧ s1.mainThread = s.mainThread ∧ s1.idleThread = s.idleThread := by
    rw [← hs1]
    exact ⟨rfl, rfl, rfl, rfl, rfl, rfl⟩
  split at h
  · cases h
  split at h
  · cases h
  next parent hf =>
  obtain ⟨hmem, hpp⟩ := find_mem hf
  obtain ⟨s2, hwa, h⟩ := bind_ok.mp h
  have hst2 : (s1.initAdopt s1.pcbCur.pid).status parent = s.status parent := congrFun hst parent
  have ha : TaskStatus.hanging.Asleep := .inr (.inr rfl)
  unfold Sched.wakeParent at hwa
  rw [hst2] at hwa
  refine ⟨parent, hall ▸ hmem, ?_, fun hw => ?_, fun hw hne => ?_⟩
  · have hcur1 : ((s1.initAdopt s1.pcbCur.pid).pcbCur).parentPid = s.pcbCur.parentPid := by
      show ((s1.initAdopt s1.pcbCur.pid).pcb s1.cur).parentPid = _
      rw [initAdopt_parentPid (by rw [hcur, hall]; exact hc), hcur, (hpcb s.cur).2.1]
      unfold pcbCur
      rw [hcur, (hpcb s.cur).1]
      exact if_neg hown
    rw [← hcur1, ← hpp, (initAdopt_pid ..).1, (hpcb parent).1]
  · rw [if_pos hw] at hwa
    unfold Sched.threadUnblock at hwa
    obtain ⟨_, -, hwa⟩ := bind_ok.mp hwa
    obtain ⟨_, hr, hwa⟩ := bind_ok.mp hwa
    rw [if_neg (assert_debug_ok.mp hr)] at hwa
    cases hwa
    have ht := threadBlock_turn h ha nofun
    rw [← hre, ← hm, ← hi]
    exact ht
  · rw [if_neg hw] at hwa
    cases hwa
    have ht := threadBlock_turn h ha (show s1.readyList ≠ [] by rwa [hre])
    rw [← hre, ← hm, ← hi]
    exact ht

/-! ## The child and its parent in the scheduler -/

structure Kin (s0 s : Sched) (child i : Nat) : Prop where
  inv : s.Inv
  family : s.Family
  all : s.allList = s0.allList ++ [child]
  fresh : child ∉ s0.allList
  pids : s.pidBitmap = bitmapSet s0.pidBitmap i true
  pid : (s.pcb child).pid = i + pidStart
  parent : (s.pcb child).parentPid = some (s.pcb s0.cur).pid
  pgdir : (s.pcb child).pgdir = true
  main : s.mainThread = s0.mainThread
  idle : s.idleThread = s0.idleThread
  cur : s0.cur ∈ s0.allList
  notIdle : s0.cur ≠ s0.idleThread
  others : s.others s0.cur child ~r s0.others s0.cur child

structure Alive (s0 s : Sched) (child i : Nat) : Prop extends Kin s0 s child i where
  child : child ∈ s.cur :: s.readyList
  waits : s.status s0.cur = .waiting ∨ s0.cur ∈ s.cur :: s.readyList

structure Hangs (s0 s : Sched) (child i : Nat) : Prop extends Kin s0 s child i where
  hanging : s.status child = .hanging

theorem Kin.child_mem (h : Kin s0 s child i) : child ∈ s.allList := by simp [h.all]

theorem Kin.parent_mem (h : Kin s0 s child i) : s0.cur ∈ s.allList := by simp [h.all, h.cur]

theorem Kin.ne (h : Kin s0 s child i) : s0.cur ≠ child := fun e => h.fresh (e ▸ h.cur)

theorem others_rotate (hq : s'.cur :: s'.readyList = s.readyList ++ [s.cur]) (p c : Nat) :
    s'.others p c ~r s.others p c := by
  unfold others
  rw [hq, show s.cur :: s.readyList = [s.cur] ++ s.readyList from rfl, filter_append, filter_append]
  exact isRotated_append

theorem others_eq {p c : Nat} (hq : s'.cur :: s'.readyList = s.readyList) (hc : s.cur = p ∨ s.cur = c) :
    s'.others p c = s.others p c := by
  unfold others
  rw [hq]
  refine (filter_cons_of_neg ?_).symm
  rcases hc with e | e <;> simp [e]

theorem Kin.step (h : Kin s0 s child i) (hi : s'.Inv) (hk : SameKin s s') (hm : s'.mainThread = s.mainThread)
    (hid : s'.idleThread = s.idleThread) (ho : s'.others s0.cur child ~r s.others s0.cur child) :
    Kin s0 s' child i where
  inv := hi
  family := h.family.same hk
  all := hk.all.trans h.all
  fresh := h.fresh
  pids := hk.pids.trans h.pids
  pid := (hk.pcb child h.child_mem).1.trans h.pid
  parent := by
    rw [(hk.pcb child h.child_mem).2.1, (hk.pcb _ h.parent_mem).1]
    exact h.parent
  pgdir := (hk.pcb child h.child_mem).2.2.trans h.pgdir
  main := hm.trans h.main
  idle := hid.trans h.idle
  cur := h.cur
  notIdle := h.notIdle
  others := ho.trans h.others

theorem Kin.schedule (h : Kin s0 s child i) (hr : s.schedule = .ok s') :
    Kin s0 s' child i ∧ Keeps s s' ∧ s'.cur :: s'.readyList = s.readyList ++ [s.cur] := by
  obtain ⟨s1, hs1, hi, hk⟩ := h.inv.schedule
  rw [hr] at hs1
  cases hs1
  obtain ⟨hq, hm, hid⟩ := schedule_turn hr (.inl h.inv.status_cur)
  rw [if_pos h.inv.status_cur] at hq
  exact ⟨h.step hi hk.kin hm hid (others_rotate hq _ _), hk, hq⟩

theorem mem_turn {l l' : List Nat} {c : Nat} (hq : l' = l ++ [c]) : t ∈ l' ↔ t ∈ c :: l := by
  rw [hq, mem_append, mem_singleton, mem_cons, or_comm]

theorem Alive.schedule (h : Alive s0 s child i) (hr : s.schedule = .ok s') : Alive s0 s' child i := by
  obtain ⟨hkin, hk, hq⟩ := h.toKin.schedule hr
  refine ⟨hkin, (mem_turn hq).mpr h.child, ?_⟩
  rw [hk.waiting _ h.parent_mem, mem_turn hq]
  exact h.waits

theorem Hangs.schedule (h : Hangs s0 s child i) (hr : s.schedule = .ok s') : Hangs s0 s' child i := by
  obtain ⟨hkin, hk, -⟩ := h.toKin.schedule hr
  exact ⟨hkin, (hk.hanging _ h.child_mem).mpr h.hanging⟩

theorem Alive.wait (h : Alive s0 s child i) (hc : s.cur = s0.cur) (hr : s.sysWait = .ok (s', .sleeps)) :
    Alive s0 s' child i := by
  obtain ⟨-, hb⟩ := sysWait_sleeps hr
  have hil : s.cur ≠ s.idleThread := by
    rw [hc, h.idle]
    exact h.notIdle
  have ha : TaskStatus.waiting.Asleep := .inr (.inl rfl)
  have hch := (mem_cons.mp h.child).resolve_left fun e => h.ne (hc.symm.trans e.symm)
  obtain ⟨hq, hm, hid⟩ := threadBlock_turn hb ha (ne_nil_of_mem hch)
  obtain ⟨s1, hs1, hi, hk⟩ := h.inv.threadBlock .waiting .sysWait ha fun e => absurd e hil
  rw [hb] at hs1
  cases hs1
  have hkin : SameKin s s' := ⟨hk.all, hk.pids, fun t _ => by rw [hk.pcb]; exact ⟨rfl, rfl, rfl⟩⟩
  refine ⟨h.step hi hkin hm hid ?_, hq ▸ hch, .inl ?_⟩
  · rw [others_eq hq (.inl hc)]
  · rw [hk.waiting _ h.parent_mem, ← hc]
    exact setStatus_self ..

theorem Hangs.not_sleeps (h : Hangs s0 s child i) (hc : s.cur = s0.cur) : s.sysWait ≠ .ok (s', .sleeps) := by
  intro hr
  have hn := (sysWait_sleeps hr).1
  have := List.find?_eq_none.mp hn child h.child_mem
  simp [h.hanging, h.parent, pcbCur, hc] at this

theorem Hangs.cur_ne (h : Hangs s0 s child i) : s.cur ≠ child := fun e => by
  have := h.inv.status_cur
  rw [e, h.hanging] at this
  cases this

theorem Alive.exit (h : Alive s0 s child i) (hc : s.cur = child) (hr : s.sysExit status = .ok s') :
    Hangs s0 s' child i := by
  have hil : s.cur ≠ s.idleThread := fun e => by
    have := h.inv.idleParent
    rw [← e, hc, h.parent] at this
    cases this
  have hown := h.family.own child h.child_mem
  have hpc : s.pcbCur = s.pcb child := congrArg s.pcb hc
  obtain ⟨hi, _, he⟩ := (h.inv.sysExit hil status).holds hr
  obtain ⟨parent, hmem, hpp, hwa, hre⟩ := sysExit_turn h.inv.cur (by rw [hpc]; exact hown) hr
  have hpa : parent = s0.cur := by
    rw [hpc, h.parent, Option.some.injEq] at hpp
    exact h.family.inj _ hmem _ h.parent_mem hpp.symm
  subst hpa
  have ht : s'.others s0.cur child = s.others s0.cur child ∧ s'.mainThread = s.mainThread ∧
      s'.idleThread = s.idleThread := by
    by_cases hw : s.status s0.cur = .waiting
    · obtain ⟨hq, hm, hid⟩ := hwa hw
      refine ⟨?_, hm, hid⟩
      unfold others
      rw [hq, hc, filter_cons_of_neg (by simp), filter_cons_of_neg (by simp)]
    · have hP := (mem_cons.mp (h.waits.resolve_left hw)).resolve_left fun e => h.ne (e.trans hc)
      obtain ⟨hq, hm, hid⟩ := hre hw (ne_nil_of_mem hP)
      exact ⟨others_eq hq (.inr hc), hm, hid⟩
  obtain ⟨ho, hm, hid⟩ := ht
  refine ⟨⟨hi, h.family.exited he, he.all.trans h.all, h.fresh, he.pids.trans h.pids, (he.pid child).trans h.pid, ?_,
    (he.pgdir child).trans h.pgdir, hm.trans h.main, hid.trans h.idle, h.cur, h.notIdle, ho ▸ h.others⟩, ?_⟩
  · rw [he.adopted child h.child_mem, hpc, if_neg hown, he.pid]
    exact h.parent
  · exact (he.hanging child h.child_mem).mpr (.inl hc.symm)

theorem Hangs.reaped (h : Hangs s0 s child i) (hf : s0.pidBitmap.bit i = false)
    (hr : s.sysWait = .ok (s', .reaped pid status)) (hpid : pid = i + pidStart) :
    s.findHangingChild s.pcbCur.pid = some child ∧ s'.pidBitmap = s0.pidBitmap ∧ s'.allList = s0.allList ∧
      s'.others s0.cur child ~r s0.others s0.cur child := by
  obtain ⟨t, ht, hp, -, rfl⟩ := sysWait_reaped hr
  obtain ⟨hmem, -, -⟩ := find_mem ht
  have htc : t = child := h.family.inj t hmem child h.child_mem (by rw [← hp, hpid, h.pid])
  subst htc
  have hre := h.inv.not_ready (by rw [h.hanging]; nofun)
  refine ⟨ht, Bitmap.ext_bit ?_ fun j => ?_, ?_, ?_⟩
  · show (bitmapSet s.pidBitmap _ false).btmpBytesLen = _
    rw [bitmapSet_len, h.pids, bitmapSet_len]
  · show (bitmapSet s.pidBitmap ((s.pcb t).pid - pidStart) false).bit j = _
    rw [h.pid, Nat.add_sub_cancel, h.pids, bit_bitmapSet, bit_bitmapSet]
    by_cases hj : j = i <;> simp [hj, hf]
  · show s.allList.erase t = s0.allList
    rw [h.all, erase_append_right _ h.fresh, erase_cons_head, append_nil]
  · have he : ((s.remove t).setCont s.cur .own).others s0.cur t = s.others s0.cur t := by
      show ((s.cur :: s.readyList.erase t).filter _) = _
      rw [erase_of_not_mem hre]
      rfl
    rw [he]
    exact h.others

theorem Alive.not_hanging (h : Alive s0 s child i) : s.status child ≠ .hanging := by
  rcases mem_cons.mp h.child with e | hr
  · rw [e, h.inv.status_cur]
    nofun
  · rw [((h.inv.ready child).mp hr).2]
    nofun

theorem forkName_child {q : Pcb} {b : Bitmap} {p : ForkPages} (hi : s.Inv)
    (hr : (s.scratch t q b).forkName t p = .ok (s', some pid)) :
    p.bitmap = true ∧ p.pgdir = true ∧ t ∉ s.allList ∧
      pid = q.pid ∧ s' = s.created t { q with name := q.name ++ ['_', 'f', 'o', 'r', 'k'] } b := by
  have hq : (s.scratch t q b).pcb t = q := update_self ..
  have he : (s.scratch t q b).setPcb t { q with name := q.name ++ ['_', 'f', 'o', 'r', 'k'] } =
      s.scratch t { q with name := q.name ++ ['_', 'f', 'o', 'r', 'k'] } b := by
    simp [Sched.setPcb, Sched.scratch]
  unfold forkName at hr
  split at hr
  · next hbm =>
    obtain ⟨_, -, hr⟩ := bind_ok.mp hr
    rw [hq, he] at hr
    unfold forkEnd at hr
    split at hr
    · next hdir =>
      obtain ⟨s1, hpub, hr⟩ := bind_ok.mp hr
      have ht : t ∉ s.allList := by
        unfold publish at hpub
        obtain ⟨_, -, hpub⟩ := bind_ok.mp hpub
        obtain ⟨_, ht, -⟩ := bind_ok.mp hpub
        exact assert_debug_ok.mp ht
      rw [hi.publish ht] at hpub
      cases hpub
      have hs : (s.created t { q with name := q.name ++ ['_', 'f', 'o', 'r', 'k'] } b).pcb t =
          { q with name := q.name ++ ['_', 'f', 'o', 'r', 'k'] } := update_self ..
      rw [pure_ok, hs] at hr
      cases hr
      exact ⟨hbm, hdir, ht, rfl, rfl⟩
    · cases hr
  · cases hr

theorem Alive.created {i : Nat} {p : Pcb} (hi : s.Inv) (hf : s.Family) (hid : s.cur ≠ s.idleThread)
    (ht : t ∉ s.allList) (hfr : s.FreePid i) (hpid : p.pid = i + pidStart)
    (hpar : p.parentPid = some s.pcbCur.pid) (hdir : p.pgdir = true) :
    Alive s (s.created t p (bitmapSet s.pidBitmap i true)) t i := by
  have hs : (s.created t p (bitmapSet s.pidBitmap i true)).pcb t = p := update_self ..
  have hcur : (s.created t p (bitmapSet s.pidBitmap i true)).pcb s.cur = s.pcb s.cur :=
    update_of_ne (show s.cur ≠ t from fun e => ht (e ▸ hi.cur)) ..
  have hfam := hf.created ht hfr hpid fun q hq => by
    rw [hpar] at hq
    cases hq
    exact ⟨s.cur, hi.cur, rfl⟩
  refine ⟨⟨hi.created ht _ _, hfam, rfl, ht, rfl, by rw [hs]; exact hpid, by rw [hs, hcur]; exact hpar,
    by rw [hs]; exact hdir, rfl, rfl, hi.cur, hid, ?_⟩, ?_, .inr (mem_cons_self ..)⟩
  · have : (s.created t p (bitmapSet s.pidBitmap i true)).others s.cur t = s.others s.cur t := by
      show (s.cur :: (s.readyList ++ [t])).filter _ = _
      rw [← cons_append, filter_append]
      simp [others]
    rw [this]
  · show t ∈ s.cur :: (s.readyList ++ [t])
    simp

theorem forked {p : ForkPages} (hi : s.Inv) (hf : s.Family) (hid : s.cur ≠ s.idleThread)
    (hr : s.sysFork p = .ok (s', some pid)) : ∃ t i, p = ⟨some t, true, true, true⟩ ∧ s.FreePid i ∧
      pid = i + pidStart ∧ Alive s s' t i := by
  unfold Sched.sysFork at hr
  split at hr
  · cases hr
  next t hp =>
  obtain ⟨_, hpg, hr⟩ := bind_ok.mp hr
  rw [assert_debug_ok] at hpg
  unfold forkCopy at hr
  split at hr
  · next hbuf =>
    obtain ⟨r, hal, hr⟩ := bind_ok.mp hr
    obtain ⟨i, hfr, rfl⟩ := s.allocatePid_post.holds hal
    have hn : (s.scratch t { s.pcbCur with pid := i + pidStart, parentPid := some s.pcbCur.pid }
        (bitmapSet s.pidBitmap i true)).forkName t p = .ok (s', some pid) := hr
    obtain ⟨hbm, hdir, ht, hpid, rfl⟩ := forkName_child hi hn
    refine ⟨t, i, ?_, hfr, hpid, .created hi hf hid ht hfr rfl rfl hpg⟩
    cases p
    simp only at hp hbuf hbm hdir
    rw [hp, hbuf, hbm, hdir]
  · cases hr

end Sched

/-! ## What the child holds -/

def Taken (c d i m j : Nat) : Prop := j = c ∨ j = d ∨ (i + m ≤ j ∧ j < i + bitmapPgCnt)

structure Apart (c d i : Nat) : Prop where
  pcb_pgdir : c ≠ d
  pcb : ¬ (i ≤ c ∧ c < i + bitmapPgCnt)
  pgdir : ¬ (i ≤ d ∧ d < i + bitmapPgCnt)

namespace PageState

variable {a s s' : PageState} {pde pte : Nat → UInt32} {kown kown' : Holder → Option Nat} {uown : Nat → Option Nat}

theorem Adds.isSome {i n j : Nat} (h : Adds kown kown' i n) :
    (kown' (.page j)).isSome ↔ (kown (.page j)).isSome ∨ (i ≤ j ∧ j < i + n) := by
  by_cases hj : i ≤ j ∧ j < i + n
  · simp [hj, h.held j hj.1 hj.2]
  · simp [hj, h.page j hj]

theorem Adds.not_mem {i n j : Nat} (h : Adds kown kown' i n) (hj : (kown (.page j)).isSome) : ¬ (i ≤ j ∧ j < i + n) :=
  fun hij => by simp [h.fresh j hij.1 hij.2] at hj

theorem isSome_without {i n j : Nat} :
    (without kown i n (.page j)).isSome ↔ (kown (.page j)).isSome ∧ ¬ (i ≤ j ∧ j < i + n) := by
  rw [without_page]
  by_cases hj : i ≤ j ∧ j < i + n <;> simp [hj]

end PageState

open PageState

namespace Procs

variable {s0 s s' : Procs} {child c d i : Nat}
variable {pid : Nat} {p : PageState}

structure Child (a : PageState) (s : Procs) (child c d i len : Nat) : Prop where
  pcb : child = pageAddr c
  pgdir : (s.prog child).pgdir = pageAddr d
  bits : (s.prog child).bits = pageAddr i
  len : (s.prog child).vaddrBitmap.btmpBytesLen = len
  valid : (s.prog child).Valid
  apart : Apart c d i
  held : ∃ kown uown, Held a s.pages (s.prog child).pde (s.prog child).pte kown uown ∧
    ∀ j, (kown (.page j)).isSome ↔ Taken c d i 0 j

structure Remains (a : PageState) (s : Procs) (child c d i m : Nat) : Prop where
  pcb : child = pageAddr c
  pgdir : (s.prog child).pgdir = pageAddr d
  apart : Apart c d i
  held : ∃ kown, Held a s.pages (fun _ => 0) (fun _ => 0) kown (fun _ => none) ∧ (∀ k, kown (.table k) = none) ∧
    ∀ j, (kown (.page j)).isSome ↔ Taken c d i m j

theorem forkMemory_child (hG : s.pages.Geometry)
    (h0 : Held s.pages s.pages (fun _ => 0) (fun _ => 0) (fun _ => none) fun _ => none)
    (hv : (s.prog s.sched.cur).Valid) (hr : s.forkMemory = .ok (⟨some child, true, true, true⟩, s')) :
    ∃ c d i, Child s.pages s' child c d i (s.prog s.sched.cur).vaddrBitmap.btmpBytesLen := by
  unfold forkMemory at hr
  obtain ⟨⟨r, p1⟩, hm1, hr⟩ := bind_ok.mp hr
  obtain _ | child1 := r
  · cases hr
  unfold forkBuf at hr
  obtain ⟨⟨r, p2⟩, hm2, hr⟩ := bind_ok.mp hr
  obtain _ | buf := r
  · cases hr
  unfold forkBitmap at hr
  obtain ⟨⟨r, p3⟩, hm3, hr⟩ := bind_ok.mp hr
  obtain _ | bits := r
  · cases hr
  unfold forkPgdir at hr
  obtain ⟨⟨r, p4⟩, hm4, hr⟩ := bind_ok.mp hr
  obtain _ | pgdir := r
  · cases hr
  obtain ⟨body, hb, hr⟩ := bind_ok.mp hr
  obtain ⟨p5, hm5, hr⟩ := bind_ok.mp hr
  cases hr
  obtain ⟨c, k1, rfl, h1, ha1⟩ := h0.mallocPage hG hm1
  obtain ⟨e, k2, rfl, h2, ha2⟩ := h1.mallocPage hG hm2
  obtain ⟨i, k3, rfl, h3, ha3⟩ := h2.mallocPage hG hm3
  obtain ⟨d, k4, rfl, h4, ha4⟩ := h3.mallocPage hG hm4
  have hc1 := ha1.held c le_rfl (by omega)
  have hc2 := ha2.isSome.mpr (.inl hc1)
  have hc3 := ha3.isSome.mpr (.inl hc2)
  have he2 := ha2.held e le_rfl (by omega)
  have he3 := ha3.isSome.mpr (.inl he2)
  have he4 := ha4.isSome.mpr (.inl he3)
  have hce := ha2.not_mem hc1
  have hei := ha3.not_mem he2
  have hde := ha4.not_mem he3
  have hdi : ¬ (i ≤ d ∧ d < i + bitmapPgCnt) := fun hd =>
    ha4.not_mem (ha3.held d hd.1 hd.2) ⟨le_rfl, by omega⟩
  have hdc := ha4.not_mem hc3
  -- The body of the parent is copied under the tables of the child.
  unfold copyBodyStack3 at hb
  have hF := h4.toFrames.under (g := { s.prog s.sched.cur with
    bits := pageAddr i, pgdir := pageAddr d, pde := fun _ => 0, pte := fun _ => 0 })
  have hmap := hF.copyBytes hv _ 0 _ body k4 _ (Nat.zero_add _) hb
  obtain ⟨k5, u5, h5, hpa⟩ := h4.mapping rfl hmap
  have he5 : ∀ j, e ≤ j → j < e + 1 → (k5 (.page j)).isSome := fun j h1 h2 => by
    rw [hpa, show j = e by omega]
    exact he4
  obtain ⟨-, h6⟩ := h5.mfreePage hG he5 hm5
  have hpr : (setProg { s with pages := p5 } (pageAddr c) { s.prog s.sched.cur with
      bits := pageAddr i, pgdir := pageAddr d, pde := body.pde, pte := body.pte }).prog (pageAddr c) =
    { s.prog s.sched.cur with bits := pageAddr i, pgdir := pageAddr d, pde := body.pde, pte := body.pte } :=
    update_self ..
  refine ⟨c, d, i, rfl, ?_, ?_, ?_, ?_, ⟨by omega, ha3.not_mem hc2, hdi⟩, without k5 e 1, u5, ?_, fun j => ?_⟩
  · rw [hpr]
  · rw [hpr]
  · rw [hpr]
  · rw [hpr]
    exact ⟨hv.aligned, hv.below, hv.fits⟩
  · rw [hpr]
    exact h6
  · rw [isSome_without, hpa, ha4.isSome, ha3.isSome, ha2.isSome, ha1.isSome]
    unfold Taken
    simp only [Option.isSome_none, Bool.false_eq_true, false_or]
    omega

variable {a : PageState} {len : Nat}

theorem Child.change {b : Bitmap} (h : Child a s child c d i len)
    (hb : b.btmpBytesLen = (s.prog child).vaddrBitmap.btmpBytesLen)
    (hm : ∀ kown uown, Frames a (s.pages.under (s.prog child)) (s.pages.under (s.prog child)).pde
      (s.pages.under (s.prog child)).pte kown uown → Mapping a (s.pages.under (s.prog child)) p kown) :
    Child a (setProg { s with pages := p } child { s.prog child with vaddrBitmap := b, pde := p.pde, pte := p.pte })
      child c d i len := by
  obtain ⟨kown, uown, hh, ht⟩ := h.held
  obtain ⟨kown', uown', h', hpa⟩ := hh.mapping rfl (hm kown uown hh.toFrames.under)
  have hpr : (setProg { s with pages := p } child
      { s.prog child with vaddrBitmap := b, pde := p.pde, pte := p.pte }).prog child =
    { s.prog child with vaddrBitmap := b, pde := p.pde, pte := p.pte } := update_self ..
  refine ⟨h.pcb, ?_, ?_, ?_, ?_, h.apart, kown', uown', ?_, fun j => ?_⟩
  · rw [hpr]
    exact h.pgdir
  · rw [hpr]
    exact h.bits
  · rw [hpr]
    exact hb.trans h.len
  · rw [hpr]
    exact ⟨h.valid.aligned, hb ▸ h.valid.below, hb ▸ h.valid.fits⟩
  · rw [hpr]
    exact h'
  · rw [hpa]
    exact ht j

theorem Child.malloc {n : Nat} {r : Option Nat} (h : Child a s child c d i len) (hc : s.sched.cur = child)
    (hr : s.mallocPage n = .ok (r, s')) : s'.sched = s.sched ∧ Child a s' child c d i len := by
  unfold mallocPage at hr
  obtain ⟨_, hn, hr⟩ := bind_ok.mp hr
  rw [assert_debug_ok] at hn
  rw [hc] at hr
  obtain ⟨o, hs, hr⟩ := bind_ok.mp hr
  cases o with
  | none =>
    cases hr
    exact ⟨rfl, h⟩
  | some k =>
    obtain ⟨_, -, hr⟩ := bind_ok.mp hr
    obtain ⟨⟨ok, p⟩, hmap, hr⟩ := bind_ok.mp hr
    cases hr
    refine ⟨rfl, h.change (setBits_len ..) fun kown uown hF => ?_⟩
    have hb := bitmapScan_bound hs
    have hal := h.valid.aligned
    have hbe := h.valid.below
    have ha : (s.prog child).vaddrStart + k * pgSize = ((s.prog child).vaddrStart / pgSize + k) * pgSize := by
      unfold pgSize at *
      omega
    rw [ha] at hmap
    refine hF.mapUserPages n _ _ p kown uown ok ?_ hmap
    unfold userVaddrEnd pgSize at *
    omega

theorem Child.free {v n : Nat} (hG : a.Geometry) (h : Child a s child c d i len) (hc : s.sched.cur = child)
    (hv : (s.prog child).Has v n) (hr : s.mfreePage v n = .ok s') : s'.sched = s.sched ∧ Child a s' child c d i len := by
  unfold mfreePage at hr
  rw [hc] at hr
  obtain ⟨p, hf, hr⟩ := bind_ok.mp hr
  cases hr
  refine ⟨rfl, h.change (setBits_len ..) fun kown uown hF => ?_⟩
  obtain ⟨hn, isOwn, cond, hun⟩ := freePages_ok hf
  obtain ⟨hb, hpr⟩ := hv
  have hend : v / pgSize + n ≤ 768 * 1024 := by
    unfold userVaddrEnd pgSize at *
    omega
  have ha : v = v / pgSize * pgSize := by
    unfold pgSize at *
    omega
  rw [ha] at hun
  refine hF.unmapUser hG isOwn cond n _ _ p uown hend (fun j h1 h2 => ?_) hun
  obtain ⟨hpde, hpte⟩ := hpr (j - v / pgSize) (by omega)
  rw [show v / pgSize + (j - v / pgSize) = j by omega] at hpde hpte
  have ht : (kown (.table (j / 1024))).isSome := by
    refine (hF.pde_present (by omega)).mp ?_
    rw [show (s.pages.under (s.prog child)).pde (j / 1024) = (s.prog child).pde (j / 1024) from if_pos (by omega)]
    exact hpde
  refine (hF.pte_present ht).mp ?_
  rw [show (s.pages.under (s.prog child)).pte j = (s.prog child).pte j from if_pos (by omega)]
  exact hpte

theorem Child.exit {sched : Sched} (hG : a.Geometry) (h : Child a s child c d i len)
    (hr : s.pages.releaseProgResource (s.prog child) = .ok p) :
    1 ≤ len / pgSize ∧ Remains a { s with pages := p, sched := sched } child c d i (len / pgSize) := by
  obtain ⟨kown, uown, hh, ht⟩ := h.held
  unfold releaseProgResource at hr
  rw [h.bits, h.len] at hr
  obtain ⟨hv, hF⟩ := hh.toFrames.under.freeTables hG
  generalize PageState.freeTables 768 0 (s.pages.under (s.prog child)) = p1 at hr hv hF
  have hle : len / pgSize ≤ bitmapPgCnt := by
    have := h.valid.fits
    rw [h.len] at this
    exact Nat.div_le_of_le_mul (by rwa [Nat.mul_comm] at this)
  have hh1 : Held a p1 (fun _ => 0) (fun _ => 0) (heapOnly kown) fun _ => none := by
    refine ⟨hF, ?_, fun j => ?_, hh.vfresh⟩
    · rw [hv]
      exact hh.vlen
    · rw [hv]
      exact hh.vbit j
  have hs : ∀ j, i ≤ j → j < i + len / pgSize → (heapOnly kown (.page j)).isSome := fun j h1 h2 =>
    (ht j).mpr (.inr (.inr ⟨h1, by omega⟩))
  obtain ⟨hpos, h'⟩ := hh1.mfreePage hG hs hr
  refine ⟨hpos, h.pcb, h.pgdir, h.apart, without (heapOnly kown) i (len / pgSize), h', fun k => rfl, fun j => ?_⟩
  rw [isSome_without, show (heapOnly kown (.page j)).isSome ↔ Taken c d i 0 j from ht j]
  have hc := h.apart.pcb
  have hd := h.apart.pgdir
  unfold Taken
  omega

theorem Remains.reap {m : Nat} (hG : a.Geometry) (h : Remains a s child c d i m)
    (hdir : (s.sched.pcb child).pgdir = true) (hm : child ≠ s.sched.mainThread)
    (hr : s.releasePcb child = .ok p) :
    ∃ kown, Held a p (fun _ => 0) (fun _ => 0) kown (fun _ => none) ∧ (∀ k, kown (.table k) = none) ∧
      ∀ j, (kown (.page j)).isSome ↔ i + m ≤ j ∧ j < i + bitmapPgCnt := by
  obtain ⟨kown, hh, hta, ht⟩ := h.held
  unfold releasePcb at hr
  rw [if_pos hdir, h.pgdir] at hr
  obtain ⟨p1, hr1, hr⟩ := bind_ok.mp hr
  rw [if_pos hm, h.pcb] at hr
  have hcd := h.apart.pcb_pgdir
  have hd : ∀ j, d ≤ j → j < d + 1 → (kown (.page j)).isSome := fun j h1 h2 => (ht j).mpr (.inr (.inl (by omega)))
  obtain ⟨-, hh1⟩ := hh.mfreePage hG hd hr1
  have hc : ∀ j, c ≤ j → j < c + 1 → (without kown d 1 (.page j)).isSome := fun j h1 h2 =>
    isSome_without.mpr ⟨(ht j).mpr (.inl (by omega)), by omega⟩
  obtain ⟨-, hh2⟩ := hh1.mfreePage hG hc hr
  refine ⟨_, hh2, hta, fun j => ?_⟩
  rw [isSome_without, isSome_without, ht]
  have hc := h.apart.pcb
  have hd := h.apart.pgdir
  unfold Taken
  omega

/-! ## The life of a child -/

inductive Life (s0 s : Procs) (child c d i len pid : Nat) : Prop
  | alive (h : Sched.Alive s0.sched s.sched child pid) (hm : Child s0.pages s child c d i len)
  | hangs (h : Sched.Hangs s0.sched s.sched child pid) (hm : Remains s0.pages s child c d i (len / pgSize))
    (hpos : 1 ≤ len / pgSize)

theorem Life.step (hG : s0.pages.Geometry) (h : Life s0 s child c d i len pid)
    (hs : FamilyStep s0.sched.cur child s s') : Life s0 s' child c d i len pid := by
  cases hs with
  | malloc hc n hr =>
    cases h with
    | alive h hm =>
      obtain ⟨hsc, hm'⟩ := hm.malloc hc hr
      exact .alive (hsc ▸ h) hm'
    | hangs h hm hpos => exact absurd hc h.cur_ne
  | free hc v n hv hr =>
    cases h with
    | alive h hm =>
      obtain ⟨hsc, hm'⟩ := hm.free hG hc hv hr
      exact .alive (hsc ▸ h) hm'
    | hangs h hm hpos => exact absurd hc h.cur_ne
  | exit hc status hr =>
    cases h with
    | alive h hm =>
      unfold sysExit at hr
      rw [hc] at hr
      obtain ⟨p, hp, hr⟩ := bind_ok.mp hr
      obtain ⟨sched, hsc, hr⟩ := bind_ok.mp hr
      cases hr
      have hm' : _ ∧ Remains s0.pages { s with pages := p, sched := sched } child c d i _ := hm.exit hG hp
      exact .hangs (h.exit hc hsc) hm'.2 hm'.1
    | hangs h hm hpos => exact absurd hc h.cur_ne
  | wait hc hr =>
    unfold sysWait at hr
    obtain ⟨p, hp, hr⟩ := bind_ok.mp hr
    obtain ⟨⟨sched, res⟩, hsc, hr⟩ := bind_ok.mp hr
    cases hr
    cases h with
    | alive h hm =>
      have hn := (Sched.sysWait_sleeps hsc).1
      unfold reap at hp
      rw [hn] at hp
      cases hp
      exact .alive (h.wait hc hsc) ⟨hm.pcb, hm.pgdir, hm.bits, hm.len, hm.valid, hm.apart, hm.held⟩
    | hangs h hm hpos => exact absurd hsc (h.not_sleeps hc)
  | slice hr =>
    cases h with
    | alive h hm => exact .alive (h.schedule hr) ⟨hm.pcb, hm.pgdir, hm.bits, hm.len, hm.valid, hm.apart, hm.held⟩
    | hangs h hm hpos => exact .hangs (h.schedule hr) ⟨hm.pcb, hm.pgdir, hm.apart, hm.held⟩ hpos

theorem Life.run (hG : s0.pages.Geometry) (h : Life s0 s child c d i len pid)
    (hr : Relation.ReflTransGen (FamilyStep s0.sched.cur child) s s') : Life s0 s' child c d i len pid := by
  induction hr with
  | refl => exact h
  | tail _ hs ih => exact ih.step hG hs

theorem Life.reaped {r : Nat} {status : Int} (hG : s0.pages.Geometry)
    (hma : s0.sched.mainThread < kHeapStart) (hfr : s0.sched.pidBitmap.bit pid = false)
    (h : Life s0 s child c d i len pid) (hr : r = pid + pidStart)
    (hw : s.sysWait = .ok (s', .reaped r status)) :
    Returned s0 s' s0.sched.cur child ∧ LeavesMarked s0 s' i (len / pgSize) ∧
      (bitmapPgCnt ≤ len / pgSize → Conserved s0 s' s0.sched.cur child) := by
  unfold sysWait at hw
  obtain ⟨p, hp, hw⟩ := bind_ok.mp hw
  obtain ⟨⟨sched, res⟩, hs, hw⟩ := bind_ok.mp hw
  cases hw
  cases h with
  | alive h hm =>
    obtain ⟨t, ht, he, -⟩ := Sched.sysWait_reaped hs
    obtain ⟨hmem, -, hst⟩ := Sched.find_mem ht
    have htc : t = child := h.family.inj t hmem child h.child_mem (by rw [← he, hr, h.pid])
    exact absurd (htc ▸ hst) h.not_hanging
  | hangs h hm hpos =>
    obtain ⟨hf, hpi, hall, ho⟩ := h.reaped hfr hs hr
    unfold reap at hp
    rw [hf] at hp
    have hne : child ≠ s.sched.mainThread := by
      rw [h.main, hm.pcb]
      unfold pageAddr
      omega
    obtain ⟨kown, hh, hta, hpa⟩ := hm.reap hG h.pgdir hne hp
    have hret : Returned s0 ⟨sched, p, s.prog⟩ s0.sched.cur child := ⟨hh.user_drained fun _ => rfl, hpi, hall, ho⟩
    refine ⟨hret, fun j => ⟨(hh.vbit j).trans (or_congr_right (hpa j)), fun hj => hh.vfresh j ((hpa j).mpr hj)⟩, fun hle => ?_⟩
    have hn : ∀ k, kown k = none := by
      intro k
      cases k with
      | table k => exact hta k
      | page j => simpa using (hpa j).not.mpr (by omega)
    obtain ⟨hk, hv⟩ := hh.kernel_drained hn
    exact ⟨hret, hk, hv⟩

theorem Life.child_eq {t : Nat} (h : Life s0 s child c d i len pid)
    (ht : s.sched.pid2thread (some (pid + pidStart)) = some t) : child = t := by
  obtain ⟨hmem, hp⟩ := Sched.find_mem ht
  rw [Option.some.injEq] at hp
  cases h with
  | alive h _ => exact h.family.inj child h.child_mem t hmem (h.pid.trans hp.symm)
  | hangs h _ _ => exact h.family.inj child h.child_mem t hmem (h.pid.trans hp.symm)

theorem Life.forked {b : PageState} (hi : s.sched.Inv) (hf : s.sched.Family)
    (hid : s.sched.cur ≠ s.sched.idleThread) (hb : Since b s.pages) (hv : (s.prog s.sched.cur).Valid)
    (hr : s.sysFork = .ok (s', some pid)) :
    ∃ child c d i n, s.sched.pidBitmap.bit n = false ∧ pid = n + pidStart ∧
      Life s s' child c d i (s.prog s.sched.cur).vaddrBitmap.btmpBytesLen n := by
  unfold sysFork at hr
  obtain ⟨⟨p, s1⟩, hmem, hr⟩ := bind_ok.mp hr
  obtain ⟨⟨sched, o⟩, hs, hr⟩ := bind_ok.mp hr
  cases hr
  obtain ⟨child, n, rfl, hfr, hpid, ha⟩ := Sched.forked hi hf hid hs
  have h0 : Held s.pages s.pages (fun _ => 0) (fun _ => 0) (fun _ => none) fun _ => none :=
    .init ⟨rfl, rfl, rfl, rfl, rfl, rfl⟩ hb.pde hb.low
  obtain ⟨c, d, i, hc⟩ := forkMemory_child hb.geometry h0 hv hmem
  exact ⟨child, c, d, i, n, hfr.1, hpid, .alive ha
    ⟨hc.pcb, hc.pgdir, hc.bits, hc.len, hc.valid, hc.apart, hc.held⟩⟩

end Procs

open Sched

theorem reach_inv {s : Sched} (h : Reach CallStep Start s) : s.Inv ∧ s.Family := by
  refine h.invariant (P := fun s => s.Inv ∧ s.Family) (fun _ ⟨_, h0⟩ => ⟨h0.inv, h0.family⟩) ?_
  rintro s s' ⟨hi, hf⟩ ⟨op, hc, hr⟩
  exact ⟨(hi.run hc.1 hc.2.1).holds hr, hf.effect hi (hi.effect hc hr)⟩

/-! ## A run -/

theorem PageState.copyBytes_skip (g : UserProg) (m : Nat) (s : PageState) : ∀ n idxByte,
    (∀ k, idxByte ≤ k → k < idxByte + n → g.vaddrBitmap.bits k = 0) →
    copyBytes g (m + n) idxByte s = copyBytes g m (idxByte + n) s
  | 0, _, _ => rfl
  | n + 1, idxByte, h => by
    rw [← Nat.add_assoc]
    unfold PageState.copyBytes
    rw [if_neg (by simp [h idxByte le_rfl (by omega)]), pure_ok, ok_bind,
      copyBytes_skip g m s n (idxByte + 1) fun k h1 h2 => h k (by omega) (by omega)]
    cases m with
    | zero => rfl
    | succ m => rw [show idxByte + 1 + n = idxByte + (n + 1) by omega]; rfl

theorem PageState.freeTable_skip (m : Nat) (s : PageState) : ∀ n q, (∀ k, q ≤ k → k < q + n → s.pte k &&& 1 = 0) →
    freeTable (m + n) q s = freeTable m (q + n) s
  | 0, _, _ => rfl
  | n + 1, q, h => by
    rw [← Nat.add_assoc, freeTable, if_neg (by simp [h q le_rfl (by omega)]),
      freeTable_skip m s n (q + 1) fun k h1 h2 => h k (by omega) (by omega), Nat.add_assoc, Nat.add_comm 1 n]

theorem PageState.freeTables_skip (m : Nat) (s : PageState) : ∀ n d, (∀ k, d ≤ k → k < d + n → s.pde k &&& 1 = 0) →
    freeTables (m + n) d s = freeTables m (d + n) s
  | 0, _, _ => rfl
  | n + 1, d, h => by
    rw [← Nat.add_assoc, freeTables, if_neg (by simp [h d le_rfl (by omega)]),
      freeTables_skip m s n (d + 1) fun k h1 h2 => h k (by omega) (by omega), Nat.add_assoc, Nat.add_comm 1 n]

theorem PageState.freeTables_last {s : PageState} (hpde : ∀ k < 767, s.pde k &&& 1 = 0)
    (hpte : ∀ k, 767 * 1024 ≤ k → k < 768 * 1024 - 1 → s.pte k &&& 1 = 0) (hd : s.pde 767 &&& 1 ≠ 0)
    (hp : s.pte (768 * 1024 - 1) &&& 1 ≠ 0) :
    freeTables 768 0 s = (s.pfree (pteAddr (s.pte (768 * 1024 - 1)))).pfree (pteAddr (s.pde 767)) := by
  rw [freeTables_skip 1 s 767 0 fun k _ hk => hpde k (by omega), freeTables, if_pos hd, freeTables,
    freeTable_skip 1 s 1023 _ fun k h1 h2 => hpte k (by omega) (by omega), freeTable, if_pos hp, freeTable]

/-- A process that has one page for its stack. -/
def procProg : UserProg where
  vaddrStart := userVaddrEnd - 8 * userBitmapLen * pgSize
  vaddrBitmap := .ofBytes userBitmapLen fun i => if i + 1 = userBitmapLen then 0x80 else 0
  bits := pageAddr 2
  pgdir := pageAddr 1
  pde i := if i = 767 then pteWord (0x200000 + 26 * pgSize) else 0
  pte i := if i = 768 * 1024 - 1 then pteWord 0x240000 else 0

theorem procProg_valid : procProg.Valid := by
  exact ⟨by decide, by decide, by decide⟩

theorem PageState.copyByte_top {g : UserProg} {idxByte : Nat} (h : g.vaddrBitmap.bits idxByte = 0x80) (s : PageState) :
    copyByte g idxByte 8 0 s = s.getAPageWithoutOpvaddrbitmap ((idxByte * 8 + 7) * pgSize + g.vaddrStart) := by
  have hc : ∀ k < 7, ¬ bitMask k &&& 0x80 ≠ 0 := by decide
  have htop : bitMask 7 &&& 0x80 ≠ 0 := by decide
  have hs : ∀ n k, k < 7 → copyByte g idxByte (n + 1) k s = copyByte g idxByte n (k + 1) s := fun n k hk => by
    rw [copyByte, h, if_neg (hc k hk), pure_ok, ok_bind]
  rw [hs 7 0 (by decide), hs 6 1 (by decide), hs 5 2 (by decide), hs 4 3 (by decide), hs 3 4 (by decide),
    hs 2 5 (by decide), hs 1 6 (by decide), copyByte, h, if_pos htop]
  exact bind_pure _

theorem procProg_copy (s : PageState) :
    s.copyBodyStack3 procProg = s.getAPageWithoutOpvaddrbitmap (userVaddrEnd - pgSize) := by
  have hlen : procProg.vaddrBitmap.btmpBytesLen = 1 + (userBitmapLen - 1) := by decide
  have ha : ((userBitmapLen - 1) * 8 + 7) * pgSize + procProg.vaddrStart = userVaddrEnd - pgSize := by
    decide
  have hb : ∀ k, procProg.vaddrBitmap.bits k = if k + 1 = userBitmapLen then 0x80 else 0 := fun _ => rfl
  have hl : procProg.vaddrBitmap.bits (userBitmapLen - 1) = 0x80 := by rw [hb, if_pos (by decide)]
  unfold copyBodyStack3
  rw [hlen, copyBytes_skip _ 1 s _ 0 fun k _ hk => by rw [hb, if_neg (by omega)], Nat.zero_add]
  unfold copyBytes
  rw [if_pos (by rw [hl]; decide), copyByte_top hl, ha]
  exact bind_pure _

/-- A machine with 2.5 MiB on which `init` has just been switched to. -/
def procPages : PageState where
  kernelVaddr := .ofBytes 8 fun i => if i < 3 then 0xff else if i = 3 then 0x03 else 0
  kernelPool := ⟨.ofBytes 8 fun i => if i < 3 then 0xff else if i = 3 then 0x07 else 0, 0x200000, 0x40000⟩
  userPool := ⟨.ofBytes 8 fun i => if i = 0 then 0x01 else 0, 0x240000, 0x40000⟩
  pde _ := 7
  pte i := if i < heapPage then 7 else if i < heapPage + 26 then pteWord (0x200000 + (i - heapPage) * pgSize) else 0

def procStart : Procs := ⟨boot.after .schedule, procPages, fun _ => procProg⟩

theorem procPages_since : ∃ b, Since b procPages := by
  refine ⟨memPoolInit ⟨.ofBytes 0 fun _ => 0, ⟨.ofBytes 0 fun _ => 0, 0, 0⟩, ⟨.ofBytes 0 fun _ => 0, 0, 0⟩,
    fun _ => 7, fun _ => 0⟩ 0x280000, ⟨_, _, rfl, fun i _ _ => ?_⟩, ?_, fun i _ _ => ?_, rfl, ⟨_, rfl⟩, ⟨_, rfl⟩⟩
  · show (7 : UInt32) &&& 1 ≠ 0
    decide
  · decide
  · show (7 : UInt32) &&& 1 ≠ 0
    decide

def procChild : Nat := pageAddr 26

def procTaken : PageState := (((procPages.afterMalloc 1).afterMalloc 1).afterMalloc bitmapPgCnt).afterMalloc 1

theorem procTaken_eq : procPages.mallocPage 1 = .ok (some procChild, procPages.afterMalloc 1) ∧
    (procPages.afterMalloc 1).mallocPage 1 = .ok (some (pageAddr 27), (procPages.afterMalloc 1).afterMalloc 1) ∧
    ((procPages.afterMalloc 1).afterMalloc 1).mallocPage bitmapPgCnt =
      .ok (some (pageAddr 28), ((procPages.afterMalloc 1).afterMalloc 1).afterMalloc bitmapPgCnt) ∧
    (((procPages.afterMalloc 1).afterMalloc 1).afterMalloc bitmapPgCnt).mallocPage 1 =
      .ok (some (pageAddr 51), procTaken) := ⟨rfl, rfl, rfl, rfl⟩

def procFresh : UserProg :=
  { procProg with bits := pageAddr 28, pgdir := pageAddr 51, pde := fun _ => 0, pte := fun _ => 0 }

def procBody : PageState :=
  ((procTaken.under procFresh).getAPageWithoutOpvaddrbitmap (userVaddrEnd - pgSize)).toOption.getD procTaken

def procForkedPages : PageState := (procBody.mfreePage (pageAddr 27) 1).toOption.getD procTaken

def schedForked : Sched := (boot.after .schedule).after (.sysFork (forkPages procChild))

def procForked : Procs where
  sched := schedForked
  pages := procForkedPages
  prog := Function.update (fun _ => procProg) procChild
    { procFresh with pde := procBody.pde, pte := procBody.pte }

theorem forkMemory_procPages (g : UserProg) {body done : PageState}
    (hb : (procTaken.under { g with bits := pageAddr 28, pgdir := pageAddr 51, pde := fun _ => 0, pte := fun _ => 0 }).copyBodyStack3
      g = .ok body) (hf : body.mfreePage (pageAddr 27) 1 = .ok done) :
    Procs.forkMemory ⟨boot.after .schedule, procPages, fun _ => g⟩ = .ok (forkPages procChild,
      Procs.setProg ⟨boot.after .schedule, done, fun _ => g⟩ procChild
        { g with bits := pageAddr 28, pgdir := pageAddr 51, pde := body.pde, pte := body.pte }) := by
  obtain ⟨h1, h2, h3, h4⟩ := procTaken_eq
  unfold Procs.forkMemory
  simp only [h1, ok_bind]
  unfold Procs.forkBuf
  simp only [h2, ok_bind]
  unfold Procs.forkBitmap
  simp only [h3, ok_bind]
  unfold Procs.forkPgdir
  simp only [h4, ok_bind]
  show ((procTaken.under _).copyBodyStack3 g >>= _) = _
  rw [hb, ok_bind, hf]
  rfl

theorem procForked_eq : procStart.sysFork = .ok (procForked, some 4) := by
  have hb : (procTaken.under procFresh).copyBodyStack3 procProg = .ok procBody := by
    rw [procProg_copy]
    exact ok_getD _ (by decide +kernel)
  have hmem := forkMemory_procPages procProg hb (ok_getD procTaken (by decide +kernel))
  have hs : (boot.after .schedule).sysFork (forkPages procChild) = .ok (schedForked, some 4) := rfl
  unfold Procs.sysFork procStart
  rw [hmem, ok_bind]
  show ((boot.after .schedule).sysFork (forkPages procChild) >>= _) = _
  rw [hs]
  rfl

/-- `init` waits, the idle thread and the main thread use up a time slice, and the
child runs. -/
def schedRuns : Sched := ((schedForked.after .sysWait).after .schedule).after .schedule

def schedExited : Sched := schedRuns.after (.sysExit 0)

def procUnmapped : PageState :=
  let s := procForkedPages.under (procForked.prog procChild)
  (s.pfree (pteAddr (s.pte (768 * 1024 - 1)))).pfree (pteAddr (s.pde 767))

def procExitedPages : PageState :=
  (procUnmapped.mfreePage (pageAddr 28) (userBitmapLen / pgSize)).toOption.getD procTaken

theorem procExitedPages_eq :
    procForkedPages.releaseProgResource (procForked.prog procChild) = .ok procExitedPages := by
  have hpde : ∀ k < 767, (procForkedPages.under (procForked.prog procChild)).pde k &&& 1 = 0 := by
    decide +kernel
  have hpte : ∀ k < 1023,
      (procForkedPages.under (procForked.prog procChild)).pte (767 * 1024 + k) &&& 1 = 0 := by
    decide +kernel
  have hl : freeTables 768 0 (procForkedPages.under (procForked.prog procChild)) = procUnmapped := by
    refine freeTables_last hpde (fun k h1 h2 => ?_) ?_ ?_
    · have := hpte (k - 767 * 1024) (by omega)
      rwa [show 767 * 1024 + (k - 767 * 1024) = k by omega] at this
    · decide +kernel
    · decide +kernel
  unfold releaseProgResource
  rw [hl]
  exact ok_getD _ (by decide +kernel)

def procExited : Procs :=
  { procForked with sched := schedExited, pages := procExitedPages }

theorem procRun : Relation.ReflTransGen (FamilyStep 1 procChild) procForked procExited := by
  have h1 : FamilyStep 1 procChild procForked { procForked with sched := schedForked.after .sysWait } :=
    .wait rfl rfl
  have h2 : FamilyStep 1 procChild { procForked with sched := schedForked.after .sysWait }
      { procForked with sched := (schedForked.after .sysWait).after .schedule } := .slice rfl
  have h3 : FamilyStep 1 procChild { procForked with sched := (schedForked.after .sysWait).after .schedule }
      { procForked with sched := schedRuns } := .slice rfl
  have hs : schedRuns.run (.sysExit 0) = .ok schedExited := run_after (by decide +kernel)
  have h4 : Procs.sysExit { procForked with sched := schedRuns } 0 = .ok procExited := by
    show (procForkedPages.releaseProgResource (procForked.prog procChild) >>= _) = _
    rw [procExitedPages_eq, ok_bind, show schedRuns.sysExit 0 = .ok schedExited from hs]
    rfl
  exact (((Relation.ReflTransGen.single h1).tail h2).tail h3).tail (.exit rfl 0 h4)

def procReaped : Procs :=
  { procExited with
    sched := (schedExited.remove procChild).setCont schedExited.cur .own
    pages := (procExited.releasePcb procChild).toOption.getD procTaken }

theorem procReaped_eq : procExited.sysWait = .ok (procReaped, .reaped 4 0) := by
  have hp : procExited.releasePcb procChild = .ok _ := ok_getD procTaken (by decide +kernel)
  have hf : schedExited.findHangingChild schedExited.pcbCur.pid = some procChild := by decide +kernel
  have hpid : (schedExited.pcb procChild).pid = 4 := by decide +kernel
  have hst : (schedExited.pcb procChild).exitStatus.toInt = 0 := by decide +kernel
  have hs : schedExited.sysWait = .ok (procReaped.sched, .reaped 4 0) := by
    unfold Sched.sysWait
    rw [hf]
    dsimp only
    rw [hpid, hst]
    rfl
  unfold Procs.sysWait Procs.reap
  rw [show procExited.sched = schedExited from rfl, hf]
  dsimp only
  rw [hp, ok_bind, hs]
  rfl

theorem procStart_reach : Reach CallStep Start procStart.sched :=
  call_after .schedule (.refl boot_start) ⟨⟨trivial, rfl, nofun⟩, trivial, trivial⟩ (by decide +kernel)

/-! ## Conservation -/

/-- **A child leaves pages behind.** After the fork, its exit and the wait everything but the
kernel's pages is as before, and these are exactly if the length of the bitmap is that of all the
pages taken for it, which it never is. -/
theorem fork_conserves_iff {b : PageState} {s s1 s2 s3 : Procs} {child pid : Nat} {status : Int}
    (hs : Reach CallStep Start s.sched) (hidle : s.sched.cur ≠ s.sched.idleThread)
    (hmain : s.sched.mainThread < kHeapStart) (hb : Since b s.pages) (hv : (s.prog s.sched.cur).Valid)
    (hfork : s.sysFork = .ok (s1, some pid)) (hchild : s1.sched.pid2thread (some pid) = some child)
    (hrun : Relation.ReflTransGen (FamilyStep s.sched.cur child) s1 s2)
    (hwait : s2.sysWait = .ok (s3, .reaped pid status)) :
    (Conserved s s3 s.sched.cur child ↔ (s.prog s.sched.cur).vaddrBitmap.btmpBytesLen / pgSize = bitmapPgCnt) ∧
      Returned s s3 s.sched.cur child ∧
      (∃ i, LeavesMarked s s3 i ((s.prog s.sched.cur).vaddrBitmap.btmpBytesLen / pgSize)) ∧
      ((s.prog s.sched.cur).vaddrStart = userVaddrStart → ¬ Conserved s s3 s.sched.cur child) := by
  obtain ⟨hi, hf⟩ := reach_inv hs
  obtain ⟨t, c, d, i, n, hfr, hpid, hl⟩ := Procs.Life.forked hi hf hidle hb hv hfork
  have htc : t = child := hl.child_eq (by rw [← hpid]; exact hchild)
  subst htc
  obtain ⟨hret, hk, hcons⟩ := (hl.run hb.geometry hrun).reaped hb.geometry hmain hfr hpid hwait
  have hle := Nat.div_le_of_le_mul (Nat.mul_comm .. ▸ hv.fits)
  have hiff : Conserved s s3 s.sched.cur t ↔ (s.prog s.sched.cur).vaddrBitmap.btmpBytesLen / pgSize = bitmapPgCnt := by
    refine ⟨fun hc => ?_, fun he => hcons he.ge⟩
    by_contra hne
    -- The next page of the bitmap is still marked.
    obtain ⟨hbit, hfree⟩ := hk (i + (s.prog s.sched.cur).vaddrBitmap.btmpBytesLen / pgSize)
    have hlast := hbit.mpr (.inr ⟨le_rfl, by omega⟩)
    rw [hc.kernelVaddr, hfree ⟨le_rfl, by omega⟩] at hlast
    cases hlast
  refine ⟨hiff, hret, ⟨i, hk⟩, fun hstart hc => ?_⟩
  have hbelow := hv.below
  have hlen := hiff.mp hc
  rw [hstart] at hbelow
  unfold userVaddrStart userVaddrEnd at hbelow
  unfold bitmapPgCnt userBitmapLen userVaddrStart userVaddrEnd at hlen
  unfold pgSize at hbelow hlen
  omega

theorem fork_conserves_rest : Returned procStart procReaped 1 procChild ∧ ¬ Conserved procStart procReaped 1 procChild := by
  obtain ⟨b, hb⟩ := procPages_since
  obtain ⟨-, hret, -, hnever⟩ := fork_conserves_iff (s := procStart) procStart_reach (by decide +kernel) (by decide) hb
    procProg_valid procForked_eq (by decide +kernel) procRun procReaped_eq
  exact ⟨hret, hnever (by decide)⟩

example : userBitmapLen / pgSize = 22 ∧ bitmapPgCnt = 23 := by decide

/-- The last of the 23 pages of the bitmap is still marked when the child is gone. -/
theorem child_leaves_page : Reach CallStep Start procStart.sched ∧ (∃ b, Since b procStart.pages) ∧
    procProg.Valid ∧ procStart.sysFork = .ok (procForked, some 4) ∧
    Relation.ReflTransGen (FamilyStep 1 procChild) procForked procExited ∧
    procExited.sysWait = .ok (procReaped, .reaped 4 0) ∧
    ¬ Conserved procStart procReaped 1 procChild := by
  refine ⟨procStart_reach, procPages_since, procProg_valid, procForked_eq, procRun,
    procReaped_eq, fun hc => ?_⟩
  have hm : procReaped.pages.kernelVaddr.bit 50 = true := by decide +kernel
  rw [hc.kernelVaddr] at hm
  exact absurd hm (by decide)

end OperateSystem
