import OperateSystem.WaitSound

/-!
# Pids and parents

The set bits of the pid bitmap are the pids of the tasks in `thread_all_list`, as
long as no `sys_fork` gives up after `fork_pid`. A parent is a process that has
not exited: `sys_exit` hands the children to `init`, which never exits, before
its task can be removed. So the parent that `sys_exit` looks for is there.
-/

namespace OperateSystem

open Function

namespace Sched

variable {s s' : Sched} {t : Nat}
variable {p : Pcb} {op : SchedOp}

def PidsExact (s : Sched) : Prop :=
  ∀ i < 8 * s.pidBitmap.btmpBytesLen, s.pidBitmap.bit i = true ↔ ∃ t ∈ s.allList, (s.pcb t).pid = i + pidStart

def Whole : SchedOp → Prop
  | .sysFork p => p.pcb ≠ none → p.buf = true → p.bitmap = true ∧ p.pgdir = true
  | _ => True

theorem Plain.whole (h : s.Plain op) : Whole op := by
  cases op <;> trivial

theorem InWait.whole (h : s.InWait op) : Whole op := by
  cases op <;> trivial

theorem PidsExact.same (h : s.PidsExact) (hk : SameKin s s') : s'.PidsExact := by
  intro i hi
  rw [hk.pids] at hi ⊢
  rw [h i hi, hk.all]
  exact exists_congr fun t => and_congr_right fun ht => by rw [(hk.pcb t ht).1]

theorem PidsExact.created {i : Nat} (h : s.PidsExact) (ht : t ∉ s.allList) (hpid : p.pid = i + pidStart) :
    (s.created t p (bitmapSet s.pidBitmap i true)).PidsExact := by
  intro j hj
  show (bitmapSet s.pidBitmap i true).bit j = true ↔ _
  rw [bit_bitmapSet]
  constructor
  · intro hbit
    split at hbit
    · next e => exact ⟨t, mem_created.mpr (.inr rfl), by rw [created_self, hpid, e]⟩
    · obtain ⟨u, hu, e⟩ := (h j hj).mp hbit
      exact ⟨u, mem_created.mpr (.inl hu), by rw [created_pcb ht hu, e]⟩
  · rintro ⟨u, hu, e⟩
    split
    · rfl
    · next hne =>
      refine (h j hj).mpr ?_
      rcases mem_created.mp hu with hu | rfl
      · exact ⟨u, hu, by rw [← e, created_pcb ht hu]⟩
      · rw [created_self, hpid] at e
        exact absurd (Nat.add_right_cancel e).symm hne

theorem PidsExact.scratch {i : Nat} (hf : s.Family) (ht : t ∉ s.allList) (hi : s.FreePid i) :
    ¬ (s.scratch t p (bitmapSet s.pidBitmap i true)).PidsExact := by
  intro h
  obtain ⟨u, hu, e⟩ := (h i hi.2).mp (by
    show (bitmapSet s.pidBitmap i true).bit i = true
    rw [bit_bitmapSet, if_pos rfl])
  rw [scratch_pcb ht hu] at e
  exact hf.fresh hi hu e

theorem PidsExact.remove (h : s.PidsExact) (hf : s.Family) (hd : s.allList.Nodup) (ht : t ∈ s.allList) :
    (s.remove t).PidsExact := by
  intro j hj
  have hmem : ∀ u, u ∈ (s.remove t).allList ↔ u ≠ t ∧ u ∈ s.allList := fun u => hd.mem_erase_iff
  have hpos := (hf.used t ht).1
  show (bitmapSet s.pidBitmap ((s.pcb t).pid - pidStart) false).bit j = true ↔
    ∃ u ∈ (s.remove t).allList, (s.pcb u).pid = j + pidStart
  rw [bit_bitmapSet]
  constructor
  · intro hbit
    split at hbit
    · cases hbit
    · next hne =>
      obtain ⟨u, hu, e⟩ := (h j hj).mp hbit
      exact ⟨u, (hmem u).mpr ⟨by rintro rfl; omega, hu⟩, e⟩
  · rintro ⟨u, hu, e⟩
    obtain ⟨hut, hu⟩ := (hmem u).mp hu
    rw [if_neg fun e' => hut (hf.inj u hu t ht (by omega))]
    exact (h j hj).mpr ⟨u, hu, e⟩

theorem PidsExact.waited (h : s.PidsExact) (hf : s.Family) (hi : s.Inv) (hw : s.WaitedTo s') : s'.PidsExact := by
  cases hw with
  | reaped hmem _ _ => exact (h.remove hf hi.all hmem).same ⟨rfl, rfl, fun _ _ => ⟨rfl, rfl, rfl⟩⟩
  | none => exact h.same ⟨rfl, rfl, fun _ _ => ⟨rfl, rfl, rfl⟩⟩
  | sleeps _ hk => exact h.same ⟨hk.all, hk.pids, hk.kin.pcb⟩

theorem PidsExact.forked {p : ForkPages} (h : s.PidsExact) (hf : s.Family) (hfo : s.Forked p s') :
    s'.PidsExact ↔ Whole (.sysFork p) := by
  cases hfo with
  | none hp =>
    refine iff_of_true h fun hpcb hbuf => ?_
    rcases hp with hp | hp
    · exact absurd hp hpcb
    · exact absurd (hp.symm.trans hbuf) (by decide)
  | scratch hp ht hi => exact iff_of_false (PidsExact.scratch hf ht hi) fun hw => hp.2.2 (hw (by simp [hp.1]) hp.2.1)
  | child hp _ ht _ hpid _ => exact iff_of_true (h.created ht hpid) fun _ _ => hp

theorem PidsExact.effect (h : s.PidsExact) (hf : s.Family) (hi : s.Inv) (he : s.Effect op s') :
    s'.PidsExact ↔ Whole op := by
  cases he with
  | quiet hop hk => exact iff_of_true (h.same hk.kin) hop.whole
  | execv path => exact iff_of_true (h.same (s.sysExecv_kin path)) trivial
  | starts hop ht _ hpid _ => exact iff_of_true (h.created ht hpid) hop.whole
  | removes ht _ hk => exact iff_of_true ((h.remove hf hi.all ht).same hk.kin) trivial
  | forks hfo => exact h.forked hf hfo
  | exits he _ =>
    refine iff_of_true (fun i hlt => ?_) trivial
    rw [he.pids] at hlt ⊢
    rw [h i hlt, he.all]
    simp only [he.pid]
  | waits hop _ hw => exact iff_of_true (h.waited hf hi hw) hop.whole

/-! ## Parents -/

structure LiveProcess (s : Sched) (u : Nat) : Prop where
  mem : u ∈ s.allList
  process : (s.pcb u).pgdir = true
  active : s.status u ≠ .hanging

structure Parents (s : Sched) : Prop where
  parent : ∀ t ∈ s.allList, ∀ q, (s.pcb t).parentPid = some q → ∃ u, s.LiveProcess u ∧ (s.pcb u).pid = q
  init : ∃ u, s.LiveProcess u ∧ (s.pcb u).pid = 1

theorem Parents.mono (h : s.Parents) (hall : ∀ t ∈ s'.allList, t ∈ s.allList ∧ (s'.pcb t).parentPid = (s.pcb t).parentPid)
    (hgo : ∀ u, s.LiveProcess u → s'.LiveProcess u ∧ (s'.pcb u).pid = (s.pcb u).pid) : s'.Parents := by
  have hl : ∀ q, (∃ u, s.LiveProcess u ∧ (s.pcb u).pid = q) → ∃ u, s'.LiveProcess u ∧ (s'.pcb u).pid = q := by
    rintro q ⟨u, hu, rfl⟩
    exact ⟨u, hgo u hu⟩
  refine ⟨fun t ht q hq => hl q ?_, hl 1 h.init⟩
  rw [(hall t ht).2] at hq
  exact h.parent t (hall t ht).1 q hq

theorem Parents.same (h : s.Parents) (hk : SameKin s s') (hh : ∀ t ∈ s.allList, s'.status t = .hanging → s.status t = .hanging) :
    s'.Parents := by
  refine h.mono (fun t ht => ?_) fun u hu => ?_
  · rw [hk.all] at ht
    exact ⟨ht, (hk.pcb t ht).2.1⟩
  · have hp := hk.pcb u hu.mem
    exact ⟨⟨hk.all ▸ hu.mem, hp.2.2.trans hu.process, fun e => hu.active (hh u hu.mem e)⟩, hp.1⟩

theorem Parents.keeps (h : s.Parents) (hk : Keeps s s') : s'.Parents := h.same hk.kin fun t ht => (hk.hanging t ht).mp

theorem Parents.scratch {b : Bitmap} (h : s.Parents) (ht : t ∉ s.allList) : (s.scratch t p b).Parents := by
  have hne : ∀ u ∈ s.allList, u ≠ t := fun u hu e => ht (e ▸ hu)
  have hp : ∀ u ∈ s.allList, (s.scratch t p b).pcb u = s.pcb u := fun u hu => update_of_ne (hne u hu) ..
  have hst : ∀ u ∈ s.allList, (s.scratch t p b).status u = s.status u := fun u hu => update_of_ne (hne u hu) ..
  refine h.mono (fun u hu => ⟨hu, by rw [hp u hu]⟩) fun u hu => ?_
  refine ⟨⟨hu.mem, ?_, ?_⟩, by rw [hp u hu.mem]⟩
  · rw [hp u hu.mem]
    exact hu.process
  · rw [hst u hu.mem]
    exact hu.active

theorem Parents.created {b : Bitmap} (h : s.Parents) (ht : t ∉ s.allList)
    (hpar : ∀ q, p.parentPid = some q → ∃ u, s.LiveProcess u ∧ (s.pcb u).pid = q) :
    (s.created t p b).Parents := by
  have hl : ∀ q, (∃ u, s.LiveProcess u ∧ (s.pcb u).pid = q) → ∃ u, (s.created t p b).LiveProcess u ∧ ((s.created t p b).pcb u).pid = q := by
    rintro q ⟨u, hu, rfl⟩
    refine ⟨u, ⟨mem_created.mpr (.inl hu.mem), ?_, ?_⟩, by rw [created_pcb ht hu.mem]⟩
    · rw [created_pcb ht hu.mem]
      exact hu.process
    · rw [show (s.created t p b).status u = s.status u from update_of_ne (fun e : u = t => ht (e ▸ hu.mem)) ..]
      exact hu.active
  refine ⟨fun u hu q hq => hl q ?_, hl 1 h.init⟩
  rcases mem_created.mp hu with hu | rfl
  · rw [created_pcb ht hu] at hq
    exact h.parent u hu q hq
  · rw [created_self] at hq
    exact hpar q hq

theorem Parents.remove (h : s.Parents) (hd : s.allList.Nodup) (ht : ¬ s.LiveProcess t) : (s.remove t).Parents := by
  refine h.mono (fun u hu => ⟨(hd.mem_erase_iff.mp hu).2, rfl⟩) fun u hu => ?_
  have hut : u ≠ t := fun e => ht (e ▸ hu)
  refine ⟨⟨hd.mem_erase_iff.mpr ⟨hut, hu.mem⟩, hu.process, ?_⟩, rfl⟩
  rw [show (s.remove t).status u = s.status u from update_of_ne hut ..]
  exact hu.active

theorem Parents.exited {parent : Nat} (h : s.Parents) (hf : s.Family) (hc : s.cur ∈ s.allList) (he : s.Exited s' parent) :
    s'.Parents := by
  have hgo : ∀ u, s.LiveProcess u → u ≠ s.cur → s'.LiveProcess u ∧ (s'.pcb u).pid = (s.pcb u).pid := by
    intro u hu hne
    refine ⟨⟨he.all ▸ hu.mem, (he.pgdir u).trans hu.process, fun e => ?_⟩, he.pid u⟩
    rcases (he.hanging u hu.mem).mp e with e | e
    · exact hne e
    · exact hu.active e
  obtain ⟨j, hj, hj1⟩ := h.init
  -- `init` has no parent, so it is not the one that exits
  have hjc : j ≠ s.cur := by
    rintro rfl
    have := he.found
    rw [he.adopted _ hc, (hf.root _ hc hj1).1] at this
    simp at this
  have hi : ∃ u, s'.LiveProcess u ∧ (s'.pcb u).pid = 1 := ⟨j, (hgo j hj hjc).1, (he.pid j).trans hj1⟩
  refine ⟨fun t ht q hq => ?_, hi⟩
  rw [he.all] at ht
  rw [he.adopted t ht] at hq
  split at hq
  · cases hq
    exact hi
  · next hne =>
    obtain ⟨u, hu, hpid⟩ := h.parent t ht q hq
    have huc : u ≠ s.cur := by
      rintro rfl
      exact hne (hq.trans (congrArg some hpid.symm))
    obtain ⟨ha, hp⟩ := hgo u hu huc
    exact ⟨u, ha, hp.trans hpid⟩

theorem Parents.waited (h : s.Parents) (hi : s.Inv) (hw : s.WaitedTo s') : s'.Parents := by
  cases hw with
  | reaped _ _ hst =>
    exact (h.remove hi.all fun ha => ha.active hst).same ⟨rfl, rfl, fun _ _ => ⟨rfl, rfl, rfl⟩⟩ fun _ _ => id
  | none => exact h.same ⟨rfl, rfl, fun _ _ => ⟨rfl, rfl, rfl⟩⟩ fun _ _ => id
  | sleeps _ hk =>
    refine h.same ⟨hk.all, hk.pids, hk.kin.pcb⟩ fun t ht e => ?_
    have e := (hk.hanging t ht).mp e
    by_cases htc : t = s.cur
    · subst htc
      exact absurd ((setStatus_self s s.cur .waiting).symm.trans e) (by decide)
    · exact (setStatus_of_ne htc).symm.trans e

theorem Parents.effect (h : s.Parents) (hf : s.Family) (hi : s.Inv) (he : s.Effect op s') : s'.Parents := by
  cases he with
  | quiet _ hk => exact h.keeps hk
  | execv path => exact h.same (s.sysExecv_kin path) fun _ _ => id
  | starts _ ht _ _ hpar => exact h.created ht fun q hq => by simp [hpar] at hq
  | removes _ hg hk => exact (h.remove hi.all fun ha => by simp [ha.process] at hg).keeps hk
  | forks hfo =>
    cases hfo with
    | none => exact h
    | scratch _ ht _ => exact h.scratch ht
    | child _ hg ht _ _ hpar =>
      refine h.created ht fun q hq => ⟨s.cur, ⟨hi.cur, hg, by simp [hi.status_cur]⟩, ?_⟩
      exact Option.some.inj (hpar.symm.trans hq)
  | exits he _ => exact h.exited hf hi.cur he
  | waits _ _ hw => exact h.waited hi hw

theorem Parents.pid2thread {q : Nat} (h : s.Parents) (ht : t ∈ s.allList) (hq : (s.pcb t).parentPid = some q) :
    (s.pid2thread (some q)).isSome := by
  obtain ⟨u, hu, hpid⟩ := h.parent t ht q hq
  rw [Sched.pid2thread, List.find?_isSome]
  exact ⟨u, hu.mem, by simp [hpid]⟩

theorem Parents.sysExit {q : Nat} (h : s.Parents) (hf : s.Family) (hi : s.Inv) (hq : s.pcbCur.parentPid = some q)
    (status : Int) : ∃ s', s.sysExit status = .ok s' := by
  have hil : s.cur ≠ s.idleThread := fun e => by simp [pcbCur, e, hi.idleParent] at hq
  have hi1 := hi.setPcb_cur (p := { s.pcbCur with exitStatus := Int8.ofInt status }) hil
  have hpcb := s.setPcb_exitStatus (Int8.ofInt status)
  unfold Sched.sysExit
  dsimp only
  generalize hs1 : s.setPcb s.cur { s.pcbCur with exitStatus := Int8.ofInt status } = s1 at hi1 hpcb ⊢
  have hcur : s1.cur = s.cur := by rw [← hs1]; rfl
  have hall : s1.allList = s.allList := by rw [← hs1]; rfl
  have hid : s1.idleThread = s.idleThread := by rw [← hs1]; rfl
  have hq1 : s1.pcbCur.parentPid = some q := by rw [pcbCur, hcur, (hpcb s.cur).2.1, ← hq, pcbCur]
  have hpid1 : s1.pcbCur.pid = s.pcbCur.pid := by rw [pcbCur, hcur, (hpcb s.cur).1, pcbCur]
  -- a task is not its own child, so the adoption does not change its parent
  have hq2 : (s1.initAdopt s1.pcbCur.pid).pcbCur.parentPid = some q := by
    refine (initAdopt_parentPid (hall ▸ hcur ▸ hi.cur)).trans ?_
    show (if s1.pcbCur.parentPid = some s1.pcbCur.pid then some 1 else s1.pcbCur.parentPid) = some q
    rw [hq1, hpid1, ← hq, if_neg (show ¬ s.pcbCur.parentPid = some s.pcbCur.pid from hf.own _ hi.cur)]
  obtain ⟨u, hu, hpid⟩ := h.parent _ hi.cur q hq
  have hs : ((s1.initAdopt s1.pcbCur.pid).pid2thread (some q)).isSome := by
    rw [Sched.pid2thread, List.find?_isSome]
    refine ⟨u, hall ▸ hu.mem, ?_⟩
    rw [(initAdopt_pid ..).1, (hpcb u).1, hpid]
    exact decide_eq_true rfl
  obtain ⟨parent, hpa⟩ := Option.isSome_iff_exists.mp hs
  rw [if_neg (by simp [hq1]), hq2]
  simp only [hpa]
  obtain ⟨_, s', hw, hb, -⟩ := (hi1.initAdopt s1.pcbCur.pid).exitEnd (find_mem hpa).1 (by rw [← hcur, ← hid] at hil; exact hil)
  exact ⟨s', by rw [hw, ok_bind, hb]⟩

theorem Started.parents {init : Nat} (h : s.Started init) : s.Parents := by
  have hmem : ∀ u, u ∈ s.allList ↔ u = init ∨ u = s.mainThread ∨ u = s.idleThread := fun u => by simp [h.all]
  refine ⟨fun t ht q hq => ?_, init, ⟨(hmem _).mpr (.inl rfl), by rw [h.pcbInit], ?_⟩, by rw [h.pcbInit]⟩
  · rcases (hmem t).mp ht with rfl | rfl | rfl <;> simp [h.pcbInit, h.pcbMain, h.pcbIdle] at hq
  · rw [h.status _ ((hmem _).mpr (.inl rfl))]
    split <;> simp

theorem Started.pidsExact {init : Nat} (h : s.Started init) : s.PidsExact := by
  obtain ⟨hlen, hb⟩ := h.pids
  intro i hi
  rw [hlen] at hi
  rw [hb i hi, h.all]
  simp [h.pcbInit, h.pcbMain, h.pcbIdle, pidStart]
  omega

end Sched

open Sched

def PidTree (s : Sched) : Prop :=
  (s.allList.Nodup ∧ ∀ t ∈ s.allList, ∀ u ∈ s.allList, (s.pcb t).pid = (s.pcb u).pid → t = u) ∧ s.PidsExact ∧
    ∀ t ∈ s.allList, ∀ q, (s.pcb t).parentPid = some q → ∃ u ∈ s.allList, (s.pcb u).pid = q

def WholeStep (s s' : Sched) : Prop := ∃ op, s.Calls op ∧ Whole op ∧ s.run op = .ok s'

theorem pidTree_iff {s : Sched} (hi : s.Inv) (hf : s.Family) (hp : s.Parents) : PidTree s ↔ s.PidsExact := by
  refine ⟨fun h => h.2.1, fun h => ⟨⟨hi.all, hf.inj⟩, h, fun t ht q hq => ?_⟩⟩
  obtain ⟨u, hu, hpid⟩ := hp.parent t ht q hq
  exact ⟨u, hu.mem, hpid⟩

/-- **Pids and parents.** As long as every fork was whole, pids are unique, the bitmap is exact
and parents exist. -/
theorem pid_tree_iff {s : Sched} (h : Reach WholeStep Start s) :
    PidTree s ∧
      (∀ t ∈ s.allList, ∀ q, (s.pcb t).parentPid = some q → (s.pid2thread (some q)).isSome) ∧
      (∀ status, s.pcbCur.parentPid ≠ none → ∃ s', s.sysExit status = .ok s') ∧
      ∀ op s', s.Calls op → s.run op = .ok s' → (PidTree s' ↔ Whole op) := by
  have hinv : s.Inv ∧ s.Family ∧ s.Parents ∧ s.PidsExact := by
    refine h.invariant (P := fun s => s.Inv ∧ s.Family ∧ s.Parents ∧ s.PidsExact)
      (fun _ ⟨_, h0⟩ => ⟨h0.inv, h0.family, h0.parents, h0.pidsExact⟩) ?_
    rintro s s' ⟨hi, hf, hp, hx⟩ ⟨op, hc, hw, hr⟩
    have he := hi.effect hc hr
    exact ⟨(hi.run hc.1 hc.2.1).holds hr, hf.effect hi he, hp.effect hf hi he, (hx.effect hf hi he).mpr hw⟩
  obtain ⟨hi, hf, hp, hx⟩ := hinv
  refine ⟨(pidTree_iff hi hf hp).mpr hx, fun t ht q hq => hp.pid2thread ht hq, fun status hne => ?_, fun op s' hc hr => ?_⟩
  · obtain ⟨q, hq⟩ := Option.ne_none_iff_exists'.mp hne
    exact hp.sysExit hf hi hq status
  · have he := hi.effect hc hr
    have hi' := (hi.run hc.1 hc.2.1).holds hr
    rw [pidTree_iff hi' (hf.effect hi he) (hp.effect hf hi he)]
    exact hx.effect hf hi he

theorem pid_tree_first_child : PidTree ((boot.after (.threadExit 2)).after (.sysFork (forkPages 4))) := by
  have h1 : Reach WholeStep Start (boot.after (.threadExit 2)) :=
    (Reach.refl boot_start).tail ⟨_, boot_calls_exit, trivial, run_after (by decide +kernel)⟩
  have hc2 := calls_sysFork (s := boot.after (.threadExit 2)) (t := 4) rfl (by decide +kernel) (by decide +kernel)
    (by decide +kernel)
  exact ((pid_tree_iff h1).2.2.2 _ _ hc2 (run_after (by decide +kernel))).mpr fun _ _ => ⟨rfl, rfl⟩

/-- Without pages for the child's bitmap `sys_fork` fails, and the pid stays taken by nobody. -/
theorem pid_leaks_in_fork : ∃ s, Reach CallStep Start s ∧ ¬ PidTree s := by
  have h1 := call_after (.threadExit 2) (.refl boot_start) boot_calls_exit (by decide +kernel)
  have hc : (boot.after (.threadExit 2)).Calls (.sysFork ⟨some 4, true, false, false⟩) := by
    refine ⟨⟨fun t ht => ?_, rfl, fun e => absurd e (by decide +kernel)⟩, trivial, trivial⟩
    cases ht
    exact ⟨by decide +kernel, by decide +kernel⟩
  refine ⟨_, call_after _ h1 hc (by decide +kernel), fun h => ?_⟩
  have hbit := (h.2.1 1 (by decide +kernel)).mp (by decide +kernel)
  revert hbit
  decide +kernel

end OperateSystem
