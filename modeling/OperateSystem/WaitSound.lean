import OperateSystem.TasksSound

/-!
# Exit and wait

Who is whose child, over whole runs: pids are unique and `init` keeps its own.
A task that waits has no hanging child, unless a process exits that has one while
`init` waits for somebody else.
-/

namespace OperateSystem

open Function

namespace Sched

variable {s s' : Sched} {t : Nat}
variable {i : Nat} {p : Pcb} {op : SchedOp}

def NoLost (s : Sched) : Prop :=
  ∀ w ∈ s.allList, ∀ z ∈ s.allList, s.status w = .waiting → (s.pcb z).parentPid = some (s.pcb w).pid →
    s.status z ≠ .hanging

/-- The process does not hand a hanging child to a waiting `init`, or it is a
child of `init` itself. -/
def Safe (s : Sched) : SchedOp → Prop
  | .sysExit _ =>
    (∃ z ∈ s.allList, (s.pcb z).parentPid = some s.pcbCur.pid ∧ s.status z = .hanging) →
      (∃ w ∈ s.allList, (s.pcb w).pid = 1 ∧ s.status w = .waiting) → s.pcbCur.parentPid = some 1
  | _ => True

/-- Tasks wait for a child only in `sys_wait` and hang only in `sys_exit`, and
only kernel threads call `thread_exit` themselves. -/
def Usual (s : Sched) : SchedOp → Prop
  | .threadBlock stat => stat = .blocked
  | .threadUnblock t => s.status t = .blocked
  | .threadExit t => (s.pcb t).pgdir = false
  | _ => True

def Calls (s : Sched) (op : SchedOp) : Prop := s.May op ∧ s.Proper op ∧ s.Usual op

structure Family (s : Sched) : Prop where
  used : ∀ t ∈ s.allList, pidStart ≤ (s.pcb t).pid ∧ s.pidBitmap.bit ((s.pcb t).pid - pidStart) = true
  inj : ∀ t ∈ s.allList, ∀ u ∈ s.allList, (s.pcb t).pid = (s.pcb u).pid → t = u
  init : ∃ t ∈ s.allList, (s.pcb t).pid = 1
  root : ∀ t ∈ s.allList, (s.pcb t).pid = 1 → (s.pcb t).parentPid = none ∧ (s.pcb t).pgdir = true
  own : ∀ t ∈ s.allList, (s.pcb t).parentPid ≠ some (s.pcb t).pid

structure SameKin (s s' : Sched) : Prop where
  all : s'.allList = s.allList
  pids : s'.pidBitmap = s.pidBitmap
  pcb : ∀ t ∈ s.allList, (s'.pcb t).pid = (s.pcb t).pid ∧ (s'.pcb t).parentPid = (s.pcb t).parentPid ∧
    (s'.pcb t).pgdir = (s.pcb t).pgdir

theorem Family.same (h : s.Family) (hk : SameKin s s') : s'.Family := by
  obtain ⟨i, hi, hpid⟩ := h.init
  refine ⟨fun t ht => ?_, fun t ht u hu => ?_, ⟨i, hk.all ▸ hi, ?_⟩, fun t ht => ?_, fun t ht => ?_⟩
  · rw [hk.all] at ht
    rw [(hk.pcb t ht).1, hk.pids]
    exact h.used t ht
  · rw [hk.all] at ht hu
    rw [(hk.pcb t ht).1, (hk.pcb u hu).1]
    exact h.inj t ht u hu
  · rw [(hk.pcb i hi).1, hpid]
  · rw [hk.all] at ht
    rw [(hk.pcb t ht).1, (hk.pcb t ht).2.1, (hk.pcb t ht).2.2]
    exact h.root t ht
  · rw [hk.all] at ht
    rw [(hk.pcb t ht).1, (hk.pcb t ht).2.1]
    exact h.own t ht

theorem NoLost.same (h : s.NoLost) (hk : SameKin s s')
    (hw : ∀ t ∈ s.allList, s'.status t = .waiting → s.status t = .waiting)
    (hh : ∀ t ∈ s.allList, s'.status t = .hanging → s.status t = .hanging) : s'.NoLost := by
  intro w hw' z hz hst hpar hha
  rw [hk.all] at hw' hz
  rw [(hk.pcb w hw').1, (hk.pcb z hz).2.1] at hpar
  exact h w hw' z hz (hw w hw' hst) hpar (hh z hz hha)

theorem Keeps.kin (h : Keeps s s') : SameKin s s' := ⟨h.all, h.pids, fun t _ => by rw [h.pcb]; exact ⟨rfl, rfl, rfl⟩⟩

theorem Family.fresh (h : s.Family) (hi : s.FreePid i) (ht : t ∈ s.allList) : (s.pcb t).pid ≠ i + pidStart := by
  intro e
  have := (h.used t ht).2
  rw [e, Nat.add_sub_cancel, hi.1] at this
  cases this

theorem Family.used_of_set (h : s.Family) (ht : t ∈ s.allList) :
    pidStart ≤ (s.pcb t).pid ∧ (bitmapSet s.pidBitmap i true).bit ((s.pcb t).pid - pidStart) = true := by
  refine ⟨(h.used t ht).1, ?_⟩
  rw [bit_bitmapSet]
  split
  · rfl
  · exact (h.used t ht).2

theorem Family.scratch (h : s.Family) (ht : t ∉ s.allList) :
    (s.scratch t p (bitmapSet s.pidBitmap i true)).Family := by
  obtain ⟨j, hj, hpid⟩ := h.init
  refine ⟨fun u hu => ?_, fun u hu v hv => ?_, ⟨j, hj, ?_⟩, fun u hu => ?_, fun u hu => ?_⟩
  · rw [scratch_pcb ht hu]
    exact h.used_of_set hu
  · rw [scratch_pcb ht hu, scratch_pcb ht hv]
    exact h.inj u hu v hv
  · rw [scratch_pcb ht hj, hpid]
  · rw [scratch_pcb ht hu]
    exact h.root u hu
  · rw [scratch_pcb ht hu]
    exact h.own u hu

theorem Family.created (h : s.Family) (ht : t ∉ s.allList) (hi : s.FreePid i)
    (hpid : p.pid = i + pidStart)
    (hpar : ∀ q, p.parentPid = some q → ∃ u ∈ s.allList, q = (s.pcb u).pid) :
    (s.created t p (bitmapSet s.pidBitmap i true)).Family := by
  obtain ⟨j, hj, hj1⟩ := h.init
  refine ⟨fun u hu => ?_, fun u hu v hv e => ?_, ⟨j, mem_created.mpr (.inl hj), by rw [created_pcb ht hj, hj1]⟩, fun u hu e => ?_,
    fun u hu e => ?_⟩
  · rcases mem_created.mp hu with hu | rfl
    · rw [created_pcb ht hu]
      exact h.used_of_set hu
    · rw [created_self, hpid, Nat.add_sub_cancel]
      refine ⟨Nat.le_add_left .., ?_⟩
      show (bitmapSet s.pidBitmap i true).bit i = true
      rw [bit_bitmapSet, if_pos rfl]
  · rcases mem_created.mp hu with hu' | hu' <;> rcases mem_created.mp hv with hv' | hv'
    · rw [created_pcb ht hu', created_pcb ht hv'] at e
      exact h.inj u hu' v hv' e
    · rw [created_pcb ht hu', hv', created_self, hpid] at e
      exact absurd e (h.fresh hi hu')
    · rw [created_pcb ht hv', hu', created_self, hpid] at e
      exact absurd e.symm (h.fresh hi hv')
    · exact hu'.trans hv'.symm
  · rcases mem_created.mp hu with hu | rfl
    · rw [created_pcb ht hu] at e ⊢
      exact h.root u hu e
    · rw [created_self, hpid] at e
      exact absurd (hj1.trans e.symm) (h.fresh hi hj)
  · rcases mem_created.mp hu with hu | rfl
    · rw [created_pcb ht hu] at e
      exact h.own u hu e
    · rw [created_self] at e
      obtain ⟨v, hv, hq⟩ := hpar _ e
      exact h.fresh hi hv (hq.symm.trans hpid)

theorem Family.remove (h : s.Family) (hd : s.allList.Nodup) (ht : t ∈ s.allList) (h1 : (s.pcb t).pid ≠ 1) :
    (s.remove t).Family := by
  have hmem : ∀ u, u ∈ (s.remove t).allList ↔ u ≠ t ∧ u ∈ s.allList := fun u => hd.mem_erase_iff
  obtain ⟨j, hj, hj1⟩ := h.init
  refine ⟨fun u hu => ?_, fun u hu v hv => ?_, ⟨j, (hmem j).mpr ⟨fun e => h1 (e ▸ hj1), hj⟩, hj1⟩, fun u hu => ?_,
    fun u hu => ?_⟩
  · obtain ⟨hut, hu⟩ := (hmem u).mp hu
    have hus := h.used u hu
    have hne : (s.pcb u).pid - pidStart ≠ (s.pcb t).pid - pidStart := by
      have := (h.used t ht).1
      intro e
      exact hut (h.inj u hu t ht (by omega))
    refine ⟨hus.1, ?_⟩
    show (bitmapSet s.pidBitmap ((s.pcb t).pid - pidStart) false).bit ((s.pcb u).pid - pidStart) = true
    rw [bit_bitmapSet, if_neg hne]
    exact hus.2
  · exact h.inj u ((hmem u).mp hu).2 v ((hmem v).mp hv).2
  · exact h.root u ((hmem u).mp hu).2
  · exact h.own u ((hmem u).mp hu).2

/-! ## The three calls -/

theorem NoLost.remove (h : s.NoLost) (hd : s.allList.Nodup) : (s.remove t).NoLost := by
  intro w hw z hz hst hpar hh
  obtain ⟨hwt, hw⟩ := hd.mem_erase_iff.mp hw
  obtain ⟨hzt, hz⟩ := hd.mem_erase_iff.mp hz
  rw [show (s.remove t).status w = s.status w from update_of_ne hwt ..] at hst
  rw [show (s.remove t).status z = s.status z from update_of_ne hzt ..] at hh
  exact h w hw z hz hst hpar hh

theorem NoLost.scratch {b : Bitmap} (h : s.NoLost) (ht : t ∉ s.allList) : (s.scratch t p b).NoLost := by
  have hp : ∀ u ∈ s.allList, (s.scratch t p b).pcb u = s.pcb u ∧ (s.scratch t p b).status u = s.status u := by
    intro u hu
    have hut : u ≠ t := fun e => ht (e ▸ hu)
    exact ⟨update_of_ne hut .., update_of_ne hut ..⟩
  intro w hw z hz hst hpar
  rw [(hp z hz).2]
  rw [(hp w hw).2] at hst
  rw [(hp w hw).1, (hp z hz).1] at hpar
  exact h w hw z hz hst hpar

theorem NoLost.created {b : Bitmap} (h : s.NoLost) (ht : t ∉ s.allList) : (s.created t p b).NoLost := by
  have h1 := h.scratch (p := p) (b := b) ht
  have hst : (s.created t p b).status t = .ready := update_self ..
  have hmem : ∀ u, u ∈ (s.created t p b).allList → u = t ∨ u ∈ s.allList := fun u hu => by
    simpa [Sched.created, or_comm] using hu
  intro w hw z hz hwa hpar hh
  rcases hmem w hw with rfl | hw
  · rw [hst] at hwa
    cases hwa
  rcases hmem z hz with rfl | hz
  · rw [hst] at hh
    cases hh
  exact h1 w hw z hz hwa hpar hh

theorem Family.exited {parent : Nat} (h : s.Family) (he : s.Exited s' parent) : s'.Family := by
  obtain ⟨j, hj, hj1⟩ := h.init
  refine ⟨fun t ht => ?_, fun t ht u hu => ?_, ⟨j, he.all ▸ hj, by rw [he.pid, hj1]⟩, fun t ht e => ?_, fun t ht e => ?_⟩
  · rw [he.all] at ht
    rw [he.pid, he.pids]
    exact h.used t ht
  · rw [he.all] at ht hu
    rw [he.pid, he.pid]
    exact h.inj t ht u hu
  · rw [he.all] at ht
    rw [he.pid] at e
    obtain ⟨hr, hg⟩ := h.root t ht e
    rw [he.adopted t ht, hr, he.pgdir t]
    exact ⟨by simp, hg⟩
  · rw [he.all] at ht
    rw [he.pid, he.adopted t ht] at e
    split at e
    · next hp =>
      have := (h.root t ht (Option.some.inj e).symm).1
      rw [this] at hp
      cases hp
    · exact h.own t ht e

theorem NoLost.exited {parent : Nat} {status : Int} (h : s.NoLost) (hf : s.Family) (hc : s.cur ∈ s.allList)
    (he : s.Exited s' parent) : s'.NoLost ↔ s.Safe (.sysExit status) := by
  -- the task that is woken is the only one with the pid of the parent
  have hcur : (s'.pcb s.cur).parentPid = (s.pcb s.cur).parentPid := by
    rw [he.adopted _ hc, pcbCur, if_neg (hf.own _ hc)]
  have hpa : ∀ w ∈ s.allList, (s.pcb s.cur).parentPid = some (s.pcb w).pid → w = parent := by
    intro w hw e
    have := he.found
    rw [hcur, e] at this
    exact hf.inj w hw parent he.mem (Option.some.inj this)
  constructor
  · rintro hn ⟨z, hz, hzp, hzh⟩ ⟨w, hw, hw1, hww⟩
    have hzp' : (s'.pcb z).parentPid = some 1 := by rw [he.adopted z hz, if_pos hzp]
    have hwa : ¬ s'.status w = .waiting := by
      intro e
      refine hn w (he.all ▸ hw) z (he.all ▸ hz) e ?_ ((he.hanging z hz).mpr (.inr hzh))
      rw [hzp', he.pid, hw1]
    have hwp : w = parent := by
      by_contra hne
      exact hwa ((he.waiting w hw).mpr ⟨hne, hww⟩)
    have := he.found
    rw [hcur, ← hwp, hw1] at this
    exact this
  · intro hs w hw z hz hst hpar hh
    rw [he.all] at hw hz
    obtain ⟨hne, hww⟩ := (he.waiting w hw).mp hst
    rw [he.pid] at hpar
    rcases (he.hanging z hz).mp hh with rfl | hzh
    · rw [hcur] at hpar
      exact hne (hpa w hw hpar)
    · rw [he.adopted z hz] at hpar
      split at hpar
      · next hzp =>
        have hw1 := (Option.some.inj hpar).symm
        have := hs ⟨z, hz, hzp, hzh⟩ ⟨w, hw, hw1, hww⟩
        exact hne (hpa w hw (by rw [hw1]; exact this))
      · exact h w hw z hz hww hpar hzh

theorem NoLost.waited (h : s.NoLost) (hi : s.Inv) (hw : s.WaitedTo s') : s'.NoLost := by
  cases hw with
  | reaped hmem hpar hst => exact h.remove hi.all
  | none => exact h
  | sleeps hn hk =>
    intro w hw z hz hst hpar hh
    rw [hk.all] at hw hz
    rw [hk.waiting w hw] at hst
    rw [hk.hanging z hz] at hh
    rw [hk.pcb] at hpar
    have hzc : z ≠ s.cur := by
      rintro rfl
      exact absurd ((setStatus_self s s.cur .waiting).symm.trans hh) nofun
    have hz' := (setStatus_of_ne hzc).symm.trans hh
    by_cases hwc : w = s.cur
    · subst hwc
      exact hn z hz hpar hz'
    · exact h w hw z hz ((setStatus_of_ne hwc).symm.trans hst) hpar hz'

theorem Family.waited (h : s.Family) (hi : s.Inv) (hw : s.WaitedTo s') : s'.Family := by
  cases hw with
  | reaped hmem hpar hst =>
    refine (h.remove hi.all hmem fun e => ?_).same ⟨rfl, rfl, fun _ _ => ⟨rfl, rfl, rfl⟩⟩
    rw [(h.root _ hmem e).1] at hpar
    cases hpar
  | none => exact h.same ⟨rfl, rfl, fun _ _ => ⟨rfl, rfl, rfl⟩⟩
  | sleeps hn hk => exact h.same ⟨hk.all, hk.pids, hk.kin.pcb⟩

theorem sysWait_reaped {pid : Nat} {status : Int} (h : s.sysWait = .ok (s', .reaped pid status)) :
    ∃ t, s.findHangingChild s.pcbCur.pid = some t ∧ pid = (s.pcb t).pid ∧ status = (s.pcb t).exitStatus.toInt ∧
      s' = (s.remove t).setCont s.cur .own := by
  unfold Sched.sysWait at h
  split at h
  · next t ht =>
    cases h
    exact ⟨t, ht, rfl, rfl, rfl⟩
  · split at h
    · cases h
    · obtain ⟨_, -, h⟩ := bind_ok.mp h
      cases h

/-! ## Every step -/

def InWait (s : Sched) : SchedOp → Prop
  | .sysWait => True
  | .resume => s.cont s.cur = .sysWait
  | _ => False

def Plain (s : Sched) : SchedOp → Prop
  | .sysFork _ | .sysExit _ => False
  | op => ¬ s.InWait op

theorem Plain.safe (h : s.Plain op) : s.Safe op := by
  cases op <;> trivial

theorem InWait.safe (h : s.InWait op) : s.Safe op := by
  cases op <;> trivial

inductive Effect (s : Sched) : SchedOp → Sched → Prop
  | quiet {op : SchedOp} {s' : Sched} (hop : s.Plain op) (hk : Keeps s s') : Effect s op s'
  | execv (path : List Char) : Effect s (.sysExecv path) (s.sysExecv path)
  | starts {op : SchedOp} {t i : Nat} {p : Pcb} (hop : s.Plain op) (ht : t ∉ s.allList) (hi : s.FreePid i)
    (hpid : p.pid = i + pidStart) (hpar : p.parentPid = none) :
    Effect s op (s.created t p (bitmapSet s.pidBitmap i true))
  | removes {t : Nat} {s' : Sched} (ht : t ∈ s.allList) (hg : (s.pcb t).pgdir = false) (hk : Keeps (s.remove t) s') :
    Effect s (.threadExit t) s'
  | forks {p : ForkPages} {s' : Sched} (hf : s.Forked p s') : Effect s (.sysFork p) s'
  | exits {status : Int} {parent : Nat} {s' : Sched} (he : s.Exited s' parent)
    (hst : ∀ t, (s'.pcb t).exitStatus = if t = s.cur then Int8.ofInt status else (s.pcb t).exitStatus) :
    Effect s (.sysExit status) s'
  | waits {op : SchedOp} {r : Sched × Waited} (hop : s.InWait op) (hr : s.sysWait = .ok r) (hw : s.WaitedTo r.1) :
    Effect s op r.1

theorem Inv.effect_start {page : Option Nat} {pgdir : Bool} {name : List Char} (h : s.Inv)
    (hf : s.Fresh page) (hop : s.Plain op) (hr : s.start page pgdir name = .ok s') : s.Effect op s' := by
  obtain ⟨t, i, ht, hi, rfl⟩ := (h.start hf pgdir name).holds hr
  exact .starts hop ht hi rfl rfl

theorem Inv.effect_wait (h : s.Inv) (hi : s.cur ≠ s.idleThread) (hop : s.InWait op)
    (hr : Prod.fst <$> s.sysWait = .ok s') : s.Effect op s' := by
  obtain ⟨r, hs, -, hw⟩ := h.sysWait hi
  rw [hs] at hr
  cases hr
  exact .waits hop hs hw

theorem Inv.effect (h : s.Inv) (hc : s.Calls op) (hr : s.run op = .ok s') : s.Effect op s' := by
  obtain ⟨⟨harg, hwho⟩, hp, hu⟩ := hc
  have hi : s.cont s.cur ≠ .own → s.cur ≠ s.idleThread := fun hc e => hc (by rw [e]; exact h.idleCont)
  cases op with
  | threadStart page name => exact h.effect_start harg id hr
  | processExecute page name => exact h.effect_start harg id hr
  | schedule =>
    obtain ⟨_, hs, -, hk⟩ := h.schedule
    cases hs.symm.trans hr
    exact .quiet id hk
  | threadYield =>
    obtain ⟨_, hs, -, hk⟩ := h.threadYield
    cases hs.symm.trans hr
    exact .quiet id hk
  | threadBlock stat =>
    obtain rfl : stat = .blocked := hu
    obtain ⟨_, hs, -, hk⟩ := h.threadBlock .blocked .own (.inl rfl) fun _ => ⟨rfl, rfl⟩
    cases hs.symm.trans hr
    exact .quiet id ((h.keeps_blocked .own).trans hk)
  | threadUnblock t =>
    have hb : s.status t = .blocked := hu
    obtain ⟨_, hs, rfl, -⟩ := h.threadUnblock harg.1 harg.2 hp
    cases hs.symm.trans hr
    exact .quiet id (keeps_change (by simp [hb]) (by simp))
  | threadExit t =>
    obtain ⟨_, hs, -, hk⟩ := h.threadExit hp.1 hp.2
    cases hs.symm.trans hr
    exact .removes harg hu hk
  | semaDown k => exact .quiet id ((h.semaDown (fun e => hwho.2 e) k).holds hr).2
  | semaUp k => exact .quiet id ((h.semaUp k).holds hr).2
  | sysFork p => exact .forks (((h.sysFork harg).map (Q := s.Forked p)).holds hr)
  | sysExecv path =>
    cases hr
    exact .execv path
  | sysExit status =>
    obtain ⟨-, parent, he⟩ := (h.sysExit (fun e => hwho.2 e) status).holds hr
    exact .exits he (h.sysExit_exitStatus (fun e => hwho.2 e) hr)
  | sysWait => exact h.effect_wait (fun e => hwho.2 e) trivial hr
  | resume =>
    have hr : s.resume = .ok s' := hr
    unfold Sched.resume at hr
    cases hc : s.cont s.cur with
    | own => exact absurd hc hwho
    | semaDown k =>
      rw [hc] at hr
      exact .quiet (by simp [Plain, InWait, hc]) ((h.semaDown (hi (by simp [hc])) k).holds hr).2
    | sysWait =>
      rw [hc] at hr
      exact h.effect_wait (hi (by simp [hc])) hc hr

theorem sysExecv_kin (s : Sched) (path : List Char) : SameKin s (s.sysExecv path) := by
  refine ⟨rfl, rfl, fun t _ => ?_⟩
  by_cases ht : t = s.cur
  · simp [ht, Sched.sysExecv, setPcb, pcbCur]
  · simp [Sched.sysExecv, setPcb, ht]

theorem Family.forked {p : ForkPages} (h : s.Family) (hc : s.cur ∈ s.allList) (hf : s.Forked p s') : s'.Family := by
  cases hf with
  | none => exact h
  | scratch _ ht _ => exact h.scratch ht
  | child _ _ ht hi hpid hpar => exact h.created ht hi hpid fun q hq => ⟨s.cur, hc, Option.some.inj (hq.symm.trans hpar)⟩

theorem NoLost.forked {p : ForkPages} (h : s.NoLost) (hf : s.Forked p s') : s'.NoLost := by
  cases hf with
  | none => exact h
  | scratch _ ht _ => exact h.scratch ht
  | child _ _ ht _ _ _ => exact h.created ht

theorem Family.effect (h : s.Family) (hi : s.Inv) (he : s.Effect op s') : s'.Family := by
  cases he with
  | quiet _ hk => exact h.same hk.kin
  | execv path => exact h.same (s.sysExecv_kin path)
  | starts _ ht hfr hpid hpar => exact h.created ht hfr hpid fun q hq => by simp [hpar] at hq
  | removes ht hg hk => exact (h.remove hi.all ht fun e => by simp [(h.root _ ht e).2] at hg).same hk.kin
  | forks hf => exact h.forked hi.cur hf
  | exits he _ => exact h.exited he
  | waits _ _ hw => exact h.waited hi hw

theorem NoLost.keeps (h : s.NoLost) (hk : Keeps s s') : s'.NoLost :=
  h.same hk.kin (fun t ht => (hk.waiting t ht).mp) fun t ht => (hk.hanging t ht).mp

theorem NoLost.effect (h : s.NoLost) (hf : s.Family) (hi : s.Inv) (he : s.Effect op s') :
    s'.NoLost ↔ s.Safe op := by
  cases he with
  | quiet hop hk => exact iff_of_true (h.keeps hk) hop.safe
  | execv path => exact iff_of_true (h.same (s.sysExecv_kin path) (fun _ _ => id) fun _ _ => id) trivial
  | starts hop ht _ _ _ => exact iff_of_true (h.created ht) hop.safe
  | removes _ _ hk => exact iff_of_true ((h.remove hi.all).keeps hk) trivial
  | forks hfo => exact iff_of_true (h.forked hfo) trivial
  | exits he _ => exact h.exited hf hi.cur he
  | waits hop _ hw => exact iff_of_true (h.waited hi hw) hop.safe

theorem Started.family {init : Nat} (h : s.Started init) : s.Family := by
  have hmem : ∀ u, u ∈ s.allList ↔ u = init ∨ u = s.mainThread ∨ u = s.idleThread := fun u => by simp [h.all]
  obtain ⟨-, hb⟩ := h.pids
  refine ⟨fun t ht => ?_, fun t ht u hu => ?_, ⟨init, (hmem _).mpr (.inl rfl), by rw [h.pcbInit]⟩, fun t ht => ?_,
    fun t ht => ?_⟩
  · rcases (hmem t).mp ht with rfl | rfl | rfl <;> simp [h.pcbInit, h.pcbMain, h.pcbIdle, pidStart, hb]
  · rcases (hmem t).mp ht with rfl | rfl | rfl <;> rcases (hmem u).mp hu with rfl | rfl | rfl <;>
      simp [h.pcbInit, h.pcbMain, h.pcbIdle]
  · rcases (hmem t).mp ht with rfl | rfl | rfl <;> simp [h.pcbInit, h.pcbMain, h.pcbIdle]
  · rcases (hmem t).mp ht with rfl | rfl | rfl <;> simp [h.pcbInit, h.pcbMain, h.pcbIdle]

theorem Started.noLost {init : Nat} (h : s.Started init) : s.NoLost := by
  intro w hw z _ hst
  rw [h.status w hw] at hst
  split at hst <;> cases hst

def forkPages (t : Nat) : ForkPages := ⟨some t, true, true, true⟩

theorem calls_sysFork (hc : s.cont s.cur = .own) (hi : s.cur ≠ s.idleThread) (ht : t ∉ s.allList)
    (hm : t ≠ s.mainThread) : s.Calls (.sysFork (forkPages t)) := by
  refine ⟨⟨fun u hu => ?_, hc, fun e => absurd e hi⟩, trivial, trivial⟩
  cases hu
  exact ⟨ht, hm⟩

theorem boot_calls_exit : boot.Calls (.threadExit 2) :=
  ⟨⟨by show 2 ∈ _; decide, rfl, fun e => absurd e (by decide)⟩, ⟨fun _ => by simp [boot], by decide⟩, rfl⟩

end Sched

open Sched

def CallStep (s s' : Sched) : Prop := ∃ op, s.Calls op ∧ s.run op = .ok s'

def SafeStep (s s' : Sched) : Prop := ∃ op, s.Calls op ∧ s.Safe op ∧ s.run op = .ok s'

/-- **Exit and wait.** As long as every exit was safe no wake-up is lost, and the
next step loses one exactly if it is an unsafe exit. -/
theorem no_lost_wakeup_iff {s : Sched} (h : Reach SafeStep Start s) :
    s.NoLost ∧ ∀ op s', s.Calls op → s.run op = .ok s' → (s'.NoLost ↔ s.Safe op) := by
  have hinv : s.Inv ∧ s.Family ∧ s.NoLost := by
    refine h.invariant (P := fun s => s.Inv ∧ s.Family ∧ s.NoLost) (fun _ ⟨_, h0⟩ => ⟨h0.inv, h0.family, h0.noLost⟩) ?_
    rintro s s' ⟨hi, hf, hn⟩ ⟨op, hc, hs, hr⟩
    have he := hi.effect hc hr
    exact ⟨(hi.run hc.1 hc.2.1).holds hr, hf.effect hi he, (hn.effect hf hi he).mpr hs⟩
  obtain ⟨hi, hf, hn⟩ := hinv
  exact ⟨hn, fun op s' hc hr => hn.effect hf hi (hi.effect hc hr)⟩

theorem no_lost_wakeup_boot : (boot.after (.threadExit 2)).NoLost := by
  have hr : boot.run (.threadExit 2) = .ok (boot.after (.threadExit 2)) := run_after (by decide +kernel)
  exact ((no_lost_wakeup_iff (.refl boot_start)).2 _ _ boot_calls_exit hr).mpr trivial

theorem call_after {s : Sched} (op : SchedOp) (h : Reach CallStep Start s) (hc : s.Calls op) (hok : (s.run op).isOk = true) :
    Reach CallStep Start (s.after op) := h.tail ⟨op, hc, run_after hok⟩

theorem calls_plain {s : Sched} {op : SchedOp} (hc : s.cont s.cur = .own) (hi : s.cur ≠ s.idleThread)
    (hop : op = .sysWait ∨ op = .schedule ∨ (∃ n, op = .sysExit n) ∨ ∃ path, op = .sysExecv path) : s.Calls op := by
  rcases hop with rfl | rfl | ⟨n, rfl⟩ | ⟨path, rfl⟩ <;> exact ⟨⟨trivial, hc, fun e => absurd e hi⟩, trivial, trivial⟩

/-- `init` waits for 4, and 4 for 5, which forks 6. When 6 has exited and then 5 does, `init` has
a hanging child and is not woken. -/
theorem exit_loses_wakeup : ∃ s, Reach CallStep Start s ∧ ¬ s.NoLost := by
  have h0 : Reach CallStep Start boot := .refl boot_start
  have h1 := call_after (.threadExit 2) h0 boot_calls_exit (by decide +kernel)
  have h2 := call_after (.sysFork (forkPages 4)) h1
    (calls_sysFork rfl (by decide +kernel) (by decide +kernel) (by decide +kernel)) (by decide +kernel)
  have h3 := call_after .sysWait h2 (calls_plain rfl (by decide +kernel) (.inl rfl)) (by decide +kernel)
  have h4 := call_after (.threadBlock .blocked) h3 ⟨⟨trivial, rfl, fun _ => rfl⟩, trivial, rfl⟩ (by decide +kernel)
  have h5 := call_after (.sysFork (forkPages 5)) h4
    (calls_sysFork rfl (by decide +kernel) (by decide +kernel) (by decide +kernel)) (by decide +kernel)
  have h6 := call_after .sysWait h5 (calls_plain rfl (by decide +kernel) (.inl rfl)) (by decide +kernel)
  have h7 := call_after (.sysExecv ['/', 'p']) h6
    (calls_plain rfl (by decide +kernel) (.inr (.inr (.inr ⟨_, rfl⟩)))) (by decide +kernel)
  have h8 := call_after (.sysFork (forkPages 6)) h7
    (calls_sysFork rfl (by decide +kernel) (by decide +kernel) (by decide +kernel)) (by decide +kernel)
  have h9 := call_after .schedule h8 (calls_plain rfl (by decide +kernel) (.inr (.inl rfl))) (by decide +kernel)
  have h10 := call_after (.sysExit 0) h9
    (calls_plain rfl (by decide +kernel) (.inr (.inr (.inl ⟨_, rfl⟩)))) (by decide +kernel)
  have h11 := call_after (.sysExit 0) h10
    (calls_plain rfl (by decide +kernel) (.inr (.inr (.inl ⟨_, rfl⟩)))) (by decide +kernel)
  refine ⟨_, h11, fun hn => ?_⟩
  exact hn 1 (by decide +kernel) 6 (by decide +kernel) (by decide +kernel) (by decide +kernel) (by decide +kernel)

end OperateSystem
