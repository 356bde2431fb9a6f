import OperateSystem.SchedulerSound

/-!
# Tasks from creation to removal

`sys_fork`, `sys_exit` and `sys_wait` keep status and queues in step, and so does
every other step of a task.
-/

namespace OperateSystem

open Function

namespace Sched

variable {s s' : Sched} {t : Nat}

/-! ## New tasks -/

def created (s : Sched) (t : Nat) (p : Pcb) (b : Bitmap) : Sched :=
  { s with
    status := update s.status t .ready, pcb := update s.pcb t p
    cont := update s.cont t .own, readyList := s.readyList ++ [t], allList := s.allList ++ [t], pidBitmap := b }

def scratch (s : Sched) (t : Nat) (p : Pcb) (b : Bitmap) : Sched :=
  { s with status := update s.status t .ready, pcb := update s.pcb t p, pidBitmap := b }

section
variable {p : Pcb} {b : Bitmap} {u : Nat}

theorem scratch_pcb (ht : t ∉ s.allList) (hu : u ∈ s.allList) : (s.scratch t p b).pcb u = s.pcb u :=
  update_of_ne (fun e : u = t => ht (e ▸ hu)) ..

theorem created_pcb (ht : t ∉ s.allList) (hu : u ∈ s.allList) : (s.created t p b).pcb u = s.pcb u :=
  scratch_pcb ht hu (b := b)

theorem created_self : (s.created t p b).pcb t = p := update_self ..

theorem mem_created : u ∈ (s.created t p b).allList ↔ u ∈ s.allList ∨ u = t := by
  simp [created]

end

theorem Inv.scratch (h : s.Inv) (ht : t ∉ s.allList) (p : Pcb) (b : Bitmap) : (s.scratch t p b).Inv := by
  have hne : ∀ u ∈ s.allList, u ≠ t := fun u hu e => ht (e ▸ hu)
  have hs : ∀ u ∈ s.allList, (s.scratch t p b).status u = s.status u := fun u hu => update_of_ne (hne u hu) ..
  refine h.of_core ⟨h.all, fun u => ?_, h.nodup, fun k u hu => ?_, h.queue, h.once, fun u hu => ?_, h.idle, h.idleFree,
    ?_, ?_, h.idleCont⟩ rfl rfl fun u hu => by rw [hs u hu]
  · rw [show (s.scratch t p b).readyList = s.readyList from rfl, h.ready u]
    exact and_congr_right fun hu => by rw [hs u hu]
  · have := h.queued k u hu
    rw [hs u this.1]
    exact this
  · rw [hs u hu]
    exact h.alive u hu
  · rw [show (s.scratch t p b).idleThread = s.idleThread from rfl, hs _ h.idle]
    exact h.idleStatus
  · show (update s.pcb t p s.idleThread).parentPid = none
    rw [update_of_ne (hne _ h.idle)]
    exact h.idleParent

theorem Inv.created (h : s.Inv) (ht : t ∉ s.allList) (p : Pcb) (b : Bitmap) : (s.created t p b).Inv := by
  have h1 := h.scratch ht p b
  have hr : t ∉ s.readyList := fun hm => ht ((h.ready t).mp hm).1
  have hne : ∀ u ∈ s.allList, u ≠ t := fun u hu e => ht (e ▸ hu)
  have hst : (s.created t p b).status t = .ready := update_self ..
  have hnd : ∀ {l : List Nat}, l.Nodup → t ∉ l → (l ++ [t]).Nodup := fun hl hn =>
    (List.perm_append_singleton t _).nodup_iff.mpr (List.nodup_cons.mpr ⟨hn, hl⟩)
  refine ⟨⟨hnd h.all ht, fun u => ?_, hnd h.nodup hr, fun k u hu => ?_, h.queue, h.once, fun u hu => ?_,
    mem_created.mpr (.inl h.idle), h.idleFree, h1.idleStatus, h1.idleParent, ?_⟩, mem_created.mpr (.inl h.cur), fun u hu => ?_⟩
  · rw [mem_created, show u ∈ (s.created t p b).readyList ↔ u ∈ s.readyList ∨ u = t by simp [Sched.created]]
    by_cases hut : u = t
    · simp [hut, hst]
    · simp only [hut, or_false]
      exact h1.ready u
  · have hq := h1.queued k u hu
    exact ⟨mem_created.mpr (.inl hq.1), hq.2⟩
  · rcases mem_created.mp hu with hu | rfl
    · exact h1.alive u hu
    · rw [hst]
      nofun
  · show update s.cont t .own s.idleThread = .own
    rw [update_of_ne (hne _ h.idle)]
    exact h.idleCont
  · rcases mem_created.mp hu with hu | rfl
    · exact h1.running u hu
    · rw [hst]
      exact iff_of_false nofun (hne _ h.cur).symm

def FreePid (s : Sched) (i : Nat) : Prop := s.pidBitmap.bit i = false ∧ i < 8 * s.pidBitmap.btmpBytesLen

theorem allocatePid_post (s : Sched) : Post QueueFault (s.allocatePid .debug) fun r =>
    ∃ i, s.FreePid i ∧ r = (i + pidStart, { s with pidBitmap := bitmapSet s.pidBitmap i true }) := by
  unfold allocatePid
  cases hx : bitmapScan .debug s.pidBitmap 1 with
  | error f =>
    rw [error_bind, bitmapScan_error hx]
    exact Post.error (by decide)
  | ok r =>
    rw [ok_bind]
    cases r with
    | none => exact Post.error nofun
    | some i =>
      obtain ⟨hbit, hlt⟩ := bitmapScan_sound hx
      exact Post.ok ⟨i, ⟨hbit i le_rfl (Nat.lt_succ_self i), hlt rfl⟩, rfl⟩

theorem Inv.publish {p : Pcb} {b : Bitmap} (h : s.Inv) (ht : t ∉ s.allList) (ptr : String) :
    (s.scratch t p b).publish .debug t ptr = .ok (s.created t p b) := by
  have hr : t ∉ s.readyList := fun hm => ht ((h.ready t).mp hm).1
  unfold Sched.publish
  rw [assert_of _ (show t ∉ (s.scratch t p b).readyList from hr), ok_bind,
    assert_of _ (show t ∉ (s.scratch t p b).allList from ht), ok_bind]
  rfl

theorem Inv.start {page : Option Nat} (h : s.Inv) (hf : s.Fresh page) (pgdir : Bool) (name : List Char) :
    Post QueueFault (s.start page pgdir name) fun s' => ∃ t i, t ∉ s.allList ∧ s.FreePid i ∧
      s' = s.created t ⟨i + pidStart, none, 0, pgdir, name⟩ (bitmapSet s.pidBitmap i true) := by
  unfold Sched.start
  obtain _ | t := page
  · exact Post.error nofun
  obtain ⟨ht, hm⟩ := hf t rfl
  refine s.allocatePid_post.bind ?_
  rintro _ ⟨i, hi, rfl⟩
  have hin : Sched.initThread { s with pidBitmap := bitmapSet s.pidBitmap i true } t (i + pidStart) pgdir name =
      s.scratch t ⟨i + pidStart, none, 0, pgdir, name⟩ (bitmapSet s.pidBitmap i true) := by
    unfold Sched.initThread
    rw [if_neg hm]
    rfl
  refine Post.of_eq ⟨_, ?_, t, i, ht, hi, rfl⟩
  simp only [hin]
  exact h.publish ht _

/-- What `sys_fork` can do: nothing, leave a PCB that no list knows, or create a child of the
current process. -/
inductive Forked (s : Sched) (p : ForkPages) : Sched → Prop
  | none (hp : p.pcb = .none ∨ p.buf = false) : Forked s p s
  | scratch {t i : Nat} {q : Pcb} (hp : p.pcb = some t ∧ p.buf = true ∧ ¬ (p.bitmap = true ∧ p.pgdir = true))
    (ht : t ∉ s.allList) (hi : s.FreePid i) : Forked s p (s.scratch t q (bitmapSet s.pidBitmap i true))
  | child {t i : Nat} {q : Pcb} (hp : p.bitmap = true ∧ p.pgdir = true) (hg : s.pcbCur.pgdir = true) (ht : t ∉ s.allList)
    (hi : s.FreePid i) (hpid : q.pid = i + pidStart) (hpar : q.parentPid = some s.pcbCur.pid) :
    Forked s p (s.created t q (bitmapSet s.pidBitmap i true))

theorem Inv.forkName {i : Nat} {q : Pcb} {p : ForkPages} (h : s.Inv) (hp : p.pcb = some t ∧ p.buf = true)
    (hg : s.pcbCur.pgdir = true) (ht : t ∉ s.allList) (hi : s.FreePid i) (hpid : q.pid = i + pidStart)
    (hpar : q.parentPid = some s.pcbCur.pid) :
    Post QueueFault ((s.scratch t q (bitmapSet s.pidBitmap i true)).forkName t p) fun r => s.Forked p r.1 := by
  have hq : (s.scratch t q (bitmapSet s.pidBitmap i true)).pcb t = q := update_self ..
  unfold Sched.forkName
  split
  · next hb =>
    refine Post.check (by decide) fun _ => ?_
    rw [hq]
    have he : (s.scratch t q (bitmapSet s.pidBitmap i true)).setPcb t { q with name := q.name ++ ['_', 'f', 'o', 'r', 'k'] } =
        s.scratch t { q with name := q.name ++ ['_', 'f', 'o', 'r', 'k'] } (bitmapSet s.pidBitmap i true) := by
      simp [Sched.setPcb, Sched.scratch]
    rw [he]
    unfold Sched.forkEnd
    split
    · next hd =>
      rw [h.publish ht]
      exact Post.ok (.child ⟨hb, hd⟩ hg ht hi hpid hpar)
    · next hd => exact Post.ok (.scratch ⟨hp.1, hp.2, fun e => hd e.2⟩ ht hi)
  · next hb => exact Post.ok (.scratch ⟨hp.1, hp.2, fun e => hb e.1⟩ ht hi)

theorem Inv.sysFork {p : ForkPages} (h : s.Inv) (hf : s.Fresh p.pcb) :
    Post QueueFault (s.sysFork p) fun r => s.Forked p r.1 := by
  unfold Sched.sysFork
  rcases hp : p.pcb with _ | t
  · exact Post.ok (.none (.inl hp))
  obtain ⟨ht, -⟩ := hf t hp
  refine Post.check (by decide) fun hg => ?_
  unfold Sched.forkCopy
  split
  · next hb =>
    refine s.allocatePid_post.bind ?_
    rintro _ ⟨i, hi, rfl⟩
    exact h.forkName ⟨hp, hb⟩ hg ht hi rfl rfl
  · next hb => exact Post.ok (.none (.inr (by simpa using hb)))

theorem Inv.forked {p : ForkPages} (h : s.Inv) (hf : s.Forked p s') : s'.Inv := by
  cases hf with
  | none => exact h
  | scratch _ ht _ => exact h.scratch ht _ _
  | child _ _ ht _ _ _ => exact h.created ht _ _

/-! ## The end of a task -/

theorem Core.remove (h : s.Core) (hq : s.Unqueued t) (hi : t ≠ s.idleThread) : (s.remove t).Core := by
  have hall : ∀ u, u ∈ (s.remove t).allList ↔ u ≠ t ∧ u ∈ s.allList := fun u => h.all.mem_erase_iff
  have hrdy : ∀ u, u ∈ (s.remove t).readyList ↔ u ≠ t ∧ u ∈ s.readyList := fun u => h.nodup.mem_erase_iff
  have hst : ∀ u, u ≠ t → (s.remove t).status u = s.status u := fun u hu => update_of_ne hu ..
  have hid := hi.symm
  refine ⟨h.all.erase t, fun u => ?_, h.nodup.erase t, fun k u hu => ?_, h.queue, h.once, fun u hu => ?_,
    (hall _).mpr ⟨hid, h.idle⟩, h.idleFree, ?_, h.idleParent, h.idleCont⟩
  · rw [hrdy, hall, h.ready]
    by_cases hut : u = t
    · simp [hut]
    · rw [hst u hut]
      simp [hut]
  · have hut : u ≠ t := fun e => hq k (e ▸ hu)
    have := h.queued k u hu
    rw [hall, hst u hut]
    exact ⟨⟨hut, this.1⟩, this.2⟩
  · obtain ⟨hut, hu⟩ := (hall u).mp hu
    rw [hst u hut]
    exact h.alive u hu
  · show ((s.remove t).status s.idleThread).Idles
    rw [hst _ hid]
    exact h.idleStatus

theorem Inv.remove (h : s.Inv) (hq : s.Unqueued t) (hi : t ≠ s.idleThread) (hc : t ≠ s.cur) :
    (s.remove t).Inv := by
  refine ⟨h.toCore.remove hq hi, h.all.mem_erase_iff.mpr ⟨hc.symm, h.cur⟩, fun u hu => ?_⟩
  obtain ⟨hut, hu⟩ := h.all.mem_erase_iff.mp hu
  rw [show (s.remove t).status u = s.status u from update_of_ne hut ..]
  exact h.running u hu

theorem Inv.threadExit (h : s.Inv) (hq : s.Unqueued t) (hi : t ≠ s.idleThread) :
    ∃ s', s.threadExit t (t = s.cur) = .ok s' ∧ s'.Inv ∧ Keeps (s.remove t) s' := by
  unfold Sched.threadExit
  by_cases hc : t = s.cur
  · have hst : (s.remove t).status s.cur = .died := by
      rw [hc]
      exact update_self ..
    have hrun : ∀ u ∈ (s.remove t).allList, (s.remove t).status u = .running → u = s.cur := by
      intro u hu e
      obtain ⟨hut, hu⟩ := h.all.mem_erase_iff.mp hu
      rw [show (s.remove t).status u = s.status u from update_of_ne hut ..] at e
      exact (h.running u hu).mp e
    obtain ⟨s', hs', hinv, hk⟩ := (h.toCore.remove hq hi).schedule hrun fun e => absurd (hst.symm.trans e) nofun
    exact ⟨s', by simp [hc, ← hs'], hinv, hk⟩
  · exact ⟨s.remove t, by simp [hc], h.remove hq hi hc, .refl _⟩

theorem Inv.pcb (h : s.Inv) {p : Nat → Pcb} (hp : (p s.idleThread).parentPid = none) : ({ s with pcb := p } : Sched).Inv :=
  h.of_core (h.toCore.same rfl rfl rfl rfl rfl hp h.idleCont) rfl rfl fun _ _ => Iff.rfl

theorem Inv.setPcb_cur (h : s.Inv) {p : Pcb} (hi : s.cur ≠ s.idleThread) : (s.setPcb s.cur p).Inv := by
  apply h.pcb
  rw [update_of_ne hi.symm]
  exact h.idleParent

theorem Inv.initAdopt (h : s.Inv) (pid : Nat) : (s.initAdopt pid).Inv := by
  apply h.pcb
  rw [if_neg (by simp [h.idleParent])]
  exact h.idleParent

theorem find_mem {l : List Nat} {p : Nat → Prop} [DecidablePred p] {t : Nat} (h : l.find? (fun u => p u) = some t) :
    t ∈ l ∧ p t := ⟨List.mem_of_find?_eq_some h, by simpa using List.find?_some h⟩

theorem Inv.wakeParent (h : s.Inv) (ht : t ∈ s.allList) : ∃ s', s.wakeParent t = .ok s' ∧ s'.Inv ∧ s'.cur = s.cur ∧
    s'.idleThread = s.idleThread ∧ s'.pcb = s.pcb ∧ s'.allList = s.allList ∧ s'.pidBitmap = s.pidBitmap ∧
      ∀ u, s'.status u = if u = t ∧ s.status t = .waiting then .ready else s.status u := by
  unfold Sched.wakeParent
  by_cases hw : s.status t = .waiting
  · obtain ⟨s', hs', rfl, hinv⟩ := h.threadUnblock ht (.inr (.inl hw)) (h.unqueued (by simp [hw]))
    rw [if_pos hw]
    refine ⟨_, hs', hinv, rfl, rfl, rfl, rfl, rfl, fun u => ?_⟩
    by_cases hut : u = t
    · simp [hut, hw]
    · rw [setStatus_of_ne hut]
      simp [hut]
  · rw [if_neg hw]
    exact ⟨s, rfl, h, rfl, rfl, rfl, rfl, rfl, fun u => by simp [hw]⟩

structure Exited (s s' : Sched) (parent : Nat) : Prop where
  mem : parent ∈ s.allList
  all : s'.allList = s.allList
  pids : s'.pidBitmap = s.pidBitmap
  pid : ∀ t, (s'.pcb t).pid = (s.pcb t).pid
  pgdir : ∀ t, (s'.pcb t).pgdir = (s.pcb t).pgdir
  adopted : ∀ t ∈ s.allList, (s'.pcb t).parentPid =
    if (s.pcb t).parentPid = some s.pcbCur.pid then some 1 else (s.pcb t).parentPid
  found : (s'.pcb s.cur).parentPid = some (s.pcb parent).pid
  hanging : ∀ t ∈ s.allList, s'.status t = .hanging ↔ t = s.cur ∨ s.status t = .hanging
  waiting : ∀ t ∈ s.allList, s'.status t = .waiting ↔ t ≠ parent ∧ s.status t = .waiting

theorem Inv.exitEnd (h : s.Inv) (ht : t ∈ s.allList) (hi : s.cur ≠ s.idleThread) :
    ∃ s1 s', s.wakeParent t = .ok s1 ∧ s1.threadBlock .hanging .own = .ok s' ∧ s'.Inv ∧ s'.allList = s.allList ∧
      s'.pcb = s.pcb ∧ s'.pidBitmap = s.pidBitmap ∧
      (∀ u ∈ s.allList, s'.status u = .hanging ↔ u = s.cur ∨ s.status u = .hanging) ∧
      ∀ u ∈ s.allList, s'.status u = .waiting ↔ u ≠ t ∧ s.status u = .waiting := by
  obtain ⟨s1, hs1, h1, hcur, hid, hpcb, hall, hbm, hst⟩ := h.wakeParent ht
  have hi1 : s1.cur ≠ s1.idleThread := by rwa [hcur, hid]
  obtain ⟨s', hs', hinv, hk⟩ := h1.threadBlock .hanging .own (.inr (.inr rfl)) fun e => absurd e hi1
  refine ⟨s1, s', hs1, hs', hinv, hk.all.trans hall, hk.pcb.trans hpcb, hk.pids.trans hbm, fun u hu => ?_, fun u hu => ?_⟩
  · have hu1 := hall ▸ hu
    rw [hk.hanging u hu1]
    show update s1.status s1.cur .hanging u = .hanging ↔ _
    rw [hcur]
    by_cases huc : u = s.cur
    · simp [huc]
    · rw [update_of_ne huc, hst]
      by_cases hut : u = t ∧ s.status t = .waiting
      · simp [hut, hut.1 ▸ huc]
      · simp [hut, huc]
  · have hu1 := hall ▸ hu
    rw [hk.waiting u hu1]
    show update s1.status s1.cur .hanging u = .waiting ↔ _
    rw [hcur]
    by_cases huc : u = s.cur
    · simp [huc, h.status_cur]
    · rw [update_of_ne huc, hst]
      by_cases hut : u = t
      · subst hut
        by_cases hw : s.status u = .waiting <;> simp [hw]
      · simp [hut]

theorem setPcb_exitStatus (s : Sched) (v : Int8) (t : Nat) :
    ((s.setPcb s.cur { s.pcbCur with exitStatus := v }).pcb t).pid = (s.pcb t).pid ∧
      ((s.setPcb s.cur { s.pcbCur with exitStatus := v }).pcb t).parentPid = (s.pcb t).parentPid ∧
      ((s.setPcb s.cur { s.pcbCur with exitStatus := v }).pcb t).pgdir = (s.pcb t).pgdir := by
  by_cases ht : t = s.cur
  · simp [ht, setPcb, pcbCur]
  · simp [setPcb, ht]

theorem initAdopt_pid (s : Sched) (pid t : Nat) :
    ((s.initAdopt pid).pcb t).pid = (s.pcb t).pid ∧ ((s.initAdopt pid).pcb t).pgdir = (s.pcb t).pgdir := by
  unfold Sched.initAdopt
  dsimp only
  split <;> exact ⟨rfl, rfl⟩

theorem initAdopt_parentPid {pid : Nat} (ht : t ∈ s.allList) : ((s.initAdopt pid).pcb t).parentPid =
    if (s.pcb t).parentPid = some pid then some 1 else (s.pcb t).parentPid := by
  unfold Sched.initAdopt
  by_cases hp : (s.pcb t).parentPid = some pid <;> simp [hp, ht]

theorem Inv.sysExit (h : s.Inv) (hi : s.cur ≠ s.idleThread) (status : Int) :
    Post QueueFault (s.sysExit status) fun s' => s'.Inv ∧ ∃ parent, s.Exited s' parent := by
  have h1 := h.setPcb_cur (p := { s.pcbCur with exitStatus := Int8.ofInt status }) hi
  have hpcb := s.setPcb_exitStatus (Int8.ofInt status)
  unfold Sched.sysExit
  dsimp only
  generalize hs1 : s.setPcb s.cur { s.pcbCur with exitStatus := Int8.ofInt status } = s1 at h1 hpcb ⊢
  obtain ⟨hst, hall, hcur, hid, hbm⟩ : s1.status = s.status ∧ s1.allList = s.allList ∧ s1.cur = s.cur ∧
      s1.idleThread = s.idleThread ∧ s1.pidBitmap = s.pidBitmap := by
    rw [← hs1]
    exact ⟨rfl, rfl, rfl, rfl, rfl⟩
  have hpc : s1.pcbCur.pid = s.pcbCur.pid := by
    rw [pcbCur, hcur]
    exact (hpcb s.cur).1
  split
  · exact Post.error (by decide)
  split
  · exact Post.error nofun
  next parent hf =>
  obtain ⟨hmem, hpp⟩ := find_mem hf
  obtain ⟨s3, s', hok, hs', hinv, hall', hpcb', hbm', hh, hw⟩ :=
    (h1.initAdopt s1.pcbCur.pid).exitEnd hmem (by rw [← hcur, ← hid] at hi; exact hi)
  rw [hok, ok_bind, hs']
  have hpa := hall ▸ hmem
  refine Post.ok ⟨hinv, parent, hpa, hall'.trans hall, hbm'.trans hbm, fun t => ?_, fun t => ?_,
    fun t ht => ?_, ?_, fun t ht => ?_, fun t ht => ?_⟩
  · rw [hpcb', (initAdopt_pid ..).1, (hpcb t).1]
  · rw [hpcb', (initAdopt_pid ..).2, (hpcb t).2.2]
  · rw [hpcb', initAdopt_parentPid (hall.symm ▸ ht), (hpcb t).2.1, hpc]
  · rw [hpcb', ← (hpcb parent).1, ← (initAdopt_pid s1 s1.pcbCur.pid parent).1, hpp, ← hcur]
    rfl
  · rw [hh t (hall.symm ▸ ht), ← hcur, ← hst]
    rfl
  · rw [hw t (hall.symm ▸ ht), ← hst]
    rfl

theorem initAdopt_exitStatus (s : Sched) (pid t : Nat) :
    ((s.initAdopt pid).pcb t).exitStatus = (s.pcb t).exitStatus := by
  unfold Sched.initAdopt
  dsimp only
  split <;> rfl

theorem Inv.sysExit_exitStatus {status : Int} (h : s.Inv) (hi : s.cur ≠ s.idleThread) (hr : s.sysExit status = .ok s')
    (t : Nat) : (s'.pcb t).exitStatus = if t = s.cur then Int8.ofInt status else (s.pcb t).exitStatus := by
  have h1 := h.setPcb_cur (p := { s.pcbCur with exitStatus := Int8.ofInt status }) hi
  have hpcb : ((s.setPcb s.cur { s.pcbCur with exitStatus := Int8.ofInt status }).pcb t).exitStatus =
      if t = s.cur then Int8.ofInt status else (s.pcb t).exitStatus := by
    by_cases ht : t = s.cur <;> simp [setPcb, ht]
  unfold Sched.sysExit at hr
  dsimp only at hr
  split at hr
  · cases hr
  split at hr
  · cases hr
  · next parent hf =>
    obtain ⟨_, _, hw, hb, -, -, he, -⟩ := (h1.initAdopt _).exitEnd (find_mem hf).1 hi
    rw [hw, ok_bind, hb] at hr
    cases hr
    rw [he, initAdopt_exitStatus, hpcb]

inductive WaitedTo (s : Sched) : Sched → Prop
  | reaped {child : Nat} (hmem : child ∈ s.allList) (hpar : (s.pcb child).parentPid = some s.pcbCur.pid)
    (hst : s.status child = .hanging) : WaitedTo s ((s.remove child).setCont s.cur .own)
  | none : WaitedTo s (s.setCont s.cur .own)
  | sleeps {s' : Sched} (hnone : ∀ t ∈ s.allList, (s.pcb t).parentPid = some s.pcbCur.pid → s.status t ≠ .hanging)
    (hk : Keeps ((s.setStatus s.cur .waiting).setCont s.cur .sysWait) s') : WaitedTo s s'

theorem Inv.sysWait (h : s.Inv) (hi : s.cur ≠ s.idleThread) :
    ∃ r, s.sysWait = .ok r ∧ r.1.Inv ∧ s.WaitedTo r.1 := by
  unfold Sched.sysWait
  cases hh : s.findHangingChild s.pcbCur.pid with
  | some child =>
    obtain ⟨hmem, hpar, hst⟩ := find_mem hh
    have hid : child ≠ s.idleThread := fun e => by simp [e, h.idleParent] at hpar
    have hcur : child ≠ s.cur := fun e => by simp [e, h.status_cur] at hst
    have hinv := h.remove (h.unqueued (by simp [hst])) hid hcur
    exact ⟨_, rfl, hinv.setOwn, .reaped hmem hpar hst⟩
  | none =>
    cases hc : s.findChild s.pcbCur.pid with
    | none => exact ⟨_, rfl, h.setOwn, .none⟩
    | some child =>
      obtain ⟨s', hs', hinv, hk⟩ := h.threadBlock .waiting .sysWait (.inr (.inl rfl)) fun e => absurd e hi
      refine ⟨(s', .sleeps), by simp only [hs', ok_bind, pure_ok], hinv, .sleeps (fun t ht hp e => ?_) hk⟩
      have := List.find?_eq_none.mp hh t ht
      simp [hp, e] at this

/-! ## Every step -/

theorem Inv.run {op : SchedOp} (h : s.Inv) (hm : s.May op) (hp : s.Proper op) : Post QueueFault (s.run op) Inv := by
  obtain ⟨harg, hwho⟩ := hm
  have hi : s.cont s.cur ≠ .own → s.cur ≠ s.idleThread := fun hc e => hc (by rw [e]; exact h.idleCont)
  cases op with
  | threadStart page name =>
    refine (h.start harg false name).mono ?_
    rintro _ ⟨t, i, ht, -, rfl⟩
    exact h.created ht _ _
  | processExecute page name =>
    refine (h.start harg true name).mono ?_
    rintro _ ⟨t, i, ht, -, rfl⟩
    exact h.created ht _ _
  | schedule =>
    obtain ⟨s', hs', hinv, -⟩ := h.schedule
    exact Post.of_eq ⟨s', hs', hinv⟩
  | threadYield =>
    obtain ⟨s', hs', hinv, -⟩ := h.threadYield
    exact Post.of_eq ⟨s', hs', hinv⟩
  | threadBlock stat =>
    refine Post.check (by decide) fun hst => ?_
    obtain ⟨s', hs', hinv, -⟩ := h.threadBlock _ .own hst fun e => ⟨hwho.2 e, rfl⟩
    unfold Sched.threadBlock at hs'
    rw [assert_of _ hst, ok_bind] at hs'
    exact Post.of_eq ⟨s', hs', hinv⟩
  | threadUnblock t =>
    obtain ⟨s', hs', -, hinv⟩ := h.threadUnblock harg.1 harg.2 hp
    exact Post.of_eq ⟨s', hs', hinv⟩
  | threadExit t =>
    obtain ⟨s', hs', hinv, -⟩ := h.threadExit hp.1 hp.2
    exact Post.of_eq ⟨s', hs', hinv⟩
  | semaDown k => exact (h.semaDown (fun e => hwho.2 e) k).mono fun _ hr => hr.1
  | semaUp k => exact (h.semaUp k).mono fun _ hr => hr.1
  | sysFork p => exact ((h.sysFork harg).mono fun r hr => h.forked hr).map
  | sysExecv path => exact Post.ok (h.setPcb_cur fun e => hwho.2 e)
  | sysExit status => exact (h.sysExit (fun e => hwho.2 e) status).mono fun _ hr => hr.1
  | sysWait =>
    obtain ⟨r, hr, hinv, -⟩ := h.sysWait fun e => hwho.2 e
    exact Post.map (Post.of_eq ⟨r, hr, hinv⟩)
  | resume =>
    show Post QueueFault s.resume Inv
    unfold Sched.resume
    cases hc : s.cont s.cur with
    | own => exact absurd hc hwho
    | semaDown k => exact (h.semaDown (hi (by simp [hc])) k).mono fun _ hr => hr.1
    | sysWait =>
      obtain ⟨r, hr, hinv, -⟩ := h.sysWait (hi (by simp [hc]))
      exact Post.map (Post.of_eq ⟨r, hr, hinv⟩)

theorem Started.inv {init : Nat} (h : s.Started init) : s.Inv := by
  have hd := h.distinct
  rw [h.all] at hd
  simp only [List.nodup_cons, List.mem_cons, List.not_mem_nil, or_false, not_or, not_false_eq_true, List.nodup_nil,
    and_true] at hd
  obtain ⟨⟨him, hii⟩, hmi⟩ := hd
  have hmem : ∀ u, u ∈ s.allList ↔ u = init ∨ u = s.mainThread ∨ u = s.idleThread := fun u => by simp [h.all]
  have hi : s.status s.idleThread = .ready := by
    rw [h.status _ ((hmem _).mpr (.inr (.inr rfl))), if_neg (Ne.symm hmi)]
  refine ⟨⟨h.distinct, fun u => ?_, ?_, fun k u hu => ?_, fun k => ?_, fun k _ u hu => ?_, fun u hu => ?_,
    (hmem _).mpr (.inr (.inr rfl)), fun k hk => ?_, .inr (.inl hi), by rw [h.pcbIdle], h.cont _⟩,
    by rw [h.cur]; exact (hmem _).mpr (.inr (.inl rfl)), fun u hu => ?_⟩
  · rw [h.ready]
    constructor
    · intro hu
      have hu' : u = init ∨ u = s.idleThread := by simpa using hu
      have hall := (hmem u).mpr (by tauto)
      rw [h.status u hall, if_neg (by rcases hu' with rfl | rfl; exacts [him, Ne.symm hmi])]
      exact ⟨hall, rfl⟩
    · rintro ⟨hu, hst⟩
      rcases (hmem u).mp hu with rfl | rfl | rfl
      · simp
      · rw [h.status _ hu, if_pos rfl] at hst
        cases hst
      · simp
  · rw [h.ready]
    simpa using hii
  · rw [h.waiters] at hu
    cases hu
  · rw [h.waiters]
    exact List.nodup_nil
  · rw [h.waiters] at hu
    cases hu
  · rw [h.status u hu]
    split <;> nofun
  · rw [h.waiters] at hk
    cases hk
  · rw [h.status u hu, h.cur]
    by_cases hum : u = s.mainThread <;> simp [hum]

theorem Inv.step (h : s.Inv) (hs : SchedStep s s') : s'.Inv := by
  obtain ⟨op, hm, hp, hr⟩ := hs
  exact (h.run hm hp).holds hr

/-! ## A run -/

def boot : Sched where
  status t := if t = 2 then .running else .ready
  pcb t :=
    if t = 1 then ⟨1, none, 0, true, ['i', 'n', 'i', 't']⟩
    else if t = 2 then ⟨2, none, 0, false, ['m', 'a', 'i', 'n']⟩ else ⟨3, none, 0, false, ['i', 'd', 'l', 'e']⟩
  cont _ := .own
  cur := 2
  readyList := [1, 3]
  allList := [1, 2, 3]
  value _ := 0
  waiters _ := []
  pidBitmap := .ofBytes 128 fun a => if a = 0 then 7 else 0
  mainThread := 2
  idleThread := 3

theorem boot_start : Start boot := by
  refine ⟨1, rfl, rfl, by decide, rfl, fun t _ => rfl, fun _ => rfl, fun _ => rfl, rfl, rfl, rfl, rfl, fun i hi => ?_⟩
  have : ∀ i < 8, boot.pidBitmap.bit i = decide (i < 3) := by decide
  by_cases h8 : i < 8
  · exact this i h8
  · have hz : boot.pidBitmap.bits (i / 8) = 0 := if_neg (by omega)
    rw [Bitmap.bit, hz, decide_eq_false (by omega)]
    simp

def after (s : Sched) (op : SchedOp) : Sched :=
  match s.run op with
  | .ok s' => s'
  | .error _ => s

theorem run_after {op : SchedOp} (h : (s.run op).isOk = true) : s.run op = .ok (s.after op) := by
  unfold after
  cases hr : s.run op with
  | ok s' => rfl
  | error f => simp [hr, Except.isOk, Except.toBool] at h

theorem loose_after (op : SchedOp) (h : Reach LooseStep Start s) (hm : s.May op) (hok : (s.run op).isOk = true) :
    Reach LooseStep Start (s.after op) := h.tail ⟨op, hm, run_after hok⟩

end Sched

open Sched

/-- **The scheduler.** Exactly the current task is running, the ready list holds the ready tasks,
each once, no task is in two queues, and no test of a status or of a list fails in the next step.
-/
theorem scheduler_safe {s : Sched} (h : Reach SchedStep Start s) :
    (s.cur ∈ s.allList ∧ ∀ t ∈ s.allList, s.status t = .running ↔ t = s.cur) ∧
      (s.readyList.Nodup ∧ ∀ t, t ∈ s.readyList ↔ t ∈ s.allList ∧ s.status t = .ready) ∧
      (∀ k, (s.waiters k).Nodup) ∧
      (∀ t k, t ∈ s.waiters k → t ∉ s.readyList ∧ ∀ j, t ∈ s.waiters j → j = k) ∧
      (s.readyList = [] → s.cur ≠ s.idleThread → s.status s.idleThread = .blocked) ∧
      ∀ op f, s.May op → s.Proper op → s.run op = .error f → ¬ QueueFault f := by
  have hinv : s.Inv := h.invariant (fun _ ⟨_, h0⟩ => h0.inv) fun _ _ hi hs => hi.step hs
  refine ⟨⟨hinv.cur, hinv.running⟩, ⟨hinv.nodup, hinv.ready⟩, hinv.queue, fun t k hk => ⟨?_, fun j hj => ?_⟩,
    fun he hc => ?_, fun op f hm hp hf => (hinv.run hm hp).fails hf⟩
  · exact hinv.not_ready (by simp [(hinv.queued k t hk).2])
  · exact hinv.once j k t hj hk
  · rcases hinv.idleStatus with e | e | e
    · exact absurd ((hinv.running _ hinv.idle).mp e).symm hc
    · have := (hinv.ready _).mpr ⟨hinv.idle, e⟩
      rw [he] at this
      cases this
    · exact e

theorem scheduler_safe_main_exit : (boot.after (.threadExit 2)).cur = 1 ∧ (boot.after (.threadExit 2)).readyList.Nodup ∧
    ∀ t, t ∈ (boot.after (.threadExit 2)).readyList ↔
      t ∈ (boot.after (.threadExit 2)).allList ∧ (boot.after (.threadExit 2)).status t = .ready := by
  have hs : SchedStep boot (boot.after (.threadExit 2)) :=
    ⟨.threadExit 2, ⟨by show 2 ∈ _; decide, rfl, nofun⟩, ⟨fun _ => nofun, nofun⟩, run_after (by decide +kernel)⟩
  exact ⟨by decide +kernel, (scheduler_safe ((Reach.refl boot_start).tail hs)).2.1⟩

/-- A semaphore's waiter that is unblocked by hand is in two queues. -/
theorem improper_calls_break :
    (∃ s t, Reach LooseStep Start s ∧ t ∈ s.readyList ∧ t ∈ s.waiters 0) ∧
    (∃ s op f, Reach LooseStep Start s ∧ s.May op ∧ s.run op = .error f ∧ QueueFault f ∧
      s.idleThread ∉ s.allList) ∧
    ∃ s op f, Reach LooseStep Start s ∧ s.May op ∧ s.run op = .error f ∧ QueueFault f ∧ s.idleThread ∈ s.allList := by
  have h0 : Reach LooseStep Start boot := .refl boot_start
  refine ⟨?_, ?_, ?_⟩
  · have h1 := loose_after .schedule h0 ⟨trivial, rfl, nofun⟩ (by decide +kernel)
    have h2 := loose_after (.semaDown 0) h1 ⟨trivial, rfl, nofun⟩ (by decide +kernel)
    have h3 := loose_after (.threadUnblock 1) h2 ⟨by show 1 ∈ _ ∧ _; decide +kernel, rfl, fun _ => trivial⟩ (by decide +kernel)
    exact ⟨_, 1, h3, by decide +kernel, by decide +kernel⟩
  · have h1 := loose_after (.threadExit 3) h0 ⟨by show 3 ∈ _; decide +kernel, rfl, nofun⟩ (by decide +kernel)
    have h2 := loose_after (.threadBlock .blocked) h1 ⟨trivial, rfl, nofun⟩ (by decide +kernel)
    exact ⟨_, .threadBlock .blocked, _, h2, ⟨trivial, rfl, nofun⟩, rfl, by decide, by decide +kernel⟩
  · have h1 := loose_after .schedule h0 ⟨trivial, rfl, nofun⟩ (by decide +kernel)
    have h2 := loose_after (.semaDown 0) h1 ⟨trivial, rfl, nofun⟩ (by decide +kernel)
    have h3 := loose_after .schedule h2 ⟨trivial, rfl, fun _ => trivial⟩ (by decide +kernel)
    have h4 := loose_after (.threadExit 1) h3 ⟨by show 1 ∈ _; decide +kernel, rfl, nofun⟩ (by decide +kernel)
    exact ⟨_, .semaUp 0, _, h4, ⟨trivial, rfl, nofun⟩, rfl, by decide, by decide +kernel⟩

end OperateSystem
