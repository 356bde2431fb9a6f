import OperateSystem.Outcome
import OperateSystem.Scheduler

/-!
# Status and queues agree

`Core` is what holds while a task is being switched, `Inv` what holds between
steps, when the current task is the one that runs. The functions of the
scheduler are taken apart into the few changes they are made of: a task falls
asleep, joins the ready list, leaves it, joins or leaves a semaphore's queue, is
created or removed.
-/

namespace OperateSystem

open Function

def TaskStatus.Idles (st : TaskStatus) : Prop := st = .running ∨ st = .ready ∨ st = .blocked

namespace Sched

variable {s s' : Sched} {t : Nat}
variable {l : List Nat} {st : TaskStatus}

structure Core (s : Sched) : Prop where
  all : s.allList.Nodup
  ready : ∀ t, t ∈ s.readyList ↔ t ∈ s.allList ∧ s.status t = .ready
  nodup : s.readyList.Nodup
  queued : ∀ k t, t ∈ s.waiters k → t ∈ s.allList ∧ s.status t = .blocked
  queue : ∀ k, (s.waiters k).Nodup
  once : ∀ k k' t, t ∈ s.waiters k → t ∈ s.waiters k' → k = k'
  alive : ∀ t ∈ s.allList, s.status t ≠ .died
  idle : s.idleThread ∈ s.allList
  idleFree : s.Unqueued s.idleThread
  idleStatus : (s.status s.idleThread).Idles
  idleParent : (s.pcb s.idleThread).parentPid = none
  idleCont : s.cont s.idleThread = .own

structure Inv (s : Sched) : Prop extends Core s where
  cur : s.cur ∈ s.allList
  running : ∀ t ∈ s.allList, s.status t = .running ↔ t = s.cur

structure Keeps (s s' : Sched) : Prop where
  all : s'.allList = s.allList
  pcb : s'.pcb = s.pcb
  pids : s'.pidBitmap = s.pidBitmap
  waiting : ∀ t ∈ s.allList, s'.status t = .waiting ↔ s.status t = .waiting
  hanging : ∀ t ∈ s.allList, s'.status t = .hanging ↔ s.status t = .hanging

theorem Keeps.same (ha : s'.allList = s.allList) (hp : s'.pcb = s.pcb) (hb : s'.pidBitmap = s.pidBitmap)
    (hs : s'.status = s.status) : Keeps s s' :=
  ⟨ha, hp, hb, fun t _ => by rw [hs], fun t _ => by rw [hs]⟩

theorem Keeps.refl (s : Sched) : Keeps s s := .same rfl rfl rfl rfl

theorem Keeps.trans {s'' : Sched} (h : Keeps s s') (h' : Keeps s' s'') : Keeps s s'' := by
  refine ⟨h'.all.trans h.all, h'.pcb.trans h.pcb, h'.pids.trans h.pids, fun t ht => ?_, fun t ht => ?_⟩
  · rw [h'.waiting t (h.all ▸ ht), h.waiting t ht]
  · rw [h'.hanging t (h.all ▸ ht), h.hanging t ht]

@[simp] theorem setStatus_self (s : Sched) (t : Nat) (st : TaskStatus) : (s.setStatus t st).status t = st :=
  update_self ..

theorem setStatus_of_ne {u : Nat} (h : u ≠ t) : (s.setStatus t st).status u = s.status u :=
  update_of_ne h ..

/-! ## The elementary changes -/

theorem Core.same (h : s.Core) (hs : s'.status = s.status) (ha : s'.allList = s.allList)
    (hr : s'.readyList = s.readyList) (hw : s'.waiters = s.waiters) (hi : s'.idleThread = s.idleThread)
    (hp : (s'.pcb s.idleThread).parentPid = none) (hc : s'.cont s.idleThread = .own) : s'.Core := by
  refine ⟨?_, ?_, ?_, ?_, ?_, ?_, ?_, ?_, ?_, ?_, hi ▸ hp, hi ▸ hc⟩ <;> simp only [Unqueued, hs, ha, hr, hw, hi]
  exacts [h.all, h.ready, h.nodup, h.queued, h.queue, h.once, h.alive, h.idle, h.idleFree, h.idleStatus]

theorem Core.unqueued (h : s.Core) (ht : s.status t ≠ .blocked) : s.Unqueued t := fun k hk => ht (h.queued k t hk).2

theorem Core.not_ready (h : s.Core) (ht : s.status t ≠ .ready) : t ∉ s.readyList := fun hm => ht ((h.ready t).mp hm).2

theorem Core.change (h : s.Core) (st : TaskStatus) (ht : t ∈ s.allList)
    (hl : ∀ u, u ∈ l ↔ (u = t ∧ st = .ready) ∨ (u ≠ t ∧ u ∈ s.readyList)) (hn : l.Nodup)
    (hq : s.Unqueued t ∨ st = .blocked) (hd : st ≠ .died) (hi : t = s.idleThread → st.Idles) :
    ({ s with readyList := l }.setStatus t st).Core := by
  refine ⟨h.all, fun u => ?_, hn, fun k u hu => ?_, h.queue, h.once, fun u hu => ?_, h.idle, h.idleFree, ?_,
    h.idleParent, h.idleCont⟩
  · show u ∈ l ↔ u ∈ s.allList ∧ _
    rw [hl]
    by_cases hut : u = t
    · subst hut
      simp [ht]
    · rw [setStatus_of_ne hut]
      simpa [hut] using h.ready u
  · by_cases hut : u = t
    · subst hut
      exact ⟨ht, (setStatus_self ..).trans (hq.resolve_left fun hq => hq k hu)⟩
    · rw [setStatus_of_ne hut]
      exact h.queued k u hu
  · by_cases hut : u = t
    · subst hut
      rw [setStatus_self]
      exact hd
    · rw [setStatus_of_ne hut]
      exact h.alive u hu
  · show ((Sched.setStatus _ t st).status s.idleThread).Idles
    by_cases hti : s.idleThread = t
    · rw [← hti, setStatus_self]
      exact hi hti.symm
    · rw [setStatus_of_ne hti]
      exact h.idleStatus

theorem Core.sleep (h : s.Core) (st : TaskStatus) (ht : t ∈ s.allList) (hr : s.status t ≠ .ready) (hst : st.Asleep)
    (hq : s.Unqueued t ∨ st = .blocked) (hi : t = s.idleThread → st.Idles) : (s.setStatus t st).Core := by
  have hne : st ≠ .ready ∧ st ≠ .died := by rcases hst with rfl | rfl | rfl <;> simp
  refine h.change _ ht (fun u => ?_) h.nodup hq hne.2 hi
  have := h.not_ready hr
  constructor
  · intro hu
    exact .inr ⟨fun e => this (e ▸ hu), hu⟩
  · rintro (⟨-, e⟩ | ⟨-, hu⟩)
    · exact absurd e hne.1
    · exact hu

theorem Core.join (h : s.Core) (ht : t ∈ s.allList) (hq : s.Unqueued t) (hr : t ∉ s.readyList)
    (hl : l = t :: s.readyList ∨ l = s.readyList ++ [t]) :
    ({ s with readyList := l }.setStatus t .ready).Core := by
  have hpe : l.Perm (t :: s.readyList) := by
    rcases hl with rfl | rfl
    · exact .refl _
    · exact List.perm_append_singleton t s.readyList
  refine h.change _ ht (fun u => ?_) (hpe.nodup_iff.mpr (List.nodup_cons.mpr ⟨hr, h.nodup⟩)) (.inl hq) nofun
    fun _ => .inr (.inl rfl)
  rw [hpe.mem_iff, List.mem_cons]
  by_cases hut : u = t <;> simp [hut]

theorem Core.leave {next : Nat} {rest : List Nat} (h : s.Core) (hr : s.readyList = next :: rest) :
    ({ s with readyList := rest, cur := next }.setStatus next .running).Core := by
  have hn := h.nodup
  rw [hr, List.nodup_cons] at hn
  have hne := (h.ready next).mp (by simp [hr])
  have hc := h.change (l := rest) (t := next) .running hne.1 (fun u => ?_) hn.2
    (.inl (h.unqueued (by simp [hne.2]))) nofun fun _ => .inl rfl
  · exact hc.same rfl rfl rfl rfl rfl hc.idleParent hc.idleCont
  · rw [hr, List.mem_cons]
    by_cases hut : u = next
    · simp [hut, hn.1]
    · simp [hut]

/-! ## Switching -/

def Nobody (s : Sched) : Prop := ∀ t ∈ s.allList, s.status t ≠ .running

theorem Nobody.change (h : s.Nobody) (hst : st ≠ .running) :
    ({ s with readyList := l }.setStatus t st).Nobody := by
  intro u hu
  by_cases hut : u = t
  · rw [hut, setStatus_self]
    exact hst
  · rw [setStatus_of_ne hut]
    exact h u hu

theorem keeps_change {c : Nat} (ho : s.status t ≠ .waiting ∧ s.status t ≠ .hanging)
    (hn : st ≠ .waiting ∧ st ≠ .hanging) : Keeps s ({ s with readyList := l, cur := c }.setStatus t st) := by
  refine ⟨rfl, rfl, rfl, fun u _ => ?_, fun u _ => ?_⟩
  · by_cases hut : u = t
    · rw [hut, setStatus_self]
      exact iff_of_false hn.1 ho.1
    · rw [setStatus_of_ne hut]
  · by_cases hut : u = t
    · rw [hut, setStatus_self]
      exact iff_of_false hn.2 ho.2
    · rw [setStatus_of_ne hut]

theorem Core.threadUnblock (h : s.Core) (ht : t ∈ s.allList) (hs : (s.status t).Asleep) (hq : s.Unqueued t) :
    s.threadUnblock t = .ok ({ s with readyList := t :: s.readyList }.setStatus t .ready) ∧
      ({ s with readyList := t :: s.readyList }.setStatus t .ready).Core := by
  have hr : t ∉ s.readyList := h.not_ready (by rcases hs with e | e | e <;> simp [e])
  refine ⟨?_, h.join ht hq hr (.inl rfl)⟩
  unfold Sched.threadUnblock
  rw [assert_of _ hs, ok_bind, assert_of _ hr, ok_bind, if_neg hr, pure_ok]

theorem Core.requeue (h : s.Core) (hrun : ∀ t ∈ s.allList, s.status t = .running → t = s.cur)
    (hcur : s.status s.cur = .running → s.cur ∈ s.allList) :
    ∃ s1, s.requeue = .ok s1 ∧ s1.Core ∧ s1.Nobody ∧ Keeps s s1 := by
  unfold Sched.requeue
  by_cases hc : s.status s.cur = .running
  · have hr : s.cur ∉ s.readyList := h.not_ready (by simp [hc])
    rw [if_pos hc, assert_of _ hr, ok_bind]
    refine ⟨_, rfl, h.join (hcur hc) (h.unqueued (by simp [hc])) hr (.inr rfl), fun u hu => ?_,
      keeps_change (by simp [hc]) (by simp)⟩
    by_cases huc : u = s.cur
    · simp [huc]
    · rw [setStatus_of_ne huc]
      exact fun e => huc (hrun u hu e)
  · rw [if_neg hc]
    exact ⟨s, rfl, h, fun u hu e => hc (hrun u hu e ▸ e), .refl s⟩

theorem Core.wakeIdle (h : s.Core) (hrun : s.Nobody) :
    ∃ s1, s.wakeIdle = .ok s1 ∧ s1.Core ∧ s1.Nobody ∧ Keeps s s1 ∧ s1.readyList ≠ [] := by
  unfold Sched.wakeIdle
  by_cases he : s.readyList = []
  · have hb : s.status s.idleThread = .blocked := by
      rcases h.idleStatus with e | e | e
      · exact absurd e (hrun _ h.idle)
      · have := (h.ready _).mpr ⟨h.idle, e⟩
        rw [he] at this
        cases this
      · exact e
    obtain ⟨hok, hc⟩ := h.threadUnblock h.idle (.inl hb) h.idleFree
    rw [if_pos he, hok]
    exact ⟨_, rfl, hc, hrun.change nofun, keeps_change (by simp [hb]) (by simp), nofun⟩
  · rw [if_neg he]
    exact ⟨s, rfl, h, hrun, .refl s, he⟩

theorem Core.switch (h : s.Core) (hrun : s.Nobody) (hne : s.readyList ≠ []) :
    ∃ s', s.switch = .ok s' ∧ s'.Inv ∧ Keeps s s' := by
  unfold Sched.switch
  rcases hr : s.readyList with _ | ⟨next, rest⟩
  · exact absurd hr hne
  have hn := (h.ready next).mp (by simp [hr])
  refine ⟨_, rfl, ⟨h.leave hr, hn.1, fun u hu => ?_⟩, keeps_change (by simp [hn.2]) (by simp)⟩
  show _ ↔ u = next
  by_cases hun : u = next
  · simp [hun]
  · rw [setStatus_of_ne hun]
    exact iff_of_false (hrun u hu) hun

theorem Core.schedule (h : s.Core) (hrun : ∀ t ∈ s.allList, s.status t = .running → t = s.cur)
    (hcur : s.status s.cur = .running → s.cur ∈ s.allList) : ∃ s', s.schedule = .ok s' ∧ s'.Inv ∧ Keeps s s' := by
  obtain ⟨s1, h1, hc1, hn1, hk1⟩ := h.requeue hrun hcur
  obtain ⟨s2, h2, hc2, hn2, hk2, hne⟩ := hc1.wakeIdle hn1
  obtain ⟨s3, h3, hi, hk3⟩ := hc2.switch hn2 hne
  refine ⟨s3, ?_, hi, (hk1.trans hk2).trans hk3⟩
  unfold Sched.schedule
  rw [h1, ok_bind, h2, ok_bind, h3]

theorem Inv.schedule (h : s.Inv) : ∃ s', s.schedule = .ok s' ∧ s'.Inv ∧ Keeps s s' :=
  h.toCore.schedule (fun t ht => (h.running t ht).mp) fun _ => h.cur

theorem Inv.status_cur (h : s.Inv) : s.status s.cur = .running := (h.running _ h.cur).mpr rfl

theorem Inv.cur_free (h : s.Inv) : s.Unqueued s.cur := h.unqueued (by simp [h.status_cur])

theorem Core.threadBlock {c : Cont} (h : (s.setStatus s.cur st).Core) (hst : st.Asleep)
    (hco : s.cur = s.idleThread → c = .own)
    (hrun : ∀ t ∈ s.allList, s.status t = .running → t = s.cur) :
    ∃ s', s.threadBlock st c = .ok s' ∧ s'.Inv ∧ Keeps ((s.setStatus s.cur st).setCont s.cur c) s' := by
  have hne : st ≠ .running := by rcases hst with rfl | rfl | rfl <;> simp
  have hc : ((s.setStatus s.cur st).setCont s.cur c).Core := by
    refine h.same rfl rfl rfl rfl rfl h.idleParent ?_
    show update s.cont s.cur c s.idleThread = .own
    by_cases hi : s.idleThread = s.cur
    · rw [hi, update_self]
      exact hco hi.symm
    · rw [update_of_ne hi]
      exact h.idleCont
  have hs : ((s.setStatus s.cur st).setCont s.cur c).status s.cur = st := setStatus_self ..
  have hrun' : ∀ t ∈ s.allList, (s.setStatus s.cur st).status t = .running → t = s.cur := by
    intro t ht e
    by_contra htc
    rw [setStatus_of_ne htc] at e
    exact htc (hrun t ht e)
  obtain ⟨s', hs', hi, hk⟩ := hc.schedule hrun' fun e => absurd (hs.symm.trans e) hne
  refine ⟨s', ?_, hi, hk⟩
  unfold Sched.threadBlock
  rw [assert_of _ hst, ok_bind, hs']

theorem Inv.threadBlock (h : s.Inv) (st : TaskStatus) (c : Cont) (hst : st.Asleep)
    (hi : s.cur = s.idleThread → st = .blocked ∧ c = .own) :
    ∃ s', s.threadBlock st c = .ok s' ∧ s'.Inv ∧ Keeps ((s.setStatus s.cur st).setCont s.cur c) s' := by
  refine Core.threadBlock ?_ hst (fun e => (hi e).2) fun t ht => (h.running t ht).mp
  exact h.sleep st h.cur (by simp [h.status_cur]) hst (.inl h.cur_free) fun e => .inr (.inr (hi e).1)

theorem Inv.keeps_blocked (h : s.Inv) (c : Cont) : Keeps s ((s.setStatus s.cur .blocked).setCont s.cur c) := by
  have hk : Keeps s (s.setStatus s.cur .blocked) :=
    keeps_change (l := s.readyList) (c := s.cur) (by simp [h.status_cur]) (by simp)
  exact hk.trans (.same rfl rfl rfl rfl)

theorem Inv.threadYield (h : s.Inv) : ∃ s', s.threadYield = .ok s' ∧ s'.Inv ∧ Keeps s s' := by
  have hr : s.cur ∉ s.readyList := h.not_ready (by simp [h.status_cur])
  have hc := h.join (l := s.readyList ++ [s.cur]) h.cur h.cur_free hr (.inr rfl)
  have hrun' : ∀ t ∈ s.allList,
      ({ s with readyList := s.readyList ++ [s.cur] }.setStatus s.cur .ready).status t = .running → t = s.cur := by
    intro t ht e
    by_contra htc
    rw [setStatus_of_ne htc] at e
    exact htc ((h.running t ht).mp e)
  obtain ⟨s', hs', hi, hk⟩ := hc.schedule hrun' fun e => absurd ((setStatus_self ..).symm.trans e) nofun
  refine ⟨s', ?_, hi, (keeps_change (by simp [h.status_cur]) (by simp)).trans hk⟩
  unfold Sched.threadYield
  rw [assert_of _ hr, ok_bind, hs']

theorem Inv.of_core (h : s.Inv) (hc : s'.Core) (hcur : s'.cur = s.cur) (ha : s'.allList = s.allList)
    (hs : ∀ t ∈ s.allList, s'.status t = .running ↔ s.status t = .running) : s'.Inv := by
  refine ⟨hc, by rw [hcur, ha]; exact h.cur, fun t ht => ?_⟩
  rw [ha] at ht
  rw [hs t ht, hcur]
  exact h.running t ht

theorem Inv.threadUnblock (h : s.Inv) (ht : t ∈ s.allList) (hs : (s.status t).Asleep) (hq : s.Unqueued t) :
    ∃ s', s.threadUnblock t = .ok s' ∧ s' = { s with readyList := t :: s.readyList }.setStatus t .ready ∧ s'.Inv := by
  obtain ⟨hok, hc⟩ := h.toCore.threadUnblock ht hs hq
  refine ⟨_, hok, rfl, h.of_core hc rfl rfl fun u _ => ?_⟩
  by_cases hut : u = t
  · rw [hut, setStatus_self]
    exact iff_of_false nofun (by rcases hs with e | e | e <;> simp [e])
  · rw [setStatus_of_ne hut]

/-! ## Semaphores -/

theorem mem_setWaiters {k j : Nat} {u : Nat} :
    u ∈ (s.setWaiters k l).waiters j ↔ (j = k ∧ u ∈ l) ∨ (j ≠ k ∧ u ∈ s.waiters j) := by
  unfold setWaiters
  by_cases hjk : j = k
  · subst hjk
    simp
  · simp [hjk]

theorem Core.enqueue (h : s.Core) (ht : t ∈ s.allList) (hb : s.status t = .blocked) (hq : s.Unqueued t)
    (hi : t ≠ s.idleThread) (k : Nat) : (s.setWaiters k (s.waiters k ++ [t])).Core := by
  have hmem : ∀ j u, u ∈ (s.setWaiters k (s.waiters k ++ [t])).waiters j ↔ u ∈ s.waiters j ∨ (j = k ∧ u = t) := by
    intro j u
    rw [mem_setWaiters]
    by_cases hjk : j = k <;> simp [hjk]
  refine ⟨h.all, h.ready, h.nodup, fun j u hu => ?_, fun j => ?_, fun j j' u hu hu' => ?_, h.alive, h.idle,
    fun j hj => ?_, h.idleStatus, h.idleParent, h.idleCont⟩
  · rcases (hmem j u).mp hu with hu | ⟨-, rfl⟩
    · exact h.queued j u hu
    · exact ⟨ht, hb⟩
  · show (update s.waiters k _ j).Nodup
    by_cases hjk : j = k
    · subst hjk
      rw [update_self]
      exact (List.perm_append_singleton t _).nodup_iff.mpr (List.nodup_cons.mpr ⟨hq j, h.queue j⟩)
    · rw [update_of_ne hjk]
      exact h.queue j
  · rcases (hmem j u).mp hu with h1 | ⟨e1, e⟩ <;> rcases (hmem j' u).mp hu' with h2 | ⟨e2, e'⟩
    · exact h.once j j' u h1 h2
    · exact absurd (e' ▸ h1) (hq j)
    · exact absurd (e ▸ h2) (hq j')
    · exact e1.trans e2.symm
  · rcases (hmem j _).mp hj with hj | ⟨-, e⟩
    · exact h.idleFree j hj
    · exact hi e.symm

theorem Core.dequeue {k : Nat} (h : s.Core) (hk : s.waiters k = t :: l) :
    (s.setWaiters k l).Core ∧ (s.setWaiters k l).Unqueued t := by
  have hn := h.queue k
  rw [hk, List.nodup_cons] at hn
  have hsub : ∀ j u, u ∈ (s.setWaiters k l).waiters j → u ∈ s.waiters j := by
    intro j u hu
    rcases mem_setWaiters.mp hu with ⟨e, hl⟩ | ⟨-, hj⟩
    · rw [e, hk]
      exact .tail _ hl
    · exact hj
  refine ⟨⟨h.all, h.ready, h.nodup, fun j u hu => h.queued j u (hsub j u hu), fun j => ?_,
    fun j j' u hu hu' => h.once j j' u (hsub j u hu) (hsub j' u hu'), h.alive, h.idle,
    fun j hj => h.idleFree j (hsub j _ hj), h.idleStatus, h.idleParent, h.idleCont⟩, fun j hj => ?_⟩
  · show (update s.waiters k l j).Nodup
    by_cases hjk : j = k
    · rw [hjk, update_self]
      exact hn.2
    · rw [update_of_ne hjk]
      exact h.queue j
  · rcases mem_setWaiters.mp hj with ⟨-, hj⟩ | ⟨hjk, hj⟩
    · exact hn.1 hj
    · exact hjk (h.once j k t hj (by simp [hk]))

theorem Inv.setOwn (h : s.Inv) : (s.setCont s.cur .own).Inv := by
  refine h.of_core (h.toCore.same rfl rfl rfl rfl rfl h.idleParent ?_) rfl rfl fun _ _ => Iff.rfl
  show update s.cont s.cur .own s.idleThread = .own
  by_cases hi : s.idleThread = s.cur
  · rw [hi, update_self]
  · rw [update_of_ne hi]
    exact h.idleCont

theorem Inv.setValue (h : s.Inv) (k : Nat) (v : UInt8) : (s.setValue k v).Inv :=
  h.of_core (h.toCore.same rfl rfl rfl rfl rfl h.idleParent h.idleCont) rfl rfl fun _ _ => Iff.rfl

theorem Inv.semaDown (h : s.Inv) (hi : s.cur ≠ s.idleThread) (k : Nat) :
    Post QueueFault (s.semaDown k) fun s' => s'.Inv ∧ Keeps s s' := by
  by_cases hv : s.value k = 0
  · have hq := h.cur_free
    have hb := h.sleep .blocked h.cur (by simp [h.status_cur]) (.inl rfl) (.inr rfl) fun e => absurd e hi
    have hc := hb.enqueue h.cur (setStatus_self ..) hq hi k
    obtain ⟨s', hs', hinv, hk⟩ := Core.threadBlock (s := s.setWaiters k (s.waiters k ++ [s.cur])) (c := .semaDown k) hc
      (.inl rfl) (fun e => absurd e hi) fun t ht => (h.running t ht).mp
    have hkb : Keeps s ((s.setWaiters k (s.waiters k ++ [s.cur])).setStatus s.cur .blocked |>.setCont s.cur (.semaDown k)) :=
      (h.keeps_blocked (.semaDown k)).trans (.same rfl rfl rfl rfl)
    unfold Sched.semaDown
    rw [semaDown_block hv (hq k), hs']
    exact Post.ok ⟨hinv, hkb.trans hk⟩
  · unfold Sched.semaDown OperateSystem.semaDown
    rw [if_neg hv]
    exact Post.check (by decide) fun _ => ⟨(h.setValue k _).setOwn, .same rfl rfl rfl rfl⟩

theorem Inv.wakeFirst (h : s.Inv) (k : Nat) :
    ∃ s', wakeFirst (s.waiters k) s (fun t waiters => (s.setWaiters k waiters).threadUnblock t) = .ok s' ∧ s'.Inv ∧ Keeps s s' := by
  rcases hk : s.waiters k with _ | ⟨t, l⟩
  · exact ⟨s, rfl, h, .refl s⟩
  obtain ⟨hc, hq⟩ := h.dequeue hk
  have ht := h.queued k t (by simp [hk])
  have h1 := h.of_core hc rfl rfl fun _ _ => Iff.rfl
  obtain ⟨s', hs', he, hinv⟩ := h1.threadUnblock ht.1 (.inl ht.2) hq
  have hk := he ▸ keeps_change (by simp [setWaiters, ht.2]) (by simp)
  have hw : Keeps s (s.setWaiters k l) := .same rfl rfl rfl rfl
  exact ⟨s', hs', hinv, hw.trans hk⟩

theorem Inv.semaUp (h : s.Inv) (k : Nat) : Post QueueFault (s.semaUp k) fun s' => s'.Inv ∧ Keeps s s' := by
  obtain ⟨s1, hs1, h1, hk⟩ := h.wakeFirst k
  refine Post.check (by decide) fun _ => ?_
  rw [hs1, ok_bind]
  exact Post.check (by decide) fun _ => ⟨h1.setValue k _, hk.trans (.same rfl rfl rfl rfl)⟩

end Sched

end OperateSystem
