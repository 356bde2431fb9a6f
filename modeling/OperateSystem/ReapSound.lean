import OperateSystem.WaitSound

/-!
# Every exit is waited for at most once

A PCB page and a pid are used again after a task has been reaped, so a task is
named by its page together with the step that created it. The record kept beside
the scheduler says which tasks have called `sys_exit`, with what, and for which
tasks a `sys_wait` has returned.
-/

namespace OperateSystem

open Function

open Sched

abbrev TaskId := Nat × Nat

structure History where
  sched : Sched
  now : Nat
  since : Nat → Nat
  exits : List (TaskId × Int)
  reaped : List TaskId

def Sched.waitEnd (s : Sched) (op : SchedOp) : Option Waited :=
  match op with
  | .sysWait => s.sysWait.toOption.map Prod.snd
  | .resume => if s.cont s.cur = .sysWait then s.sysWait.toOption.map Prod.snd else none
  | _ => none

namespace History

variable {h h' : History} {s s' : Sched} {t : Nat} {op : SchedOp}

def task (h : History) (t : Nat) : TaskId := (t, h.since t)

def exitOf (h : History) : SchedOp → List (TaskId × Int)
  | .sysExit status => [(h.task h.sched.cur, status)]
  | _ => []

def reapOf (h : History) (op : SchedOp) : List TaskId :=
  match h.sched.waitEnd op with
  | some (.reaped pid _) => (h.sched.pid2thread (some pid)).toList.map h.task
  | _ => []

/-- A page that is not in use can only be that of a task created now. -/
def next (h : History) (op : SchedOp) (s' : Sched) : History where
  sched := s'
  now := h.now + 1
  since t := if t ∈ h.sched.allList then h.since t else h.now
  exits := h.exitOf op ++ h.exits
  reaped := h.reapOf op ++ h.reaped

def Step (h h' : History) : Prop := ∃ op s', h.sched.Calls op ∧ h.sched.run op = .ok s' ∧ h' = h.next op s'

def Begin (h : History) : Prop := h.sched.Start ∧ h.now = 1 ∧ (∀ t, h.since t = 0) ∧ h.exits = [] ∧ h.reaped = []

structure Ok (h : History) : Prop where
  inv : h.sched.Inv
  family : h.sched.Family
  past : ∀ t ∈ h.sched.allList, h.since t < h.now
  exited : ∀ t ∈ h.sched.allList, ∀ n, (h.task t, n) ∈ h.exits →
    h.sched.status t = .hanging ∧ (h.sched.pcb t).exitStatus = Int8.ofInt n
  hanging : ∀ t ∈ h.sched.allList, h.sched.status t = .hanging → ∃ n, (h.task t, n) ∈ h.exits
  exitPast : ∀ x ∈ h.exits, x.1.2 < h.now
  exitOnce : (h.exits.map Prod.fst).Nodup
  reapPast : ∀ x ∈ h.reaped, x.2 < h.now
  reapGone : ∀ t ∈ h.sched.allList, h.task t ∉ h.reaped
  reapOnce : h.reaped.Nodup
  reapExit : ∀ x ∈ h.reaped, ∃ n, (x, n) ∈ h.exits

theorem next_task (ht : t ∈ h.sched.allList) : (h.next op s').task t = h.task t := by
  show (t, if t ∈ h.sched.allList then h.since t else h.now) = (t, h.since t)
  rw [if_pos ht]

theorem next_task_new (ht : t ∉ h.sched.allList) : (h.next op s').task t = (t, h.now) := by
  show (t, if t ∈ h.sched.allList then h.since t else h.now) = (t, h.now)
  rw [if_neg ht]

theorem Ok.next_past (hk : h.Ok) (t : Nat) : (h.next op s').since t < (h.next op s').now := by
  show (if t ∈ h.sched.allList then h.since t else h.now) < h.now + 1
  split
  · next ht => exact Nat.lt_succ_of_lt (hk.past t ht)
  · exact Nat.lt_succ_self _

theorem Ok.new_notMem_exits (hk : h.Ok) (n : Int) : ((t, h.now), n) ∉ h.exits :=
  fun hm => Nat.lt_irrefl _ (hk.exitPast _ hm)

theorem Ok.new_notMem_reaped (hk : h.Ok) : (t, h.now) ∉ h.reaped := fun hm => Nat.lt_irrefl _ (hk.reapPast _ hm)

/-! ## One step -/

theorem Ok.stay (hk : h.Ok) (hi : s'.Inv) (hf : s'.Family) (he1 : h.exitOf op = [])
    (hold : ∀ t ∈ s'.allList, t ∈ h.sched.allList →
      (s'.status t = .hanging ↔ h.sched.status t = .hanging) ∧ (s'.pcb t).exitStatus = (h.sched.pcb t).exitStatus)
    (hnew : ∀ t ∈ s'.allList, t ∉ h.sched.allList → s'.status t ≠ .hanging)
    (hr : ∀ x ∈ h.reapOf op, ∃ c ∈ h.sched.allList, x = h.task c ∧ h.sched.status c = .hanging ∧ c ∉ s'.allList)
    (ho : (h.reapOf op).Nodup) : (h.next op s').Ok := by
  have het : (h.next op s').exits = h.exits := by
    show h.exitOf op ++ h.exits = h.exits
    rw [he1, List.nil_append]
  refine ⟨hi, hf, fun t _ => hk.next_past t, fun t ht n hm => ?_, fun t ht hst => ?_, fun x hx => ?_, ?_, fun x hx => ?_,
    fun t ht hm => ?_, ?_, fun x hx => ?_⟩
  · rw [het] at hm
    by_cases hto : t ∈ h.sched.allList
    · rw [next_task hto] at hm
      obtain ⟨hst, he⟩ := hk.exited t hto n hm
      obtain ⟨hst', he'⟩ := hold t ht hto
      exact ⟨hst'.mpr hst, he'.trans he⟩
    · rw [next_task_new hto] at hm
      exact absurd hm (hk.new_notMem_exits n)
  · rw [het]
    by_cases hto : t ∈ h.sched.allList
    · rw [next_task hto]
      exact hk.hanging t hto ((hold t ht hto).1.mp hst)
    · exact absurd hst (hnew t ht hto)
  · rw [het] at hx
    exact Nat.lt_succ_of_lt (hk.exitPast x hx)
  · rw [het]
    exact hk.exitOnce
  · rcases List.mem_append.mp hx with hx | hx
    · obtain ⟨c, hc, rfl, -⟩ := hr x hx
      exact Nat.lt_succ_of_lt (hk.past c hc)
    · exact Nat.lt_succ_of_lt (hk.reapPast x hx)
  · rcases List.mem_append.mp hm with hm | hm
    · obtain ⟨c, hc, e, -, hg⟩ := hr _ hm
      have : t = c := congrArg Prod.fst e
      exact hg (this ▸ ht)
    · by_cases hto : t ∈ h.sched.allList
      · rw [next_task hto] at hm
        exact hk.reapGone t hto hm
      · rw [next_task_new hto] at hm
        exact hk.new_notMem_reaped hm
  · refine List.nodup_append'.mpr ⟨ho, hk.reapOnce, fun x hx hx' => ?_⟩
    obtain ⟨c, hc, rfl, -⟩ := hr x hx
    exact hk.reapGone c hc hx'
  · rw [het]
    rcases List.mem_append.mp hx with hx | hx
    · obtain ⟨c, hc, rfl, hst, -⟩ := hr x hx
      exact hk.hanging c hc hst
    · exact hk.reapExit x hx

theorem Ok.exit {status : Int} {parent : Nat} (hk : h.Ok) (hi : s'.Inv) (hf : s'.Family) (he : h.sched.Exited s' parent)
    (hst : ∀ t, (s'.pcb t).exitStatus = if t = h.sched.cur then Int8.ofInt status else (h.sched.pcb t).exitStatus) :
    (h.next (.sysExit status) s').Ok := by
  have hcur := hk.inv.cur
  have hfi : ∀ n, (h.task h.sched.cur, n) ∉ h.exits := fun n hm => by
    simpa [hk.inv.status_cur] using (hk.exited _ hcur n hm).1
  have hmem : ∀ t ∈ s'.allList, t ∈ h.sched.allList := fun t ht => he.all ▸ ht
  have het : (h.next (.sysExit status) s').exits = (h.task h.sched.cur, status) :: h.exits := rfl
  have hr : (h.next (.sysExit status) s').reaped = h.reaped := rfl
  refine ⟨hi, hf, fun t _ => hk.next_past t, fun t ht n hm => ?_, fun t ht hh => ?_, fun x hx => ?_, ?_, fun x hx => ?_,
    fun t ht => ?_, hk.reapOnce, fun x hx => ?_⟩
  · rw [next_task (hmem t ht), het] at hm
    show s'.status t = .hanging ∧ (s'.pcb t).exitStatus = Int8.ofInt n
    rw [he.hanging t (hmem t ht), hst]
    rcases List.mem_cons.mp hm with e | hm
    · have htc : t = h.sched.cur := congrArg (fun x => x.1.1) e
      have hn : n = status := congrArg Prod.snd e
      exact ⟨.inl htc, by rw [if_pos htc, hn]⟩
    · have htc : t ≠ h.sched.cur := fun e => hfi n (e ▸ hm)
      obtain ⟨hh, hx⟩ := hk.exited t (hmem t ht) n hm
      exact ⟨.inr hh, by rw [if_neg htc, hx]⟩
  · rw [next_task (hmem t ht), het]
    rcases (he.hanging t (hmem t ht)).mp hh with rfl | hh
    · exact ⟨status, List.mem_cons_self ..⟩
    · obtain ⟨n, hn⟩ := hk.hanging t (hmem t ht) hh
      exact ⟨n, .tail _ hn⟩
  · rw [het] at hx
    rcases List.mem_cons.mp hx with rfl | hx
    · exact Nat.lt_succ_of_lt (hk.past _ hcur)
    · exact Nat.lt_succ_of_lt (hk.exitPast x hx)
  · rw [het, List.map_cons, List.nodup_cons]
    refine ⟨fun hm => ?_, hk.exitOnce⟩
    obtain ⟨⟨x, n⟩, hx, rfl⟩ := List.mem_map.mp hm
    exact hfi n hx
  · exact Nat.lt_succ_of_lt (hk.reapPast x hx)
  · rw [next_task (hmem t ht), hr]
    exact hk.reapGone t (hmem t ht)
  · obtain ⟨n, hn⟩ := hk.reapExit x hx
    exact ⟨n, .tail _ hn⟩

end History

/-! ## What `sys_wait` returns -/

namespace Sched

variable {s s' : Sched} {op : SchedOp}

theorem sysWait_noChild (hr : s.sysWait = .ok (s', .noChild)) : ∀ t ∈ s.allList, (s.pcb t).parentPid ≠ some s.pcbCur.pid := by
  unfold Sched.sysWait at hr
  cases hh : s.findHangingChild s.pcbCur.pid with
  | some child =>
    rw [hh] at hr
    cases hr
  | none =>
    rw [hh] at hr
    cases hc : s.findChild s.pcbCur.pid with
    | none =>
      intro t ht e
      simpa [e] using List.find?_eq_none.mp hc t ht
    | some child =>
      rw [hc] at hr
      obtain ⟨_, -, hr⟩ := bind_ok.mp hr
      cases hr

theorem InWait.waitEnd {r : Sched × Waited} (h : s.InWait op) (hr : s.sysWait = .ok r) : s.waitEnd op = some r.2 := by
  cases op with
  | sysWait => simp [Sched.waitEnd, hr, Except.toOption]
  | resume =>
    have h : s.cont s.cur = .sysWait := h
    simp [Sched.waitEnd, hr, h, Except.toOption]
  | _ => exact h.elim

theorem waitEnd_of_not_inWait (h : ¬ s.InWait op) : s.waitEnd op = none := by
  cases op with
  | sysWait => exact absurd trivial h
  | resume =>
    have h : s.cont s.cur ≠ .sysWait := h
    simp [Sched.waitEnd, h]
  | _ => rfl

theorem Plain.not_inWait (h : s.Plain op) : ¬ s.InWait op := by
  cases op <;> first | exact h | exact h.elim

theorem Plain.waitEnd (h : s.Plain op) : s.waitEnd op = none := waitEnd_of_not_inWait h.not_inWait

theorem Effect.of_inWait (he : s.Effect op s') (hop : s.InWait op) : ∃ r, s.sysWait = .ok r ∧ r.1 = s' := by
  cases he with
  | quiet h _ => exact absurd hop h.not_inWait
  | starts h _ _ _ _ => exact absurd hop h.not_inWait
  | waits _ hr _ => exact ⟨_, hr, rfl⟩
  | _ => exact hop.elim

theorem Family.pid2thread {t : Nat} (h : s.Family) (ht : t ∈ s.allList) : s.pid2thread (some (s.pcb t).pid) = some t := by
  have hs : (s.pid2thread (some (s.pcb t).pid)).isSome := by
    rw [Sched.pid2thread, List.find?_isSome]
    exact ⟨t, ht, by simp⟩
  obtain ⟨u, hu⟩ := Option.isSome_iff_exists.mp hs
  obtain ⟨hmem, hpid⟩ := find_mem hu
  rw [hu, h.inj u hmem t ht (Option.some.inj hpid)]

end Sched

namespace History

variable {h h' : History} {s s' : Sched} {t : Nat} {op : SchedOp}

theorem reapOf_none (hw : h.sched.waitEnd op = none) : h.reapOf op = [] := by
  unfold reapOf
  rw [hw]

theorem Ok.plain (hk : h.Ok) (hi : s'.Inv) (hf : s'.Family) (he : h.exitOf op = []) (hw : h.sched.waitEnd op = none)
    (hold : ∀ t ∈ s'.allList, t ∈ h.sched.allList →
      (s'.status t = .hanging ↔ h.sched.status t = .hanging) ∧ (s'.pcb t).exitStatus = (h.sched.pcb t).exitStatus)
    (hnew : ∀ t ∈ s'.allList, t ∉ h.sched.allList → s'.status t ≠ .hanging) : (h.next op s').Ok := by
  have hnil := reapOf_none hw
  exact hk.stay hi hf he hold hnew (by simp [hnil]) (by simp [hnil])

theorem Ok.keeps (hk : h.Ok) (hi : s'.Inv) (hf : s'.Family) (he : h.exitOf op = []) (hw : h.sched.waitEnd op = none)
    (hs : Keeps h.sched s') : (h.next op s').Ok := by
  refine hk.plain hi hf he hw (fun t _ hto => ⟨hs.hanging t hto, by rw [hs.pcb]⟩) fun t ht hto => ?_
  rw [hs.all] at ht
  exact absurd ht hto

theorem exitOf_plain (hp : h.sched.Plain op) : h.exitOf op = [] := by
  cases op with
  | sysExit status => exact hp.elim
  | _ => rfl

theorem exitOf_inWait (hp : h.sched.InWait op) : h.exitOf op = [] := by
  cases op with
  | sysExit status => exact hp.elim
  | _ => rfl

theorem Ok.scratch {p : Pcb} {b : Bitmap} (hk : h.Ok) (he : h.exitOf op = []) (hw : h.sched.waitEnd op = none)
    (hi : (h.sched.scratch t p b).Inv) (hf : (h.sched.scratch t p b).Family) (ht : t ∉ h.sched.allList) :
    (h.next op (h.sched.scratch t p b)).Ok := by
  refine hk.plain hi hf he hw (fun u _ hu => ?_) fun u hu hn => absurd hu hn
  have hut : u ≠ t := fun e => ht (e ▸ hu)
  rw [show (h.sched.scratch t p b).status u = h.sched.status u from update_of_ne hut ..,
    show (h.sched.scratch t p b).pcb u = h.sched.pcb u from update_of_ne hut ..]
  exact ⟨Iff.rfl, rfl⟩

theorem Ok.created {p : Pcb} {b : Bitmap} (hk : h.Ok) (he : h.exitOf op = []) (hw : h.sched.waitEnd op = none)
    (hi : (h.sched.created t p b).Inv) (hf : (h.sched.created t p b).Family) (ht : t ∉ h.sched.allList) :
    (h.next op (h.sched.created t p b)).Ok := by
  refine hk.plain hi hf he hw (fun u _ hu => ?_) fun u hu hn => ?_
  · have hut : u ≠ t := fun e => ht (e ▸ hu)
    rw [show (h.sched.created t p b).status u = h.sched.status u from update_of_ne hut ..,
      created_pcb ht hu]
    exact ⟨Iff.rfl, rfl⟩
  · have hut : u = t := by simpa [Sched.created, hn] using hu
    rw [hut, show (h.sched.created t p b).status t = .ready from update_self ..]
    simp

theorem remove_left (hd : s.allList.Nodup) {c : Nat} (ht : t ∈ (s.remove c).allList) :
    t ∈ s.allList ∧ (s.remove c).status t = s.status t := by
  obtain ⟨hne, ht⟩ := hd.mem_erase_iff.mp ht
  exact ⟨ht, update_of_ne hne ..⟩

theorem Ok.removed (hk : h.Ok) (hi : s'.Inv) (hf : s'.Family) (hs : Keeps (h.sched.remove t) s') :
    (h.next (.threadExit t) s').Ok := by
  refine hk.plain hi hf rfl rfl (fun u hu _ => ?_) fun u hu hn => ?_
  · rw [hs.all] at hu
    rw [hs.hanging u hu, (remove_left hk.inv.all hu).2, hs.pcb]
    exact ⟨Iff.rfl, rfl⟩
  · rw [hs.all] at hu
    exact absurd (remove_left hk.inv.all hu).1 hn

theorem Ok.reapOf {pid : Nat} {status : Int} (hk : h.Ok) (hop : h.sched.InWait op)
    (hr : h.sched.sysWait = .ok (s', .reaped pid status)) : ∃ c ∈ h.sched.allList, h.reapOf op = [h.task c] ∧
      (h.sched.pcb c).pid = pid ∧ (h.sched.pcb c).parentPid = some h.sched.pcbCur.pid ∧ h.sched.status c = .hanging ∧
      (h.sched.pcb c).exitStatus.toInt = status ∧ c ∉ s'.allList := by
  obtain ⟨c, hf, rfl, rfl, rfl⟩ := sysWait_reaped hr
  obtain ⟨hc, hpar, hst⟩ := find_mem hf
  refine ⟨c, hc, ?_, rfl, hpar, hst, rfl, fun hm => (hk.inv.all.mem_erase_iff.mp hm).1 rfl⟩
  unfold History.reapOf
  rw [hop.waitEnd hr]
  simp only [hk.family.pid2thread hc, Option.toList_some, List.map_cons, List.map_nil]

theorem Ok.waited {r : Sched × Waited} (hk : h.Ok) (hi : r.1.Inv) (hf : r.1.Family) (hop : h.sched.InWait op)
    (hr : h.sched.sysWait = .ok r) (hw : h.sched.WaitedTo r.1) : (h.next op r.1).Ok := by
  obtain ⟨s', out⟩ := r
  have hold : ∀ t ∈ s'.allList, t ∈ h.sched.allList ∧ (s'.status t = .hanging ↔ h.sched.status t = .hanging) ∧
      (s'.pcb t).exitStatus = (h.sched.pcb t).exitStatus := by
    intro t ht
    cases hw with
    | reaped _ _ _ =>
      obtain ⟨hm, hs⟩ := remove_left hk.inv.all ht
      exact ⟨hm, Iff.of_eq (congrArg (· = .hanging) hs), rfl⟩
    | none => exact ⟨ht, Iff.rfl, rfl⟩
    | sleeps _ hs =>
      rw [hs.all] at ht
      rw [hs.hanging t ht, hs.pcb]
      refine ⟨ht, ?_, rfl⟩
      by_cases htc : t = h.sched.cur
      · subst htc
        rw [show ((h.sched.setStatus h.sched.cur .waiting).setCont h.sched.cur .sysWait).status h.sched.cur = .waiting from
          setStatus_self .., hk.inv.status_cur]
        simp
      · rw [show ((h.sched.setStatus h.sched.cur .waiting).setCont h.sched.cur .sysWait).status t = h.sched.status t from
          setStatus_of_ne htc]
  have hre : ∀ x ∈ h.reapOf op, ∃ c ∈ h.sched.allList, x = h.task c ∧ h.sched.status c = .hanging ∧ c ∉ s'.allList := by
    intro x hx
    cases out with
    | reaped pid status =>
      obtain ⟨c, hc, he, -, -, hst, -, hg⟩ := hk.reapOf hop hr
      rw [he, List.mem_singleton] at hx
      exact ⟨c, hc, hx, hst, hg⟩
    | noChild => simp [History.reapOf, hop.waitEnd hr] at hx
    | sleeps => simp [History.reapOf, hop.waitEnd hr] at hx
  have ho : (h.reapOf op).Nodup := by
    cases out with
    | reaped pid status =>
      obtain ⟨c, -, he, -⟩ := hk.reapOf hop hr
      rw [he]
      exact List.nodup_singleton _
    | noChild => simp [History.reapOf, hop.waitEnd hr]
    | sleeps => simp [History.reapOf, hop.waitEnd hr]
  exact hk.stay hi hf (exitOf_inWait hop) (fun t ht _ => (hold t ht).2) (fun t ht hn => absurd (hold t ht).1 hn) hre ho

theorem Ok.step (hk : h.Ok) (hs : h.Step h') : h'.Ok := by
  obtain ⟨op, s', hc, hr, rfl⟩ := hs
  have he := hk.inv.effect hc hr
  have hi : s'.Inv := (hk.inv.run hc.1 hc.2.1).holds hr
  have hf : s'.Family := hk.family.effect hk.inv he
  cases he with
  | quiet hop hs => exact hk.keeps hi hf (exitOf_plain hop) hop.waitEnd hs
  | execv path =>
    refine hk.plain hi hf rfl rfl (fun t _ _ => ⟨Iff.rfl, ?_⟩) fun t ht hn => absurd ht hn
    by_cases htc : t = h.sched.cur
    · simp [Sched.sysExecv, setPcb, pcbCur, htc]
    · simp [Sched.sysExecv, setPcb, htc]
  | starts hop ht _ _ _ => exact hk.created (exitOf_plain hop) hop.waitEnd hi hf ht
  | removes _ _ hs => exact hk.removed hi hf hs
  | forks hfo =>
    cases hfo with
    | none => exact hk.keeps hi hf rfl rfl (.refl _)
    | scratch _ ht _ => exact hk.scratch rfl rfl hi hf ht
    | child _ _ ht _ _ _ => exact hk.created rfl rfl hi hf ht
  | exits he hst => exact hk.exit hi hf he hst
  | waits hop hwa hw => exact hk.waited hi hf hop hwa hw

theorem Begin.ok (hb : h.Begin) : h.Ok := by
  obtain ⟨⟨_, hs⟩, hnow, hsi, he, hr⟩ := hb
  refine ⟨hs.inv, hs.family, fun t _ => by rw [hsi, hnow]; exact Nat.one_pos, fun t _ n hm => ?_, fun t ht hst => ?_,
    fun x hx => ?_, by simp [he], fun x hx => ?_, fun t _ => by simp [hr], by simp [hr], fun x hx => ?_⟩
  · simp [he] at hm
  · rw [hs.status t ht] at hst
    split at hst <;> cases hst
  · simp [he] at hx
  · simp [hr] at hx
  · simp [hr] at hx

end History

open History

/-- **Wait and exit.** A task exits at most once and is waited for at most once, after its exit. A
`sys_wait` that returns a pid has found a child of the caller that had exited, and takes the low
byte of what it exited with. -/
theorem reaped_exactly_once {h : History} (hr : Reach History.Step Begin h) :
    h.reaped.Nodup ∧ (h.exits.map Prod.fst).Nodup ∧ (∀ x ∈ h.reaped, ∃ n, (x, n) ∈ h.exits) ∧
      ∀ op s', h.sched.Calls op → h.sched.run op = .ok s' →
        (∀ pid status, h.sched.waitEnd op = some (.reaped pid status) →
          ∃ t ∈ h.sched.allList, (h.sched.pcb t).pid = pid ∧ (h.sched.pcb t).parentPid = some h.sched.pcbCur.pid ∧
            (∃ n, (h.task t, n) ∈ h.exits ∧ status = n.bmod 256) ∧ t ∉ s'.allList ∧ h.task t ∉ h.reaped ∧
            (h.next op s').reaped = h.task t :: h.reaped) ∧
        (h.sched.waitEnd op = some .noChild → ∀ t ∈ h.sched.allList, (h.sched.pcb t).parentPid ≠ some h.sched.pcbCur.pid) := by
  have hk : h.Ok := hr.invariant (fun _ hb => hb.ok) fun _ _ hk hs => hk.step hs
  refine ⟨hk.reapOnce, hk.exitOnce, hk.reapExit, fun op s' hc hrun => ?_⟩
  have he := hk.inv.effect hc hrun
  by_cases hop : h.sched.InWait op
  · obtain ⟨⟨s1, out⟩, hw, hs1⟩ : ∃ r, h.sched.sysWait = .ok r ∧ r.1 = s' := he.of_inWait hop
    obtain rfl : s1 = s' := hs1
    rw [hop.waitEnd hw]
    refine ⟨fun pid status hout => ?_, fun hout => ?_⟩
    · obtain rfl : out = .reaped pid status := Option.some.inj hout
      obtain ⟨t, ht, hre, hpid, hpar, hst, hs2, hg⟩ := hk.reapOf hop hw
      obtain ⟨n, hn⟩ := hk.hanging t ht hst
      refine ⟨t, ht, hpid, hpar, ⟨n, hn, ?_⟩, hg, hk.reapGone t ht, ?_⟩
      · rw [← hs2, (hk.exited t ht n hn).2, Int8.toInt_ofInt]
      · show h.reapOf op ++ h.reaped = _
        rw [hre, List.singleton_append]
    · obtain rfl : out = .noChild := Option.some.inj hout
      exact sysWait_noChild hw
  · have hno := waitEnd_of_not_inWait hop
    rw [hno]
    exact ⟨fun _ _ hout => absurd hout (by simp), fun hout => absurd hout (by simp)⟩

namespace History

def first : History := ⟨boot, 1, fun _ => 0, [], []⟩

def after (h : History) (op : SchedOp) : History := h.next op (h.sched.after op)

theorem reach_after {h : History} (op : SchedOp) (hr : Reach History.Step Begin h) (hc : h.sched.Calls op)
    (hok : (h.sched.run op).isOk = true) : Reach History.Step Begin (h.after op) :=
  hr.tail ⟨op, _, hc, run_after hok, rfl⟩

def childExited : History :=
  ((((first.after (.threadExit 2)).after (.sysFork (forkPages 4))).after .sysWait).after .schedule).after (.sysExit 300)

end History

/-- `init` gets the pid of the child, and the status 44. -/
theorem reaped_exactly_once_child : childExited.sched.waitEnd .resume = some (.reaped 2 44) ∧
    (childExited.after .resume).reaped = [(4, 2)] ∧ 4 ∉ (childExited.after .resume).sched.allList := by
  have h1 := reach_after (.threadExit 2) (h := first) (.refl ⟨boot_start, rfl, fun _ => rfl, rfl, rfl⟩) boot_calls_exit
    (by decide +kernel)
  have h2 := reach_after (.sysFork (forkPages 4)) h1
    (calls_sysFork rfl (by decide +kernel) (by decide +kernel) (by decide +kernel)) (by decide +kernel)
  have h3 := reach_after .sysWait h2 (calls_plain rfl (by decide +kernel) (.inl rfl)) (by decide +kernel)
  have h4 := reach_after .schedule h3 ⟨⟨trivial, rfl, fun _ => trivial⟩, trivial, trivial⟩ (by decide +kernel)
  have h5 := reach_after (.sysExit 300) h4
    (calls_plain rfl (by decide +kernel) (.inr (.inr (.inl ⟨_, rfl⟩)))) (by decide +kernel)
  have hout : childExited.sched.waitEnd .resume = some (.reaped 2 44) := by rfl
  have hc : childExited.sched.Calls .resume := ⟨⟨trivial, by decide +kernel⟩, trivial, trivial⟩
  obtain ⟨t, ht, hpid, -, -, hg, -, hr⟩ :=
    ((reaped_exactly_once h5).2.2.2 .resume _ hc (run_after (by decide +kernel))).1 2 44 hout
  have hmem : t ∈ [1, 3, 4] := ht
  obtain rfl : t = 4 := by
    simp only [List.mem_cons, List.not_mem_nil, or_false] at hmem
    rcases hmem with rfl | rfl | rfl
    · exact absurd hpid (by decide +kernel)
    · exact absurd hpid (by decide +kernel)
    · rfl
  exact ⟨hout, hr, hg⟩

end OperateSystem
