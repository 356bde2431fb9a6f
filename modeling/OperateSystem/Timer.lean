import OperateSystem.ForkSound

/-!
# The timer

`device/timer.c` over the scheduler. A task keeps the processor for its `ticks` interrupts and one
more, and then goes to the end of the queue with as many as its priority.
-/

namespace OperateSystem

open Function

structure TaskTime where
  priority : UInt8
  ticks : UInt8
  elapsedTicks : UInt32

/-- `ticks` counts all interrupts, `task` has what the PCBs keep. -/
structure Timed where
  sched : Sched
  task : Nat → TaskTime
  ticks : UInt32

namespace Timed

def setTask (s : Timed) (t : Nat) (x : TaskTime) : Timed := { s with task := update s.task t x }

def schedule (s : Timed) : Exec Timed := do
  let cur := s.sched.cur
  let sched ← s.sched.schedule
  if s.sched.status cur = .running then
    return { s.setTask cur { s.task cur with ticks := (s.task cur).priority } with sched }
  else return { s with sched }

/-- `stack_magic` is not checked: the stacks are left out. -/
def intrTimerHandler (s : Timed) : Exec Timed :=
  let cur := s.sched.cur
  let s : Timed := { s.setTask cur { s.task cur with elapsedTicks := (s.task cur).elapsedTicks + 1 } with ticks := s.ticks + 1 }
  if (s.task cur).ticks = 0 then s.schedule
  else return s.setTask cur { s.task cur with ticks := (s.task cur).ticks - 1 }

def interrupts : Nat → Timed → Exec Timed
  | 0, s => return s
  | n + 1, s => do
    let s ← s.intrTimerHandler
    interrupts n s

def queue (s : Timed) : List Nat := s.sched.cur :: s.sched.readyList

def slice (s : Timed) (t : Nat) : Nat := (s.task t).ticks.toNat + 1

def span (s : Timed) (l : List Nat) : Nat := (l.map s.slice).sum

/-- The interrupts of one round and `n` more, in which all ticks are full. -/
def rounds (s : Timed) (n : Nat) : Nat := s.span s.queue + n * (s.queue.map fun t => (s.task t).priority.toNat + 1).sum

/-- The times of a task after its turn and `n` full ones. -/
def served (n : Nat) (x : TaskTime) : TaskTime :=
  { x with
    ticks := x.priority
    elapsedTicks := x.elapsedTicks + .ofNat (x.ticks.toNat + 1 + n * (x.priority.toNat + 1)) }

variable {s : Timed}

theorem interrupts_add (m : Nat) : ∀ (n : Nat) (s : Timed), interrupts (n + m) s = interrupts n s >>= interrupts m := by
  intro n
  induction n with
  | zero => simp [interrupts]
  | succ n ih =>
    intro s
    rw [Nat.succ_add]
    simp only [interrupts, ih, bind_assoc]

theorem queue_nodup (h : s.sched.Inv) : s.queue.Nodup := by
  refine List.nodup_cons.mpr ⟨h.not_ready ?_, h.nodup⟩
  simp [h.status_cur]

theorem within_slice : ∀ (m : Nat) (s : Timed), m ≤ (s.task s.sched.cur).ticks.toNat → ∃ s' y, interrupts m s = .ok s' ∧
    s'.sched = s.sched ∧ s'.task = update s.task s.sched.cur y ∧ y.priority = (s.task s.sched.cur).priority ∧
    y.ticks.toNat + m = (s.task s.sched.cur).ticks.toNat ∧
    y.elapsedTicks = (s.task s.sched.cur).elapsedTicks + .ofNat m := by
  intro m
  induction m with
  | zero =>
    intro s _
    exact ⟨s, s.task s.sched.cur, rfl, rfl, by simp, rfl, rfl, by simp⟩
  | succ m ih =>
    intro s hm
    have hne : (s.task s.sched.cur).ticks ≠ 0 := fun e => by simp [e] at hm
    have hsub : ((s.task s.sched.cur).ticks - 1).toNat = (s.task s.sched.cur).ticks.toNat - 1 :=
      UInt8.toNat_sub_of_le _ _ (UInt8.le_iff_toNat_le.mpr (show 1 ≤ _ by omega))
    obtain ⟨s1, hone, hs1, ht1⟩ : ∃ s1, s.intrTimerHandler = .ok s1 ∧ s1.sched = s.sched ∧
        s1.task = update s.task s.sched.cur { s.task s.sched.cur with
          ticks := (s.task s.sched.cur).ticks - 1, elapsedTicks := (s.task s.sched.cur).elapsedTicks + 1 } := by
      simp [intrTimerHandler, setTask, hne]
    obtain ⟨s', y, hr, hs, ht, hp, hti, he⟩ := ih s1 (by simp [hs1, ht1, hsub]; omega)
    simp only [hs1, ht1, update_self, update_idem, hsub] at hs ht hp hti he
    refine ⟨s', y, by rw [interrupts, hone, ok_bind, hr], hs, ht, hp, by omega, ?_⟩
    rw [he, UInt32.ofNat_add, UInt32.add_assoc, UInt32.add_comm 1]
    rfl

theorem turn (h : s.sched.Inv) : ∃ s', interrupts (s.slice s.sched.cur) s = .ok s' ∧ s'.sched.Inv ∧
    s'.queue = s.sched.readyList ++ [s.sched.cur] ∧ s'.task = update s.task s.sched.cur (served 0 (s.task s.sched.cur)) := by
  obtain ⟨s1, y, hr, hs1, ht1, hp, hti, he⟩ := within_slice _ s (Nat.le_refl _)
  obtain ⟨sched, hs, hi, -⟩ := h.schedule
  have hq := (Sched.schedule_turn hs (.inl h.status_cur)).1
  rw [if_pos h.status_cur] at hq
  have hz : y.ticks = 0 := UInt8.toNat_inj.mp (by simpa using hti)
  refine ⟨⟨sched, update s.task s.sched.cur (served 0 (s.task s.sched.cur)), s1.ticks + 1⟩, ?_, hi, hq, rfl⟩
  rw [slice, interrupts_add, hr, ok_bind]
  simp [interrupts, intrTimerHandler, setTask, schedule, hs1, ht1, hz, hs, h.status_cur, served, hp, he, UInt32.add_assoc]

/-! ## Round robin -/

theorem turns : ∀ (front back : List Nat) (s : Timed), s.sched.Inv → s.queue = front ++ back →
    ∃ s', interrupts (s.span front) s = .ok s' ∧ s'.sched.Inv ∧ s'.queue = back ++ front ∧
      ∀ t, s'.task t = if t ∈ front then served 0 (s.task t) else s.task t := by
  intro front
  induction front with
  | nil =>
    intro back s hi hq
    exact ⟨s, rfl, hi, by simpa using hq, by simp⟩
  | cons t front ih =>
    intro back s hi hq
    have hnd := queue_nodup hi
    rw [hq, List.cons_append, List.nodup_cons] at hnd
    have hnt : t ∉ front := fun ht => hnd.1 (by simp [ht])
    obtain ⟨hcur, hre⟩ := List.cons.inj hq
    obtain ⟨s1, hr1, hi1, hq1, ht1⟩ := turn hi
    rw [hcur] at hr1 hq1 ht1
    obtain ⟨s', hr, hi', hq', ht'⟩ := ih (back ++ [t]) s1 hi1 (by rw [hq1, hre]; simp)
    have hsp : s1.span front = s.span front := by
      unfold span
      congr 1
      apply List.map_congr_left
      intro u hu
      simp [slice, ht1, show u ≠ t from fun e => hnt (e ▸ hu)]
    rw [hsp] at hr
    refine ⟨s', ?_, hi', by rw [hq']; simp, fun u => ?_⟩
    · rw [show s.span (t :: front) = s.slice t + s.span front by simp [span], interrupts_add, hr1, ok_bind, hr]
    · rw [ht', ht1]
      by_cases hut : u = t
      · subst hut
        simp [hnt]
      · simp [hut]

open Sched

def bootTimed : Timed := ⟨boot, fun _ => ⟨31, 31, 0⟩, 0⟩

/-- **Turns.** While no task gives the processor up, the one at place `k` of the queue gets it when those before it have used
up their ticks, and keeps it for its own. -/
theorem round_robin_turn (hs : Reach CallStep Start s.sched) {k t m : Nat} (hk : s.queue[k]? = some t)
    (hm : m ≤ (s.task t).ticks.toNat) :
    ∃ s', interrupts (s.span (s.queue.take k) + m) s = .ok s' ∧ s'.sched.cur = t := by
  have hi := (reach_inv hs).1
  obtain ⟨hlt, ht⟩ := List.getElem?_eq_some_iff.mp hk
  have hsplit := List.take_append_drop k s.queue
  obtain ⟨s1, hr, -, hq, htask⟩ := turns _ _ s hi hsplit.symm
  rw [List.drop_eq_getElem_cons hlt, ht] at hq hsplit
  have hcur : s1.sched.cur = t := (List.cons.inj hq).1
  have hnt : t ∉ s.queue.take k := by
    have hnd := queue_nodup hi
    rw [← hsplit, List.nodup_append] at hnd
    exact fun hin => hnd.2.2 t hin t (by simp) rfl
  obtain ⟨s', -, hr', hs', -⟩ := within_slice m s1 (by rw [hcur, htask, if_neg hnt]; exact hm)
  exact ⟨s', by rw [interrupts_add, hr, ok_bind, hr'], by rw [hs', hcur]⟩

theorem round_robin_turn_boot : ∃ s', interrupts 33 bootTimed = .ok s' ∧ s'.sched.cur = 1 :=
  round_robin_turn (s := bootTimed) (.refl boot_start) (k := 1) (m := 1) rfl (by decide)

/-- **Shares.** After one round and `n` more the queue is the same, and each of its tasks has been charged its ticks and then `n`
times its priority, each with one more. -/
theorem round_robin_shares (hs : Reach CallStep Start s.sched) (n : Nat) :
    ∃ s', interrupts (s.rounds n) s = .ok s' ∧ s'.sched.Inv ∧ s'.queue = s.queue ∧
      ∀ t, s'.task t = if t ∈ s.queue then served n (s.task t) else s.task t := by
  have hi := (reach_inv hs).1
  induction n with
  | zero => simpa [rounds] using turns s.queue [] s hi (by simp)
  | succ n ih =>
    obtain ⟨s1, hr1, hi1, hq1, ht1⟩ := ih
    obtain ⟨s', hr, hi', hq, ht⟩ := turns s1.queue [] s1 hi1 (by simp)
    have hsp : s.rounds n + s1.span s1.queue = s.rounds (n + 1) := by
      have hm : s1.queue.map s1.slice = s.queue.map fun t => (s.task t).priority.toNat + 1 := by
        rw [hq1]
        apply List.map_congr_left
        intro u hu
        simp [slice, ht1, hu, served]
      rw [span, hm, rounds, rounds, Nat.succ_mul, Nat.add_assoc]
    refine ⟨s', ?_, hi', by rw [hq, hq1]; simp, fun u => ?_⟩
    · rw [← hsp, interrupts_add, hr1, ok_bind, hr]
    · rw [ht, ht1, hq1]
      by_cases hu : u ∈ s.queue
      · simp [hu, served, UInt32.ofNat_add, UInt32.add_assoc, Nat.succ_mul, ← Nat.add_assoc]
      · simp [hu]

theorem round_robin_shares_boot : ∃ s', interrupts 192 bootTimed = .ok s' ∧ s'.queue = [2, 1, 3] ∧
    (s'.task 1).elapsedTicks = 64 := by
  obtain ⟨s', hr, -, hq, ht⟩ := round_robin_shares (s := bootTimed) (.refl boot_start) 1
  exact ⟨s', hr, hq, by rw [ht]; decide⟩

end Timed

end OperateSystem
