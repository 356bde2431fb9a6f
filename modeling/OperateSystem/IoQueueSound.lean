import OperateSystem.IoQueue
import OperateSystem.Ring
import OperateSystem.Mem

/-!
# The ring queue is a queue

Who holds the lock is asleep in `ioq_wait` or has just been woken from there, so
a thread that gets the lock finds both waiter slots free. Under this invariant no
assertion fails, and each part of a call has one result. The bytes between tail
and head are those put and not taken.
-/

namespace OperateSystem

open Function

/-! ## Positions -/

def InRing (p : Int32) : Prop := 0 ≤ p.toInt ∧ p.toInt < 2048

theorem nextPos_toInt {p : Int32} (h : InRing p) : (nextPos p).toInt = ((p.toInt.toNat + 1) % 2048 : Nat) := by
  obtain ⟨h0, h1⟩ := h
  have hadd : (p + 1).toInt = p.toInt + 1 := by
    rw [Int32.toInt_add]
    exact Int.bmod_eq_of_le (by show -_ ≤ p.toInt + 1; omega) (by show p.toInt + 1 < _; omega)
  unfold nextPos
  rw [Int32.toInt_mod, hadd, show bufsize.toInt = 2048 from rfl, Int.tmod_eq_emod_of_nonneg (by omega)]
  omega

theorem nextPos_inRing {p : Int32} (h : InRing p) : InRing (nextPos p) := by
  unfold InRing
  rw [nextPos_toInt h]
  omega

theorem nextPos_toNat {p : Int32} (h : InRing p) : (nextPos p).toInt.toNat = (p.toInt.toNat + 1) % 2048 := by
  rw [nextPos_toInt h, Int.toNat_natCast]

theorem inRing_bounds {p : Int32} (h : InRing p) : 0 ≤ p ∧ p < bufsize := by
  rw [Int32.le_iff_toInt_le, Int32.lt_iff_toInt_lt]
  exact h

theorem inRing_eq {p q : Int32} (hp : InRing p) (hq : InRing q) : p = q ↔ p.toInt.toNat = q.toInt.toNat := by
  rw [← Int32.toInt_inj]
  unfold InRing at hp hq
  omega

namespace IoQueue

variable {τ : Type} {q : IoQueue τ}

def InRange (q : IoQueue τ) : Prop := InRing q.head ∧ InRing q.tail

def items (q : IoQueue τ) : List UInt8 := Ring.items 2048 q.buf q.head.toInt.toNat q.tail.toInt.toNat

theorem InRange.lt (h : q.InRange) : q.head.toInt.toNat < 2048 ∧ q.tail.toInt.toNat < 2048 := by
  obtain ⟨⟨-, hh⟩, -, ht⟩ := h
  omega

theorem InRange.ioqEmpty_iff (h : q.InRange) : q.ioqEmpty = true ↔ q.items.length = 0 := by
  unfold ioqEmpty items
  rw [Ring.length_items, Ring.length_eq_zero h.lt.2, decide_eq_true_iff, inRing_eq h.1 h.2]

theorem InRange.ioqFull_iff (h : q.InRange) : q.ioqFull = true ↔ q.items.length = 2047 := by
  unfold ioqFull items
  rw [Ring.length_items, Ring.length_full h.lt.1 h.lt.2, decide_eq_true_iff, inRing_eq (nextPos_inRing h.1) h.2, nextPos_toNat h.1]

theorem InRange.ioqLength_eq (h : q.InRange) : q.ioqLength.toNat = q.items.length := by
  obtain ⟨⟨hh0, hh1⟩, ht0, ht1⟩ := h
  unfold items
  rw [Ring.length_items]
  unfold ioqLength Ring.length
  split
  · rename_i hle
    have hle := Int32.le_iff_toInt_le.mp hle
    have hsub := toInt_sub_small (p := q.head) (q := q.tail) (by omega) (by omega)
    rw [toNat_toUInt32 (by omega), hsub, if_pos (by omega)]
    omega
  · rename_i hlt
    have hlt : ¬ q.tail.toInt ≤ q.head.toInt := fun e => hlt (Int32.le_iff_toInt_le.mpr e)
    have hsub := toInt_sub_small (p := q.tail) (q := q.head) (by omega) (by omega)
    have hs : bufsize.toInt = 2048 := rfl
    have hwr := toInt_sub_small (p := bufsize) (q := q.tail - q.head) (by omega) (by omega)
    rw [toNat_toUInt32 (by omega), hwr, hsub, if_neg (by omega)]
    omega

end IoQueue

/-! ## The lock -/

namespace IoState

variable {τ : Type} {s s' : IoState τ} {t u : τ} {op : IoOp}
variable {w : Option τ} {byte : UInt8}

structure LockInv (s : IoState τ) : Prop where
  holds : ∀ t, s.holder = some t ↔ s.pc t = .asleep ∨ s.pc t = .awake
  value : s.value = if s.holder = none then 1 else 0
  count : s.holderRepeatNr = if s.holder = none then 0 else 1
  waits : ∀ t, t ∈ s.waiters ↔ s.pc t = .blocked
  nodup : s.waiters.Nodup
  consumer : ∀ t, s.consumer = some t → s.pc t = .asleep
  producer : ∀ t, s.producer = some t → s.pc t = .asleep
  one : s.consumer = none ∨ s.producer = none

theorem LockInv.free (h : s.LockInv) (hf : s.holder = none) : s.consumer = none ∧ s.producer = none := by
  constructor
  · refine Option.eq_none_iff_forall_not_mem.mpr fun t ht => ?_
    have := (h.holds t).mpr (.inl (h.consumer t ht))
    rw [hf] at this
    cases this
  · refine Option.eq_none_iff_forall_not_mem.mpr fun t ht => ?_
    have := (h.holds t).mpr (.inl (h.producer t ht))
    rw [hf] at this
    cases this

theorem LockInv.value_zero (h : s.LockInv) : s.value = 0 ↔ s.holder ≠ none := by
  rw [h.value]
  split
  · rename_i hn
    exact iff_of_false (by decide) fun hne => hne hn
  · rename_i hn
    exact iff_of_true rfl hn

theorem LockInv.not_holder (h : s.LockInv) (hpc : s.pc t = .test ∨ s.pc t = .woken) : s.holder ≠ some t := fun e => by
  rcases (h.holds t).mp e with h' | h' <;> rcases hpc with e' | e' <;> rw [e'] at h' <;> cases h'

theorem LockInv.not_waiting (h : s.LockInv) (hpc : s.pc t = .test ∨ s.pc t = .woken) : t ∉ s.waiters := fun hm => by
  have := (h.waits t).mp hm
  rcases hpc with e | e <;> rw [e] at this <;> cases this

variable [DecidableEq τ]

def enqueue (s : IoState τ) (t : τ) : IoState τ := { s with waiters := s.waiters ++ [t] }.goto t .blocked

def fallAsleep (s : IoState τ) (t : τ) (op : IoOp) : IoState τ :=
  { s with
    value := 0, holder := some t, holderRepeatNr := 1
    consumer := if op = IoOp.ioqGetchar then some t else s.consumer
    producer := if op = IoOp.ioqGetchar then s.producer else some t }.goto t .asleep

def wakeFirst (s : IoState τ) : IoState τ :=
  match s.waiters with
  | [] => s
  | w :: ws => { s with waiters := ws }.goto w .woken

def released (s : IoState τ) (t : τ) : IoState τ := { s.wakeFirst with value := 1, holder := none, holderRepeatNr := 0 }.goto t .test

def wake (s : IoState τ) (w : Option τ) : IoState τ :=
  match w with
  | none => s
  | some w => s.goto w .awake

def took (s : IoState τ) (t : τ) : IoState τ :=
  ({ s with
    tail := nextPos s.tail, taken := s.taken ++ [s.buf s.tail.toInt.toNat], producer := none }.finish t).wake s.producer

def put (s : IoState τ) (t : τ) (byte : UInt8) : IoState τ :=
  ({ s with
    buf := Function.update s.buf s.head.toInt.toNat byte, head := nextPos s.head, stored := s.stored ++ [byte]
    consumer := none }.finish t).wake s.consumer

theorem LockInv.downAndWait_eq (h : s.LockInv) (hpc : s.pc t = .test ∨ s.pc t = .woken) :
    s.downAndWait t op = .ok (if s.value = 0 then s.enqueue t else s.fallAsleep t op) := by
  have hwa := h.not_waiting hpc
  unfold downAndWait semaDown
  by_cases hv : s.value = 0
  · rw [semaDown_block hv hwa, if_pos hv]
    rfl
  · have hf : s.holder = none := by
      by_contra hne
      exact hv (h.value_zero.mpr hne)
    have hone : s.value = 1 := by rw [h.value, if_pos hf]
    have hcnt : s.holderRepeatNr = 0 := by rw [h.count, if_pos hf]
    obtain ⟨hco, hpr⟩ := h.free hf
    rw [semaDown_pass hone, if_neg hv]
    simp only [ok_bind, pure_ok, if_true, assert_of _ hcnt]
    cases op with
    | ioqGetchar => simp only [ioqWait, assert_of _ hco, ok_bind, pure_ok, fallAsleep, if_true]
    | ioqPutchar byte => simp only [ioqWait, assert_of _ hpr, ok_bind, pure_ok, fallAsleep, reduceCtorEq, if_false]

theorem LockInv.lockRelease_eq (h : s.LockInv) (hpc : s.pc t = .awake) :
    ∃ s1, s.lockRelease t = .ok s1 ∧ s1.goto t .test = s.released t := by
  have hhe := (h.holds t).mpr (.inr hpc)
  have hv : s.value = 0 := by rw [h.value, hhe]; rfl
  have hcnt : s.holderRepeatNr = 1 := by rw [h.count, hhe]; rfl
  have hw : OperateSystem.wakeFirst s.waiters { s with holder := none, holderRepeatNr := 0 } (fun w waiters =>
      ({ s with holder := none, holderRepeatNr := 0, waiters } : IoState τ).threadUnblock w) =
      .ok { s.wakeFirst with holder := none, holderRepeatNr := 0 } := by
    unfold OperateSystem.wakeFirst wakeFirst
    cases hw : s.waiters with
    | nil => simp only [hw]
    | cons w ws =>
      have hbl := (h.waits w).mp (hw ▸ .head _)
      simp only [threadUnblock, hbl, assert, true_or, if_true, ok_bind, pure_ok, goto]
  refine ⟨_, ?_, rfl⟩
  unfold lockRelease semaUp
  rw [assert_of _ hhe, ok_bind, hcnt, if_neg (by decide), assert_of _ rfl, ok_bind]
  exact semaUp_zero hv hw

theorem LockInv.unblock_eq {w : τ} (hpc : s.pc w = .asleep) : s.threadUnblock w = .ok (s.goto w .awake) := by
  unfold threadUnblock
  rw [assert_of _ (.inr hpc), ok_bind, hpc]
  rfl

theorem LockInv.takeByte_eq (h : s.LockInv) (htail : InRing s.tail) (hpc : s.pc t = .test) : s.takeByte t = .ok (s.took t) := by
  unfold takeByte took
  rw [inBounds_of (inRing_bounds htail), ok_bind]
  dsimp only [finish, goto]
  cases hp : s.producer with
  | none => rfl
  | some w =>
    have ha := h.producer w hp
    have hne : w ≠ t := fun e => by rw [e, hpc] at ha; cases ha
    dsimp only
    rw [LockInv.unblock_eq (by show update s.pc t .test w = _; rwa [update_of_ne hne])]
    rfl

theorem LockInv.putByte_eq (h : s.LockInv) (hhead : InRing s.head) (hpc : s.pc t = .test) :
    s.putByte t byte = .ok (s.put t byte) := by
  unfold putByte put
  rw [inBounds_of (inRing_bounds hhead), ok_bind]
  dsimp only [finish, goto]
  cases hp : s.consumer with
  | none => rfl
  | some w =>
    have ha := h.consumer w hp
    have hne : w ≠ t := fun e => by rw [e, hpc] at ha; cases ha
    dsimp only
    rw [LockInv.unblock_eq (by show update s.pc t .test w = _; rwa [update_of_ne hne])]
    rfl

/-! ## The invariant is kept -/

@[simp] theorem goto_pc {pc : IoPc} : (s.goto t pc).pc u = if u = t then pc else s.pc u := by
  simp [goto, update_apply]

theorem LockInv.enqueue (h : s.LockInv) (hpc : s.pc t = .test ∨ s.pc t = .woken) : (s.enqueue t).LockInv := by
  have hne := h.not_holder hpc
  have hwa := h.not_waiting hpc
  refine ⟨fun u => ?_, h.value, h.count, fun u => ?_, ?_, fun u hu => ?_, fun u hu => ?_, h.one⟩
  · show s.holder = some u ↔ _
    by_cases hut : u = t
    · simp [IoState.enqueue, hut, hne]
    · simp [IoState.enqueue, hut, h.holds u]
  · by_cases hut : u = t
    · simp [IoState.enqueue, goto, hut]
    · simp [IoState.enqueue, goto, hut, h.waits u, update_of_ne]
  · show (s.waiters ++ [t]).Nodup
    rw [List.nodup_append_comm]
    exact List.nodup_cons.mpr ⟨hwa, h.nodup⟩
  · have ha := h.consumer u hu
    have hut : u ≠ t := fun e => hne (e ▸ (h.holds u).mpr (.inl ha))
    simpa [IoState.enqueue, hut] using ha
  · have ha := h.producer u hu
    have hut : u ≠ t := fun e => hne (e ▸ (h.holds u).mpr (.inl ha))
    simpa [IoState.enqueue, hut] using ha

theorem LockInv.fallAsleep (h : s.LockInv) (hpc : s.pc t = .test ∨ s.pc t = .woken) (hf : s.holder = none) :
    (s.fallAsleep t op).LockInv := by
  obtain ⟨hco, hpr⟩ := h.free hf
  have hn : ∀ u, ¬ (s.pc u = .asleep ∨ s.pc u = .awake) := fun u hu => by
    have := (h.holds u).mpr hu
    rw [hf] at this
    cases this
  refine ⟨fun u => ?_, rfl, rfl, fun u => ?_, h.nodup, fun u hu => ?_, fun u hu => ?_, ?_⟩
  · show some t = some u ↔ _
    by_cases hut : u = t
    · simp [IoState.fallAsleep, hut]
    · have := hn u
      simpa [IoState.fallAsleep, hut, Ne.symm hut] using this
  · show u ∈ s.waiters ↔ _
    by_cases hut : u = t
    · have : s.pc t ≠ .blocked := by rcases hpc with e | e <;> rw [e] <;> decide
      simpa [IoState.fallAsleep, hut, h.waits t] using this
    · simp [IoState.fallAsleep, hut, h.waits u]
  · have hu : (if op = .ioqGetchar then some t else s.consumer) = some u := hu
    rw [hco] at hu
    split at hu
    · cases hu
      simp [IoState.fallAsleep]
    · cases hu
  · have hu : (if op = .ioqGetchar then s.producer else some t) = some u := hu
    rw [hpr] at hu
    split at hu
    · cases hu
    · cases hu
      simp [IoState.fallAsleep]
  · show (if op = .ioqGetchar then some t else s.consumer) = none ∨ (if op = .ioqGetchar then s.producer else some t) = none
    rw [hco, hpr]
    split
    · exact .inr rfl
    · exact .inl rfl

theorem wakeFirst_cases (s : IoState τ) :
    (s.waiters = [] ∧ s.wakeFirst = s) ∨ ∃ w ws, s.waiters = w :: ws ∧ s.wakeFirst = { s with waiters := ws }.goto w .woken := by
  unfold wakeFirst
  cases hw : s.waiters with
  | nil => exact .inl ⟨rfl, rfl⟩
  | cons w ws => exact .inr ⟨w, ws, rfl, rfl⟩

theorem LockInv.released (h : s.LockInv) (hpc : s.pc t = .awake) : (s.released t).LockInv := by
  have hhe := (h.holds t).mpr (.inr hpc)
  have ho : ∀ u, u ≠ t → ¬ (s.pc u = .asleep ∨ s.pc u = .awake) := fun u hut hu => by
    have := (h.holds u).mpr hu
    rw [hhe] at this
    exact hut (Option.some.inj this).symm
  have hs : ∀ u, s.pc u ≠ .asleep := fun u hu => by
    by_cases hut : u = t
    · rw [hut, hpc] at hu
      cases hu
    · exact ho u hut (.inl hu)
  have hco := Option.eq_none_iff_forall_not_mem.mpr fun u hu => hs u (h.consumer u hu)
  have hpr := Option.eq_none_iff_forall_not_mem.mpr fun u hu => hs u (h.producer u hu)
  unfold IoState.released
  obtain ⟨hw, e⟩ | ⟨w, ws, hw, e⟩ := s.wakeFirst_cases <;> rw [e]
  · refine ⟨fun u => ?_, rfl, rfl, fun u => ?_, h.nodup, fun u hu => absurd (hco.symm.trans hu) (by simp),
      fun u hu => absurd (hpr.symm.trans hu) (by simp), .inl hco⟩
    · show none = some u ↔ _
      by_cases hut : u = t
      · simp [hut]
      · simpa [hut] using ho u hut
    · show u ∈ s.waiters ↔ _
      by_cases hut : u = t
      · simp [hut, h.waits t, hpc]
      · simp [hut, h.waits u]
  · have hnd := List.nodup_cons.mp (hw ▸ h.nodup)
    have hwt : w ≠ t := fun e => by
      have := (h.waits w).mp (hw ▸ .head _)
      rw [e, hpc] at this
      cases this
    refine ⟨fun u => ?_, rfl, rfl, fun u => ?_, hnd.2, fun u hu => absurd (hco.symm.trans hu) (by simp),
      fun u hu => absurd (hpr.symm.trans hu) (by simp), .inl hco⟩
    · show none = some u ↔ _
      by_cases hut : u = t
      · simp [hut]
      · by_cases huw : u = w
        · simp [huw, hwt, goto]
        · simpa [hut, huw, goto, update_apply] using ho u hut
    · have hmem := h.waits u
      rw [hw, List.mem_cons] at hmem
      by_cases hut : u = t
      · have : t ∉ ws := fun hm => by
          have := (h.waits t).mp (hw ▸ .tail _ hm)
          rw [hpc] at this
          cases this
        simp [hut, goto, this]
      · by_cases huw : u = w
        · simp [huw, hwt, goto, hnd.1]
        · simpa [hut, huw, goto, update_apply] using hmem

theorem LockInv.wake (h : s.LockInv) (hw : ∀ u, w = some u → s.pc u = .asleep)
    (hl : s'.holder = s.holder ∧
    s'.value = s.value ∧ s'.holderRepeatNr = s.holderRepeatNr ∧ s'.waiters = s.waiters)
    (hpc : ∀ u, s'.pc u = if w = some u then .awake else s.pc u)
    (hco : s'.consumer = none ∨ (s'.consumer = s.consumer ∧ w = none))
    (hpr : s'.producer = none ∨ (s'.producer = s.producer ∧ w = none)) : s'.LockInv := by
  obtain ⟨hh, hv, hr, hws⟩ := hl
  refine ⟨fun u => ?_, by rw [hv, hh]; exact h.value, by rw [hr, hh]; exact h.count, fun u => ?_, by rw [hws]; exact h.nodup,
    fun u hu => ?_, fun u hu => ?_, ?_⟩
  · rw [hh, h.holds u, hpc u]
    split
    · rename_i e
      simp [hw u e]
    · rfl
  · rw [hws, h.waits u, hpc u]
    split
    · rename_i e
      simp [hw u e]
    · rfl
  · rcases hco with e | ⟨e, hn⟩
    · rw [e] at hu
      cases hu
    · rw [hpc u, hn, if_neg (by simp)]
      exact h.consumer u (e ▸ hu)
  · rcases hpr with e | ⟨e, hn⟩
    · rw [e] at hu
      cases hu
    · rw [hpc u, hn, if_neg (by simp)]
      exact h.producer u (e ▸ hu)
  · rcases hco with e | ⟨e, -⟩
    · exact .inl e
    · rcases hpr with e' | ⟨e', -⟩
      · exact .inr e'
      · rw [e, e']
        exact h.one

@[simp] theorem wake_pc : (s.wake w).pc u = if w = some u then .awake else s.pc u := by
  cases w with
  | none => rfl
  | some w => simp [IoState.wake, eq_comm]

@[simp] theorem wake_queue : (s.wake w).toIoQueue = s.toIoQueue := by cases w <;> rfl

@[simp] theorem wake_stored : (s.wake w).stored = s.stored := by cases w <;> rfl

@[simp] theorem wake_taken : (s.wake w).taken = s.taken := by cases w <;> rfl

theorem finish_pc (hpc : s.pc t = .test) : (s.finish t).pc u = s.pc u := by
  unfold finish
  rw [goto_pc]
  split
  · rename_i e
    rw [e, hpc]
  · rfl

theorem LockInv.took (h : s.LockInv) (hpc : s.pc t = .test) : (s.took t).LockInv := by
  refine h.wake h.producer (by simp [IoState.took, finish, goto]) (fun u => ?_) ?_ (.inl (by simp [IoState.took, finish, goto]))
  · rw [IoState.took, wake_pc, finish_pc]
    exact hpc
  · rcases h.one with e | e
    · exact .inl (by simp [IoState.took, finish, goto, e])
    · exact .inr ⟨by simp [IoState.took, finish, goto], e⟩

theorem LockInv.put (h : s.LockInv) (hpc : s.pc t = .test) : (s.put t byte).LockInv := by
  refine h.wake h.consumer (by simp [IoState.put, finish, goto]) (fun u => ?_) (.inl (by simp [IoState.put, finish, goto])) ?_
  · rw [IoState.put, wake_pc, finish_pc]
    exact hpc
  · rcases h.one with e | e
    · exact .inr ⟨by simp [IoState.put, finish, goto], e⟩
    · exact .inl (by simp [IoState.put, finish, goto, e])

/-! ## The bytes -/

structure Fifo (s : IoState τ) : Prop where
  range : s.InRange
  bytes : s.stored = s.taken ++ s.items

omit [DecidableEq τ] in
theorem Fifo.congr (h : s.Fifo) (hring : s'.buf = s.buf ∧ s'.head = s.head ∧ s'.tail = s.tail)
    (hbytes : s'.stored = s.stored ∧ s'.taken = s.taken) : s'.Fifo := by
  obtain ⟨hb, hh, ht⟩ := hring
  refine ⟨?_, ?_⟩
  · unfold IoQueue.InRange
    rw [hh, ht]
    exact h.range
  · unfold IoQueue.items
    rw [hb, hh, ht, hbytes.1, hbytes.2]
    exact h.bytes

theorem Fifo.took (h : s.Fifo) (hne : s.ioqEmpty = false) : (s.took t).Fifo := by
  have hlt := h.range.lt
  have hne : s.head.toInt.toNat ≠ s.tail.toInt.toNat := fun e => by
    rw [show s.ioqEmpty = true from decide_eq_true ((inRing_eq h.range.1 h.range.2).mpr e)] at hne
    cases hne
  have hi : s.items = s.buf s.tail.toInt.toNat :: (s.took t).items := by
    simp only [IoState.took, wake_queue, IoQueue.items, finish, goto]
    rw [Ring.items_get hlt.1 hlt.2 hne, nextPos_toNat h.range.2]
  refine ⟨?_, ?_⟩
  · simp only [IoState.took, wake_queue]
    exact ⟨h.range.1, nextPos_inRing h.range.2⟩
  · have hb := h.bytes
    rw [hi] at hb
    simpa [IoState.took, finish, goto] using hb

theorem Fifo.put (h : s.Fifo) (hne : s.ioqFull = false) : (s.put t byte).Fifo := by
  have hlt := h.range.lt
  have hne : (s.head.toInt.toNat + 1) % 2048 ≠ s.tail.toInt.toNat := fun e => by
    rw [← nextPos_toNat h.range.1] at e
    rw [show s.ioqFull = true from decide_eq_true ((inRing_eq (nextPos_inRing h.range.1) h.range.2).mpr e)] at hne
    cases hne
  have hi : (s.put t byte).items = s.items ++ [byte] := by
    simp only [IoState.put, wake_queue, IoQueue.items, finish, goto]
    rw [nextPos_toNat h.range.1, Ring.items_put hlt.1 hlt.2 hne]
  refine ⟨?_, ?_⟩
  · simp only [IoState.put, wake_queue]
    exact ⟨nextPos_inRing h.range.1, h.range.2⟩
  · have hst : (s.put t byte).stored = s.stored ++ [byte] := by simp [IoState.put, finish, goto]
    have htk : (s.put t byte).taken = s.taken := by simp [IoState.put, finish, goto]
    rw [hst, htk, hi, h.bytes, List.append_assoc]

/-! ## What a running thread does -/

structure Inv (s : IoState τ) : Prop where
  lock : s.LockInv
  fifo : s.Fifo

def blockOn (s : IoState τ) (t : τ) (op : IoOp) : IoState τ := if s.value = 0 then s.enqueue t else s.fallAsleep t op

def looped (s : IoState τ) (t : τ) : IoOp → IoState τ
  | .ioqGetchar => if s.ioqEmpty then s.blockOn t .ioqGetchar else s.took t
  | .ioqPutchar byte => if s.ioqFull then s.blockOn t (.ioqPutchar byte) else s.put t byte

theorem Inv.blockOn (h : s.Inv) (hpc : s.pc t = .test ∨ s.pc t = .woken) : (s.blockOn t op).Inv := by
  unfold IoState.blockOn
  split
  · exact ⟨h.lock.enqueue hpc, h.fifo.congr ⟨rfl, rfl, rfl⟩ ⟨rfl, rfl⟩⟩
  · rename_i hv
    have hf : s.holder = none := by
      by_contra hne
      exact hv (h.lock.value_zero.mpr hne)
    exact ⟨h.lock.fallAsleep hpc hf, h.fifo.congr ⟨rfl, rfl, rfl⟩ ⟨rfl, rfl⟩⟩

theorem Inv.looped (h : s.Inv) (hpc : s.pc t = .test) : (s.looped t op).Inv := by
  cases op with
  | ioqGetchar =>
    show (if s.ioqEmpty then s.blockOn t .ioqGetchar else s.took t).Inv
    split
    · exact h.blockOn (.inl hpc)
    · rename_i hne
      exact ⟨h.lock.took hpc, h.fifo.took (Bool.eq_false_iff.mpr hne)⟩
  | ioqPutchar byte =>
    show (if s.ioqFull then s.blockOn t (.ioqPutchar byte) else s.put t byte).Inv
    split
    · exact h.blockOn (.inl hpc)
    · rename_i hne
      exact ⟨h.lock.put hpc, h.fifo.put (Bool.eq_false_iff.mpr hne)⟩

theorem released_data : (s.released t).consumer = s.consumer ∧ (s.released t).producer = s.producer ∧
    (s.released t).buf = s.buf ∧ (s.released t).head = s.head ∧ (s.released t).tail = s.tail ∧
    (s.released t).stored = s.stored ∧ (s.released t).taken = s.taken := by
  unfold IoState.released
  obtain ⟨-, e⟩ | ⟨w, ws, -, e⟩ := s.wakeFirst_cases <;> rw [e] <;> exact ⟨rfl, rfl, rfl, rfl, rfl, rfl, rfl⟩

theorem Inv.released (h : s.Inv) (hpc : s.pc t = .awake) : (s.released t).Inv := by
  obtain ⟨-, -, hb, hh, ht, hst, htk⟩ := released_data (s := s) (t := t)
  exact ⟨h.lock.released hpc, h.fifo.congr ⟨hb, hh, ht⟩ ⟨hst, htk⟩⟩

theorem Inv.loop_eq (h : s.Inv) (hpc : s.pc t = .test) : s.loop t op = .ok (s.looped t op) := by
  have hacq : ∀ op, s.acquireAndWait t op = .ok (s.blockOn t op) := fun op => by
    unfold acquireAndWait
    rw [if_pos (h.lock.not_holder (.inl hpc)), h.lock.downAndWait_eq (.inl hpc)]
    rfl
  cases op with
  | ioqGetchar =>
    simp only [loop, IoState.looped]
    split
    · exact hacq _
    · exact h.lock.takeByte_eq h.fifo.range.2 hpc
  | ioqPutchar byte =>
    simp only [loop, IoState.looped]
    split
    · exact hacq _
    · exact h.lock.putByte_eq h.fifo.range.1 hpc

theorem Inv.exec_eq (h : s.Inv) (op : IoOp) (hrun : s.Runnable t) : ∃ s', s.exec t op = .ok s' ∧
    ((s.pc t = .test ∧ s' = s.looped t op) ∨ (s.pc t = .woken ∧ s' = s.blockOn t op) ∨
      (s.pc t = .awake ∧ (s.released t).pc t = .test ∧ s' = (s.released t).looped t op)) := by
  unfold exec
  cases hpc : s.pc t with
  | test => exact ⟨_, h.loop_eq hpc, .inl ⟨rfl, rfl⟩⟩
  | woken => exact ⟨_, h.lock.downAndWait_eq (.inr hpc), .inr (.inl ⟨rfl, rfl⟩)⟩
  | awake =>
    obtain ⟨s1, hrel, e⟩ := h.lock.lockRelease_eq hpc
    have hte : (s.released t).pc t = .test := by simp [IoState.released]
    refine ⟨_, ?_, .inr (.inr ⟨rfl, hte, rfl⟩)⟩
    rw [hrel, ok_bind, e]
    exact (h.released hpc).loop_eq hte
  | blocked => exact absurd hpc hrun.1
  | asleep => exact absurd hpc hrun.2

theorem Inv.exec (h : s.Inv) (hrun : s.Runnable t) (he : s.exec t op = .ok s') : s'.Inv := by
  obtain ⟨s1, hs1, hca⟩ := h.exec_eq op hrun
  cases he.symm.trans hs1
  obtain ⟨hpc, rfl⟩ | ⟨hpc, rfl⟩ | ⟨hpc, hte, rfl⟩ := hca
  · exact h.looped hpc
  · exact h.blockOn (.inr hpc)
  · exact (h.released hpc).looped hte

omit [DecidableEq τ] in
theorem Start.inv (h : s.Start) : s.Inv := by
  obtain ⟨⟨hv, hw, hh, hr, hp, hc, hhead, htail⟩, -, hpc, hst, htk⟩ := h
  refine ⟨⟨fun u => ?_, ?_, ?_, fun u => ?_, ?_, fun u hu => ?_, fun u hu => ?_, .inl hc⟩, ⟨?_, ?_⟩⟩
  · simp [hh, hpc]
  · rw [hv, hh, if_pos rfl]
  · rw [hr, hh, if_pos rfl]
  · simp [hw, hpc]
  · simp [hw]
  · rw [hc] at hu
    cases hu
  · rw [hp] at hu
    cases hu
  · rw [IoQueue.InRange, InRing, InRing, hhead, htail]
    decide
  · rw [hst, htk, IoQueue.items, hhead, htail]
    rfl

theorem Inv.step {e : IoEvent τ} (h : s.Inv) (hs : IoStep e s s') : s'.Inv := by
  cases hs with
  | call t c hout => exact ⟨⟨h.lock.holds, h.lock.value, h.lock.count, h.lock.waits, h.lock.nodup, h.lock.consumer, h.lock.producer,
      h.lock.one⟩, h.fifo.congr ⟨rfl, rfl, rfl⟩ ⟨rfl, rfl⟩⟩
  | exec hop hrun he => exact h.exec hrun he

theorem reach_inv (h : Reach (fun s s' => ∃ e, IoStep e s s') Start s) : s.Inv :=
  h.invariant (fun _ hs => hs.inv) fun _ _ hs ⟨_, hsp⟩ => hs.step hsp

/-! ## Sleeping -/

theorem Justified.blockOn (h : s.Justified) (hc : s.value ≠ 0 → match op with
    | .ioqGetchar => s.ioqEmpty = true
    | .ioqPutchar _ => s.ioqFull = true) : (s.blockOn t op).Justified := by
  unfold IoState.blockOn
  split
  · exact h
  · rename_i hv
    cases op with
    | ioqGetchar => exact ⟨fun _ => hc hv, h.2⟩
    | ioqPutchar byte => exact ⟨h.1, fun _ => hc hv⟩

theorem Justified.looped (h : s.Justified) : (s.looped t op).Justified := by
  cases op with
  | ioqGetchar =>
    show (if s.ioqEmpty then s.blockOn t .ioqGetchar else s.took t).Justified
    split
    · rename_i he
      exact h.blockOn fun _ => he
    · rename_i he
      have hn : s.consumer = none := by
        by_contra hne
        exact he (h.1 hne)
      exact ⟨fun hne => absurd (by simpa [IoState.took, finish, goto] using hn) hne,
        fun hne => absurd (by simp [IoState.took, finish, goto]) hne⟩
  | ioqPutchar byte =>
    show (if s.ioqFull then s.blockOn t (.ioqPutchar byte) else s.put t byte).Justified
    split
    · rename_i hf
      exact h.blockOn fun _ => hf
    · rename_i hf
      have hn : s.producer = none := by
        by_contra hne
        exact hf (h.2 hne)
      exact ⟨fun hne => absurd (by simp [IoState.put, finish, goto]) hne,
        fun hne => absurd (by simpa [IoState.put, finish, goto] using hn) hne⟩

theorem Justified.released (h : s.Justified) : (s.released t).Justified := by
  obtain ⟨hc, hp, -, hh, ht, -, -⟩ := released_data (s := s) (t := t)
  unfold Justified IoQueue.ioqEmpty IoQueue.ioqFull
  rw [hc, hp, hh, ht]
  exact h

theorem Justified.step_iff {e : IoEvent τ} (hj : s.Justified) (h : s.Inv) (hs : IoStep e s s') : s'.Justified ↔ e.Current s := by
  cases hs with
  | call t c hout => exact ⟨fun _ => trivial, fun _ => hj⟩
  | @exec _ _ t op hop hrun he =>
    obtain ⟨s1, hs1, hca⟩ := h.exec_eq op hrun
    cases he.symm.trans hs1
    simp only [IoEvent.Current, hop]
    obtain ⟨hpc, rfl⟩ | ⟨hpc, rfl⟩ | ⟨hpc, hte, rfl⟩ := hca
    · exact ⟨fun _ hw => absurd (hpc.symm.trans hw) (by decide), fun _ => hj.looped⟩
    · constructor
      · intro hj' _ hv
        rw [IoState.blockOn, if_neg hv] at hj'
        cases op with
        | ioqGetchar => exact hj'.1 (by simp [IoState.fallAsleep, goto])
        | ioqPutchar byte => exact hj'.2 (by simp [IoState.fallAsleep, goto])
      · intro hc
        refine hj.blockOn fun hv => ?_
        have := hc hpc hv
        cases op with
        | ioqGetchar => exact this
        | ioqPutchar byte => exact this
    · exact ⟨fun _ hw => absurd (hpc.symm.trans hw) (by decide), fun _ => hj.released.looped⟩

omit [DecidableEq τ] in
theorem Start.justified (h : s.Start) : s.Justified := by
  obtain ⟨⟨-, -, -, -, hp, hc, -, -⟩, -⟩ := h
  exact ⟨fun hne => absurd hc hne, fun hne => absurd hp hne⟩

/-! ## Main results -/

/-- **The queue refines a FIFO of capacity 2047.** -/
theorem ioq_refines_fifo (h : Reach (fun s s' => ∃ e, IoStep e s s') Start s) :
    (0 ≤ s.head.toInt ∧ s.head.toInt < 2048) ∧ (0 ≤ s.tail.toInt ∧ s.tail.toInt < 2048) ∧ s.taken <+: s.stored ∧
      s.taken.length + s.ioqLength.toNat = s.stored.length ∧ s.ioqLength.toNat ≤ 2047 ∧
      (s.ioqEmpty = true ↔ s.ioqLength.toNat = 0) ∧ (s.ioqFull = true ↔ s.ioqLength.toNat = 2047) ∧
      ∀ t op, (s.todo t).head? = some op → s.Runnable t → ∃ s', s.exec t op = .ok s' := by
  have hinv := reach_inv h
  have hra := hinv.fifo.range
  have hlen := hra.ioqLength_eq
  have hbytes := hinv.fifo.bytes
  refine ⟨hra.1, hra.2, ⟨_, hbytes.symm⟩, ?_, ?_, ?_, ?_, fun t op _ hrun => ?_⟩
  · rw [hlen, hbytes, List.length_append]
  · have : s.items.length < 2048 := by
      rw [IoQueue.items, Ring.length_items]
      exact Ring.length_lt hra.lt.1
    omega
  · rw [hlen]
    exact hra.ioqEmpty_iff
  · rw [hlen]
    exact hra.ioqFull_iff
  · obtain ⟨s', hs', -⟩ := hinv.exec_eq op hrun
    exact ⟨s', hs'⟩

def freshQueue : IoState (Fin 3) := ⟨⟨1, [], none, 0, none, none, fun _ => 0, 0, 0⟩, fun _ => [], fun _ => .test, [], []⟩

theorem freshQueue_start : freshQueue.Start :=
  ⟨⟨rfl, rfl, rfl, rfl, rfl, rfl, rfl, rfl⟩, fun _ => rfl, fun _ => rfl, rfl, rfl⟩

def move (s : IoState τ) : IoEvent τ → Option (IoState τ)
  | .call t c => if s.todo t = [] then some { s with todo := Function.update s.todo t (s.ops c) } else none
  | .exec t =>
    match (s.todo t).head? with
    | none => none
    | some op => if s.pc t ≠ .blocked ∧ s.pc t ≠ .asleep then (s.exec t op).toOption else none

theorem move_step (s : IoState τ) (e : IoEvent τ) (s' : IoState τ) (h : s.move e = some s') : IoStep e s s' := by
  cases e with
  | call t c =>
    simp only [move, Option.ite_none_right_eq_some, Option.some.injEq] at h
    obtain ⟨hout, rfl⟩ := h
    exact .call t c hout
  | exec t =>
    simp only [move] at h
    split at h
    · cases h
    rename_i op hop
    split at h
    · rename_i hrun
      refine .exec hop hrun ?_
      cases hx : s.exec t op with
      | ok x =>
        rw [hx] at h
        cases h
        rfl
      | error f =>
        rw [hx] at h
        cases h
    · cases h

/-- Thread 0 sleeps and thread 1 waits for the lock when thread 2 puts two bytes; thread 0
takes one of them. -/
def twoConsumers : List (IoEvent (Fin 3)) :=
  [.call 0 .ioqGetchar, .exec 0, .call 1 .ioqGetchar, .exec 1, .call 2 (.ioqPutchar 65), .exec 2,
    .call 2 (.ioqPutchar 66), .exec 2, .exec 0]

theorem freshQueue_play (es : List (IoEvent (Fin 3))) (h : (es.foldlM move freshQueue).isSome = true) :
    Reach (fun s s' => ∃ e, IoStep e s s') Start ((es.foldlM move freshQueue).getD freshQueue) :=
  Reach.played (fun s e s' h => ⟨e, move_step s e s' h⟩) es freshQueue (.refl freshQueue_start) h

theorem ioq_refines_fifo_two : ∃ s : IoState (Fin 3), s.taken = [65] ∧ s.stored = [65, 66] ∧ s.taken <+: s.stored ∧
    s.taken.length + s.ioqLength.toNat = s.stored.length := by
  obtain ⟨-, -, hbytes, hlen, -⟩ := ioq_refines_fifo (freshQueue_play twoConsumers (by decide +kernel))
  exact ⟨_, by decide +kernel, by decide +kernel, hbytes, hlen⟩

/-- **Nobody sleeps on a ready queue**, as long as every thread that gets the lock after waiting
for it finds the queue as it tested it. -/
theorem asleep_justified_iff (h : Reach (fun s s' => ∃ e : IoEvent τ, e.Current s ∧ IoStep e s s') Start s) :
    s.Justified ∧ ∀ e s', IoStep e s s' → (s'.Justified ↔ e.Current s) := by
  have hinv : s.Inv ∧ s.Justified := by
    refine h.invariant (P := fun s => s.Inv ∧ s.Justified) (fun s hs => ⟨hs.inv, hs.justified⟩) ?_
    rintro s s' ⟨hi, hj⟩ ⟨e, hc, hsp⟩
    exact ⟨hi.step hsp, (hj.step_iff hi hsp).mpr hc⟩
  exact ⟨hinv.2, fun e s' hsp => hinv.2.step_iff hinv.1 hsp⟩

theorem asleep_justified_first : ∃ s : IoState (Fin 3), s.consumer = some 0 ∧ s.Justified := by
  let s1 : IoState (Fin 3) := { freshQueue with todo := update freshQueue.todo 0 (freshQueue.ops .ioqGetchar) }
  have h1 : Reach (fun s s' => ∃ e : IoEvent (Fin 3), e.Current s ∧ IoStep e s s') Start s1 :=
    (Reach.refl freshQueue_start).tail ⟨.call 0 .ioqGetchar, trivial, .call 0 .ioqGetchar rfl⟩
  have he : s1.exec 0 .ioqGetchar = .ok _ := ok_getD s1 (by decide +kernel)
  have h2 := h1.tail ⟨.exec 0, fun h => absurd h (by decide), .exec rfl ⟨by decide, by decide⟩ he⟩
  exact ⟨_, by decide +kernel, (asleep_justified_iff h2).1⟩

theorem asleep_on_ready_queue : ∃ s : IoState (Fin 3), Reach (fun s s' => ∃ e, IoStep e s s') Start s ∧
    s.consumer = some 1 ∧ s.ioqEmpty = false :=
  ⟨_, freshQueue_play (twoConsumers ++ [.exec 1]) (by decide +kernel), by decide +kernel, by decide +kernel⟩

end IoState

end OperateSystem
