import OperateSystem.Lock

/-!
# The lock excludes

The invariant places every thread: what it knows about `holder`, the counter and
the semaphore at the statement it is about to run. A thread is inside from the
moment `sema_down` lets it through until its `sema_up`.
-/

namespace OperateSystem

open Function

def Pc.Ok (mine : Prop) (depth : Nat) : Pc → Prop
  | .out | .acqTest => mine ↔ 0 < depth
  | .acqDown | .blocked | .woken | .acqHolder => ¬ mine ∧ depth = 0
  | .acqAssert | .acqSet => mine ∧ depth = 0
  | .acqInc | .relAssert | .relTest => mine ∧ 0 < depth
  | .relDec => mine ∧ 1 < depth
  | .relAssertOne | .relClear => mine ∧ depth = 1
  | .relZero | .relUp => ¬ mine ∧ depth = 1

theorem Pc.Ok.mine {m : Prop} {d : Nat} {q : Pc} (h : q.Ok m d) (hd : 0 < d) : m ∨ q = .relZero ∨ q = .relUp := by
  cases q <;> simp only [Pc.Ok] at h <;> first | omega | exact .inl (h.mpr hd) | exact .inl h.1 | simp

def Pc.Inside (depth : Nat) (q : Pc) : Prop := 0 < depth ∨ q = .acqHolder ∨ q = .acqAssert ∨ q = .acqSet

namespace LockState

variable {τ : Type} {s s' : LockState τ} {t : τ}

def In (s : LockState τ) (t : τ) : Prop := (s.pc t).Inside (s.depth t)

structure Inv (s : LockState τ) : Prop where
  ok : ∀ t, (s.pc t).Ok (s.holder = some t) (s.depth t)
  one : ∀ t u, s.In t → s.In u → t = u
  taken : ∀ t, s.In t → s.value = 0
  binary : s.value = 0 ∨ s.value = 1
  count : ∀ t, s.holder = some t → s.holderRepeatNr.toNat = s.depth t
  zero : s.holder = none → (∀ t, s.pc t ≠ .relZero) → s.holderRepeatNr = 0
  waits : ∀ t, t ∈ s.waiters ↔ s.pc t = .blocked
  nodup : s.waiters.Nodup
  ready : s.value = 1 → s.waiters ≠ [] → ∃ t, s.pc t = .woken

theorem Inv.holder_in (h : s.Inv) (hm : s.holder = some t) : s.In t := by
  have hok := h.ok t
  unfold In Pc.Inside
  cases hpc : s.pc t <;> simp only [hpc, Pc.Ok, hm, true_iff, not_true_eq_false, false_and, true_and] at hok <;>
    first | (left; omega) | simp

theorem Inv.idle (h : s.Inv) (ht : s.In t) (hn : s.holder ≠ some t) : s.holder = none := by
  cases hh : s.holder with
  | none => rfl
  | some u => exact absurd (h.one u t (h.holder_in hh) ht ▸ hh) hn

theorem Inv.pc_ok (h : s.Inv) {q : Pc} (hpc : s.pc t = q) : q.Ok (s.holder = some t) (s.depth t) := hpc ▸ h.ok t

theorem Inv.not_waiting (h : s.Inv) (hpc : s.pc t ≠ .blocked) : t ∉ s.waiters := by
  rw [h.waits]
  exact hpc

theorem Init.inv (h : s.Init) : s.Inv := by
  obtain ⟨hv, hw, hh, hr, hpc, hd⟩ := h
  have hin : ∀ t, ¬ s.In t := fun t => by simp [In, Pc.Inside, hpc, hd]
  refine ⟨fun t => ?_, fun t _ ht => absurd ht (hin t), fun t ht => absurd ht (hin t), .inr hv, fun t ht => ?_,
    fun _ _ => hr, fun t => by simp [hw, hpc], by simp [hw], fun _ hne => absurd hw hne⟩
  · rw [hpc, hh, hd]
    exact iff_of_false nofun (Nat.lt_irrefl 0)
  · rw [hh] at ht
    cases ht

section
variable [DecidableEq τ]
variable {n : Nat} {q : Pc} {u : τ}

structure Moves (t : τ) (q : Pc) (n : Nat) (s s' : LockState τ) : Prop where
  pc : s'.pc = Function.update s.pc t q
  depth : s'.depth = Function.update s.depth t n
  value : s'.value = s.value
  waiters : s'.waiters = s.waiters
  holder : ∀ u, u ≠ t → (s'.holder = some u ↔ s.holder = some u)

theorem Moves.other (h : Moves t q n s s') (hu : u ≠ t) :
    s'.pc u = s.pc u ∧ s'.depth u = s.depth u := by
  rw [h.pc, h.depth, update_of_ne hu, update_of_ne hu]
  exact ⟨rfl, rfl⟩

theorem Moves.self (h : Moves t q n s s') : s'.pc t = q ∧ s'.depth t = n := by
  rw [h.pc, h.depth, update_self, update_self]
  exact ⟨rfl, rfl⟩

theorem Inv.move (h : s.Inv) (hm : Moves t q n s s') (hok : q.Ok (s'.holder = some t) n)
    (hf : s.pc t ≠ .blocked ∧ s.pc t ≠ .woken) (hto : q ≠ .blocked) (hin : q.Inside n → s.In t)
    (hrep : s'.holderRepeatNr = s.holderRepeatNr ∨ s.In t)
    (hc : s'.holder = some t → s'.holderRepeatNr.toNat = n)
    (hze : s'.holder = none → q ≠ .relZero → s'.holderRepeatNr = 0 ∨
      (s'.holderRepeatNr = s.holderRepeatNr ∧ s.holder = none ∧ s.pc t ≠ .relZero)) : s'.Inv := by
  have hb : ∀ u, s'.In u → s.In u := by
    intro u hu
    by_cases hut : u = t
    · subst hut
      unfold In at hu
      rw [hm.self.1, hm.self.2] at hu
      exact hin hu
    · unfold In at hu ⊢
      rwa [(hm.other hut).1, (hm.other hut).2] at hu
  refine ⟨fun u => ?_, fun u v hu hv => h.one u v (hb u hu) (hb v hv), fun u hu => ?_, ?_, fun u hu => ?_, ?_,
    fun u => ?_, ?_, ?_⟩
  · by_cases hut : u = t
    · subst hut
      rw [hm.self.1, hm.self.2]
      exact hok
    · have := h.ok u
      rw [(hm.other hut).1, (hm.other hut).2]
      simp only [hm.holder u hut]
      exact this
  · rw [hm.value]; exact h.taken u (hb u hu)
  · rw [hm.value]; exact h.binary
  · by_cases hut : u = t
    · subst hut
      rw [hm.self.2]; exact hc hu
    · -- another holder is inside, so the counter did not change
      have hu := (hm.holder u hut).mp hu
      rw [(hm.other hut).2]
      rcases hrep with hrep | ht
      · rw [hrep]; exact h.count u hu
      · exact absurd (h.one u t (h.holder_in hu) ht) hut
  · intro hno hall
    have hq : q ≠ .relZero := fun e => hall t (by rw [hm.self.1, e])
    rcases hze hno hq with hz | ⟨hr, hn, ht⟩
    · exact hz
    · rw [hr]
      refine h.zero hn fun u hu => ?_
      by_cases hut : u = t
      · exact ht (hut ▸ hu)
      · exact hall u (by rw [(hm.other hut).1]; exact hu)
  · rw [hm.waiters, h.waits]
    by_cases hut : u = t
    · subst hut
      rw [hm.self.1]
      exact iff_of_false hf.1 hto
    · rw [(hm.other hut).1]
  · rw [hm.waiters]; exact h.nodup
  · intro hv hw
    rw [hm.value] at hv
    rw [hm.waiters] at hw
    obtain ⟨u, hu⟩ := h.ready hv hw
    have hut : u ≠ t := fun e => hf.2 (e ▸ hu)
    exact ⟨u, by rw [(hm.other hut).1]; exact hu⟩

theorem Inv.goto (h : s.Inv) (hok : q.Ok (s.holder = some t) (s.depth t))
    (hf : s.pc t ≠ .blocked ∧ s.pc t ≠ .woken ∧ s.pc t ≠ .relZero) (hto : q ≠ .blocked)
    (hin : q.Inside (s.depth t) → s.In t) : (s.goto t q).Inv := by
  refine h.move ⟨rfl, (update_eq_self _ _).symm, rfl, rfl, fun _ _ => Iff.rfl⟩ hok ⟨hf.1, hf.2.1⟩ hto
    hin (.inl rfl) (h.count t) fun hn _ => .inr ⟨rfl, hn, hf.2.2⟩

theorem Inv.acqHolder (h : s.Inv) (hpc : s.pc t = .acqHolder) : ({ s with holder := some t }.goto t .acqAssert).Inv := by
  obtain ⟨hn, hd⟩ := h.pc_ok hpc
  have ht : s.In t := .inr (.inl hpc)
  have hi := h.idle ht hn
  -- a thread about to clear the counter would be inside too
  have hz : s.holderRepeatNr = 0 := by
    apply h.zero hi
    intro u hu
    have hd := (h.pc_ok hu).2
    have := h.one u t (.inl (by omega)) ht
    rw [this, hpc] at hu
    cases hu
  refine h.move (n := 0) ⟨rfl, ?_, rfl, rfl, fun u hu => ?_⟩ ⟨rfl, rfl⟩ (by simp [hpc]) nofun (fun _ => ht) (.inl rfl)
    (fun _ => ?_) nofun
  · rw [← hd]; exact (update_eq_self _ _).symm
  · simp only [LockState.goto, hi, Option.some.injEq, reduceCtorEq, iff_false]
    exact fun e => hu e.symm
  · exact congrArg UInt32.toNat hz

theorem Inv.counted {r : UInt32} (h : s.Inv) (hm : s.holder = some t)
    (hf : s.pc t ≠ .blocked ∧ s.pc t ≠ .woken) (hr : r.toNat = n) (hn : 0 < n) :
    (({ s with holderRepeatNr := r }.setDepth t n).goto t .out).Inv := by
  have ht := h.holder_in hm
  exact h.move ⟨rfl, rfl, rfl, rfl, fun _ _ => Iff.rfl⟩ (iff_of_true hm hn) hf nofun (fun _ => ht) (.inr ht)
    (fun _ => hr) (fun hno => by cases hno ▸ hm)

theorem Inv.relClear (h : s.Inv) (hpc : s.pc t = .relClear) : ({ s with holder := none }.goto t .relZero).Inv := by
  obtain ⟨hm, hd⟩ := h.pc_ok hpc
  refine h.move (n := s.depth t) ⟨rfl, (update_eq_self _ _).symm, rfl, rfl, fun u hu => ?_⟩ ⟨nofun, hd⟩ (by simp [hpc])
    nofun (fun _ => h.holder_in hm) (.inl rfl) nofun fun _ e => absurd rfl e
  simp only [LockState.goto, hm, Option.some.injEq, reduceCtorEq, false_iff]
  exact fun e => hu e.symm

theorem Inv.relZero (h : s.Inv) (hpc : s.pc t = .relZero) : ({ s with holderRepeatNr := 0 }.goto t .relUp).Inv := by
  obtain ⟨hn, hd⟩ := h.pc_ok hpc
  have ht : s.In t := .inl (by omega)
  exact h.move ⟨rfl, (update_eq_self _ _).symm, rfl, rfl, fun _ _ => Iff.rfl⟩ ⟨hn, hd⟩ (by simp [hpc]) nofun
    (fun _ => ht) (.inr ht) (fun e => absurd e hn) fun _ _ => .inl rfl

/-! ## The semaphore -/

theorem Inv.place (h : s.Inv) (hpc : s.pc t = .acqDown ∨ s.pc t = .woken)
    (hq : q = .blocked ∨ q = .acqHolder) :
    (∀ u, (update s.pc t q u).Ok (s.holder = some u) (s.depth u)) ∧
      (s.holder = none → (∀ u, update s.pc t q u ≠ .relZero) → s.holderRepeatNr = 0) := by
  have hok : ¬ s.holder = some t ∧ s.depth t = 0 := by
    rcases hpc with hpc | hpc <;> exact h.pc_ok hpc
  constructor
  · intro u
    by_cases hut : u = t
    · subst hut
      rw [update_self]
      rcases hq with rfl | rfl <;> exact hok
    · rw [update_of_ne hut]
      exact h.ok u
  · intro hn hall
    apply h.zero hn
    intro u hu
    have hut : u ≠ t := by
      rintro rfl
      rcases hpc with hpc | hpc <;> simp [hpc] at hu
    apply hall u
    rw [update_of_ne hut]
    exact hu

theorem Inv.block (h : s.Inv) (hpc : s.pc t = .acqDown ∨ s.pc t = .woken) (hv : s.value = 0) :
    ({ s with waiters := s.waiters ++ [t] }.goto t .blocked).Inv := by
  have hnot : t ∉ s.waiters := h.not_waiting (by rcases hpc with hpc | hpc <;> simp [hpc])
  have hb : ∀ u, ({ s with waiters := s.waiters ++ [t] }.goto t .blocked).In u → s.In u := by
    intro u hu
    by_cases hut : u = t
    · subst hut
      rcases hpc with hpc | hpc <;> simp [In, Pc.Inside, LockState.goto, (h.pc_ok hpc).2] at hu
    · simpa [In, LockState.goto, update_of_ne hut] using hu
  obtain ⟨hok, hz⟩ := h.place hpc (.inl rfl)
  refine ⟨hok, fun u v hu hv => h.one u v (hb u hu) (hb v hv), fun u hu => hv, .inl hv, h.count, hz,
    fun u => ?_, ?_, ?_⟩
  · by_cases hut : u = t
    · subst hut
      simp [LockState.goto]
    · simp [LockState.goto, h.waits, hut]
  · refine List.nodup_append.mpr ⟨h.nodup, by simp, fun u hu v hv e => ?_⟩
    rw [List.mem_singleton.mp hv] at e
    exact hnot (e ▸ hu)
  · intro h1
    simp [LockState.goto, hv] at h1

theorem Inv.take (h : s.Inv) (hpc : s.pc t = .acqDown ∨ s.pc t = .woken) (hv : s.value ≠ 0) :
    ({ s with value := 0 }.goto t .acqHolder).Inv := by
  have hnot : t ∉ s.waiters := h.not_waiting (by rcases hpc with hpc | hpc <;> simp [hpc])
  -- nobody was inside, so `t` is the only one now
  have hn : ∀ u, ({ s with value := 0 }.goto t .acqHolder).In u → u = t := by
    intro u hu
    by_contra hut
    have hu : s.In u := by simpa [In, LockState.goto, update_of_ne hut] using hu
    exact hv (h.taken u hu)
  obtain ⟨hok, hz⟩ := h.place hpc (.inr rfl)
  refine ⟨hok, fun u v hu hv => (hn u hu).trans (hn v hv).symm, fun _ _ => rfl, .inl rfl, h.count, hz,
    fun u => ?_, h.nodup, nofun⟩
  by_cases hut : u = t
  · subst hut
    simp [LockState.goto, hnot]
  · simp [LockState.goto, update_of_ne hut, h.waits]

theorem Inv.semaDown (h : s.Inv) (hpc : s.pc t = .acqDown ∨ s.pc t = .woken) : ∃ s', s.semaDown t = .ok s' ∧ s'.Inv := by
  have hnot : t ∉ s.waiters := h.not_waiting (by rcases hpc with hpc | hpc <;> simp [hpc])
  by_cases hv : s.value = 0
  · exact ⟨_, semaDown_block hv hnot, h.block hpc hv⟩
  · exact ⟨_, semaDown_pass (h.binary.resolve_left hv), h.take hpc hv⟩

theorem unblock_eq (hb : s.pc t = .blocked) : s.threadUnblock t = .ok (s.goto t .woken) := by
  unfold LockState.threadUnblock
  rw [assert_of _ hb]
  rfl

theorem Inv.semaUp_eq (h : s.Inv) (hv : s.value = 0) : ∃ s', s.semaUp = .ok s' ∧ s'.value = 1 ∧
    s'.holder = s.holder ∧ s'.holderRepeatNr = s.holderRepeatNr ∧ s'.depth = s.depth ∧ s'.waiters = s.waiters.tail ∧
      ∀ u, s'.pc u = if s.waiters.head? = some u then .woken else s.pc u := by
  cases hw : s.waiters with
  | nil => exact ⟨_, semaUp_zero hv (by rw [hw]; rfl), rfl, rfl, rfl, rfl, hw, fun u => rfl⟩
  | cons w ws =>
    have hb : ({ s with waiters := ws } : LockState τ).pc w = .blocked := (h.waits w).mp (by simp [hw])
    refine ⟨_, semaUp_zero hv (u := { s with waiters := ws }.goto w .woken) ?_, rfl, rfl, rfl, rfl, rfl, fun u => ?_⟩
    · rw [hw]
      exact unblock_eq hb
    · by_cases hu : w = u
      · subst hu
        simp [LockState.goto]
      · simp [LockState.goto, hu, update_of_ne (Ne.symm hu)]

theorem Inv.relUp (h : s.Inv) (hpc : s.pc t = .relUp) : ∃ s', s.exec t = .ok s' ∧ s'.Inv := by
  obtain ⟨hn, hd⟩ := h.pc_ok hpc
  have ht : s.In t := .inl (by omega)
  obtain ⟨s1, hup, hv, hh, hr, hdep, hw, hpc1⟩ := h.semaUp_eq (h.taken t ht)
  have hex : s.exec t = .ok ((s1.setDepth t (s1.depth t - 1)).goto t .out) := by
    unfold LockState.exec
    rw [hpc]
    simp only [hup, ok_bind, pure_ok]
  refine ⟨_, hex, ?_⟩
  generalize hs' : (s1.setDepth t (s1.depth t - 1)).goto t .out = s'
  have hs : s'.pc t = .out ∧ s'.depth t = 0 := by
    subst hs'
    simp [LockState.goto, setDepth, hdep, hd]
  have ho : ∀ u, u ≠ t → s'.pc u = s1.pc u ∧ s'.depth u = s.depth u := by
    intro u hu
    subst hs'
    simp [LockState.goto, setDepth, hu, hdep]
  obtain ⟨hv', hh', hr', hw'⟩ : s'.value = 1 ∧ s'.holder = s.holder ∧ s'.holderRepeatNr = s.holderRepeatNr ∧
      s'.waiters = s.waiters.tail := by
    subst hs'
    exact ⟨hv, hh, hr, hw⟩
  have hi := h.idle ht hn
  -- the woken thread was blocked: it is not inside, before or after
  have hwo : ∀ u, s.waiters.head? = some u → s.pc u = .blocked :=
    fun u hu => (h.waits u).mp (List.mem_of_mem_head? hu)
  have he : ∀ u, ¬ s'.In u := by
    intro u hu
    by_cases hut : u = t
    · subst hut
      simp [In, Pc.Inside, hs] at hu
    · unfold In at hu
      rw [(ho u hut).1, (ho u hut).2, hpc1] at hu
      split at hu
      · next hhd => simp [Pc.Inside, (h.pc_ok (hwo u hhd)).2] at hu
      · exact hut (h.one u t hu ht)
  refine ⟨fun u => ?_, fun u _ hu => absurd hu (he u), fun u hu => absurd hu (he u), .inr hv', fun u hu => ?_,
    fun _ hall => ?_, fun u => ?_, ?_, fun _ hne => ?_⟩
  · rw [hh']
    by_cases hut : u = t
    · subst hut
      rw [hs.1, hs.2]
      exact iff_of_false hn (by omega)
    · rw [(ho u hut).1, (ho u hut).2, hpc1]
      split
      · next hhd =>
        have hu := h.pc_ok (hwo u hhd)
        exact hu
      · exact h.ok u
  · rw [hh', hi] at hu
    cases hu
  · rw [hr']
    apply h.zero hi
    intro u hu
    have hut : u ≠ t := by
      rintro rfl
      simp [hpc] at hu
    apply hut
    exact h.one u t (.inl (by have := (h.pc_ok hu).2; omega)) ht
  · rw [hw']
    by_cases hut : u = t
    · subst hut
      rw [hs.1]
      exact iff_of_false (fun hm => h.not_waiting (by simp [hpc]) (List.mem_of_mem_tail hm)) nofun
    · rw [(ho u hut).1, hpc1]
      have hnd := h.nodup
      have hws := h.waits u
      cases hw : s.waiters with
      | nil => simpa [hw] using hws
      | cons w ws =>
        rw [hw] at hnd hws
        by_cases hwu : w = u
        · subst hwu
          simpa using (List.nodup_cons.mp hnd).1
        · simpa [hwu, Ne.symm hwu] using hws
  · rw [hw']
    exact h.nodup.sublist (List.tail_sublist _)
  · cases hw : s.waiters with
    | nil => simp [hw', hw] at hne
    | cons w ws =>
      have hwt : w ≠ t := by
        rintro rfl
        have := hwo w (by simp [hw])
        simp [hpc] at this
      exact ⟨w, by rw [(ho w hwt).1, hpc1, hw]; simp⟩

/-! ## Every statement -/

theorem Inv.exec (h : s.Inv) (t : τ) :
    ∃ s', s.exec t = .ok s' ∧ ((s.pc t = .acqInc → s.depth t + 1 < 2 ^ 32) → s'.Inv) := by
  cases hpc : s.pc t with
  | out => exact ⟨s, by simp only [LockState.exec, hpc], fun _ => h⟩
  | blocked => exact ⟨s, by simp only [LockState.exec, hpc], fun _ => h⟩
  | acqTest =>
    have hok := h.pc_ok hpc
    refine ⟨_, by simp only [LockState.exec, hpc]; rfl, fun _ => ?_⟩
    by_cases hm : s.holder = some t
    · rw [if_neg (not_not_intro hm)]
      exact h.goto ⟨hm, hok.mp hm⟩ (by simp [hpc]) (fun e => by cases e) fun _ => h.holder_in hm
    · rw [if_pos hm]
      have hd : s.depth t = 0 := by have := mt hok.mpr hm; omega
      exact h.goto ⟨hm, hd⟩ (by simp [hpc]) (fun e => by cases e) fun hin => by simp [Pc.Inside, hd] at hin
  | acqDown =>
    obtain ⟨s', hs', hinv⟩ := h.semaDown (.inl hpc)
    exact ⟨s', by simp only [LockState.exec, hpc, hs'], fun _ => hinv⟩
  | woken =>
    obtain ⟨s', hs', hinv⟩ := h.semaDown (.inr hpc)
    exact ⟨s', by simp only [LockState.exec, hpc, hs'], fun _ => hinv⟩
  | acqHolder => exact ⟨_, by simp only [LockState.exec, hpc], fun _ => h.acqHolder hpc⟩
  | acqAssert =>
    obtain ⟨hm, hd⟩ := h.pc_ok hpc
    have hr : s.holderRepeatNr = 0 := UInt32.toNat_inj.mp ((h.count t hm).trans hd)
    refine ⟨s.goto t .acqSet, ?_, fun _ => h.goto ⟨hm, hd⟩ (by simp [hpc]) (fun e => by cases e) fun _ => h.holder_in hm⟩
    simp only [LockState.exec, hpc, assert_of _ hr, ok_bind, pure_ok]
  | acqSet =>
    obtain ⟨hm, hd⟩ := h.pc_ok hpc
    refine ⟨_, by simp only [LockState.exec, hpc]; rfl, fun _ => h.counted hm (by simp [hpc]) ?_ (by omega)⟩
    rw [hd]
    rfl
  | acqInc =>
    obtain ⟨hm, hd⟩ := h.pc_ok hpc
    refine ⟨_, by simp only [LockState.exec, hpc]; rfl, fun hb => h.counted hm (by simp [hpc]) ?_ (by omega)⟩
    have := hb rfl
    rw [UInt32.toNat_add, h.count t hm]
    exact Nat.mod_eq_of_lt this
  | relAssert =>
    obtain ⟨hm, hd⟩ := h.pc_ok hpc
    refine ⟨s.goto t .relTest, ?_, fun _ => h.goto ⟨hm, hd⟩ (by simp [hpc]) (fun e => by cases e) fun _ => h.holder_in hm⟩
    simp only [LockState.exec, hpc, assert_of _ hm, ok_bind, pure_ok]
  | relTest =>
    obtain ⟨hm, hd⟩ := h.pc_ok hpc
    have hc := h.count t hm
    refine ⟨_, by simp only [LockState.exec, hpc]; rfl, fun _ => ?_⟩
    by_cases hr : s.holderRepeatNr > 1
    · rw [if_pos hr]
      have : 1 < s.holderRepeatNr.toNat := UInt32.lt_iff_toNat_lt.mp hr
      exact h.goto ⟨hm, by omega⟩ (by simp [hpc]) (fun e => by cases e) fun _ => h.holder_in hm
    · rw [if_neg hr]
      have : ¬ 1 < s.holderRepeatNr.toNat := fun hlt => hr (UInt32.lt_iff_toNat_lt.mpr hlt)
      exact h.goto ⟨hm, by omega⟩ (by simp [hpc]) (fun e => by cases e) fun _ => h.holder_in hm
  | relDec =>
    obtain ⟨hm, hd⟩ := h.pc_ok hpc
    have hc := h.count t hm
    refine ⟨_, by simp only [LockState.exec, hpc]; rfl, fun _ => h.counted hm (by simp [hpc]) ?_ (by omega)⟩
    have hle : (1 : UInt32) ≤ s.holderRepeatNr := UInt32.le_iff_toNat_le.mpr (by rw [hc]; exact Nat.le_of_lt hd)
    rw [UInt32.toNat_sub_of_le _ _ hle, hc]
    rfl
  | relAssertOne =>
    obtain ⟨hm, hd⟩ := h.pc_ok hpc
    have hr : s.holderRepeatNr = 1 := UInt32.toNat_inj.mp ((h.count t hm).trans hd)
    refine ⟨s.goto t .relClear, ?_, fun _ => h.goto ⟨hm, hd⟩ (by simp [hpc]) (fun e => by cases e) fun _ => h.holder_in hm⟩
    simp only [LockState.exec, hpc, assert_of _ hr, ok_bind, pure_ok]
  | relClear => exact ⟨_, by simp only [LockState.exec, hpc], fun _ => h.relClear hpc⟩
  | relZero => exact ⟨_, by simp only [LockState.exec, hpc], fun _ => h.relZero hpc⟩
  | relUp =>
    obtain ⟨s', hs', hinv⟩ := h.relUp hpc
    exact ⟨s', hs', fun _ => hinv⟩

theorem Inv.step (h : s.Inv) (hs : ShallowStep s s') : s'.Inv := by
  obtain ⟨hs, hb⟩ := hs
  cases hs with
  | acquire t hout =>
    have hok := h.pc_ok hout
    exact h.goto hok (by simp [hout]) nofun fun hin => .inl (by simpa [Pc.Inside] using hin)
  | release t hout hh =>
    exact h.goto ⟨hh, (h.pc_ok hout).mp hh⟩ (by simp [hout]) nofun fun _ => h.holder_in hh
  | exec t hin hrun hex =>
    obtain ⟨s1, hs1, hinv⟩ := h.exec t
    obtain rfl : s1 = s' := by
      rw [hs1] at hex
      exact Except.ok.inj hex
    apply hinv
    intro hpc
    have := hb t
    rw [LockState.exec, hpc] at hs1
    rw [← Except.ok.inj hs1] at this
    simpa [LockState.goto, setDepth] using this

/-! ## Where a statement leads -/

def Acquiring (q : Pc) : Prop :=
  q = .acqTest ∨ q = .acqDown ∨ q = .acqHolder ∨ q = .acqAssert ∨ q = .acqSet ∨ q = .blocked ∨ q = .woken

def Releasing (q : Pc) : Prop :=
  q = .relAssert ∨ q = .relTest ∨ q = .relAssertOne ∨ q = .relClear ∨ q = .relZero ∨ q = .relUp

@[simp] theorem goto_pc : (s.goto t q).pc u = if u = t then q else s.pc u := by
  simp [LockState.goto, update_apply]

@[simp] theorem setDepth_depth : (s.setDepth t n).depth u = if u = t then n else s.depth u := by
  simp [setDepth, update_apply]

theorem semaUp_pc (h : s.semaUp = .ok s') (u : τ) :
    s'.depth u = s.depth u ∧ (s'.pc u = s.pc u ∨ (s.pc u = .blocked ∧ s'.pc u = .woken)) := by
  unfold LockState.semaUp OperateSystem.semaUp wakeFirst at h
  simp only [bind_ok] at h
  obtain ⟨_, -, s1, hw, _, -, h⟩ := h
  cases h
  split at hw
  · cases hw
    exact ⟨rfl, .inl rfl⟩
  · rename_i w ws _
    obtain ⟨_, hb, hw⟩ := bind_ok.mp hw
    have hb := assert_debug_ok.mp hb
    cases hw
    refine ⟨rfl, ?_⟩
    show (LockState.goto _ w .woken).pc u = s.pc u ∨ s.pc u = .blocked ∧ (LockState.goto _ w .woken).pc u = .woken
    rw [goto_pc]
    by_cases huw : u = w
    · rw [if_pos huw, huw]
      exact .inr ⟨hb, rfl⟩
    · rw [if_neg huw]
      exact .inl rfl

theorem exec_other (h : s.exec t = .ok s') (hu : u ≠ t) :
    s'.depth u = s.depth u ∧ (s'.pc u = s.pc u ∨ (s.pc u = .blocked ∧ s'.pc u = .woken)) := by
  have hdo : ∀ {s'}, s.semaDown t = .ok s' → s'.depth u = s.depth u ∧ s'.pc u = s.pc u := by
    intro s' h
    rcases semaDown_ok h with h | h <;> cases h <;> exact ⟨rfl, by rw [goto_pc, if_neg hu]⟩
  cases hpc : s.pc t <;> simp only [LockState.exec, hpc] at h
  case out | blocked =>
    cases h
    exact ⟨rfl, .inl rfl⟩
  case acqDown | woken => exact ⟨(hdo h).1, .inl (hdo h).2⟩
  case acqTest | relTest =>
    cases h
    split <;> exact ⟨rfl, .inl (by rw [goto_pc, if_neg hu])⟩
  case acqHolder | relClear | relZero =>
    cases h
    exact ⟨rfl, .inl (by rw [goto_pc, if_neg hu])⟩
  case acqAssert | relAssert | relAssertOne =>
    obtain ⟨_, -, h⟩ := bind_ok.mp h
    cases h
    exact ⟨rfl, .inl (by rw [goto_pc, if_neg hu])⟩
  case acqSet | acqInc | relDec =>
    cases h
    refine ⟨?_, .inl (by rw [goto_pc, if_neg hu]; rfl)⟩
    show (setDepth _ t _).depth u = _
    rw [setDepth_depth, if_neg hu]
  case relUp =>
    obtain ⟨s1, h1, h⟩ := bind_ok.mp h
    cases h
    obtain ⟨hd, hp⟩ := semaUp_pc h1 u
    refine ⟨?_, ?_⟩
    · show (s1.setDepth t _).depth u = _
      rw [setDepth_depth, if_neg hu, hd]
    · rw [goto_pc, if_neg hu]
      exact hp

theorem Inv.acquiring (h : s.Inv) (hq : Acquiring (s.pc t)) (hd : s.depth t = 0) (hex : s.exec t = .ok s') :
    (Acquiring (s'.pc t) ∧ s'.depth t = 0) ∨ (s'.pc t = .out ∧ s'.depth t = 1) := by
  have hdo : s.semaDown t = .ok s' → Acquiring (s'.pc t) ∧ s'.depth t = 0 := by
    intro h
    rcases semaDown_ok h with h | h <;> cases h <;> exact ⟨by simp [Acquiring], hd⟩
  obtain e | e | e | e | e | e | e := hq <;> simp only [LockState.exec, e] at hex
  · have hnot : s.holder ≠ some t := fun hm => by
      have := (h.pc_ok e).mp hm
      omega
    rw [if_pos hnot] at hex
    cases hex
    exact .inl ⟨by simp [Acquiring], hd⟩
  · exact .inl (hdo hex)
  · cases hex
    exact .inl ⟨by simp [Acquiring], hd⟩
  · obtain ⟨_, -, hex⟩ := bind_ok.mp hex
    cases hex
    exact .inl ⟨by simp [Acquiring], hd⟩
  · cases hex
    refine .inr ⟨by simp, ?_⟩
    show (setDepth _ t _).depth t = 1
    rw [setDepth_depth, if_pos rfl, hd]
  · cases hex
    exact .inl ⟨by rw [e]; simp [Acquiring], hd⟩
  · exact .inl (hdo hex)

theorem Inv.releasing (h : s.Inv) (hq : Releasing (s.pc t)) (hd : s.depth t = 1) (hex : s.exec t = .ok s') :
    (Releasing (s'.pc t) ∧ s'.depth t = 1) ∨ (s'.pc t = .out ∧ s'.depth t = 0) := by
  obtain e | e | e | e | e | e := hq <;> simp only [LockState.exec, e] at hex
  · obtain ⟨_, -, hex⟩ := bind_ok.mp hex
    cases hex
    exact .inl ⟨by simp [Releasing], hd⟩
  · have hnot : ¬ s.holderRepeatNr > 1 := fun hgt => by
      have hc := h.count t (h.pc_ok e).1
      have hlt : 1 < s.holderRepeatNr.toNat := UInt32.lt_iff_toNat_lt.mp hgt
      omega
    rw [if_neg hnot] at hex
    cases hex
    exact .inl ⟨by simp [Releasing], hd⟩
  · obtain ⟨_, -, hex⟩ := bind_ok.mp hex
    cases hex
    exact .inl ⟨by simp [Releasing], hd⟩
  · cases hex
    exact .inl ⟨by simp [Releasing], hd⟩
  · cases hex
    exact .inl ⟨by simp [Releasing], hd⟩
  · obtain ⟨s1, h1, hex⟩ := bind_ok.mp hex
    cases hex
    refine .inr ⟨by simp, ?_⟩
    show (s1.setDepth t (s1.depth t - 1)).depth t = 0
    rw [setDepth_depth, if_pos rfl, (semaUp_pc h1 t).1, hd]

end

/-! ## One thread alone -/

def solo (v : UInt8) (h : Option Unit) (r : UInt32) (q : Pc) (d : Nat) : LockState Unit := ⟨v, [], h, r, fun _ => q, fun _ => d⟩

def nested (n : Nat) : LockState Unit := solo 0 (some ()) (UInt32.ofNat (n + 1)) .out (n + 1)

theorem nested_reach {R : LockState Unit → LockState Unit → Prop} {m : Nat}
    (hR : ∀ s s', LockStep s s' → s'.depth () ≤ m → R s s') : ∀ n, n + 1 ≤ m → Reach R Init (nested n)
  | 0, hm => by
    have h0 : Reach R Init (solo 1 none 0 .out 0) := .refl ⟨rfl, rfl, rfl, rfl, fun _ => rfl, fun _ => rfl⟩
    have e1 : LockStep (solo 1 none 0 .out 0) (solo 1 none 0 .acqTest 0) := .acquire () rfl
    have e2 : LockStep (solo 1 none 0 .acqTest 0) (solo 1 none 0 .acqDown 0) := .exec () nofun nofun rfl
    have e3 : LockStep (solo 1 none 0 .acqDown 0) (solo 0 none 0 .acqHolder 0) := .exec () nofun nofun rfl
    have e4 : LockStep (solo 0 none 0 .acqHolder 0) (solo 0 (some ()) 0 .acqAssert 0) := .exec () nofun nofun rfl
    have e5 : LockStep (solo 0 (some ()) 0 .acqAssert 0) (solo 0 (some ()) 0 .acqSet 0) := .exec () nofun nofun rfl
    have e6 : LockStep (solo 0 (some ()) 0 .acqSet 0) (nested 0) := .exec () nofun nofun rfl
    have h5 := (((h0.tail (hR _ _ e1 m.zero_le)).tail (hR _ _ e2 m.zero_le)).tail (hR _ _ e3 m.zero_le)).tail
      (hR _ _ e4 m.zero_le)
    exact (h5.tail (hR _ _ e5 m.zero_le)).tail (hR _ _ e6 hm)
  | n + 1, hm => by
    have e1 : LockStep (nested n) (solo 0 (some ()) (UInt32.ofNat (n + 1)) .acqTest (n + 1)) := .acquire () rfl
    have e2 : LockStep (solo 0 (some ()) (UInt32.ofNat (n + 1)) .acqTest (n + 1))
        (solo 0 (some ()) (UInt32.ofNat (n + 1)) .acqInc (n + 1)) := .exec () nofun nofun rfl
    have e3 : LockStep (solo 0 (some ()) (UInt32.ofNat (n + 1)) .acqInc (n + 1)) (nested (n + 1)) := by
      refine .exec () nofun nofun ?_
      rw [nested, UInt32.ofNat_add (n + 1) 1]
      rfl
    have hle : n + 1 ≤ m := by omega
    exact (((nested_reach hR n hle).tail (hR _ _ e1 hle)).tail (hR _ _ e2 hle)).tail (hR _ _ e3 hm)

end LockState

open LockState

/-- **The lock.** With fewer than `2 ^ 32` nested acquires, at most one thread is between its
first acquire and its last release, no statement of any thread fails, and a free lock with waiters
has a thread about to test it. -/
theorem lock_excludes {τ : Type} [DecidableEq τ] {s : LockState τ} (h : Reach ShallowStep Init s) :
    (∀ t u, 0 < s.depth t → 0 < s.depth u → t = u) ∧
      (∀ t, 0 < s.depth t → s.holder = some t ∨ s.pc t = .relZero ∨ s.pc t = .relUp) ∧
      (∀ t, s.holder = some t → s.holderRepeatNr.toNat = s.depth t) ∧
      (∀ t f, s.exec t ≠ .error f) ∧
      (s.value = 1 → s.waiters ≠ [] → ∃ t, s.pc t = .woken) := by
  have hinv : s.Inv := h.invariant (fun _ h0 => Init.inv h0) fun _ _ hi hs => hi.step hs
  refine ⟨fun t u ht hu => hinv.one t u (.inl ht) (.inl hu), fun t ht => (hinv.ok t).mine ht, hinv.count,
    fun t f hf => ?_, hinv.ready⟩
  obtain ⟨s', hs', -⟩ := hinv.exec t
  rw [hs'] at hf
  cases hf

theorem lock_excludes_twice : (∀ t, (nested 1).holder = some t → (nested 1).holderRepeatNr.toNat = (nested 1).depth t) ∧
    (nested 1).depth () = 2 := by
  have h : Reach ShallowStep Init (nested 1) := by
    apply nested_reach (m := 2) _ 1 le_rfl
    intro s s' hs hd
    exact ⟨hs, fun _ => by show s'.depth () < _; omega⟩
  exact ⟨(lock_excludes h).2.2.1, rfl⟩

/-- Nested `2 ^ 32` times, the counter is back at zero, and the release that
follows fails. -/
theorem nested_wraps : (∃ s : LockState Unit, Reach LockStep Init s ∧ s.holder = some () ∧
      s.holderRepeatNr.toNat ≠ s.depth ()) ∧
    ∃ s : LockState Unit, Reach LockStep Init s ∧
      s.exec () = .error (.assertion "plock->holder_repeat_nr == 1") := by
  have h : Reach LockStep Init (nested (2 ^ 32 - 1)) := nested_reach (fun _ _ hs _ => hs) _ le_rfl
  have hz : UInt32.ofNat (2 ^ 32 - 1 + 1) = 0 := rfl
  have e0 : nested (2 ^ 32 - 1) = solo 0 (some ()) 0 .out (2 ^ 32) := by
    have hs : 2 ^ 32 - 1 + 1 = 2 ^ 32 := by omega
    unfold nested
    rw [hz, hs]
  rw [e0] at h
  have e1 : LockStep (solo 0 (some ()) 0 .out (2 ^ 32)) (solo 0 (some ()) 0 .relAssert (2 ^ 32)) := .release () rfl rfl
  have e2 : LockStep (solo 0 (some ()) 0 .relAssert (2 ^ 32)) (solo 0 (some ()) 0 .relTest (2 ^ 32)) :=
    .exec () nofun nofun rfl
  have e3 : LockStep (solo 0 (some ()) 0 .relTest (2 ^ 32)) (solo 0 (some ()) 0 .relAssertOne (2 ^ 32)) :=
    .exec () nofun nofun rfl
  exact ⟨⟨_, h, rfl, by simp [solo]⟩, _, ((h.tail e1).tail e2).tail e3, rfl⟩

end OperateSystem
