import OperateSystem.Ide
import OperateSystem.LockSound

/-!
# One token for each command

The lock admits one thread to the channel. From its `cmd_out` until its
`sema_down` comes through, either the interrupt is still expected and the
semaphore is down, or it has come and the semaphore is up; at all other times
neither is the case. An interrupt that nobody expects changes nothing.
-/

namespace OperateSystem

open Function

open LockState

def IdePc.Ok (q : IdePc) (lockPc : Pc) (depth : Nat) : Prop :=
  match q with
  | .out => lockPc = .out ∧ depth = 0
  | .acquire => (Acquiring lockPc ∧ depth = 0) ∨ (lockPc = .out ∧ depth = 1)
  | .release => (Releasing lockPc ∧ depth = 1) ∨ (lockPc = .out ∧ depth = 0)
  | _ => lockPc = .out ∧ depth = 1

theorem IdePc.Ok.depth_le {q : IdePc} {lockPc : Pc} {depth : Nat} (h : q.Ok lockPc depth) : depth ≤ 1 := by
  cases q <;> simp only [IdePc.Ok] at h <;> omega

theorem IdePc.Ok.wake {q : IdePc} {depth : Nat} (h : q.Ok .blocked depth) : q.Ok .woken depth := by
  cases q <;> simp_all [IdePc.Ok, Acquiring, Releasing]

namespace IdeState

variable {τ : Type} {s s' : IdeState τ} {t u : τ} {q : IdePc}

def Pending (s : IdeState τ) (t : τ) : Prop :=
  match s.pc t with
  | .command | .down | .blocked | .woken => True
  | .busyWait | .transfer => (s.request t).write = true
  | _ => False

structure Inv (s : IdeState τ) : Prop where
  lock : s.lock.Inv
  ok : ∀ t, (s.pc t).Ok (s.lock.pc t) (s.lock.depth t)
  waits : ∀ t, t ∈ s.waiters ↔ s.pc t = .blocked
  nodup : s.waiters.Nodup
  pending : ∀ t, s.Pending t → s.issued = s.consumed + 1 ∧
    ((s.expectingIntr = true ∧ s.value = 0) ∨ (s.expectingIntr = false ∧ s.value = 1))
  quiet : (∀ t, ¬ s.Pending t) → s.issued = s.consumed ∧ s.expectingIntr = false ∧ s.value = 0

theorem Inv.shallow (h : s.Inv) (t : τ) : s.lock.depth t < 2 ^ 32 := Nat.lt_of_le_of_lt (h.ok t).depth_le (by decide)

theorem Inv.pending_lock (h : s.Inv) (hp : s.Pending t) : s.lock.pc t = .out ∧ s.lock.depth t = 1 := by
  have hok := h.ok t
  unfold Pending at hp
  cases hpc : s.pc t <;> simp only [hpc, IdePc.Ok] at hok hp <;> exact hok

theorem Inv.alone (h : s.Inv) (hd : s.lock.depth t = 1) (hp : s.Pending u) : u = t :=
  h.lock.one u t (.inl (by rw [(h.pending_lock hp).2]; exact Nat.one_pos)) (.inl (by rw [hd]; exact Nat.one_pos))

theorem Inv.quiet_of (h : s.Inv) (hd : s.lock.depth t = 1) (hp : ¬ s.Pending t) :
    s.issued = s.consumed ∧ s.expectingIntr = false ∧ s.value = 0 :=
  h.quiet fun _ hu => hp (h.alone hd hu ▸ hu)

theorem Start.inv (h : s.Start) : s.Inv := by
  obtain ⟨hl, he, hv, hw, hpc, hi, hc⟩ := h
  have hno : ∀ t, ¬ s.Pending t := fun t hp => by simp [Pending, hpc] at hp
  refine ⟨hl.inv, fun t => ?_, fun t => by simp [hw, hpc], by simp [hw], fun t hp => absurd hp (hno t),
    fun _ => ⟨hi.trans hc.symm, he, hv⟩⟩
  obtain ⟨-, -, -, -, hlpc, hd⟩ := hl
  rw [hpc, hlpc, hd]
  exact ⟨rfl, rfl⟩

theorem pending_congr (hpc : s'.pc u = s.pc u) (hreq : s'.request u = s.request u) : s'.Pending u ↔ s.Pending u := by
  unfold Pending
  rw [hpc, hreq]

theorem pending_down (hpc : s.pc t = .down ∨ s.pc t = .woken) : s.Pending t := by
  rcases hpc with e | e <;> simp [Pending, e]

variable [DecidableEq τ]

theorem Inv.move (h : s.Inv) (hlo : s'.lock.Inv)
    (ho : ∀ u, u ≠ t → s'.lock.depth u = s.lock.depth u ∧
      (s'.lock.pc u = s.lock.pc u ∨ (s.lock.pc u = .blocked ∧ s'.lock.pc u = .woken)))
    (hpc : s'.pc = update s.pc t q) (hreq : ∀ u, u ≠ t → s'.request u = s.request u)
    (hok : q.Ok (s'.lock.pc t) (s'.lock.depth t)) (hf : s.pc t ≠ .blocked) (hto : q ≠ .blocked)
    (hpend : s'.Pending t ↔ s.Pending t) (hw : s'.waiters = s.waiters)
    (hcnt : s'.issued = s.issued ∧ s'.consumed = s.consumed ∧ s'.expectingIntr = s.expectingIntr ∧ s'.value = s.value) :
    s'.Inv := by
  obtain ⟨hi, hc, he, hv⟩ := hcnt
  have hsame : ∀ u, s'.Pending u ↔ s.Pending u := fun u => by
    by_cases hut : u = t
    · rw [hut]
      exact hpend
    · exact pending_congr (by rw [hpc, update_of_ne hut]) (hreq u hut)
  refine ⟨hlo, fun u => ?_, fun u => ?_, hw ▸ h.nodup, fun u hu => ?_, fun hall => ?_⟩
  · by_cases hut : u = t
    · rw [hut, hpc, update_self]
      exact hok
    · obtain ⟨hd, hp⟩ := ho u hut
      have hu := h.ok u
      rw [hpc, update_of_ne hut, hd]
      rcases hp with e | ⟨e, e'⟩
      · rw [e]
        exact hu
      · rw [e] at hu
        rw [e']
        exact hu.wake
  · rw [hw, h.waits u, hpc]
    by_cases hut : u = t
    · rw [hut, update_self]
      exact iff_of_false hf hto
    · rw [update_of_ne hut]
  · rw [hi, hc, he, hv]
    exact h.pending u ((hsame u).mp hu)
  · rw [hi, hc, he, hv]
    exact h.quiet fun u hu => hall u ((hsame u).mpr hu)

theorem Inv.goto (h : s.Inv) (hok : q.Ok (s.lock.pc t) (s.lock.depth t)) (hf : s.pc t ≠ .blocked) (hto : q ≠ .blocked)
    (hpend : (s.goto t q).Pending t ↔ s.Pending t) : (s.goto t q).Inv :=
  h.move h.lock (fun _ _ => ⟨rfl, .inl rfl⟩) rfl (fun _ _ => rfl) hok hf hto hpend rfl ⟨rfl, rfl, rfl, rfl⟩

theorem Inv.advance (h : s.Inv) (hok : q.Ok (s.lock.pc t) (s.lock.depth t)) (hf : s.pc t ≠ .blocked) (hto : q ≠ .blocked)
    (hpend : ((s.advance t).goto t q).Pending t ↔ s.Pending t) : ((s.advance t).goto t q).Inv :=
  h.move h.lock (fun _ _ => ⟨rfl, .inl rfl⟩) rfl (fun _ hu => update_of_ne hu _ _) hok hf hto hpend rfl ⟨rfl, rfl, rfl, rfl⟩

theorem Inv.locked {lock : LockState τ} (h : s.Inv) (hpc : s.pc t = .acquire ∨ s.pc t = .release) (hin : s.lock.pc t ≠ .out)
    (hex : s.lock.exec t = .ok lock) : { s with lock }.Inv := by
  obtain ⟨l, hl, hinv⟩ := h.lock.exec t
  cases hl.symm.trans hex
  have hlo : lock.Inv := hinv fun _ => by
    have := h.shallow t
    have := (h.ok t).depth_le
    omega
  have hs := update_eq_self t s.pc
  refine h.move (t := t) (q := s.pc t) hlo (fun u hu => exec_other hex hu) hs.symm (fun _ _ => rfl) ?_ ?_ ?_ Iff.rfl rfl
    ⟨rfl, rfl, rfl, rfl⟩
  · have hok := h.ok t
    rcases hpc with e | e <;> rw [e] at hok ⊢
    · rcases hok with ⟨hq, hd⟩ | ⟨hout, -⟩
      · exact h.lock.acquiring hq hd hex
      · exact absurd hout hin
    · rcases hok with ⟨hq, hd⟩ | ⟨hout, -⟩
      · exact h.lock.releasing hq hd hex
      · exact absurd hout hin
  · rcases hpc with e | e <;> rw [e] <;> decide
  · rcases hpc with e | e <;> rw [e] <;> decide

theorem Inv.expect (h : s.Inv) (hpc : s.pc t = .expect) :
    ({ s with expectingIntr := true, issued := s.issued + 1 }.goto t .command).Inv := by
  have hok := h.ok t
  rw [hpc] at hok
  have hnot : ¬ s.Pending t := fun hp => by simp [Pending, hpc] at hp
  obtain ⟨hi, -, hv⟩ := h.quiet_of hok.2 hnot
  have hs : ({ s with expectingIntr := true, issued := s.issued + 1 }.goto t .command).Pending t := by simp [Pending, IdeState.goto]
  refine ⟨h.lock, fun u => ?_, fun u => ?_, h.nodup, fun u _ => ?_, fun hall => absurd hs (hall t)⟩
  · show (update s.pc t .command u).Ok _ _
    by_cases hut : u = t
    · rw [hut, update_self]
      exact hok
    · rw [update_of_ne hut]
      exact h.ok u
  · show u ∈ s.waiters ↔ update s.pc t .command u = .blocked
    rw [h.waits u]
    by_cases hut : u = t
    · rw [hut, update_self, hpc]
      exact iff_of_false (by decide) (by decide)
    · rw [update_of_ne hut]
  · exact ⟨congrArg (· + 1) hi, .inl ⟨rfl, hv⟩⟩

theorem Inv.taken (h : s.Inv) (hpend : s.Pending t) (he : s.expectingIntr = false) (hl : s'.lock = s.lock)
    (hpc : s'.pc = update s.pc t q) (hreq : ∀ u, u ≠ t → s'.request u = s.request u) (hw : s'.waiters = s.waiters)
    (hok : q.Ok .out 1) (hf : s.pc t ≠ .blocked) (hto : q ≠ .blocked) (hdo : ¬ s'.Pending t)
    (hcnt : s'.issued = s.issued ∧ s'.consumed = s.consumed + 1 ∧ s'.expectingIntr = s.expectingIntr ∧ s'.value = 0) : s'.Inv := by
  obtain ⟨hi', hc', he', hv'⟩ := hcnt
  obtain ⟨hout, hd⟩ := h.pending_lock hpend
  have hno : ∀ u, ¬ s'.Pending u := fun u hu => by
    by_cases hut : u = t
    · exact hdo (hut ▸ hu)
    · have hu : s.Pending u := (pending_congr (by rw [hpc, update_of_ne hut]) (hreq u hut)).mp hu
      exact hut (h.alone hd hu)
  refine ⟨hl ▸ h.lock, fun u => ?_, fun u => ?_, hw ▸ h.nodup, fun u hu => absurd hu (hno u), fun _ => ⟨?_, he'.trans he, hv'⟩⟩
  · rw [hl, hpc]
    by_cases hut : u = t
    · rw [hut, update_self, hout, hd]
      exact hok
    · rw [update_of_ne hut]
      exact h.ok u
  · rw [hw, h.waits u, hpc]
    by_cases hut : u = t
    · rw [hut, update_self]
      exact iff_of_false hf hto
    · rw [update_of_ne hut]
  · rw [hi', hc', (h.pending t hpend).1]

theorem Inv.semaDown (h : s.Inv) (hpc : s.pc t = .down ∨ s.pc t = .woken) : ∃ s', s.semaDown t = .ok s' ∧ s'.Inv := by
  have hok : s.lock.pc t = .out ∧ s.lock.depth t = 1 := by
    have := h.ok t
    rcases hpc with e | e <;> rw [e] at this <;> exact this
  have hne : s.pc t ≠ .blocked := by rcases hpc with e | e <;> rw [e] <;> decide
  have hpend := pending_down hpc
  obtain ⟨hi, hval⟩ := h.pending t hpend
  by_cases hv : s.value = 0
  · have hwa : t ∉ s.waiters := fun hm => hne ((h.waits t).mp hm)
    refine ⟨_, semaDown_block hv hwa, ?_⟩
    have hs : ({ s with waiters := s.waiters ++ [t] }.goto t .blocked).Pending t := by simp [Pending, IdeState.goto]
    refine ⟨h.lock, fun u => ?_, fun u => ?_, ?_, fun u _ => ⟨hi, hval⟩, fun hall => absurd hs (hall t)⟩
    · show (update s.pc t .blocked u).Ok _ _
      by_cases hut : u = t
      · rw [hut, update_self]
        exact hok
      · rw [update_of_ne hut]
        exact h.ok u
    · show u ∈ s.waiters ++ [t] ↔ update s.pc t .blocked u = .blocked
      by_cases hut : u = t
      · simp [hut]
      · simp [hut, update_of_ne, h.waits u]
    · show (s.waiters ++ [t]).Nodup
      rw [List.nodup_append_comm]
      exact List.nodup_cons.mpr ⟨hwa, h.nodup⟩
  · -- the token that the interrupt left
    obtain ⟨-, e⟩ | ⟨he, hone⟩ := hval
    · exact absurd e hv
    unfold IdeState.semaDown
    rw [semaDown_pass hone]
    dsimp only
    split
    · refine ⟨_, rfl, h.taken (q := .loop) hpend he rfl rfl (fun u hu => update_of_ne hu _ _) rfl ⟨rfl, rfl⟩ hne (by decide) ?_ ⟨rfl, rfl, rfl, rfl⟩⟩
      simp [Pending, IdeState.goto]
    · rename_i hr
      refine ⟨_, rfl, h.taken (q := .busyWait) hpend he rfl rfl (fun _ _ => rfl) rfl ⟨rfl, rfl⟩ hne (by decide) ?_ ⟨rfl, rfl, rfl, rfl⟩⟩
      simpa [Pending, IdeState.goto] using hr

omit [DecidableEq τ] in
theorem Inv.raised (h : s.Inv) (hpend : s.Pending t) (hl : s'.lock = s.lock) (hreq : s'.request = s.request)
    (hpc : ∀ u, s'.pc u = s.pc u ∨ (s.pc u = .blocked ∧ s'.pc u = .woken)) (hnd : s'.waiters.Nodup)
    (hw : ∀ u, u ∈ s'.waiters ↔ s'.pc u = .blocked)
    (hcnt : s'.issued = s.issued ∧ s'.consumed = s.consumed ∧ s'.expectingIntr = false ∧ s'.value = 1) : s'.Inv := by
  obtain ⟨hi', hc', he', hv'⟩ := hcnt
  have hsame : ∀ u, s'.Pending u ↔ s.Pending u := fun u => by
    rcases hpc u with e | ⟨e, e'⟩
    · exact pending_congr e (by rw [hreq])
    · simp [Pending, e, e']
  refine ⟨hl ▸ h.lock, fun u => ?_, hw, hnd, fun u _ => ⟨by rw [hi', hc', (h.pending t hpend).1], .inr ⟨he', hv'⟩⟩,
    fun hall => absurd ((hsame t).mpr hpend) (hall t)⟩
  have hu := h.ok u
  rw [hl]
  rcases hpc u with e | ⟨e, e'⟩
  · rw [e]
    exact hu
  · rw [e] at hu
    rw [e']
    exact hu

theorem Inv.intr (h : s.Inv) : ∃ s', s.intrHdHandler = .ok s' ∧ s'.Inv := by
  unfold intrHdHandler
  by_cases he : s.expectingIntr = true
  swap
  · exact ⟨s, if_neg he, h⟩
  rw [if_pos he]
  -- somebody waits for it
  obtain ⟨t, ht⟩ : ∃ t, s.Pending t := by
    by_contra hno
    have := (h.quiet fun t ht => hno ⟨t, ht⟩).2.1
    rw [he] at this
    cases this
  obtain ⟨-, ⟨-, hv⟩ | ⟨e, -⟩⟩ := h.pending t ht
  swap
  · rw [he] at e
    cases e
  cases hws : s.waiters with
  | nil =>
    exact ⟨_, semaUp_zero hv rfl, h.raised ht rfl rfl (fun _ => .inl rfl) (hws ▸ h.nodup) (fun u => hws ▸ h.waits u)
      ⟨rfl, rfl, rfl, rfl⟩⟩
  | cons w ws =>
    have hb := (h.waits w).mp (hws ▸ .head _)
    have hnd := List.nodup_cons.mp (hws ▸ h.nodup)
    refine ⟨_, semaUp_zero (u := { s with expectingIntr := false, waiters := ws }.goto w .woken) hv ?_,
      h.raised ht rfl rfl (fun u => ?_) hnd.2 (fun u => ?_) ⟨rfl, rfl, rfl, rfl⟩⟩
    · show IdeState.threadUnblock _ w = _
      unfold IdeState.threadUnblock
      rw [assert_of _ (by exact hb)]
      rfl
    · show update s.pc w .woken u = _ ∨ _ ∧ update s.pc w .woken u = _
      by_cases huw : u = w
      · rw [huw, update_self]
        exact .inr ⟨hb, rfl⟩
      · rw [update_of_ne huw]
        exact .inl rfl
    · show u ∈ ws ↔ update s.pc w .woken u = .blocked
      have hmem := h.waits u
      rw [hws, List.mem_cons] at hmem
      by_cases huw : u = w
      · rw [huw, update_self]
        exact iff_of_false hnd.1 (by decide)
      · rw [update_of_ne huw, ← hmem]
        exact ⟨.inr, fun h => h.resolve_left huw⟩

theorem Inv.exec {ready : Bool} (h : s.Inv) (hex : s.exec t ready = .ok s') : s'.Inv := by
  have hok := h.ok t
  unfold IdeState.exec at hex
  cases hpc : s.pc t <;> rw [hpc] at hok <;> simp only [hpc] at hex
  case out | blocked =>
    cases hex
    exact h
  case acquire =>
    split at hex
    · rename_i hout
      cases hex
      have hd : s.lock.depth t = 1 := by
        rcases hok with ⟨hq, -⟩ | ⟨-, hd⟩
        · rw [hout] at hq
          simp [Acquiring] at hq
        · exact hd
      exact h.goto ⟨hout, hd⟩ (by simp [hpc]) (by decide) (by simp [Pending, IdeState.goto, hpc])
    · rename_i hin
      obtain ⟨lock, hl, hex⟩ := bind_ok.mp hex
      cases hex
      exact h.locked (.inl hpc) hin hl
  case release =>
    split at hex
    · rename_i hout
      cases hex
      have hd : s.lock.depth t = 0 := by
        rcases hok with ⟨hq, -⟩ | ⟨-, hd⟩
        · rw [hout] at hq
          simp [Releasing] at hq
        · exact hd
      exact h.goto ⟨hout, hd⟩ (by simp [hpc]) (by decide) (by simp [Pending, IdeState.goto, hpc])
    · rename_i hin
      obtain ⟨lock, hl, hex⟩ := bind_ok.mp hex
      cases hex
      exact h.locked (.inr hpc) hin hl
  case loop =>
    split at hex <;> cases hex
    · exact h.goto hok (by simp [hpc]) (by decide) (by simp [Pending, IdeState.goto, hpc])
    have hh : s.lock.holder = some t := by
      have := h.lock.pc_ok hok.1
      exact this.mpr (by rw [hok.2]; exact Nat.one_pos)
    have hlo := h.lock.step ⟨.release t hok.1 hh, h.shallow⟩
    refine h.move (t := t) (q := .release) hlo (fun u hu => ⟨rfl, .inl ?_⟩) rfl (fun _ _ => rfl) ?_ (by simp [hpc]) (by decide) ?_ rfl
      ⟨rfl, rfl, rfl, rfl⟩
    · show (s.lock.goto t .relAssert).pc u = _
      rw [LockState.goto_pc, if_neg hu]
    · show IdePc.Ok .release ((s.lock.goto t .relAssert).pc t) (s.lock.depth t)
      rw [LockState.goto_pc, if_pos rfl]
      exact .inl ⟨.inl rfl, hok.2⟩
    · simp [Pending, IdeState.goto, hpc]
  case select =>
    obtain ⟨_, -, hex⟩ := bind_ok.mp hex
    cases hex
    exact h.goto hok (by simp [hpc]) (by decide) (by simp [Pending, IdeState.goto, hpc])
  case expect =>
    cases hex
    exact h.expect hpc
  case command =>
    cases hex
    split
    · exact h.goto hok (by simp [hpc]) (by decide) (by simp_all [Pending, IdeState.goto])
    · exact h.goto hok (by simp [hpc]) (by decide) (by simp [Pending, IdeState.goto, hpc])
  case busyWait =>
    split at hex <;> cases hex
    exact h.goto hok (by simp [hpc]) (by decide) (by simp [Pending, IdeState.goto, hpc])
  case transfer =>
    cases hex
    split
    · exact h.goto hok (by simp [hpc]) (by decide) (by simp_all [Pending, IdeState.goto])
    · exact h.advance hok (by simp [hpc]) (by decide) (by simp_all [Pending, IdeState.goto])
  case down =>
    obtain ⟨s1, h1, hinv⟩ := h.semaDown (.inl hpc)
    cases h1.symm.trans hex
    exact hinv
  case woken =>
    obtain ⟨s1, h1, hinv⟩ := h.semaDown (.inr hpc)
    cases h1.symm.trans hex
    exact hinv

theorem Inv.begin {write : Bool} {lba secCnt : UInt32} (h : s.Inv) (hout : s.pc t = .out)
    (hr : s.begin t write lba secCnt = .ok s') : s'.Inv := by
  unfold IdeState.begin at hr
  simp only [bind_ok] at hr
  obtain ⟨_, -, _, -, hr⟩ := hr
  cases hr
  have hok := h.ok t
  rw [hout] at hok
  have hlo := h.lock.step ⟨.acquire t hok.1, h.shallow⟩
  refine h.move (t := t) (q := .acquire) hlo (fun u hu => ⟨rfl, .inl ?_⟩) rfl (fun u hu => update_of_ne hu _ _) ?_ (by simp [hout])
    (by decide) ?_ rfl ⟨rfl, rfl, rfl, rfl⟩
  · show (s.lock.goto t .acqTest).pc u = _
    rw [LockState.goto_pc, if_neg hu]
  · show IdePc.Ok .acquire ((s.lock.goto t .acqTest).pc t) (s.lock.depth t)
    rw [LockState.goto_pc, if_pos rfl]
    exact .inl ⟨.inl rfl, hok.2⟩
  · simp [Pending, IdeState.goto, hout]

theorem Inv.step (h : s.Inv) (hs : IdeStep s s') : s'.Inv := by
  cases hs with
  | call hout hr => exact h.begin hout hr
  | exec hex => exact h.exec hex
  | intr hi =>
    obtain ⟨s1, h1, hinv⟩ := h.intr
    cases h1.symm.trans hi
    exact hinv

/-- **One token for each command.** Every call of `cmd_out` so far has consumed one token, is
waiting for it, or has one ready, and a call of `cmd_out` finds all earlier tokens consumed. -/
theorem disk_done_protocol (h : Reach IdeStep Start s) :
    (∃ s', s.intrHdHandler = .ok s') ∧ s.value.toNat ≤ 1 ∧
      s.consumed + s.value.toNat + (if s.expectingIntr then 1 else 0) = s.issued ∧ s.issued ≤ s.consumed + 1 ∧
      (∀ t, s.pc t = .expect → s.value = 0 ∧ s.expectingIntr = false ∧ s.consumed = s.issued) := by
  have hinv : s.Inv := h.invariant (fun _ h0 => h0.inv) fun _ _ hi hs => hi.step hs
  obtain ⟨s', hs', -⟩ := hinv.intr
  refine ⟨⟨s', hs'⟩, ?_⟩
  by_cases hp : ∃ t, s.Pending t
  · obtain ⟨t, ht⟩ := hp
    obtain ⟨hi, hval⟩ := hinv.pending t ht
    refine ⟨?_, ?_, by omega, fun u hu => ?_⟩
    · obtain ⟨-, hv⟩ | ⟨-, hv⟩ := hval <;> rw [hv] <;> decide
    · obtain ⟨he, hv⟩ | ⟨he, hv⟩ := hval <;> rw [hv, he, hi] <;> rfl
    · -- a thread about to issue a command holds the lock
      have hok := hinv.ok u
      rw [hu] at hok
      have := hinv.alone hok.2 ht
      subst this
      simp [Pending, hu] at ht
  · obtain ⟨hi, he, hv⟩ := hinv.quiet fun t ht => hp ⟨t, ht⟩
    refine ⟨by rw [hv]; decide, by rw [hv, he, hi]; rfl, by omega, fun _ _ => ⟨hv, he, hi.symm⟩⟩

def idleChannel : IdeState Unit :=
  ⟨⟨1, [], none, 0, fun _ => .out, fun _ => 0⟩, false, 0, [], fun _ => .out, fun _ => ⟨false, 0, 0, 0⟩, 0, 0⟩

def advanceOne (s : IdeState Unit) (intr : Bool) : Option (IdeState Unit) :=
  if intr then s.intrHdHandler.toOption else (s.exec () true).toOption

theorem advanceOne_step (s : IdeState Unit) (intr : Bool) (s' : IdeState Unit) (h : s.advanceOne intr = some s') : IdeStep s s' := by
  have hok : ∀ {x : Exec (IdeState Unit)}, x.toOption = some s' → x = .ok s' := by
    intro x hx
    cases x with
    | ok y =>
      cases hx
      rfl
    | error f => cases hx
  unfold advanceOne at h
  split at h
  · exact .intr (hok h)
  · exact .exec (hok h)

/-- Interrupts come before the command, right after `expecting_intr` is set, and while the thread
waits. -/
def oneSector : List Bool :=
  [false, false, false, false, false, false, true, false, false, false, true, false, true, false, false, false, false]

theorem disk_done_protocol_read : ∃ s : IdeState Unit, Reach IdeStep Start s ∧ s.issued = 1 ∧ s.consumed = 1 ∧
    s.consumed + s.value.toNat + (if s.expectingIntr then 1 else 0) = s.issued := by
  have hb : idleChannel.begin () false 7 1 = .ok _ := ok_getD idleChannel (by decide +kernel)
  have h1 : Reach IdeStep Start ((idleChannel.begin () false 7 1).toOption.getD idleChannel) :=
    (Reach.refl ⟨⟨rfl, rfl, rfl, rfl, fun _ => rfl, fun _ => rfl⟩, rfl, rfl, rfl, fun _ => rfl, rfl, rfl⟩).tail (.call rfl hb)
  have h2 := Reach.played advanceOne_step oneSector idleChannel h1 (by decide +kernel)
  exact ⟨_, h2, by decide +kernel, by decide +kernel, (disk_done_protocol h2).2.2.1⟩

end IdeState

end OperateSystem
