import OperateSystem.Exec

/-!
# Semaphores

`sema_down` and `sema_up` of `thread/sync.c`, over the value and the waiters of a
semaphore. What becomes of a thread that blocks, comes through or is taken from
the waiters depends on what else is modelled, so that part is an argument.
-/

namespace OperateSystem

variable {σ τ : Type} {s u : σ} {value : UInt8} {waiters : List τ}

/-- A thread that comes back from `block` tests `value` again. -/
def semaDown [DecidableEq τ] (value : UInt8) (waiters : List τ) (t : τ) (block : List τ → Exec σ) (pass : UInt8 → Exec σ) :
    Exec σ :=
  if value = 0 then do
    assert .debug (t ∉ waiters) "!elem_find(&psema->waiters, &running_thread()->general_tag)"
    if t ∈ waiters then .error (.panic "sema_down: thread blocked has been in waiters_lsit\n")
    else block (waiters ++ [t])
  else do
    assert .debug (value - 1 = 0) "psema->value == 0"
    pass (value - 1)

def wakeFirst (waiters : List τ) (s : σ) (unblock : τ → List τ → Exec σ) : Exec σ :=
  match waiters with
  | [] => .ok s
  | w :: ws => unblock w ws

def semaUp (value : UInt8) (waiters : List τ) (s : σ) (unblock : τ → List τ → Exec σ) (set : σ → UInt8 → σ) : Exec σ := do
  assert .debug (value = 0) "psema->value == 0"
  let s ← wakeFirst waiters s unblock
  assert .debug (value + 1 = 1) "psema->value == 1"
  return set s (value + 1)

/-- The `ASSERT` of `thread_unblock`. -/
def unblockCond : String :=
  "((pthread->status == TASK_BLOCKED) || (pthread->status == TASK_WAITING) || (pthread->status == TASK_HANGING))"

section
variable [DecidableEq τ] {t : τ} {block : List τ → Exec σ} {pass : UInt8 → Exec σ}

theorem semaDown_block (hv : value = 0) (ht : t ∉ waiters) : semaDown value waiters t block pass = block (waiters ++ [t]) := by
  unfold semaDown
  rw [if_pos hv, assert_of _ ht, ok_bind, if_neg ht]

theorem semaDown_pass (hv : value = 1) : semaDown value waiters t block pass = pass 0 := by
  rw [hv]
  rfl

theorem semaDown_ok (h : semaDown value waiters t block pass = .ok u) :
    block (waiters ++ [t]) = .ok u ∨ pass (value - 1) = .ok u := by
  unfold semaDown at h
  split at h
  · obtain ⟨_, -, h⟩ := bind_ok.mp h
    split at h
    · cases h
    · exact .inl h
  · obtain ⟨_, -, h⟩ := bind_ok.mp h
    exact .inr h

end

theorem semaUp_zero {unblock : τ → List τ → Exec σ} {set : σ → UInt8 → σ} (hv : value = 0)
    (h : wakeFirst waiters s unblock = .ok u) : semaUp value waiters s unblock set = .ok (set u 1) := by
  unfold semaUp
  rw [hv, h]
  rfl

end OperateSystem
