import OperateSystem.Outcome

/-!
# Runs that may stop

A kernel function either returns or stops the machine: a failed `ASSERT`, a
`PANIC`, or an access outside every object the function may touch. `Exec` is
the type of such runs, and `bind_ok` takes a successful run apart.
-/

namespace OperateSystem
variable {c : Prop} {cond : String} {α : Type}

inductive Fault where
  | assertion (cond : String)
  | panic (msg : String)
  | outOfBounds
  deriving Repr, DecidableEq

abbrev Exec := Except Fault

/-- `NDEBUG` compiles every `ASSERT` out (`kernel/debug.h`). -/
inductive Build where
  | debug
  | ndebug
  deriving Repr, DecidableEq

def assert (b : Build) (c : Prop) [Decidable c] (cond : String) : Exec Unit :=
  match b with
  | .debug => if c then .ok () else .error (.assertion cond)
  | .ndebug => .ok ()

/-- An array access that the C code performs without a check of its own. -/
def inBounds (c : Prop) [Decidable c] : Exec Unit :=
  if c then .ok () else .error .outOfBounds

def deref : Option α → Exec α
  | some x => .ok x
  | none => .error .outOfBounds

@[simp] theorem deref_ok {o : Option α} {x : α} : deref o = .ok x ↔ o = some x := by
  cases o <;> simp [deref]

section
variable {α β : Type}

theorem bind_ok {x : Exec α} {f : α → Exec β} {r : β} :
    (x >>= f) = .ok r ↔ ∃ a, x = .ok a ∧ f a = .ok r := by
  cases x <;> simp [bind, Except.bind]

@[simp] theorem ok_bind (a : α) (f : α → Exec β) : (Except.ok a >>= f) = f a := rfl

@[simp] theorem pure_ok (a : α) : (pure a : Exec α) = .ok a := rfl

@[simp] theorem error_bind (e : Fault) (f : α → Exec β) : (Except.error e >>= f) = .error e := rfl

end

@[simp] theorem assert_debug_ok [Decidable c] {u : Unit} :
    assert .debug c cond = .ok u ↔ c := by
  unfold assert; by_cases h : c <;> simp [h]

@[simp] theorem assert_ndebug (c : Prop) [Decidable c] (cond : String) : assert .ndebug c cond = .ok () := rfl

theorem assert_error {b : Build} [Decidable c] {f : Fault} (h : assert b c cond = .error f) :
    f = .assertion cond := by
  cases b with
  | debug =>
    by_cases hc : c <;> simp only [assert, hc, ite_true, ite_false, reduceCtorEq, Except.error.injEq] at h
    exact h.symm
  | ndebug => cases h

theorem assert_of {b : Build} [Decidable c] (cond : String) (h : c) : assert b c cond = .ok () := by
  cases b <;> simp [assert, h]

theorem Post.check {bad : Fault → Prop} {P : α → Prop} [Decidable c] {f : Unit → Exec α}
    (hb : ¬ bad (.assertion cond)) (hf : c → Post bad (f ()) P) :
    Post bad (assert .debug c cond >>= f) P := by
  by_cases hc : c
  · rw [assert_of _ hc]
    exact hf hc
  · simp only [assert, if_neg hc]
    exact hb

theorem inBounds_of [Decidable c] (h : c) : inBounds c = .ok () := if_pos h

theorem inBounds_not [Decidable c] (h : ¬ c) : inBounds c = .error .outOfBounds := if_neg h

@[simp] theorem inBounds_ok [Decidable c] {u : Unit} : inBounds c = .ok u ↔ c := by
  unfold inBounds; by_cases h : c <;> simp [h]

theorem ok_getD {x : Exec α} (d : α) (h : x.isOk = true) : x = .ok (x.toOption.getD d) := by
  cases x with
  | ok a => rfl
  | error e => cases h

theorem exists_of_map {β : Type} {r : Exec α} {f : α → β} {v : β} (h : r.toOption.map f = some v) :
    ∃ x, r = .ok x ∧ f x = v := by
  cases r with
  | error e => cases h
  | ok x => exact ⟨x, rfl, Option.some.inj h⟩

theorem exists_of_any {r : Exec α} {q : α → Bool} (h : r.toOption.any q = true) :
    ∃ x, r = .ok x ∧ q x = true := by
  cases r with
  | error f => cases h
  | ok x => exact ⟨x, rfl, h⟩

end OperateSystem
