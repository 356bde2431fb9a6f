import Mathlib

/-!
# Postconditions of runs that may fail

`Post bad x P`: if `x` returns, the result satisfies `P`, and if it fails, not
with an error in `bad`.
-/

namespace OperateSystem

variable {ε α β : Type} {bad : ε → Prop} {P : α → Prop} {Q : β → Prop}
variable {x : Except ε α}

def Post (bad : ε → Prop) (x : Except ε α) (P : α → Prop) : Prop :=
  match x with
  | .ok a => P a
  | .error e => ¬ bad e

theorem Post.ok {a : α} (h : P a) : Post bad (.ok a) P := h

theorem Post.error {e : ε} (h : ¬ bad e) : Post bad (.error e) P := h

theorem Post.of_eq (h : ∃ a, x = .ok a ∧ P a) : Post bad x P := by
  obtain ⟨a, rfl, ha⟩ := h
  exact ha

theorem Post.bind {f : α → Except ε β} (h : Post bad x P) (hf : ∀ a, P a → Post bad (f a) Q) :
    Post bad (x >>= f) Q := by
  cases x with
  | ok a => exact hf a h
  | error e => exact h

theorem Post.map {f : α → β} (h : Post bad x fun a => Q (f a)) : Post bad (f <$> x) Q := by
  cases x with
  | ok a => exact h
  | error e => exact h

theorem Post.mono {P' : α → Prop} (h : Post bad x P) (himp : ∀ a, P a → P' a) : Post bad x P' := by
  cases x with
  | ok a => exact himp a h
  | error e => exact h

theorem Post.holds {a : α} (h : Post bad x P) (hx : x = .ok a) : P a := by
  subst hx
  exact h

theorem Post.fails {e : ε} (h : Post bad x P) (hx : x = .error e) : ¬ bad e := by
  subst hx
  exact h

end OperateSystem
