import Mathlib

/-!
# Reachable states

States reached from an initial one by any number of steps, and the induction
that every safety result uses.
-/

namespace OperateSystem

variable {σ : Type} {step : σ → σ → Prop} {init : σ → Prop}

def Reach (step : σ → σ → Prop) (init : σ → Prop) (s : σ) : Prop := ∃ s0, init s0 ∧ Relation.ReflTransGen step s0 s

theorem Reach.refl {s : σ} (h : init s) : Reach step init s := ⟨s, h, .refl⟩

theorem Reach.tail {s s' : σ} (h : Reach step init s) (hs : step s s') : Reach step init s' := by
  obtain ⟨s0, h0, hr⟩ := h
  exact ⟨s0, h0, hr.tail hs⟩

theorem Reach.play {ε : Type} {f : σ → ε → Option σ} (hf : ∀ s e s', f s e = some s' → step s s') :
    ∀ (es : List ε) {s s' : σ}, Reach step init s → es.foldlM f s = some s' → Reach step init s'
  | [], s, s', h, hp => by
    cases hp
    exact h
  | e :: es, s, s', h, hp => by
    rw [List.foldlM_cons] at hp
    obtain ⟨s1, h1, hp⟩ := Option.bind_eq_some_iff.mp hp
    exact Reach.play hf es (h.tail (hf s e s1 h1)) hp

theorem Reach.played {ε : Type} {f : σ → ε → Option σ} (hf : ∀ s e s', f s e = some s' → step s s') (es : List ε) {s : σ} (d : σ)
    (hr : Reach step init s) (h : (es.foldlM f s).isSome = true) : Reach step init ((es.foldlM f s).getD d) := by
  obtain ⟨s', hs'⟩ := Option.isSome_iff_exists.mp h
  rw [hs', Option.getD_some]
  exact Reach.play hf es hr hs'

theorem Reach.invariant {P : σ → Prop} (h0 : ∀ s, init s → P s) (hst : ∀ s s', P s → step s s' → P s') {s : σ}
    (h : Reach step init s) : P s := by
  obtain ⟨s0, hi, hr⟩ := h
  induction hr with
  | refl => exact h0 _ hi
  | tail _ hs ih => exact hst _ _ ih hs

end OperateSystem
