import Mathlib

/-!
# Calls that interleave

Two callers work on shared data. Each call moves in steps, and between two steps
of one the other may move. When no call moves while the other is under way, the
two took place one after the other.
-/

namespace OperateSystem

open Function

variable {σ κ ε : Type}

/-- How a call on shared data `σ` moves: `κ` is what the call keeps for itself. -/
structure Machine (σ κ ε : Type) where
  step : σ → κ → Except ε (σ × κ)
  started : κ → Bool
  ended : κ → Bool

namespace Machine

inductive Move (M : Machine σ κ ε) (p : Bool) : σ × (Bool → κ) → σ × (Bool → κ) → Prop
  | mk {s s' : σ} {c : Bool → κ} {x : κ} (hrun : M.ended (c p) = false) (hstep : M.step s (c p) = .ok (s', x)) :
    Move M p (s, c) (s', Function.update c p x)

def alone (M : Machine σ κ ε) (p : Bool) (t : σ × (Bool → κ)) : Bool := !M.started (t.2 !p) || M.ended (t.2 !p)

def Allowed (M : Machine σ κ ε) (allowed : Bool → σ × (Bool → κ) → Bool) (t t' : σ × (Bool → κ)) : Prop :=
  ∃ p, allowed p t = true ∧ M.Move p t t'

/-- The callers move in the order of a list; one that is over or may not move is passed over. -/
def play (M : Machine σ κ ε) (allowed : Bool → σ × (Bool → κ) → Bool) :
    List Bool → σ × (Bool → κ) → Except ε (σ × (Bool → κ))
  | [], t => .ok t
  | p :: ps, t =>
    if M.ended (t.2 p) = false ∧ allowed p t = true then
      match M.step t.1 (t.2 p) with
      | .ok (s, x) => play M allowed ps (s, Function.update t.2 p x)
      | .error e => .error e
    else play M allowed ps t

/-- `run` is what a call does from any point on when nobody interferes. -/
structure Runs (M : Machine σ κ ε) (run : σ → κ → Except ε (σ × κ)) : Prop where
  step : ∀ {s c s' c'}, M.step s c = .ok (s', c') → run s c = run s' c'
  ended : ∀ {s c}, M.ended c → run s c = .ok (s, c)
  started : ∀ {s c s' c'}, M.step s c = .ok (s', c') → M.started c'

variable {M : Machine σ κ ε} {run : σ → κ → Except ε (σ × κ)} {s0 s : σ} {c0 c : Bool → κ}

theorem play_allowed {allowed : Bool → σ × (Bool → κ) → Bool} : ∀ (ps : List Bool) {t t' : σ × (Bool → κ)},
    M.play allowed ps t = .ok t' → Relation.ReflTransGen (M.Allowed allowed) t t'
  | [], t, t', h => by
    cases h
    exact .refl
  | p :: ps, (s, c), t', h => by
    unfold play at h
    split at h
    · rename_i hp
      split at h
      · rename_i s' x hs
        exact .head ⟨p, hp.2, .mk hp.1 hs⟩ (play_allowed ps h)
      · cases h
    · exact play_allowed ps h

/-- How far two calls have come: at most `p` has moved, or `p` is over and the other one moved on
from what it left. -/
inductive Serial (M : Machine σ κ ε) (run : σ → κ → Except ε (σ × κ)) (s0 : σ) (c0 : Bool → κ) :
    σ × (Bool → κ) → Prop
  | none : Serial M run s0 c0 (s0, c0)
  | first {s : σ} {c : Bool → κ} (p : Bool) (hother : c (!p) = c0 !p) (hstarted : M.started (c p))
    (hrun : run s (c p) = run s0 (c0 p)) : Serial M run s0 c0 (s, c)
  | second {s s1 : σ} {c : Bool → κ} (p : Bool) (hended : M.ended (c p)) (hfirst : run s0 (c0 p) = .ok (s1, c p))
    (hrun : run s (c !p) = run s1 (c0 !p)) : Serial M run s0 c0 (s, c)

theorem Serial.move (h : M.Runs run) {t t' : σ × (Bool → κ)} {p : Bool} (ht : Serial M run s0 c0 t)
    (ha : M.alone p t = true) (hm : M.Move p t t') : Serial M run s0 c0 t' := by
  cases hm with
  | @mk s s' c x hrun hs =>
    have hse : update c p x p = x := update_self ..
    have hk : update c p x (!p) = c !p := update_of_ne (by simp) _ _
    cases ht with
    | none =>
      refine .first p hk ?_ ?_
      · rw [hse]
        exact h.started hs
      · rw [hse]
        exact (h.step hs).symm
    | first q ho hst hq =>
      by_cases hpq : p = q
      · subst hpq
        refine .first p (hk.trans ho) ?_ ?_
        · rw [hse]
          exact h.started hs
        · rw [hse, ← h.step hs, hq]
      · -- the other call begins, so the first one is over
        obtain rfl : q = !p := by cases p <;> cases q <;> simp_all
        have hov : M.ended (c !p) = true := by simpa [alone, hst] using ha
        have hf : run s0 (c0 !p) = .ok (s, c !p) := by
          rw [← hq]
          exact h.ended hov
        rw [Bool.not_not] at ho
        refine .second (!p) (by rwa [hk]) (by rwa [hk]) ?_
        rw [Bool.not_not, hse, ← h.step hs, ho]
    | @second _ s1 _ q he hf hq =>
      have hpq : p ≠ q := fun e => by simp [e, he] at hrun
      obtain rfl : q = !p := by cases p <;> cases q <;> simp_all
      rw [Bool.not_not] at hq
      refine .second (!p) (by rwa [hk]) (by rwa [hk]) ?_
      rw [Bool.not_not, hse, ← h.step hs, hq]

theorem Runs.serial (h : M.Runs run) {t : σ × (Bool → κ)}
    (hrun : Relation.ReflTransGen (M.Allowed M.alone) (s0, c0) t) : Serial M run s0 c0 t := by
  induction hrun with
  | refl => exact .none
  | tail _ hm ih =>
    obtain ⟨p, ha, hm⟩ := hm
    exact ih.move h ha hm

theorem Serial.both (h : M.Runs run) (ht : Serial M run s0 c0 (s, c)) (hs : ∀ p, M.ended (c0 p) = false)
    (hend : ∀ p, M.ended (c p)) :
    ∃ p s1, run s0 (c0 p) = .ok (s1, c p) ∧ run s1 (c0 !p) = .ok (s, c !p) := by
  cases ht with
  | none => exact absurd (hend true) (by simp [hs])
  | first p ho =>
    refine absurd (hend !p) ?_
    simp [ho, hs]
  | second p he hf hrun => exact ⟨p, _, hf, by rw [← hrun, h.ended (hend _)]⟩

end Machine

end OperateSystem
