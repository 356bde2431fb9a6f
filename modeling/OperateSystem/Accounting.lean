import Mathlib

/-!
# Accounting for allocated units

An allocator marks units as used; keys hold units. `Accounted` says that the
books balance: a unit is used iff it was used at the start or exactly one key
holds it. Taking a fresh unit and giving one back both keep the balance.

Users are counted as a sum over a table; a change of one entry changes the sum by
what that entry counts for. Likewise the contents of a table of slots change by
one item when one slot is filled.
-/

namespace OperateSystem

open Function
variable {α β : Type} {l : List α} {a : α}

structure Accounted {κ ι : Type} (dom base used : ι → Prop) (own : κ → Option ι) : Prop where
  inj : ∀ {k k' i}, own k = some i → own k' = some i → k = k'
  used_iff : ∀ i, used i ↔ base i ∨ ∃ k, own k = some i
  fresh : ∀ {k i}, own k = some i → ¬ base i
  in_dom : ∀ {k i}, own k = some i → dom i

namespace Accounted

variable {κ ι : Type} {dom base used used' : ι → Prop} {own : κ → Option ι}

theorem start (dom used : ι → Prop) : Accounted dom used used (fun _ : κ => none) where
  inj h := by cases h
  used_iff i := by simp
  fresh h := by cases h
  in_dom h := by cases h

theorem held_used (a : Accounted dom base used own) {k : κ} {i : ι} (h : own k = some i) : used i :=
  (a.used_iff i).mpr (.inr ⟨k, h⟩)

variable [DecidableEq κ]

theorem take (a : Accounted dom base used own) {k : κ} {i : ι} (hk : own k = none) (hi : ¬ used i) (hd : dom i)
    (hu : ∀ x, used' x ↔ used x ∨ x = i) : Accounted dom base used' (update own k (some i)) := by
  have hne : ∀ k' i', own k' = some i' → k' ≠ k ∧ i' ≠ i := by
    intro k' i' h
    refine ⟨?_, fun e => hi (e ▸ a.held_used h)⟩
    rintro rfl
    rw [hk] at h; cases h
  have hc : ∀ {k' i'}, update own k (some i) k' = some i' →
      (k' = k ∧ i' = i) ∨ (k' ≠ k ∧ own k' = some i') := by
    intro k' i' h
    by_cases e : k' = k
    · subst e; simp at h; exact .inl ⟨rfl, h.symm⟩
    · rw [update_of_ne e] at h; exact .inr ⟨e, h⟩
  refine ⟨?_, ?_, ?_, ?_⟩
  · intro k1 k2 x h1 h2
    rcases hc h1 with ⟨e1, ex⟩ | ⟨_, h1⟩ <;> rcases hc h2 with ⟨e2, ey⟩ | ⟨_, h2⟩
    · rw [e1, e2]
    · exact absurd ex (hne _ _ h2).2
    · exact absurd ey (hne _ _ h1).2
    · exact a.inj h1 h2
  · intro x
    rw [hu, a.used_iff]
    constructor
    · rintro ((hb | ⟨k', h'⟩) | rfl)
      · exact .inl hb
      · exact .inr ⟨k', by rw [update_of_ne (hne _ _ h').1]; exact h'⟩
      · exact .inr ⟨k, by simp⟩
    · rintro (hb | ⟨k', h'⟩)
      · exact .inl (.inl hb)
      · rcases hc h' with ⟨_, e⟩ | ⟨_, h'⟩
        · exact .inr e
        · exact .inl (.inr ⟨k', h'⟩)
  · intro k' x h'
    rcases hc h' with ⟨_, e⟩ | ⟨_, h'⟩
    · subst e; exact fun hb => hi ((a.used_iff _).mpr (.inl hb))
    · exact a.fresh h'
  · intro k' x h'
    rcases hc h' with ⟨_, e⟩ | ⟨_, h'⟩
    · subst e; exact hd
    · exact a.in_dom h'

theorem give (a : Accounted dom base used own) {k : κ} {i : ι} (hk : own k = some i)
    (hu : ∀ x, used' x ↔ used x ∧ x ≠ i) : Accounted dom base used' (update own k none) := by
  have hc : ∀ {k' i'}, update own k none k' = some i' → k' ≠ k ∧ own k' = some i' := by
    intro k' i' h
    by_cases e : k' = k
    · subst e; simp at h
    · rw [update_of_ne e] at h; exact ⟨e, h⟩
  refine ⟨fun h1 h2 => a.inj (hc h1).2 (hc h2).2, ?_, fun h => a.fresh (hc h).2, fun h => a.in_dom (hc h).2⟩
  intro x
  rw [hu, a.used_iff]
  constructor
  · rintro ⟨hb | ⟨k', h'⟩, hx⟩
    · exact .inl hb
    · have : k' ≠ k := fun e => hx (by rw [e, hk] at h'; exact (Option.some.inj h').symm)
      exact .inr ⟨k', by rw [update_of_ne this]; exact h'⟩
  · rintro (hb | ⟨k', h'⟩)
    · exact ⟨.inl hb, fun e => a.fresh hk (e ▸ hb)⟩
    · obtain ⟨e, h'⟩ := hc h'
      exact ⟨.inr ⟨k', h'⟩, fun ex => e (a.inj h' (ex ▸ hk))⟩

end Accounted

theorem sum_map_update {α β : Type} [DecidableEq α] (F : β → Nat) (f : α → β) (a : α) (v : β) : ∀ {l : List α},
    l.Nodup → a ∈ l →
      (l.map fun x => F (update f a v x)).sum + F (f a) = (l.map fun x => F (f x)).sum + F v
  | [], _, ha => by cases ha
  | x :: l, hn, ha => by
    obtain ⟨hx, hn⟩ := List.nodup_cons.mp hn
    simp only [List.map_cons, List.sum_cons]
    by_cases hxa : x = a
    · subst hxa
      have hl : (l.map fun y => F (update f x v y)) = l.map fun y => F (f y) :=
        List.map_congr_left fun y hy => by
          have hyx : y ≠ x := fun e => hx (e ▸ hy)
          rw [update_of_ne hyx]
      rw [hl, update_self]
      omega
    · have ha : a ∈ l := (List.mem_cons.mp ha).resolve_left (Ne.symm hxa)
      have ih := sum_map_update F f a v hn ha
      rw [update_of_ne hxa]
      omega

theorem sum_map_update_of_notMem [DecidableEq α] (F : β → Nat) (f : α → β) (v : β) (ha : a ∉ l) :
    (l.map fun x => F (update f a v x)).sum = (l.map fun x => F (f x)).sum := by
  congr 1
  refine List.map_congr_left fun y hy => ?_
  have hya : y ≠ a := fun e => ha (e ▸ hy)
  rw [update_of_ne hya]

theorem filterMap_perm_fill [DecidableEq α] {f g : α → Option β} {x : β} (hn : l.Nodup) (ha : a ∈ l)
    (hg : g a = some x) (hf : f a = none) (hne : ∀ y, y ≠ a → g y = f y) :
    (l.filterMap g).Perm (x :: l.filterMap f) := by
  have hpe := List.perm_cons_erase ha
  have hr := List.filterMap_congr fun y hy => hne y (hn.mem_erase_iff.mp hy).1
  have hf' : (l.filterMap f).Perm ((l.erase a).filterMap f) := by
    have := hpe.filterMap f
    rwa [List.filterMap_cons_none hf] at this
  have hg' : (l.filterMap g).Perm (x :: (l.erase a).filterMap g) := by
    have := hpe.filterMap g
    rwa [List.filterMap_cons_some hg] at this
  rw [hr] at hg'
  exact hg'.trans (hf'.symm.cons x)

theorem filterMap_slot_unique {γ : Type} [DecidableEq α] {f : α → Option β} {g : β → γ} {b : α}
    {x y : β} (hn : ((l.filterMap f).map g).Nodup) (ha : a ∈ l) (hb : b ∈ l) (hx : f a = some x)
    (hy : f b = some y) (he : g x = g y) :
    a = b := by
  by_contra hne
  have hb' := (List.mem_erase_of_ne (Ne.symm hne)).mpr hb
  have hpe := (List.perm_cons_erase ha).trans ((List.perm_cons_erase hb').cons a)
  have hn' := ((hpe.filterMap f).map g).nodup_iff.mp hn
  rw [List.filterMap_cons_some hx, List.filterMap_cons_some hy, List.map_cons, List.map_cons, he] at hn'
  exact (List.nodup_cons.mp hn').1 List.mem_cons_self

end OperateSystem
