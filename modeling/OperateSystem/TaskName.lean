import OperateSystem.Exec
import OperateSystem.Mem

/-!
# The name of a process

`name` is a field of 16 bytes in the PCB. `sys_fork` appends `"_fork"` to the
child's copy, `sys_execv` overwrites it with the first bytes of the path. A write
or a walk to the NUL that leaves the field is out of bounds.
-/

namespace OperateSystem

open Function

/-! ## `lib/string.c` on the field -/

def strlen (name : Mem) : Nat → Nat → Exec Nat
  | 0, _ => throw .outOfBounds
  | n + 1, p => if name p = 0 then return p else strlen name n (p + 1)

def copyString (name : Mem) : List UInt8 → Nat → Exec Mem
  | [], str => do
    inBounds (str < 16)
    return update name str 0
  | c :: src, str => do
    inBounds (str < 16)
    copyString (update name str c) src (str + 1)

def strcat (name : Mem) (src : List UInt8) : Exec Mem := do
  let str ← strlen name 16 0
  copyString name src str

/-! ## `sys_fork` and `sys_execv` -/

def forkSuffix : List UInt8 := [95, 102, 111, 114, 107]

def forkedName (b : Build) (name : Mem) : Exec Mem := do
  let len ← strlen name 16 0
  assert b (len < 11) "strlen(child_thread->name) < 11"
  strcat name forkSuffix

/-- Sixteen bytes from `path` on, whatever its length, and a NUL in the last one. -/
def execName (path name : Mem) : Mem := update (blit name 0 path 0 16) 15 0

def initName : Mem := fun j => [105, 110, 105, 116].getD j 0

/-- What the processes of a chain do: the next process is the child, or the same one
runs another program. -/
inductive ChainStep where
  | fork
  | execv (path : Mem)

def ChainStep.run (b : Build) (name : Mem) : ChainStep → Exec Mem
  | .fork => forkedName b name
  | .execv path => .ok (execName path name)

/-! ## Lengths -/

structure HoldsString (name : Mem) (len : Nat) : Prop where
  lt : len < 16
  nul : name len = 0
  text : ∀ j < len, name j ≠ 0

def cutLength (s : Mem) : Nat → Nat → Nat
  | 0, p => p
  | n + 1, p => if s p = 0 then p else cutLength s n (p + 1)

theorem cutLength_spec (s : Mem) : ∀ n p, p ≤ cutLength s n p ∧ cutLength s n p ≤ p + n ∧
    (cutLength s n p < p + n → s (cutLength s n p) = 0) ∧ ∀ j, p ≤ j → j < cutLength s n p → s j ≠ 0
  | 0, p => ⟨le_rfl, le_rfl, fun h => absurd h (Nat.lt_irrefl p), fun j h1 h2 => absurd h2 (Nat.not_lt.mpr h1)⟩
  | n + 1, p => by
    unfold cutLength
    by_cases hz : s p = 0
    · rw [if_pos hz]
      exact ⟨le_rfl, by omega, fun _ => hz, fun j h1 h2 => absurd h2 (Nat.not_lt.mpr h1)⟩
    · rw [if_neg hz]
      obtain ⟨h1, h2, h3, h4⟩ := cutLength_spec s n (p + 1)
      refine ⟨by omega, by omega, fun h => h3 (by omega), fun j hj hlt => ?_⟩
      by_cases hjp : j = p
      · rw [hjp]
        exact hz
      · exact h4 j (by omega) hlt

theorem strlen_ok {name : Mem} {len : Nat} (hnul : name len = 0) : ∀ n p, p ≤ len → len < p + n → (∀ j, p ≤ j → j < len → name j ≠ 0) →
    strlen name n p = .ok len
  | 0, p, hle, hlt, _ => by omega
  | n + 1, p, hle, hlt, ht => by
    unfold strlen
    by_cases hp : p = len
    · rw [if_pos (hp ▸ hnul), hp]
      rfl
    · rw [if_neg (ht p le_rfl (by omega))]
      exact strlen_ok hnul n (p + 1) (by omega) (by omega) fun j h1 => ht j (by omega)

theorem strlen_nul {name : Mem} {len : Nat} : ∀ n p, strlen name n p = .ok len → len < p + n ∧ name len = 0
  | 0, _, h => nomatch h
  | n + 1, p, h => by
    unfold strlen at h
    split at h
    · rename_i hz
      cases h
      exact ⟨by omega, hz⟩
    · have := strlen_nul n (p + 1) h
      exact ⟨by omega, this.2⟩

theorem HoldsString.strlen {name : Mem} {len : Nat} (h : HoldsString name len) : strlen name 16 0 = .ok len :=
  strlen_ok h.nul 16 0 (Nat.zero_le _) (by have := h.lt; omega) fun j _ => h.text j

theorem copyString_ok : ∀ (src : List UInt8) (name : Mem) (str : Nat), 0 ∉ src → str + src.length < 16 → (∀ j < str, name j ≠ 0) →
    ∃ name', copyString name src str = .ok name' ∧ HoldsString name' (str + src.length)
  | [], name, str, _, hlt, ht => by
    unfold copyString
    rw [inBounds_of (by exact hlt), ok_bind]
    refine ⟨_, rfl, hlt, update_self .., fun j hj => ?_⟩
    have hj : j < str := hj
    rw [update_of_ne (by omega)]
    exact ht j hj
  | c :: src, name, str, hsrc, hlt, ht => by
    rw [List.length_cons] at hlt ⊢
    rw [List.mem_cons, not_or] at hsrc
    unfold copyString
    rw [inBounds_of (by omega), ok_bind, show str + (src.length + 1) = str + 1 + src.length by omega]
    refine copyString_ok src _ (str + 1) hsrc.2 (by omega) fun j hj => ?_
    by_cases hjs : j = str
    · rw [hjs, update_self]
      exact fun e => hsrc.1 e.symm
    · rw [update_of_ne hjs]
      exact ht j (by omega)

def ChainStep.length (len : Nat) : ChainStep → Nat
  | .fork => len + 5
  | .execv path => cutLength path 15 0

theorem execName_holds (path name : Mem) : HoldsString (execName path name) (cutLength path 15 0) := by
  obtain ⟨-, hle, hnul, ht⟩ := cutLength_spec path 15 0
  have hb : ∀ j < 15, execName path name j = path j := fun j hj => by
    unfold execName
    rw [update_of_ne (by omega), blit_in (by omega) (by omega), Nat.sub_zero, Nat.zero_add]
  refine ⟨by omega, ?_, fun j hj => ?_⟩
  · rcases Nat.lt_or_eq_of_le hle with hlt | heq
    · rw [hb _ (by omega)]
      exact hnul hlt
    · rw [heq]
      exact update_self ..
  · rw [hb j (by omega)]
    exact ht j (Nat.zero_le j) hj

theorem forkedName_ok {name : Mem} {len : Nat} (h : HoldsString name len) (hlen : len < 11) :
    ∃ name', forkedName .debug name = .ok name' ∧ HoldsString name' (len + 5) := by
  unfold forkedName strcat
  rw [h.strlen, ok_bind, assert_of _ hlen, ok_bind, ok_bind]
  exact copyString_ok forkSuffix name len (by decide) (by show len + 5 < 16; omega) h.text

theorem forkedName_stops {name : Mem} {len : Nat} (h : HoldsString name len) (hlen : ¬ len < 11) :
    forkedName .debug name = .error (.assertion "strlen(child_thread->name) < 11") := by
  unfold forkedName assert
  rw [h.strlen, ok_bind, if_neg hlen, error_bind]

theorem initName_holds : HoldsString initName 4 := ⟨by decide, by decide, by decide⟩

/-! ## Chains -/

/-- Every fork starts from a name of at most ten characters: a fork adds five. -/
def ForksFit : Nat → List ChainStep → Prop
  | _, [] => True
  | len, c :: cs => (c = .fork → len < 11) ∧ ForksFit (c.length len) cs

theorem chain_iff : ∀ (cs : List ChainStep) {name : Mem} {len : Nat}, HoldsString name len →
    ((∃ name', cs.foldlM (ChainStep.run .debug) name = .ok name') ↔ ForksFit len cs) ∧
      ∀ name', cs.foldlM (ChainStep.run .debug) name = .ok name' → ∃ len', HoldsString name' len'
  | [], name, len, h => by
    refine ⟨iff_of_true ⟨name, rfl⟩ trivial, fun name' hr => ?_⟩
    cases hr
    exact ⟨len, h⟩
  | c :: cs, name, len, h => by
    rw [List.foldlM_cons]
    unfold ForksFit
    cases c with
    | execv path =>
      have ih := chain_iff cs (execName_holds path name)
      exact ⟨ih.1.trans (and_iff_right fun e => by cases e).symm, ih.2⟩
    | fork =>
      by_cases hlen : len < 11
      · obtain ⟨name1, hr, h1⟩ := forkedName_ok h hlen
        have hrun : ChainStep.run .debug name .fork = .ok name1 := hr
        have ih := chain_iff cs h1
        rw [hrun, ok_bind]
        exact ⟨ih.1.trans (and_iff_right fun _ => hlen).symm, ih.2⟩
      · have hrun : ChainStep.run .debug name .fork = .error (.assertion "strlen(child_thread->name) < 11") := forkedName_stops h hlen
        rw [hrun, error_bind]
        refine ⟨iff_of_false (fun ⟨_, hr⟩ => by cases hr) fun hf => hlen (hf.1 rfl), fun name' hr => by cases hr⟩

/-- **Forks along a chain of processes.** No fork fails the `ASSERT` iff every one starts from a
short enough name. -/
theorem fork_chain_iff (cs : List ChainStep) :
    ((∃ name, cs.foldlM (ChainStep.run .debug) initName = .ok name) ↔ ForksFit 4 cs) ∧
      ∀ name, cs.foldlM (ChainStep.run .debug) initName = .ok name → ∃ len < 16, name len = 0 := by
  obtain ⟨hiff, hstr⟩ := chain_iff cs initName_holds
  refine ⟨hiff, fun name hr => ?_⟩
  obtain ⟨len, h⟩ := hstr name hr
  exact ⟨len, h.lt, h.nul⟩

/-- The third fork in a row, and a fork after `execv` of a path of eleven characters. -/
theorem fork_chain_stops :
    ([ChainStep.fork, .fork, .fork].foldlM (ChainStep.run .debug) initName).isOk = false ∧
    ([ChainStep.execv fun j => if j < 11 then 47 else 0, .fork].foldlM (ChainStep.run .debug) initName).isOk = false := by
  decide +kernel

end OperateSystem
