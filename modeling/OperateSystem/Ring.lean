import Mathlib

/-!
# Ring buffers

Two positions run around a buffer of `N` cells, and one cell stays free so that
equal positions mean an empty buffer. The cells from the tail up to the head are
the items, oldest first.
-/

namespace OperateSystem

open Function

namespace Ring

variable {α : Type} {N head tail : Nat} {buf : Nat → α} {x : α}

def length (N head tail : Nat) : Nat := if tail ≤ head then head - tail else N - (tail - head)

def items (N : Nat) (buf : Nat → α) (head tail : Nat) : List α :=
  (List.range (length N head tail)).map fun i => buf ((tail + i) % N)

theorem length_items : (items N buf head tail).length = length N head tail := by simp [items]

theorem mod_wrap {k : Nat} (h : k < 2 * N) : k % N = if k < N then k else k - N := by
  split
  · rename_i hk
    exact Nat.mod_eq_of_lt hk
  · rename_i hk
    rw [Nat.mod_eq_sub_mod (Nat.le_of_not_lt hk), Nat.mod_eq_of_lt (by omega)]

theorem length_lt (hh : head < N) : length N head tail < N := by
  unfold length
  split <;> omega

theorem length_eq_zero (ht : tail < N) : length N head tail = 0 ↔ head = tail := by
  unfold length
  split <;> omega

variable (hh : head < N) (ht : tail < N)
include hh ht

theorem length_full : length N head tail = N - 1 ↔ (head + 1) % N = tail := by
  rw [mod_wrap (by omega)]
  unfold length
  split <;> split <;> omega

theorem length_put (hne : (head + 1) % N ≠ tail) : length N ((head + 1) % N) tail = length N head tail + 1 := by
  rw [mod_wrap (by omega)] at *
  unfold length
  repeat' split at * <;> try omega

theorem length_get (hne : head ≠ tail) : length N head tail = length N head ((tail + 1) % N) + 1 := by
  rw [mod_wrap (by omega)]
  unfold length
  repeat' split <;> try omega

theorem cell_ne_head {i : Nat} (hi : i < length N head tail) : (tail + i) % N ≠ head := by
  have hlt : length N head tail < N := length_lt hh
  rw [mod_wrap (by omega)]
  unfold length at hi
  split <;> split at hi <;> omega

theorem cell_at_head : (tail + length N head tail) % N = head := by
  have hlt : length N head tail < N := length_lt hh
  rw [mod_wrap (by omega)]
  unfold length
  repeat' split <;> try omega

theorem items_put (hne : (head + 1) % N ≠ tail) :
    items N (update buf head x) ((head + 1) % N) tail = items N buf head tail ++ [x] := by
  unfold items
  rw [length_put hh ht hne, List.range_succ, List.map_append, List.map_singleton, cell_at_head hh ht, update_self]
  refine congrArg (· ++ [x]) (List.map_congr_left fun i hi => ?_)
  exact update_of_ne (cell_ne_head hh ht (List.mem_range.mp hi)) _ _

theorem items_get (hne : head ≠ tail) : items N buf head tail = buf tail :: items N buf head ((tail + 1) % N) := by
  unfold items
  rw [length_get hh ht hne, List.range_succ_eq_map, List.map_cons, Nat.add_zero, Nat.mod_eq_of_lt ht, List.map_map]
  refine congrArg (buf tail :: ·) (List.map_congr_left fun i _ => ?_)
  show buf ((tail + (i + 1)) % N) = buf (((tail + 1) % N + i) % N)
  rw [Nat.mod_add_mod, Nat.add_assoc, Nat.add_comm 1 i]

end Ring

end OperateSystem
