/-
This file is a small library about circular queues. A circular queue of `size`
cells is described by the position of its oldest cell and by how many cells are
occupied; the occupied cells, oldest first, are a window that wraps around. The
window is what a first-in first-out queue sees: filling a cell appends at one
end, emptying one drops the other. The cell filled next is never in the window
while the window is not full.
-/

import Mathlib.Data.List.Range
import Mathlib.Data.Nat.ModEq

namespace Ring

/-! ### The occupied cells -/

/-- The occupied cells of a ring of `size` cells, oldest first. -/
def window (size first count : Nat) : List Nat :=
  (List.range count).map fun offset => (first + offset) % size

/-- The cell that is filled next. -/
def next (size first count : Nat) : Nat := (first + count) % size

theorem mem_window {size first count cell : Nat} :
    cell ∈ window size first count ↔ ∃ offset < count, (first + offset) % size = cell := by
  simp only [window, List.mem_map, List.mem_range]

/-- Filling the next cell appends it to the window. -/
theorem window_succ (size first count : Nat) :
    window size first (count + 1) = window size first count ++ [next size first count] := by
  rw [window, List.range_succ, List.map_append, List.map_singleton]
  rfl

/-- The oldest cell is the head of the window, the rest is the window one further on. -/
theorem window_succ' (size first count : Nat) :
    window size first (count + 1) = first % size :: window size (first + 1) count := by
  rw [window, List.range_succ_eq_map, List.map_cons, List.map_map]
  refine congrArg (List.cons (first % size)) (List.map_congr_left fun offset _ => ?_)
  simp only [Function.comp_apply, Nat.succ_eq_add_one]
  rw [Nat.add_assoc, Nat.add_comm 1 offset]

/-- The window depends on the position of its oldest cell modulo the size only. -/
theorem window_mod (size first count : Nat) :
    window size (first % size) count = window size first count :=
  List.map_congr_left fun offset _ => Nat.mod_add_mod first size offset

theorem next_mod (size first count : Nat) :
    next size (first % size) count = next size first count :=
  Nat.mod_add_mod first size count

/-- Emptying the oldest cell moves the cell filled next nowhere. -/
theorem next_pred (size first count : Nat) :
    next size (first + 1) count = next size first (count + 1) := by
  rw [next, next, Nat.add_assoc, Nat.add_comm 1 count]

/-- Two cells of one turn of the ring are the same cell only at the same offset. -/
theorem offset_injective {size first one other : Nat} (oneSmall : one < size)
    (otherSmall : other < size) (same : (first + one) % size = (first + other) % size) :
    one = other := by
  have congruent : one ≡ other [MOD size] := Nat.ModEq.add_left_cancel' first same
  rwa [Nat.ModEq, Nat.mod_eq_of_lt oneSmall, Nat.mod_eq_of_lt otherSmall] at congruent

/-- While the ring is not full, the cell filled next is not occupied. -/
theorem next_notMem_window {size first count : Nat} (room : count < size) :
    next size first count ∉ window size first count := by
  intro member
  obtain ⟨offset, small, same⟩ := mem_window.mp member
  exact absurd (offset_injective (small.trans room) room same) (Nat.ne_of_lt small)

/-- The oldest cell is occupied as soon as any is. -/
theorem first_mem_window {size first count : Nat} (some : 0 < count) :
    first % size ∈ window size first count :=
  mem_window.mpr ⟨0, some, rfl⟩

/-- Stepping to the following cell by a comparison is stepping modulo the size. -/
theorem wrap_eq_mod {size cell : Nat} (inside : cell < size) :
    (if size ≤ cell + 1 then 0 else cell + 1) = (cell + 1) % size := by
  split
  · rw [show cell + 1 = size by omega, Nat.mod_self]
  · exact (Nat.mod_eq_of_lt (by omega)).symm

/-! ### The contents of the occupied cells -/

section Contents

variable {Value : Type} (cells : Nat → Value)

/-- The contents of the occupied cells, oldest first. -/
def contents (size first count : Nat) : List Value :=
  (window size first count).map cells

/-- Filling the next cell appends its new value to the contents. -/
theorem contents_fill {size first count : Nat} (room : count < size) (value : Value) :
    contents (Function.update cells (next size first count) value) size first (count + 1) =
      contents cells size first count ++ [value] := by
  rw [contents, window_succ, List.map_append, List.map_singleton, Function.update_self]
  refine congrArg (· ++ [value]) (List.map_congr_left fun cell member => ?_)
  exact Function.update_of_ne (ne_of_mem_of_not_mem member (next_notMem_window room)) _ _

/-- Emptying the oldest cell drops the head of the contents. -/
theorem contents_empty (size first count : Nat) :
    contents cells size first (count + 1) =
      cells (first % size) :: contents cells size (first + 1) count := by
  rw [contents, window_succ', List.map_cons, contents]

end Contents

end Ring
