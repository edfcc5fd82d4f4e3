/-
This file is a small library about cells of memory that are read as a list. The
cells are a function of their place; a list of values is written to consecutive
places.
-/

import Mathlib.Logic.Function.Basic

namespace Cells

variable {Value : Type}

/-- Writing behind the cells that are read is not seen. -/
theorem map_range_update_of_le (cells : Nat → Value) {bound place : Nat} (behind : bound ≤ place)
    (value : Value) :
    (List.range bound).map (Function.update cells place value) = (List.range bound).map cells := by
  refine List.map_congr_left fun index member => Function.update_of_ne ?_ _ _
  exact Nat.ne_of_lt (Nat.lt_of_lt_of_le (List.mem_range.mp member) behind)

/-- Writing the next cell adds its value to the list. -/
theorem map_range_update (cells : Nat → Value) (bound : Nat) (value : Value) :
    (List.range (bound + 1)).map (Function.update cells bound value) =
      (List.range bound).map cells ++ [value] := by
  rw [List.range_succ, List.map_append, List.map_singleton, Function.update_self,
    map_range_update_of_le cells (Nat.le_refl bound)]

end Cells
