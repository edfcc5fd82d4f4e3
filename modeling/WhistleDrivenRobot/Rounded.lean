/-
This file is a small library about arithmetic whose results are rounded. A value
stands for a real number; up to a limit, an operation misses the exact result by a
small part of it and a little more. The rules carry the errors of the operands
through an operation.
-/

import Mathlib.Algebra.Order.Ring.Abs
import Mathlib.Analysis.Real.Sqrt
import Mathlib.Tactic.Linarith
import Mathlib.Tactic.Ring

namespace Rounded

variable {Value : Type}

/-- Rounded arithmetic: the part of a result that an operation may miss, the least error, and the
limit of the results. -/
structure Arithmetic [Add Value] [Sub Value] [Mul Value] (worth : Value → ℝ → Prop)
    (part least limit : ℝ) : Prop where
  part_nonneg : 0 ≤ part
  least_nonneg : 0 ≤ least
  add : ∀ {first second : Value} {size other : ℝ}, worth first size → worth second other →
    |size + other| < limit →
      ∃ sum, worth (first + second) sum ∧ |sum - (size + other)| ≤ part * |size + other| + least
  sub : ∀ {first second : Value} {size other : ℝ}, worth first size → worth second other →
    |size - other| < limit →
      ∃ difference, worth (first - second) difference ∧
        |difference - (size - other)| ≤ part * |size - other| + least
  mul : ∀ {first second : Value} {size other : ℝ}, worth first size → worth second other →
    |size * other| < limit →
      ∃ product, worth (first * second) product ∧
        |product - size * other| ≤ part * |size * other| + least

/-- A value is worth a number up to an error. -/
def Close (worth : Value → ℝ → Prop) (value : Value) (size error : ℝ) : Prop :=
  ∃ stored, worth value stored ∧ |stored - size| ≤ error

variable {worth : Value → ℝ → Prop} {first second value : Value}
  {size other error otherError part least limit bound : ℝ}

theorem Close.of_worth (isWorth : worth value size) : Close worth value size 0 :=
  ⟨size, isWorth, by rw [sub_self, abs_zero]⟩

theorem Close.mono (close : Close worth value size error) (more : error ≤ otherError) :
    Close worth value size otherError := by
  obtain ⟨stored, isWorth, near⟩ := close
  exact ⟨stored, isWorth, near.trans more⟩

/-- The error of a result: what the exact operation makes of the stored operands, and the rounding
of a result that the bound covers. -/
theorem total_le {stored exact target : ℝ} (nonnegative : 0 ≤ part)
    (rounding : |stored - exact| ≤ part * |exact| + least) (moved : |exact - target| ≤ error)
    (covered : |exact| ≤ bound) : |stored - target| ≤ error + (part * bound + least) := by
  have scaled := mul_le_mul_of_nonneg_left covered nonnegative
  have triangle := abs_sub_le stored exact target
  linarith

section Rules

variable [Add Value] [Sub Value] [Mul Value] (arithmetic : Arithmetic worth part least limit)
include arithmetic

theorem Close.add (bound : ℝ) (firstClose : Close worth first size error)
    (secondClose : Close worth second other otherError)
    (covered : |size + other| + (error + otherError) ≤ bound) (small : bound < limit) :
    Close worth (first + second) (size + other)
      (error + otherError + (part * bound + least)) := by
  obtain ⟨stored, isWorth, near⟩ := firstClose
  obtain ⟨otherStored, otherWorth, otherNear⟩ := secondClose
  have moved : |stored + otherStored - (size + other)| ≤ error + otherError := by
    have triangle := abs_add_le (stored - size) (otherStored - other)
    rw [add_sub_add_comm]
    linarith
  have inside : |stored + otherStored| ≤ bound := by
    have triangle := abs_sub_abs_le_abs_sub (stored + otherStored) (size + other)
    linarith
  obtain ⟨sum, sumWorth, rounding⟩ := arithmetic.add isWorth otherWorth (inside.trans_lt small)
  exact ⟨sum, sumWorth, total_le arithmetic.part_nonneg rounding moved inside⟩

theorem Close.sub (bound : ℝ) (firstClose : Close worth first size error)
    (secondClose : Close worth second other otherError)
    (covered : |size - other| + (error + otherError) ≤ bound) (small : bound < limit) :
    Close worth (first - second) (size - other)
      (error + otherError + (part * bound + least)) := by
  obtain ⟨stored, isWorth, near⟩ := firstClose
  obtain ⟨otherStored, otherWorth, otherNear⟩ := secondClose
  have moved : |stored - otherStored - (size - other)| ≤ error + otherError := by
    have triangle := abs_sub (stored - size) (otherStored - other)
    rw [sub_sub_sub_comm]
    linarith
  have inside : |stored - otherStored| ≤ bound := by
    have triangle := abs_sub_abs_le_abs_sub (stored - otherStored) (size - other)
    linarith
  obtain ⟨difference, differenceWorth, rounding⟩ :=
    arithmetic.sub isWorth otherWorth (inside.trans_lt small)
  exact ⟨difference, differenceWorth, total_le arithmetic.part_nonneg rounding moved inside⟩

theorem Close.mul {sizeBound otherBound : ℝ} (bound : ℝ)
    (firstClose : Close worth first size error)
    (secondClose : Close worth second other otherError) (sizeInside : |size| ≤ sizeBound)
    (otherInside : |other| ≤ otherBound)
    (covered : (sizeBound + error) * (otherBound + otherError) ≤ bound) (small : bound < limit) :
    Close worth (first * second) (size * other)
      (error * (otherBound + otherError) + sizeBound * otherError + (part * bound + least)) := by
  obtain ⟨stored, isWorth, near⟩ := firstClose
  obtain ⟨otherStored, otherWorth, otherNear⟩ := secondClose
  have storedInside : |stored| ≤ sizeBound + error := by
    have triangle := abs_sub_abs_le_abs_sub stored size
    linarith
  have otherStoredInside : |otherStored| ≤ otherBound + otherError := by
    have triangle := abs_sub_abs_le_abs_sub otherStored other
    linarith
  have moved : |stored * otherStored - size * other| ≤
      error * (otherBound + otherError) + sizeBound * otherError := by
    have split : stored * otherStored - size * other =
        (stored - size) * otherStored + size * (otherStored - other) := by ring
    calc |stored * otherStored - size * other|
        ≤ |(stored - size) * otherStored| + |size * (otherStored - other)| := by
          rw [split]
          exact abs_add_le _ _
      _ = |stored - size| * |otherStored| + |size| * |otherStored - other| := by
          rw [abs_mul, abs_mul]
      _ ≤ error * (otherBound + otherError) + sizeBound * otherError :=
          add_le_add
            (mul_le_mul near otherStoredInside (abs_nonneg _) ((abs_nonneg _).trans near))
            (mul_le_mul sizeInside otherNear (abs_nonneg _) ((abs_nonneg _).trans sizeInside))
  have inside : |stored * otherStored| ≤ bound := by
    rw [abs_mul]
    exact (mul_le_mul storedInside otherStoredInside (abs_nonneg _)
      ((abs_nonneg _).trans storedInside)).trans covered
  obtain ⟨product, productWorth, rounding⟩ :=
    arithmetic.mul isWorth otherWorth (inside.trans_lt small)
  exact ⟨product, productWorth, total_le arithmetic.part_nonneg rounding moved inside⟩

end Rules

/-- A root of a number that is off by a part of itself and a little more. -/
theorem abs_sqrt_sub_le {stored exact little : ℝ} (nonnegative : 0 ≤ exact) (partNonneg : 0 ≤ part)
    (partLe : part ≤ 1) (littleNonneg : 0 ≤ little)
    (near : |stored - exact| ≤ part * exact + little ^ 2) :
    |√stored - √exact| ≤ part * √exact + little := by
  have root := Real.sqrt_nonneg exact
  have square : √exact ^ 2 = exact := Real.sq_sqrt nonnegative
  have bounds := abs_le.mp near
  have upper : √stored ≤ √exact + (part * √exact + little) := by
    refine Real.sqrt_le_iff.mpr ⟨by positivity, ?_⟩
    have cross : 0 ≤ √exact * little * (1 + part) := by positivity
    have more : 0 ≤ part * √exact ^ 2 * (1 + part) := by positivity
    nlinarith
  have lower : √exact - (part * √exact + little) ≤ √stored := by
    by_cases small : (1 - part) * √exact ≤ little
    · have stays := Real.sqrt_nonneg stored
      linarith
    · refine Real.le_sqrt_of_sq_le ?_
      have cross : little * little ≤ little * ((1 - part) * √exact) :=
        mul_le_mul_of_nonneg_left (not_le.mp small).le littleNonneg
      have less : (1 - part) * ((1 - part) * √exact ^ 2) ≤ 1 * ((1 - part) * √exact ^ 2) :=
        mul_le_mul_of_nonneg_right (by linarith) (by nlinarith)
      nlinarith
  exact abs_le.mpr ⟨by linarith, by linarith⟩

end Rounded
