/-
This file is a small library about the reversal of the bits of a number of a
fixed width. Reversal turns a digit that is appended at one end into a digit at
the other end, so it is its own inverse.
-/

import Mathlib.Algebra.Order.Ring.Nat
import Mathlib.Tactic.Ring

namespace Reversal

/-- The lowest bits of a number in the opposite order. -/
def reverse : Nat → Nat → Nat
  | 0, _ => 0
  | width + 1, number => number % 2 * 2 ^ width + reverse width (number / 2)

theorem reverse_lt (width number : Nat) : reverse width number < 2 ^ width := by
  induction width generalizing number with
  | zero => exact Nat.one_pos
  | succ width inductionHypothesis =>
    have rest := inductionHypothesis (number / 2)
    have bit : number % 2 * 2 ^ width ≤ 1 * 2 ^ width :=
      Nat.mul_le_mul_right _ (Nat.le_of_lt_succ (Nat.mod_lt _ Nat.two_pos))
    rw [reverse, pow_succ]
    omega

/-- A bit that is appended below moves to the top. -/
theorem reverse_append (width number bit : Nat) (single : bit < 2) :
    reverse (width + 1) (2 * number + bit) = bit * 2 ^ width + reverse width number := by
  have low : (2 * number + bit) % 2 = bit := by omega
  have high : (2 * number + bit) / 2 = number := by omega
  rw [reverse, low, high]

/-- A bit that is put on top moves to the bottom. -/
theorem reverse_top (width number bit : Nat) (single : bit < 2) (fits : number < 2 ^ width) :
    reverse (width + 1) (bit * 2 ^ width + number) = 2 * reverse width number + bit := by
  induction width generalizing number with
  | zero =>
    obtain rfl : number = 0 := by simpa using fits
    rw [pow_zero, Nat.mul_one]
    show (bit + 0) % 2 * 2 ^ 0 + 0 = 2 * 0 + bit
    omega
  | succ width inductionHypothesis =>
    have split : bit * 2 ^ (width + 1) + number =
        2 * (bit * 2 ^ width + number / 2) + number % 2 := by
      rw [pow_succ]
      have parts := Nat.div_add_mod number 2
      have doubled : bit * (2 ^ width * 2) = 2 * (bit * 2 ^ width) := by ring
      omega
    rw [pow_succ] at fits
    rw [split, reverse_append _ _ _ (Nat.mod_lt _ Nat.two_pos),
      inductionHypothesis (number / 2) (by omega), reverse, pow_succ]
    ring

/-- Reversing twice gives the number back. -/
theorem reverse_reverse {width number : Nat} (fits : number < 2 ^ width) :
    reverse width (reverse width number) = number := by
  induction width generalizing number with
  | zero =>
    obtain rfl : number = 0 := by simpa using fits
    rfl
  | succ width inductionHypothesis =>
    rw [pow_succ] at fits
    have step : reverse (width + 1) number =
        number % 2 * 2 ^ width + reverse width (number / 2) := rfl
    rw [step, reverse_top _ _ _ (Nat.mod_lt _ Nat.two_pos) (reverse_lt ..),
      inductionHypothesis (by omega)]
    omega

/-- Equal reversals are reversals of equal numbers. -/
theorem reverse_injective {width one other : Nat} (oneFits : one < 2 ^ width)
    (otherFits : other < 2 ^ width) (same : reverse width one = reverse width other) :
    one = other := by
  rw [← reverse_reverse oneFits, same, reverse_reverse otherFits]

/-- Two bits that are appended below move to the top, in the opposite order. -/
theorem reverse_digit (width number digit : Nat) (single : digit < 4) :
    reverse (width + 2) (4 * number + digit) =
      (digit % 2 * 2 + digit / 2) * 2 ^ width + reverse width number := by
  have split : 4 * number + digit = 2 * (2 * number + digit / 2) + digit % 2 := by omega
  rw [split, reverse_append _ _ _ (Nat.mod_lt _ Nat.two_pos),
    reverse_append _ _ _ (by omega), pow_succ]
  ring

/-- Zeros below a number are zeros on top of its reversal. -/
theorem reverse_scaled (width extra number : Nat) :
    reverse (width + extra) (number * 2 ^ extra) = reverse width number := by
  induction extra with
  | zero => rw [Nat.add_zero, pow_zero, Nat.mul_one]
  | succ extra inductionHypothesis =>
    have low := reverse_append (width + extra) (number * 2 ^ extra) 0 Nat.two_pos
    have doubled : 2 * (number * 2 ^ extra) + 0 = number * 2 ^ (extra + 1) := by ring
    rw [doubled, Nat.zero_mul, Nat.zero_add, inductionHypothesis] at low
    exact low

theorem reverse_zero (width : Nat) : reverse width 0 = 0 := by
  have scaled := reverse_scaled 0 width 0
  rwa [Nat.zero_mul, Nat.zero_add] at scaled

end Reversal
