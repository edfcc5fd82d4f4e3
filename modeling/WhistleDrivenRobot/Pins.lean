/-
This file models the digital pins of the Arduino board. A program acts on the
board only through `pinMode` and `digitalWrite`, so what a piece of code does to
the board is the list of its calls, and the states between two calls are the
boards after the prefixes of that list.
-/

import Mathlib.Data.List.Infix
import Mathlib.Logic.Function.Basic

namespace WhistleDrivenRobot

inductive PinMode
  | input
  | output
  deriving DecidableEq, Repr

inductive Level
  | low
  | high
  deriving DecidableEq, Repr

/-- One digital pin: its direction and the level it is set to. -/
structure Pin where
  mode : PinMode
  level : Level
  deriving DecidableEq, Repr

abbrev Board := Nat → Pin

/-- After a reset every pin is an input that nobody drives. -/
def powerUp : Board := fun _ => ⟨.input, .low⟩

/-- The two calls of the Arduino library that change a digital pin. -/
inductive PinCall
  | pinMode (pin : Nat) (mode : PinMode)
  | digitalWrite (pin : Nat) (level : Level)
  deriving DecidableEq, Repr

/-- The pin a call acts on. -/
def PinCall.pin : PinCall → Nat
  | .pinMode pin _ => pin
  | .digitalWrite pin _ => pin

/-- The board after one call. A pin that is configured starts LOW. -/
def Board.call (board : Board) : PinCall → Board
  | .pinMode pin mode => Function.update board pin ⟨mode, .low⟩
  | .digitalWrite pin level => Function.update board pin { board pin with level := level }

/-- The board after a list of calls. -/
def Board.perform (board : Board) (calls : List PinCall) : Board :=
  calls.foldl Board.call board

@[simp]
theorem perform_nil (board : Board) : board.perform [] = board := rfl

@[simp]
theorem perform_cons (board : Board) (call : PinCall) (rest : List PinCall) :
    board.perform (call :: rest) = (board.call call).perform rest := rfl

theorem perform_append (board : Board) (first second : List PinCall) :
    board.perform (first ++ second) = (board.perform first).perform second :=
  List.foldl_append

theorem call_of_ne (board : Board) (call : PinCall) {pin : Nat} (other : pin ≠ call.pin) :
    board.call call pin = board pin := by
  cases call <;> exact Function.update_of_ne other _ _

/-- Calls on other pins leave a pin alone. -/
theorem perform_of_notMem (board : Board) {calls : List PinCall} {pin : Nat}
    (untouched : pin ∉ calls.map PinCall.pin) : board.perform calls pin = board pin := by
  induction calls generalizing board with
  | nil => rfl
  | cons call rest inductionHypothesis =>
    rw [List.map_cons, List.mem_cons, not_or] at untouched
    rw [perform_cons, inductionHypothesis _ untouched.2, call_of_ne board call untouched.1]

/-! ### Between two calls -/

/-- The property holds of the board before, between any two and after the last of the calls. -/
def Along (property : Board → Prop) (board : Board) (calls : List PinCall) : Prop :=
  ∀ taken, taken <+: calls → property (board.perform taken)

theorem Along.append {property : Board → Prop} {board : Board} {first second : List PinCall}
    (before : Along property board first)
    (after : Along property (board.perform first) second) :
    Along property board (first ++ second) := by
  intro taken early
  rcases List.prefix_or_prefix_of_prefix early (List.prefix_append first second) with
    inside | ⟨rest, rfl⟩
  · exact before taken inside
  · rw [perform_append]
    exact after rest ((List.prefix_append_right_inj first).mp early)

theorem Along.mono {weaker stronger : Board → Prop} {board : Board} {calls : List PinCall}
    (along : Along stronger board calls) (implies : ∀ board, stronger board → weaker board) :
    Along weaker board calls :=
  fun taken early => implies _ (along taken early)

theorem Along.last {property : Board → Prop} {board : Board} {calls : List PinCall}
    (along : Along property board calls) : property (board.perform calls) :=
  along calls (List.prefix_refl calls)

end WhistleDrivenRobot
