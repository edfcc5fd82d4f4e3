/-
This file describes the H-bridges that hang on the pins of the board. A bridge
has two directions, each with an N and a P transistor; it is shorted when a
transistor of one direction conducts together with one of the other. Whether a
list of calls can short it is decided between any two calls, and one fact
decides almost every case: as long as one direction is off and left alone, the
other may be driven in any way.
-/

import Mathlib.Data.List.Infix
import Mathlib.Data.List.Nodup
import WhistleDrivenRobot.Pins

namespace WhistleDrivenRobot

/-- One direction of a motor: the pins of its N and its P transistor. -/
structure Direction where
  n : Nat
  p : Nat
  deriving DecidableEq, Repr

namespace Direction

/-! ### The transistors of one direction -/

section

variable (direction : Direction) (board : Board)

/-- The pins of the direction. -/
def pins : List Nat := [direction.n, direction.p]

/-- The N transistor conducts when its pin is driven HIGH. -/
def NOn : Prop := board direction.n = ⟨.output, .high⟩

/-- The P transistor conducts when its pin is driven LOW. -/
def POn : Prop := board direction.p = ⟨.output, .low⟩

/-- Neither transistor conducts. -/
def Off : Prop := ¬ direction.NOn board ∧ ¬ direction.POn board

/-- Both transistors conduct. -/
def On : Prop := direction.NOn board ∧ direction.POn board

/-- Both pins are driven and neither transistor conducts. -/
def Idle : Prop := board direction.n = ⟨.output, .low⟩ ∧ board direction.p = ⟨.output, .high⟩

/-- Both pins are outputs. -/
def Driven : Prop := (board direction.n).mode = .output ∧ (board direction.p).mode = .output

end

variable {direction : Direction} {board : Board}

theorem Idle.driven (idle : direction.Idle board) : direction.Driven board := by
  rw [Driven, idle.1, idle.2]
  exact ⟨rfl, rfl⟩

theorem On.driven (on : direction.On board) : direction.Driven board := by
  rw [Driven, on.1, on.2]
  exact ⟨rfl, rfl⟩

theorem Idle.off (idle : direction.Idle board) : direction.Off board := by
  simp only [Off, NOn, POn, idle.1, idle.2]
  decide

/-- What the transistors do depends on the pins of the direction only. -/
theorem off_congr {other : Board} (same : ∀ pin ∈ direction.pins, other pin = board pin) :
    direction.Off other ↔ direction.Off board := by
  simp only [Off, NOn, POn, same direction.n (by simp [pins]), same direction.p (by simp [pins])]

theorem on_congr {other : Board} (same : ∀ pin ∈ direction.pins, other pin = board pin) :
    direction.On other ↔ direction.On board := by
  simp only [On, NOn, POn, same direction.n (by simp [pins]), same direction.p (by simp [pins])]

theorem driven_congr {other : Board} (same : ∀ pin ∈ direction.pins, other pin = board pin) :
    direction.Driven other ↔ direction.Driven board := by
  simp only [Driven, same direction.n (by simp [pins]), same direction.p (by simp [pins])]

theorem idle_congr {other : Board} (same : ∀ pin ∈ direction.pins, other pin = board pin) :
    direction.Idle other ↔ direction.Idle board := by
  simp only [Idle, same direction.n (by simp [pins]), same direction.p (by simp [pins])]

/-! ### Two directions that must not conduct together -/

/-- At least one of the two directions is off. -/
def Exclusive (one other : Direction) (board : Board) : Prop :=
  one.Off board ∨ other.Off board

variable {one other : Direction} {calls : List PinCall}

theorem Exclusive.symm (exclusive : Exclusive one other board) : Exclusive other one board :=
  Or.symm exclusive

/-- A direction that is off and left alone keeps the bridge safe whatever is done to the
other one. -/
theorem exclusiveAlong_of_off (off : other.Off board)
    (alone : ∀ pin ∈ other.pins, pin ∉ calls.map PinCall.pin) :
    Along (Exclusive one other) board calls := by
  intro taken early
  refine Or.inr ((off_congr fun pin member => ?_).mpr off)
  refine perform_of_notMem board fun touched => alone pin member ?_
  exact (early.sublist.map PinCall.pin).mem touched

/-- Calls that leave both directions alone keep them exclusive. -/
theorem exclusiveAlong_of_untouched (exclusive : Exclusive one other board)
    (aloneOne : ∀ pin ∈ one.pins, pin ∉ calls.map PinCall.pin)
    (aloneOther : ∀ pin ∈ other.pins, pin ∉ calls.map PinCall.pin) :
    Along (Exclusive one other) board calls := by
  rcases exclusive with off | off
  · exact (exclusiveAlong_of_off off aloneOne).mono fun _ => Exclusive.symm
  · exact exclusiveAlong_of_off off aloneOther

/-- Calls that write what the pins already hold change nothing. -/
theorem perform_eq_self (still : ∀ call ∈ calls, board.call call = board) :
    board.perform calls = board := by
  induction calls with
  | nil => rfl
  | cons call rest inductionHypothesis =>
    rw [perform_cons, still call List.mem_cons_self]
    exact inductionHypothesis fun later member => still later (List.mem_cons_of_mem call member)

theorem exclusiveAlong_of_still (exclusive : Exclusive one other board)
    (still : ∀ call ∈ calls, board.call call = board) :
    Along (Exclusive one other) board calls := by
  intro taken early
  rw [perform_eq_self fun call member => still call (early.subset member)]
  exact exclusive

end Direction

/-! ### The H-bridge of one motor -/

/-- What a motor is made to do. -/
inductive Drive
  | off
  | dir1
  | dir2
  deriving DecidableEq, Repr

/-- The H-bridge of one motor. Its four transistors hang on four different pins. -/
structure HBridge where
  dir1 : Direction
  dir2 : Direction
  distinct : (dir1.pins ++ dir2.pins).Nodup

namespace HBridge

variable (bridge : HBridge) (board : Board)

/-- The pins of the bridge. -/
def pins : List Nat := bridge.dir1.pins ++ bridge.dir2.pins

/-- No transistor of one direction conducts together with one of the other. -/
def Safe : Prop :=
  ¬ ((bridge.dir1.NOn board ∨ bridge.dir1.POn board) ∧
    (bridge.dir2.NOn board ∨ bridge.dir2.POn board))

/-- The motor is completely off, or exactly one direction has both its transistors on. -/
def Settled : Prop :=
  (bridge.dir1.Off board ∧ bridge.dir2.Off board) ∨
    (bridge.dir1.On board ∧ bridge.dir2.Off board) ∨
    (bridge.dir1.Off board ∧ bridge.dir2.On board)

/-- The four pins are driven to the levels of a drive. -/
def Holds : Drive → Prop
  | .off => bridge.dir1.Idle board ∧ bridge.dir2.Idle board
  | .dir1 => bridge.dir1.On board ∧ bridge.dir2.Idle board
  | .dir2 => bridge.dir1.Idle board ∧ bridge.dir2.On board

variable {bridge board}

theorem safe_iff_exclusive :
    bridge.Safe board ↔ Direction.Exclusive bridge.dir1 bridge.dir2 board := by
  simp only [Safe, Direction.Exclusive, Direction.Off]
  tauto

theorem Holds.settled {drive : Drive} (holds : bridge.Holds board drive) :
    bridge.Settled board := by
  cases drive with
  | off => exact Or.inl ⟨holds.1.off, holds.2.off⟩
  | dir1 => exact Or.inr (Or.inl ⟨holds.1, holds.2.off⟩)
  | dir2 => exact Or.inr (Or.inr ⟨holds.1.off, holds.2⟩)

theorem Holds.driven {drive : Drive} (holds : bridge.Holds board drive) :
    bridge.dir1.Driven board ∧ bridge.dir2.Driven board := by
  cases drive with
  | off => exact ⟨holds.1.driven, holds.2.driven⟩
  | dir1 => exact ⟨holds.1.driven, holds.2.driven⟩
  | dir2 => exact ⟨holds.1.driven, holds.2.driven⟩

theorem Holds.exclusive {drive : Drive} (holds : bridge.Holds board drive) :
    Direction.Exclusive bridge.dir1 bridge.dir2 board := by
  cases drive with
  | off => exact Or.inl holds.1.off
  | dir1 => exact Or.inr holds.2.off
  | dir2 => exact Or.inl holds.1.off

/-- Calls on other pins leave a bridge as it is. -/
theorem Holds.frame {drive : Drive} {calls : List PinCall} (holds : bridge.Holds board drive)
    (alone : ∀ pin ∈ bridge.pins, pin ∉ calls.map PinCall.pin) :
    bridge.Holds (board.perform calls) drive := by
  have same1 : ∀ pin ∈ bridge.dir1.pins, board.perform calls pin = board pin :=
    fun pin member => perform_of_notMem board (alone pin (List.mem_append_left _ member))
  have same2 : ∀ pin ∈ bridge.dir2.pins, board.perform calls pin = board pin :=
    fun pin member => perform_of_notMem board (alone pin (List.mem_append_right _ member))
  cases drive with
  | off =>
    exact ⟨(Direction.idle_congr same1).mpr holds.1, (Direction.idle_congr same2).mpr holds.2⟩
  | dir1 => exact ⟨(Direction.on_congr same1).mpr holds.1, (Direction.idle_congr same2).mpr holds.2⟩
  | dir2 => exact ⟨(Direction.idle_congr same1).mpr holds.1, (Direction.on_congr same2).mpr holds.2⟩

end HBridge

end WhistleDrivenRobot
