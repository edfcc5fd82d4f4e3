/-
This file models the motor commands of the receiver: the eight motor pins, the
four templates that write them and the five handlers built from the templates.
Whatever the robot was doing before, a handler leaves each motor in the drive
its name says, and between any two of its pin writes neither motor has
transistors of both directions on. The reason is the order of the writes: a
direction is switched on only after the opposite one has been switched off.
-/

import WhistleDrivenRobot.HBridge

namespace WhistleDrivenRobot

/-! ### The pins and the templates -/

def motor1Dir1NPin : Nat := 2
def motor1Dir1PPin : Nat := 3
def motor1Dir2NPin : Nat := 4
def motor1Dir2PPin : Nat := 5
def motor2Dir1NPin : Nat := 6
def motor2Dir1PPin : Nat := 7
def motor2Dir2NPin : Nat := 8
def motor2Dir2PPin : Nat := 9

def activate (nMosPin pMosPin : Nat) : List PinCall :=
  [.digitalWrite nMosPin .high, .digitalWrite pMosPin .low]

def deactivate (nMosPin pMosPin : Nat) : List PinCall :=
  [.digitalWrite nMosPin .low, .digitalWrite pMosPin .high]

def activeDirection (nToActivate pToActivate nToDeactivate pToDeactivate : Nat) : List PinCall :=
  deactivate nToDeactivate pToDeactivate ++ activate nToActivate pToActivate

def deactivateMotors (n1 p1 n2 p2 : Nat) : List PinCall :=
  deactivate n1 p1 ++ deactivate n2 p2

/-! ### The handlers -/

def forward : List PinCall :=
  activeDirection motor1Dir1NPin motor1Dir1PPin motor1Dir2NPin motor1Dir2PPin ++
    activeDirection motor2Dir1NPin motor2Dir1PPin motor2Dir2NPin motor2Dir2PPin

def back : List PinCall :=
  activeDirection motor1Dir2NPin motor1Dir2PPin motor1Dir1NPin motor1Dir1PPin ++
    activeDirection motor2Dir2NPin motor2Dir2PPin motor2Dir1NPin motor2Dir1PPin

def right : List PinCall :=
  activeDirection motor1Dir1NPin motor1Dir1PPin motor1Dir2NPin motor1Dir2PPin ++
    activeDirection motor2Dir2NPin motor2Dir2PPin motor2Dir1NPin motor2Dir1PPin

def left : List PinCall :=
  activeDirection motor1Dir2NPin motor1Dir2PPin motor1Dir1NPin motor1Dir1PPin ++
    activeDirection motor2Dir1NPin motor2Dir1PPin motor2Dir2NPin motor2Dir2PPin

def deactivateAll : List PinCall :=
  deactivateMotors motor1Dir1NPin motor1Dir1PPin motor1Dir2NPin motor1Dir2PPin ++
    deactivateMotors motor2Dir1NPin motor2Dir1PPin motor2Dir2NPin motor2Dir2PPin

/-- The function pointers that the commands map stores. None of the functions reads the string
it is passed. -/
inductive Handler
  | forward
  | back
  | right
  | left
  | deactivateAll
  deriving DecidableEq, Repr

/-- The pin calls a handler makes. -/
def Handler.calls : Handler → List PinCall
  | .forward => WhistleDrivenRobot.forward
  | .back => WhistleDrivenRobot.back
  | .right => WhistleDrivenRobot.right
  | .left => WhistleDrivenRobot.left
  | .deactivateAll => WhistleDrivenRobot.deactivateAll

/-- The pin calls of `fillHashMap`. Each direction is switched off as soon as its two pins
are outputs. -/
def fillHashMapCalls : List PinCall :=
  [.pinMode motor1Dir1NPin .output, .pinMode motor1Dir1PPin .output] ++
    deactivate motor1Dir1NPin motor1Dir1PPin ++
    [.pinMode motor1Dir2NPin .output, .pinMode motor1Dir2PPin .output] ++
    deactivate motor1Dir2NPin motor1Dir2PPin ++
    [.pinMode motor2Dir1NPin .output, .pinMode motor2Dir1PPin .output] ++
    deactivate motor2Dir1NPin motor2Dir1PPin ++
    [.pinMode motor2Dir2NPin .output, .pinMode motor2Dir2PPin .output] ++
    deactivate motor2Dir2NPin motor2Dir2PPin

/-! ### The two motors and what the handlers are for -/

def motor1 : HBridge where
  dir1 := ⟨motor1Dir1NPin, motor1Dir1PPin⟩
  dir2 := ⟨motor1Dir2NPin, motor1Dir2PPin⟩
  distinct := by decide

def motor2 : HBridge where
  dir1 := ⟨motor2Dir1NPin, motor2Dir1PPin⟩
  dir2 := ⟨motor2Dir2NPin, motor2Dir2PPin⟩
  distinct := by decide

/-- What a handler is for: the drives of the first and of the second motor. -/
def Handler.drives : Handler → Drive × Drive
  | .forward => (.dir1, .dir1)
  | .back => (.dir2, .dir2)
  | .right => (.dir1, .dir2)
  | .left => (.dir2, .dir1)
  | .deactivateAll => (.off, .off)

/-- The eight motor pins are driven to the levels of a pair of drives. -/
def MotorsHold (board : Board) (drives : Drive × Drive) : Prop :=
  motor1.Holds board drives.1 ∧ motor2.Holds board drives.2

/-- Neither motor is shorted. -/
def MotorsSafe (board : Board) : Prop := motor1.Safe board ∧ motor2.Safe board

/-! ### The templates on one motor -/

section Templates

variable {one other : Direction} {board : Board}

/-- The pins of one direction are not touched by calls on the pins of the other. -/
theorem disjoint_pins (distinct : (one.pins ++ other.pins).Nodup) :
    ∀ pin ∈ one.pins, pin ∉ other.pins :=
  fun _ memberOne memberOther =>
    (List.nodup_append.mp distinct).2.2 _ memberOne _ memberOther rfl

theorem n_ne_p (distinct : (one.pins ++ other.pins).Nodup) : one.n ≠ one.p := by
  have pair : one.pins.Nodup := (List.nodup_append.mp distinct).1
  simpa [Direction.pins] using pair

theorem deactivate_idle (driven : one.Driven board) (distinct : one.n ≠ one.p) :
    one.Idle (board.perform (deactivate one.n one.p)) := by
  simp [Direction.Idle, deactivate, Board.call, Function.update_of_ne distinct,
    Function.update_of_ne distinct.symm, driven.1, driven.2]

theorem activate_on (driven : one.Driven board) (distinct : one.n ≠ one.p) :
    one.On (board.perform (activate one.n one.p)) := by
  simp [Direction.On, Direction.NOn, Direction.POn, activate, Board.call,
    Function.update_of_ne distinct, Function.update_of_ne distinct.symm, driven.1, driven.2]

/-- Switching off a direction that is idle already writes what is there. -/
theorem deactivate_still (idle : one.Idle board) :
    ∀ call ∈ deactivate one.n one.p, board.call call = board := by
  intro call member
  simp only [deactivate, List.mem_cons, List.not_mem_nil, or_false] at member
  rcases member with rfl | rfl
  · exact Function.update_eq_self_iff.mpr (by rw [idle.1])
  · exact Function.update_eq_self_iff.mpr (by rw [idle.2])

/-- `activeDirection` ends with one direction on and the other one idle. -/
theorem activeDirection_drives (distinct : (one.pins ++ other.pins).Nodup)
    (drivenOne : one.Driven board) (drivenOther : other.Driven board) :
    one.On (board.perform (activeDirection one.n one.p other.n other.p)) ∧
      other.Idle (board.perform (activeDirection one.n one.p other.n other.p)) := by
  have swapped : (other.pins ++ one.pins).Nodup := List.nodup_append_comm.mp distinct
  rw [activeDirection, perform_append]
  constructor
  · refine activate_on ((Direction.driven_congr fun pin member => ?_).mpr drivenOne)
      (n_ne_p distinct)
    exact perform_of_notMem board (disjoint_pins distinct pin member)
  · refine (Direction.idle_congr fun pin member => ?_).mpr
      (deactivate_idle drivenOther (n_ne_p swapped))
    exact perform_of_notMem _ (disjoint_pins swapped pin member)

/-- `activeDirection` never lets both directions conduct. While the opposite direction is being
switched off, either it was idle and the writes change nothing, or this one is still off;
while this one is being switched on, the opposite one is idle. -/
theorem activeDirection_exclusiveAlong (distinct : (one.pins ++ other.pins).Nodup)
    (drivenOther : other.Driven board) (start : one.Off board ∨ other.Idle board) :
    Along (Direction.Exclusive one other) board (activeDirection one.n one.p other.n other.p) := by
  have swapped : (other.pins ++ one.pins).Nodup := List.nodup_append_comm.mp distinct
  refine Along.append ?_ ?_
  · rcases start with off | idle
    · refine Along.mono ?_ fun _ => Direction.Exclusive.symm
      exact Direction.exclusiveAlong_of_off off (disjoint_pins distinct)
    · exact Direction.exclusiveAlong_of_still (Or.inr idle.off) (deactivate_still idle)
  · exact Direction.exclusiveAlong_of_off (deactivate_idle drivenOther (n_ne_p swapped)).off
      (disjoint_pins swapped)

theorem deactivateMotors_drives (distinct : (one.pins ++ other.pins).Nodup)
    (drivenOne : one.Driven board) (drivenOther : other.Driven board) :
    one.Idle (board.perform (deactivateMotors one.n one.p other.n other.p)) ∧
      other.Idle (board.perform (deactivateMotors one.n one.p other.n other.p)) := by
  have swapped : (other.pins ++ one.pins).Nodup := List.nodup_append_comm.mp distinct
  rw [deactivateMotors, perform_append]
  constructor
  · refine (Direction.idle_congr fun pin member => ?_).mpr
      (deactivate_idle drivenOne (n_ne_p distinct))
    exact perform_of_notMem _ (disjoint_pins distinct pin member)
  · refine deactivate_idle ((Direction.driven_congr fun pin member => ?_).mpr drivenOther)
      (n_ne_p swapped)
    exact perform_of_notMem board (disjoint_pins swapped pin member)

theorem deactivateMotors_exclusiveAlong (distinct : (one.pins ++ other.pins).Nodup)
    (drivenOne : one.Driven board) (start : one.Idle board ∨ other.Off board) :
    Along (Direction.Exclusive one other) board (deactivateMotors one.n one.p other.n other.p) := by
  have swapped : (other.pins ++ one.pins).Nodup := List.nodup_append_comm.mp distinct
  refine Along.append ?_ ?_
  · rcases start with idle | off
    · exact Direction.exclusiveAlong_of_still (Or.inl idle.off) (deactivate_still idle)
    · exact Direction.exclusiveAlong_of_off off (disjoint_pins swapped)
  · refine Along.mono ?_ fun _ => Direction.Exclusive.symm
    exact Direction.exclusiveAlong_of_off (deactivate_idle drivenOne (n_ne_p distinct)).off
      (disjoint_pins distinct)

end Templates

/-! ### One motor driven by one template -/

/-- The calls that put one motor into a drive. -/
def driveCalls (bridge : HBridge) : Drive → List PinCall
  | .off => deactivateMotors bridge.dir1.n bridge.dir1.p bridge.dir2.n bridge.dir2.p
  | .dir1 => activeDirection bridge.dir1.n bridge.dir1.p bridge.dir2.n bridge.dir2.p
  | .dir2 => activeDirection bridge.dir2.n bridge.dir2.p bridge.dir1.n bridge.dir1.p

/-- Every handler drives the first motor and then the second one. -/
theorem Handler.calls_eq (handler : Handler) :
    handler.calls = driveCalls motor1 handler.drives.1 ++ driveCalls motor2 handler.drives.2 := by
  cases handler <;> rfl

theorem driveCalls_pins (bridge : HBridge) (target : Drive) :
    ∀ pin ∈ (driveCalls bridge target).map PinCall.pin, pin ∈ bridge.pins := by
  cases target <;>
    simp [driveCalls, activeDirection, deactivateMotors, activate, deactivate, PinCall.pin,
      HBridge.pins, Direction.pins]

theorem driveCalls_holds {bridge : HBridge} {board : Board} {drive : Drive} (target : Drive)
    (holds : bridge.Holds board drive) :
    bridge.Holds (board.perform (driveCalls bridge target)) target := by
  obtain ⟨driven1, driven2⟩ := holds.driven
  cases target with
  | off => exact deactivateMotors_drives bridge.distinct driven1 driven2
  | dir1 => exact activeDirection_drives bridge.distinct driven1 driven2
  | dir2 =>
    exact (activeDirection_drives (List.nodup_append_comm.mp bridge.distinct) driven2
      driven1).symm

theorem driveCalls_exclusiveAlong {bridge : HBridge} {board : Board} {drive : Drive}
    (target : Drive) (holds : bridge.Holds board drive) :
    Along (Direction.Exclusive bridge.dir1 bridge.dir2) board (driveCalls bridge target) := by
  obtain ⟨driven1, driven2⟩ := holds.driven
  have swapped := List.nodup_append_comm.mp bridge.distinct
  cases target with
  | off =>
    refine deactivateMotors_exclusiveAlong bridge.distinct driven1 ?_
    cases drive with
    | off => exact Or.inl holds.1
    | dir1 => exact Or.inr holds.2.off
    | dir2 => exact Or.inl holds.1
  | dir1 =>
    refine activeDirection_exclusiveAlong bridge.distinct driven2 ?_
    cases drive with
    | off => exact Or.inr holds.2
    | dir1 => exact Or.inr holds.2
    | dir2 => exact Or.inl holds.1.off
  | dir2 =>
    refine (activeDirection_exclusiveAlong swapped driven1 ?_).mono fun _ =>
      Direction.Exclusive.symm
    cases drive with
    | off => exact Or.inr holds.1
    | dir1 => exact Or.inl holds.2.off
    | dir2 => exact Or.inr holds.1

/-! ### The handlers on both motors -/

theorem motorsSafe_along {board : Board} {calls : List PinCall}
    (first : Along (Direction.Exclusive motor1.dir1 motor1.dir2) board calls)
    (second : Along (Direction.Exclusive motor2.dir1 motor2.dir2) board calls) :
    Along MotorsSafe board calls :=
  fun taken early => ⟨HBridge.safe_iff_exclusive.mpr (first taken early),
    HBridge.safe_iff_exclusive.mpr (second taken early)⟩

theorem motor1_alone (target : Drive) :
    ∀ pin ∈ motor1.pins, pin ∉ (driveCalls motor2 target).map PinCall.pin := by
  intro pin member touched
  have disjoint : ∀ pin ∈ motor1.pins, pin ∉ motor2.pins := by decide
  exact disjoint pin member (driveCalls_pins motor2 target pin touched)

theorem motor2_alone (target : Drive) :
    ∀ pin ∈ motor2.pins, pin ∉ (driveCalls motor1 target).map PinCall.pin := by
  intro pin member touched
  have disjoint : ∀ pin ∈ motor2.pins, pin ∉ motor1.pins := by decide
  exact disjoint pin member (driveCalls_pins motor1 target pin touched)

/-- A handler leaves the eight pins at the levels of its drives, whatever they held. -/
theorem Handler.holds (handler : Handler) {board : Board} {drives : Drive × Drive}
    (holds : MotorsHold board drives) :
    MotorsHold (board.perform handler.calls) handler.drives := by
  rw [Handler.calls_eq, perform_append]
  constructor
  · exact (driveCalls_holds _ holds.1).frame (motor1_alone _)
  · exact driveCalls_holds _ (holds.2.frame (motor2_alone _))

/-- A handler shorts no motor between any two of its pin writes. -/
theorem Handler.safeAlong (handler : Handler) {board : Board} {drives : Drive × Drive}
    (holds : MotorsHold board drives) : Along MotorsSafe board handler.calls := by
  rw [Handler.calls_eq]
  refine motorsSafe_along (Along.append ?_ ?_)
    (Along.append ?_ ?_)
  · exact driveCalls_exclusiveAlong _ holds.1
  · exact Direction.exclusiveAlong_of_untouched (driveCalls_holds _ holds.1).exclusive
      (fun pin member => motor1_alone _ pin (List.mem_append_left _ member))
      (fun pin member => motor1_alone _ pin (List.mem_append_right _ member))
  · exact Direction.exclusiveAlong_of_untouched holds.2.exclusive
      (fun pin member => motor2_alone _ pin (List.mem_append_left _ member))
      (fun pin member => motor2_alone _ pin (List.mem_append_right _ member))
  · exact driveCalls_exclusiveAlong _ (holds.2.frame (motor2_alone _))

/-! ### Power-up -/

/-- Make the pins of a direction outputs and switch it off. -/
def configure (direction : Direction) : List PinCall :=
  [.pinMode direction.n .output, .pinMode direction.p .output] ++
    deactivate direction.n direction.p

theorem fillHashMapCalls_eq :
    fillHashMapCalls = (configure motor1.dir1 ++ configure motor1.dir2) ++
      (configure motor2.dir1 ++ configure motor2.dir2) := rfl

theorem configure_idle (direction : Direction) (board : Board)
    (distinct : direction.n ≠ direction.p) :
    direction.Idle (board.perform (configure direction)) := by
  rw [configure, perform_append]
  refine deactivate_idle ⟨?_, ?_⟩ distinct
  · simp [Board.call, Function.update_of_ne distinct]
  · simp [Board.call]

/-- Configuring the directions of a motor one after the other shorts it at no point: the second
one is off while the first is configured, and the first one is idle from then on. -/
theorem configure_exclusiveAlong (bridge : HBridge) (board : Board)
    (off : bridge.dir2.Off board) :
    Along (Direction.Exclusive bridge.dir1 bridge.dir2) board
      (configure bridge.dir1 ++ configure bridge.dir2) := by
  have swapped := List.nodup_append_comm.mp bridge.distinct
  have touched (direction : Direction) : ∀ pin ∈ (configure direction).map PinCall.pin,
      pin ∈ direction.pins := by
    simp [configure, deactivate, PinCall.pin, Direction.pins]
  refine Along.append ?_ ?_
  · exact Direction.exclusiveAlong_of_off off fun pin member inside =>
      disjoint_pins swapped pin member (touched _ pin inside)
  · refine Along.mono ?_ fun _ => Direction.Exclusive.symm
    exact Direction.exclusiveAlong_of_off
      (configure_idle bridge.dir1 board (n_ne_p bridge.distinct)).off fun pin member inside =>
        disjoint_pins bridge.distinct pin member (touched _ pin inside)

theorem powerUp_off (direction : Direction) : direction.Off powerUp := by
  simp [Direction.Off, Direction.NOn, Direction.POn, powerUp]

/-- `fillHashMap` shorts no motor between any two of its pin calls. -/
theorem fillHashMap_safeAlong {board : Board}
    (off : ∀ direction ∈ [motor1.dir1, motor1.dir2, motor2.dir1, motor2.dir2],
      direction.Off board) : Along MotorsSafe board fillHashMapCalls := by
  simp only [List.forall_mem_cons] at off
  obtain ⟨-, off12, off21, off22, -⟩ := off
  have first := configure_exclusiveAlong motor1 board off12
  have alone : ∀ pin ∈ motor2.dir2.pins,
      pin ∉ (configure motor1.dir1 ++ configure motor1.dir2).map PinCall.pin := by decide
  rw [fillHashMapCalls_eq]
  refine motorsSafe_along (Along.append first ?_) (Along.append ?_ ?_)
  · exact Direction.exclusiveAlong_of_untouched first.last (by decide) (by decide)
  · exact Direction.exclusiveAlong_of_untouched (Or.inl off21) (by decide) (by decide)
  · exact configure_exclusiveAlong motor2 _ ((Direction.off_congr fun pin member =>
      perform_of_notMem board (alone pin member)).mpr off22)

/-- `fillHashMap` ends with both motors off. -/
theorem fillHashMap_holds (board : Board) :
    MotorsHold (board.perform fillHashMapCalls) (.off, .off) :=
  ⟨⟨⟨rfl, rfl⟩, rfl, rfl⟩, ⟨rfl, rfl⟩, rfl, rfl⟩

end WhistleDrivenRobot
