/-
This file proves the safety of the two motors over whole runs of the receiver,
in either build. What is carried along a run is one statement about the robot:
no pin call made since power-up shorted a motor, and the eight motor pins hold
the levels of the handler that was run last. One handler call keeps it, so one
iteration of `loop` keeps it, so every schedule of arrivals does.
-/

import WhistleDrivenRobot.Receiver

namespace WhistleDrivenRobot

/-! ### The robot between two iterations -/

/-- The drives of the handler that was run last; both motors are off before the first. -/
def lastDrives (handlers : List Handler) : Drive × Drive :=
  (handlers.getLast?.map Handler.drives).getD (.off, .off)

theorem lastDrives_concat (handlers : List Handler) (handler : Handler) :
    lastDrives (handlers ++ [handler]) = handler.drives := by
  rw [lastDrives, List.getLast?_concat, Option.map_some, Option.getD_some]

/-- No motor was shorted since power-up, and the pins hold the drives of the last handler. -/
structure Robot.Sound (robot : Robot) : Prop where
  safe : Along MotorsSafe powerUp robot.calls
  holds : MotorsHold robot.board (lastDrives robot.handlers)

theorem motorsSafe_of_off {board : Board}
    (off : ∀ direction ∈ [motor1.dir1, motor1.dir2, motor2.dir1, motor2.dir2],
      direction.Off board) : MotorsSafe board := by
  simp only [List.forall_mem_cons] at off
  exact ⟨HBridge.safe_iff_exclusive.mpr (Or.inl off.1),
    HBridge.safe_iff_exclusive.mpr (Or.inl off.2.2.1)⟩

/-- Opening the Bluetooth connection touches none of the motor pins. -/
theorem bluetooth_off {calls : List PinCall} (early : calls <+: bluetoothCalls) :
    ∀ direction ∈ [motor1.dir1, motor1.dir2, motor2.dir1, motor2.dir2],
      direction.Off (powerUp.perform calls) := by
  intro direction member
  refine (Direction.off_congr fun pin inside => ?_).mpr (powerUp_off direction)
  have alone : ∀ direction ∈ [motor1.dir1, motor1.dir2, motor2.dir1, motor2.dir2],
      ∀ pin ∈ direction.pins, pin ∉ bluetoothCalls.map PinCall.pin := by decide
  refine perform_of_notMem powerUp fun touched => alone direction member pin inside ?_
  exact (early.sublist.map PinCall.pin).mem touched

theorem Robot.setup_sound (memory : Int → Option Handler) : (Robot.setup memory).Sound where
  safe := Along.append (fun _ early => motorsSafe_of_off (bluetooth_off early))
    (fillHashMap_safeAlong (bluetooth_off (List.prefix_refl _)))
  holds := by
    rw [Robot.board, Robot.setup, perform_append]
    exact fillHashMap_holds _

theorem Robot.call_sound {robot : Robot} (sound : robot.Sound) (found : Option Handler) :
    (robot.call found).Sound := by
  cases found with
  | none => exact sound
  | some handler =>
    refine ⟨sound.safe.append (handler.safeAlong sound.holds), ?_⟩
    show MotorsHold (powerUp.perform (robot.calls ++ handler.calls))
      (lastDrives (robot.handlers ++ [handler]))
    rw [perform_append, lastDrives_concat]
    exact handler.holds sound.holds

/-! ### Runs of the two programs -/

theorem OptimizedReceiver.loop_sound (receiver : OptimizedReceiver)
    (sound : receiver.robot.Sound) : receiver.loop.robot.Sound := by
  cases waiting : receiver.port with
  | nil => exact (OptimizedReceiver.loop_nil waiting).symm ▸ sound
  | cons byte rest =>
    rw [OptimizedReceiver.loop_cons waiting]
    show (ite _ _ _ : Robot).Sound
    split
    · exact Robot.call_sound sound _
    · exact sound

theorem LineReceiver.loop_sound (receiver : LineReceiver) (sound : receiver.robot.Sound) :
    receiver.loop.robot.Sound := by
  rw [LineReceiver.loop_eq]
  split
  · exact Robot.call_sound sound _
  · exact sound

theorem OptimizedReceiver.iterate_sound {receiver : OptimizedReceiver}
    (sound : receiver.robot.Sound) (schedule : List (List UInt8)) :
    (receiver.iterate schedule).robot.Sound := by
  induction schedule generalizing receiver with
  | nil => exact sound
  | cons arrived rest inductionHypothesis =>
    exact inductionHypothesis (OptimizedReceiver.loop_sound
      { receiver with port := receiver.port ++ arrived } sound)

theorem LineReceiver.iterate_sound {receiver : LineReceiver} (sound : receiver.robot.Sound)
    (schedule : List (List UInt8)) : (receiver.iterate schedule).robot.Sound := by
  induction schedule generalizing receiver with
  | nil => exact sound
  | cons arrived rest inductionHypothesis =>
    exact inductionHypothesis (LineReceiver.loop_sound
      { receiver with port := receiver.port ++ arrived } sound)

/-! ### The safety of the bridges -/

/-- In the state after any of the pin calls made since power-up neither motor has transistors
of both directions on, and now each motor is off or has exactly one direction fully on. -/
def Robot.BridgesSafe (robot : Robot) : Prop :=
  (∀ taken, taken <+: robot.calls →
    motor1.Safe (powerUp.perform taken) ∧ motor2.Safe (powerUp.perform taken)) ∧
  motor1.Settled robot.board ∧ motor2.Settled robot.board

theorem Robot.Sound.bridges {robot : Robot} (sound : robot.Sound) : robot.BridgesSafe :=
  ⟨sound.safe, sound.holds.1.settled, sound.holds.2.settled⟩

/-- The H-bridges of both motors are safe: whatever bytes arrive and whenever they do, in either
build of the receiver, between any two pin calls and between any two iterations of `loop`. -/
theorem bridges_safe (memory : Int → Option Handler) (buffer : Nat → Int8)
    (schedule : List (List UInt8)) :
    ((OptimizedReceiver.setup memory).iterate schedule).robot.BridgesSafe ∧
      ((LineReceiver.setup memory buffer).iterate schedule).robot.BridgesSafe := by
  have started := Robot.setup_sound memory
  constructor
  · exact (OptimizedReceiver.iterate_sound started schedule).bridges
  · have atStart : (LineReceiver.setup memory buffer).robot.Sound := started
    exact (LineReceiver.iterate_sound atStart schedule).bridges

end WhistleDrivenRobot
