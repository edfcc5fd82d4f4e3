/-
This file models the transmitter's `ReceiverState`: the command it believes the
robot to be executing and the lines it prints on the serial port. A command is
sent only when it differs from the current one, as a line of one letter.
-/

import WhistleDrivenRobot.Filler

namespace WhistleDrivenRobot

inductive Command
  | forward
  | back
  | left
  | right
  | stop
  | none
  | undefined
  deriving DecidableEq, Repr

structure ReceiverState where
  actualCommand : Command

namespace ReceiverState

def create : ReceiverState := ⟨.undefined⟩

/-- What `printf` of a letter and a newline writes on the serial port. -/
def line (letter : Char) : List UInt8 := [letter.toUInt8, '\n'.toUInt8]

/-- The bytes `sendCommand` writes. -/
def sendCommand (state : ReceiverState) : List UInt8 :=
  match state.actualCommand with
  | .forward => line 'f'
  | .back => line 'b'
  | .left => line 'l'
  | .right => line 'r'
  | .stop | .none | .undefined => line 's'

/-- The new state and the bytes written on the serial port. -/
def setState (state : ReceiverState) (command : Command) : ReceiverState × List UInt8 :=
  if state.actualCommand = command then (state, [])
  else
    let state : ReceiverState := { state with actualCommand := command }
    (state, state.sendCommand)

end ReceiverState

/-! ### What a command means -/

/-- The letter of a command's line. -/
def Command.letter : Command → UInt8
  | .forward => 'f'.toUInt8
  | .back => 'b'.toUInt8
  | .left => 'l'.toUInt8
  | .right => 'r'.toUInt8
  | .stop | .none | .undefined => 's'.toUInt8

theorem sendCommand_eq (state : ReceiverState) :
    state.sendCommand = [state.actualCommand.letter, '\n'.toUInt8] := by
  unfold ReceiverState.sendCommand
  cases state.actualCommand <;> rfl

/-- The handler named by the letter of a command. -/
def Command.handler : Command → Handler
  | .forward => .forward
  | .back => .back
  | .left => .left
  | .right => .right
  | .stop | .none | .undefined => .deactivateAll

/-- The drive mode of a command: both motors forwards, both backwards, one each way to turn,
or all off. -/
def Command.drives : Command → Drive × Drive
  | .forward => (.dir1, .dir1)
  | .back => (.dir2, .dir2)
  | .left => (.dir2, .dir1)
  | .right => (.dir1, .dir2)
  | .stop | .none | .undefined => (.off, .off)

theorem Command.drives_handler (command : Command) :
    command.handler.drives = command.drives := by
  cases command <;> rfl

end WhistleDrivenRobot
