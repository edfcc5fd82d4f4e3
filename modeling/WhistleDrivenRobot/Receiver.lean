/-
This file models the two programs that can run on the receiver: the optimized
one, which acts on single characters, and the line-based one, which collects the
characters of a line first. Both take their characters from a serial port, look
commands up in an `Executer` and act on the motor pins. A run is a schedule: for
each iteration of `loop`, the bytes that become available before it. Everything
that the robot ever did to its pins is kept as a history, so that the board
between any two pin calls can be spoken about.
-/

import Mathlib.Data.List.DropRight
import WhistleDrivenRobot.Executer

namespace WhistleDrivenRobot

/-! ### What both programs share -/

def btTxPin : Nat := 12
def btRxPin : Nat := 11

/-- The pin calls of the constructor of the Bluetooth connection, the same in both builds. -/
def bluetoothCalls : List PinCall := [.pinMode btRxPin .input, .pinMode btTxPin .output]

/-- The part of the receiver that acts: the executer, every pin call made since power-up and
every handler that was run. -/
structure Robot where
  executer : Executer
  calls : List PinCall
  handlers : List Handler

/-- The levels of the pins now. -/
def Robot.board (robot : Robot) : Board := powerUp.perform robot.calls

/-- Power-up: the Bluetooth connection is opened and the executer fills its map. -/
def Robot.setup (memory : Int → Option Handler) : Robot where
  executer := Executer.create memory
  calls := bluetoothCalls ++ fillHashMapCalls
  handlers := []

/-- Call the handler that a lookup found, if it found one. -/
def Robot.call (robot : Robot) : Option Handler → Robot
  | none => robot
  | some handler =>
    { robot with
      calls := robot.calls ++ handler.calls
      handlers := robot.handlers ++ [handler] }

/-! ### The optimized program -/

structure OptimizedReceiver where
  port : List UInt8
  robot : Robot

def isALowerCaseLiteralChar (c : Int8) : Bool := ascii 'a' ≤ c && c ≤ ascii 'z'

namespace OptimizedReceiver

def setup (memory : Int → Option Handler) : OptimizedReceiver where
  port := []
  robot := Robot.setup memory

/-- One iteration of `loop` in the build with OPTIMIZATION. -/
def loop (receiver : OptimizedReceiver) : OptimizedReceiver :=
  match receiver.port with
  | [] => receiver
  | byte :: rest =>
    let c := byte.toInt8
    let receiver := { receiver with port := rest }
    if isALowerCaseLiteralChar c then
      { receiver with robot := receiver.robot.call (receiver.robot.executer.optimizedExecute c) }
    else receiver

theorem loop_nil {receiver : OptimizedReceiver} (empty : receiver.port = []) :
    receiver.loop = receiver := by
  rw [loop, empty]

theorem loop_cons {receiver : OptimizedReceiver} {byte : UInt8} {rest : List UInt8}
    (waiting : receiver.port = byte :: rest) :
    receiver.loop =
      { port := rest
        robot :=
          if isALowerCaseLiteralChar byte.toInt8 then
            receiver.robot.call (receiver.robot.executer.optimizedExecute byte.toInt8)
          else receiver.robot } := by
  rw [loop, waiting]
  exact (apply_ite (OptimizedReceiver.mk rest) _ _ _).symm

/-- The iterations of `loop` on a schedule. -/
def iterate (receiver : OptimizedReceiver) (schedule : List (List UInt8)) : OptimizedReceiver :=
  schedule.foldl (fun receiver arrived => loop { receiver with port := receiver.port ++ arrived })
    receiver

end OptimizedReceiver

/-! ### The line-based program -/

/-- The array `buffer` has the indices `0` to `stringLength`; what is beyond is other memory. -/
structure StringHandler where
  buffer : Nat → Int8
  bufferIndex : Nat
  isOver : Bool

namespace StringHandler

def stringLength : Nat := 50
def endChar : Int8 := ascii '\n'

/-- The constructor, on whatever the memory holds. -/
def create (buffer : Nat → Int8) : StringHandler where
  buffer := buffer
  bufferIndex := 0
  isOver := false

def addChar (handler : StringHandler) (ch : Int8) : StringHandler :=
  if stringLength ≤ handler.bufferIndex ∨ handler.isOver then { handler with isOver := true }
  else if ch ≠ endChar then
    { handler with
      buffer := Function.update handler.buffer handler.bufferIndex ch
      bufferIndex := handler.bufferIndex + 1 }
  else { handler with isOver := true }

/-- The characters of the C string in a memory that holds a NUL at `bound` at the latest. -/
def cString (memory : Nat → Int8) (bound : Nat) : ArduinoString :=
  ((List.range bound).map memory).takeWhile (· ≠ 0)

def isSpace (c : Int8) : Bool := c = ascii ' ' || (ascii '\t' ≤ c && c ≤ ascii '\r')

/-- `String::trim` drops the white space at both ends. -/
def trim (string : ArduinoString) : ArduinoString :=
  (string.dropWhile isSpace).rdropWhile isSpace

def getString (handler : StringHandler) : ArduinoString × StringHandler :=
  let buffer := Function.update handler.buffer handler.bufferIndex 0
  (trim (cString buffer handler.bufferIndex),
    { buffer := buffer, bufferIndex := 0, isOver := false })

def areYouOver (handler : StringHandler) : Bool := handler.isOver

end StringHandler

def isInTheInterval (c beginC endC : Int8) : Bool := beginC ≤ c && c ≤ endC

def isThisCharGood (c : Int8) : Bool :=
  c = ascii '\n' || isInTheInterval c (ascii 'a') (ascii 'z')

def putInTheBuffer (handler : StringHandler) (c : Int8) : StringHandler :=
  if isThisCharGood c then handler.addChar c else handler

/-- The loop of `updateBuffer`: while there is a byte and the line is not all read, take it. -/
def takeCharacters : StringHandler → List UInt8 → StringHandler × List UInt8
  | handler, [] => (handler, [])
  | handler, byte :: rest =>
    if handler.areYouOver then (handler, byte :: rest)
    else takeCharacters (putInTheBuffer handler byte.toInt8) rest

/-- `usb` is what went out on the USB serial port, `executed` the strings passed to
`Executer::execute`. -/
structure LineReceiver where
  port : List UInt8
  stringHandler : StringHandler
  robot : Robot
  usb : List Int8
  executed : List ArduinoString

namespace LineReceiver

def setup (memory : Int → Option Handler) (buffer : Nat → Int8) : LineReceiver where
  port := []
  stringHandler := StringHandler.create buffer
  robot := Robot.setup memory
  usb := []
  executed := []

/-- `BTSerialCommunication::updateBuffer`. -/
def updateBuffer (receiver : LineReceiver) : LineReceiver :=
  let taken := takeCharacters receiver.stringHandler receiver.port
  { receiver with stringHandler := taken.1, port := taken.2 }

def isTheLineAllRead (receiver : LineReceiver) : Bool := receiver.stringHandler.areYouOver

/-- The body of `loop` once the line is all read: withdraw it, echo it and execute it. -/
def withdraw (receiver : LineReceiver) : LineReceiver :=
  let read := receiver.stringHandler.getString
  { receiver with
    stringHandler := read.2
    usb := receiver.usb ++ read.1 ++ [ascii '\r', ascii '\n']
    executed := receiver.executed ++ [read.1]
    robot := receiver.robot.call (receiver.robot.executer.execute read.1) }

/-- One iteration of `loop` in the build without OPTIMIZATION. -/
def loop (receiver : LineReceiver) : LineReceiver :=
  let receiver := receiver.updateBuffer
  if receiver.isTheLineAllRead then receiver.withdraw else receiver

theorem loop_eq (receiver : LineReceiver) :
    receiver.loop =
      if receiver.updateBuffer.isTheLineAllRead then receiver.updateBuffer.withdraw
      else receiver.updateBuffer := rfl

def iterate (receiver : LineReceiver) (schedule : List (List UInt8)) : LineReceiver :=
  schedule.foldl (fun receiver arrived => loop { receiver with port := receiver.port ++ arrived })
    receiver

end LineReceiver

end WhistleDrivenRobot
