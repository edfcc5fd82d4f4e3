/-
This file models the transmitter's display: the LCD as cells with a cursor, and
the class that decides when a row is written again. A row is never cleared; what
is left over of a longer text is overwritten by blanks, whose number comes from
the number of characters that `printf` counted.
-/

import Mathlib.Logic.Function.Basic
import WhistleDrivenRobot.Binary32
import WhistleDrivenRobot.Transmitter

namespace WhistleDrivenRobot

/-- `float32_t` -/
abbrev Float32T := Float32.Model

/-! ### The LCD -/

/-- `sent` is the history of the characters that were sent to the LCD, each with the row and the
column that the cursor was at. -/
structure Lcd44780 where
  row : Nat
  col : Nat
  cells : Nat → Nat → Char
  x : Nat
  y : Nat
  sent : List (Nat × Nat × Char)

namespace Lcd44780

/-- The constructor, which clears the screen. -/
def create (row col : Nat) : Lcd44780 where
  row := row
  col := col
  cells := fun _ _ => ' '
  x := 0
  y := 0
  sent := []

/-- Out of range the cursor stays; four rows are two long ones. -/
def go (lcd : Lcd44780) (x y : Nat) : Lcd44780 :=
  if lcd.col ≤ x ∨ lcd.row ≤ y then lcd
  else { lcd with x := if y > 1 then x + lcd.col else x, y := y % 2 }

def data (lcd : Lcd44780) (byte : Char) : Lcd44780 :=
  { lcd with
    cells := Function.update lcd.cells lcd.y (Function.update (lcd.cells lcd.y) lcd.x byte)
    x := lcd.x + 1
    sent := lcd.sent ++ [(lcd.y, lcd.x, byte)] }

/-- `line` has room for every text of the display with a frequency of at most 27 digits; of a longer
text only the number of characters is right. -/
def printf (lcd : Lcd44780) (line : List Char) : Lcd44780 := line.foldl data lcd

end Lcd44780

/-! ### The texts -/

/-- The tenths of `mantissa * 2 ^ exponent`, a half of one going to the even number. -/
def tenths (mantissa : Nat) (exponent : Int) : Nat :=
  let unit := 2 ^ (-exponent).toNat
  let count := 10 * (mantissa * 2 ^ exponent.toNat)
  let below := count / unit
  if 2 * (count % unit) < unit ∨ (2 * (count % unit) = unit ∧ below % 2 = 0) then below
  else below + 1

/-- What `printf` writes for `%.1f`. -/
def formatTenths (number : Float32T) : List Char :=
  let digits := fun count => Nat.toDigits 10 (count / 10) ++ '.' :: Nat.toDigits 10 (count % 10)
  match number.unpack with
  | .notANumber => "nan".toList
  | .infinity .positive => "inf".toList
  | .infinity .negative => "-inf".toList
  | .zero .positive => digits 0
  | .zero .negative => '-' :: digits 0
  | .finite .positive mantissa exponent _ => digits (tenths mantissa exponent)
  | .finite .negative mantissa exponent _ => '-' :: digits (tenths mantissa exponent)

def frequencyText (frequency : Float32T) : List Char :=
  "Freq: ".toList ++ formatTenths frequency ++ " Hz".toList

def tooLowText : List Char := "Volume too low".toList

def Command.text : Command → List Char
  | .forward => "Move Forward :D".toList
  | .back => "Move Back :P".toList
  | .left => "Move Left :S".toList
  | .right => "Move Right :O".toList
  | .stop => "Move Stop 8(".toList
  | .none => "Nothing to do D:".toList
  | .undefined => "Problem :(".toList

/-! ### The class -/

structure Display where
  display : Lcd44780
  command : Command
  isFrequencyTooLow : Bool
  frequency : Float32T

namespace Display

def LENGTH : Nat := 16

def HEIGHT : Nat := 2

/-- A text with `%n` at its end stores its own length. -/
def printRow (display : Display) (y : Nat) (text : List Char) : Display :=
  let lcd := (display.display.go 0 y).printf text
  { display with display := lcd }

/-- The loop runs from `LENGTH - n` down to zero, so not at all where that is negative. -/
def fillDisplaySpace (display : Display) (n : Nat) : Display :=
  let lcd := (fun lcd : Lcd44780 => lcd.printf " ".toList)^[LENGTH - n] display.display
  { display with display := lcd }

def updateFrequency (display : Display) : Display :=
  let text := if display.isFrequencyTooLow then tooLowText else frequencyText display.frequency
  (display.printRow 0 text).fillDisplaySpace text.length

def updateCommand (display : Display) : Display :=
  (display.printRow 1 display.command.text).fillDisplaySpace display.command.text.length

def setFrequencyTooLow (display : Display) : Display :=
  { display with isFrequencyTooLow := true }.updateFrequency

def setFrequency (display : Display) (frequency : Float32T) : Display :=
  if display.frequency == frequency && !display.isFrequencyTooLow then display
  else { display with frequency := frequency, isFrequencyTooLow := false }.updateFrequency

def setCommand (display : Display) (command : Command) : Display :=
  if display.command = command then display
  else { display with command := command }.updateCommand

/-- The constructor sets the frequency, writes its row, then sets the command and writes its row.
The field `command` holds anything before. -/
def create (command : Command) : Display :=
  let display : Display :=
    { display := Lcd44780.create HEIGHT LENGTH
      command := command
      isFrequencyTooLow := false
      frequency := Float32.Model.ofInt 0 }
  { display.setFrequencyTooLow with command := .stop }.updateCommand

/-! ### The fields after each operation -/

/-- The fields that decide what the rows say. -/
def fields (display : Display) : Command × Bool × Float32T :=
  (display.command, display.isFrequencyTooLow, display.frequency)

theorem fields_setCommand (display : Display) (command : Command) :
    (display.setCommand command).fields =
      (command, display.isFrequencyTooLow, display.frequency) := by
  rw [setCommand]
  split
  · rename_i same
    rw [fields, same]
  · rfl

/-- A frequency that is not zero is held exactly, also where it was held already: floats that are
equal and no zeros are the same. -/
theorem fields_setFrequency (display : Display) {frequency : Float32T}
    (nonzero : Binary32.worth frequency ≠ ((0 : Rat) : WithTop Rat)) :
    (display.setFrequency frequency).fields = (display.command, false, frequency) := by
  rw [setFrequency]
  split
  · rename_i unchanged
    obtain ⟨equal, notTooLow⟩ := Bool.and_eq_true_iff.mp unchanged
    have shown : display.isFrequencyTooLow = false := by simpa using notTooLow
    have same : display.frequency = frequency := Binary32.eq_of_equal equal nonzero
    rw [fields, shown, same]
  · rfl

end Display

end WhistleDrivenRobot
