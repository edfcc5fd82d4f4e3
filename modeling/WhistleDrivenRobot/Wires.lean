/-
This file models the six wires between the transmitter and its LCD. The driver
sets one pin after the other; the controller of the LCD looks at them whenever E
falls, puts two halves together to a byte, and takes the byte as an instruction or
as a character. What carries the two together is that between two bytes the
controller waits for an upper half, and that its memory holds the cells of the
display. An instruction that the controller does not know is never sent.
-/

import WhistleDrivenRobot.Pins
import WhistleDrivenRobot.Runs
import WhistleDrivenRobot.Screen

namespace WhistleDrivenRobot

/-! ### The driver -/

/-- The pins that the driver was given. -/
inductive LcdPin
  | rs
  | e
  | d4
  | d5
  | d6
  | d7
  deriving DecidableEq, Repr

/-- A call of `low()` or `high()`. -/
abbrev PinWrite := LcdPin × Level

def Level.ofBit : Bool → Level
  | false => .low
  | true => .high

structure LcdDriver where
  row : Nat
  col : Nat

namespace LcdDriver

/-- The upper half of a byte, followed by a pulse on E. -/
def half (byte : BitVec 8) : List PinWrite :=
  [(.d7, .ofBit (byte.getLsbD 7)), (.d6, .ofBit (byte.getLsbD 6)),
    (.d5, .ofBit (byte.getLsbD 5)), (.d4, .ofBit (byte.getLsbD 4)), (.e, .high), (.e, .low)]

def data (byte : BitVec 8) : List PinWrite := half byte ++ half (byte <<< 4)

def comd (byte : BitVec 8) : List PinWrite :=
  (LcdPin.rs, Level.low) :: (half byte ++ half (byte <<< 4)) ++ [(LcdPin.rs, Level.high)]

/-- The character that a place of `line` holds. -/
def code (byte : Char) : BitVec 8 := BitVec.ofNat 8 byte.toNat

/-- `line` has room for the texts of the display, as it has in the model with cells. -/
def printf (line : List Char) : List PinWrite := line.flatMap fun byte => data (code byte)

def clear : List PinWrite := comd 1

variable (driver : LcdDriver)

def go (x y : Nat) : List PinWrite :=
  if driver.col ≤ x ∨ driver.row ≤ y then []
  else
    let x := if y > 1 then x + driver.col else x
    comd (BitVec.ofNat 8 (0x80 ||| (if y &&& 1 ≠ 0 then 0x40 else 0) ||| x))

def init : List PinWrite :=
  (LcdPin.rs, Level.low) :: half 0x20 ++ (LcdPin.rs, Level.high) ::
    comd (if driver.row = 1 then 32 else 40) ++ comd 12 ++ comd 6

/-- The constructor. -/
def create : List PinWrite := (LcdPin.e, Level.low) :: driver.init ++ clear

end LcdDriver

/-! ### The controller -/

/-- The controller of the LCD; `upper` is the half that came first. -/
structure Hd44780 where
  pins : LcdPin → Level
  fourBits : Bool
  upper : Option (BitVec 4)
  twoLines : Bool
  on : Bool
  increment : Bool
  address : Nat
  memory : Nat → BitVec 8

namespace Hd44780

/-- What is on the four wires for data. -/
def nibble (pins : LcdPin → Level) : BitVec 4 :=
  let bit := fun pin => BitVec.ofBool (pins pin == .high)
  bit .d7 ++ bit .d6 ++ bit .d5 ++ bit .d4

/-- The place behind a place: with two lines each has forty characters. -/
def following (controller : Hd44780) : Nat :=
  if controller.twoLines then
    if controller.address = 0x27 then 0x40
    else if controller.address = 0x67 then 0
    else controller.address + 1
  else if controller.address = 0x4f then 0
  else controller.address + 1

/-- A character goes to the memory. Writing backwards is left out. -/
def write (controller : Hd44780) (byte : BitVec 8) : Option Hd44780 :=
  if controller.increment then
    some
      { controller with
        memory := Function.update controller.memory controller.address byte
        address := controller.following }
  else none

/-- The highest bit that is set tells the instruction. The instructions for the set of characters,
for shifts and for the way home are left out. -/
def instruct (controller : Hd44780) (byte : BitVec 8) : Option Hd44780 :=
  if byte.getLsbD 7 then some { controller with address := (byte.extractLsb' 0 7).toNat }
  else if byte.getLsbD 6 then none
  else if byte.getLsbD 5 then
    some { controller with fourBits := !byte.getLsbD 4, twoLines := byte.getLsbD 3 }
  else if byte.getLsbD 4 then none
  else if byte.getLsbD 3 then some { controller with on := byte.getLsbD 2 }
  else if byte.getLsbD 2 then
    if byte.getLsbD 0 then none else some { controller with increment := byte.getLsbD 1 }
  else if byte.getLsbD 1 then none
  else if byte.getLsbD 0 then
    some { controller with memory := fun _ => LcdDriver.code ' ', address := 0, increment := true }
  else none

def take (controller : Hd44780) (byte : BitVec 8) : Option Hd44780 :=
  if controller.pins .rs = .high then controller.write byte else controller.instruct byte

/-- E fell. Before the controller is told that there are four wires only, it reads eight; `loose` is
what it sees on the four that lead nowhere. -/
def latch (loose : BitVec 4) (controller : Hd44780) : Option Hd44780 :=
  if controller.fourBits then
    match controller.upper with
    | none => some { controller with upper := some (nibble controller.pins) }
    | some upper => { controller with upper := none }.take (upper ++ nibble controller.pins)
  else controller.take (nibble controller.pins ++ loose)

def withPins (controller : Hd44780) (pins : LcdPin → Level) : Hd44780 :=
  { controller with pins := pins }

def receive (loose : BitVec 4) (controller : Hd44780) (written : PinWrite) : Option Hd44780 :=
  let next := controller.withPins (Function.update controller.pins written.1 written.2)
  if written = (.e, .low) ∧ controller.pins .e = .high then next.latch loose else some next

/-- After power-up the memory may hold anything, and the pins but E may be anywhere. -/
structure PowerUp (controller : Hd44780) : Prop where
  eightBits : controller.fourBits = false
  empty : controller.upper = none
  idle : controller.pins .e = .low

/-! ### A byte on the wires -/

/-- The pins after half a byte. -/
def holding (pins : LcdPin → Level) (byte : BitVec 8) : LcdPin → Level
  | .rs => pins .rs
  | .e => .low
  | .d4 => .ofBit (byte.getLsbD 4)
  | .d5 => .ofBit (byte.getLsbD 5)
  | .d6 => .ofBit (byte.getLsbD 6)
  | .d7 => .ofBit (byte.getLsbD 7)

theorem bits_upper (byte : BitVec 8) :
    BitVec.ofBool (byte.getLsbD 7) ++ BitVec.ofBool (byte.getLsbD 6) ++
      BitVec.ofBool (byte.getLsbD 5) ++ BitVec.ofBool (byte.getLsbD 4) = byte.extractLsb' 4 4 := by
  revert byte
  decide

theorem upper_lower (byte : BitVec 8) :
    byte.extractLsb' 4 4 ++ (byte <<< 4).extractLsb' 4 4 = byte := by
  revert byte
  decide

theorem ofBit_high (bit : Bool) : (Level.ofBit bit == .high) = bit := by
  cases bit <;> rfl

theorem nibble_holding (pins : LcdPin → Level) (byte : BitVec 8) :
    nibble (holding pins byte) = byte.extractLsb' 4 4 := by
  rw [← bits_upper byte]
  simp only [nibble, holding, ofBit_high]

variable {loose : BitVec 4} {controller : Hd44780}

theorem receive_rs (controller : Hd44780) (level : Level) :
    Runs.run (receive loose) controller [(.rs, level)] =
      some (controller.withPins (Function.update controller.pins .rs level)) := by
  simp [Runs.run, receive]

/-- Half a byte is latched once, when E falls. -/
theorem run_half (controller : Hd44780) (byte : BitVec 8) :
    Runs.run (receive loose) controller (LcdDriver.half byte) =
      (controller.withPins (holding controller.pins byte)).latch loose := by
  have pins : (Function.update (Function.update (Function.update (Function.update
      (Function.update (Function.update controller.pins .d7 (.ofBit (byte.getLsbD 7)))
        .d6 (.ofBit (byte.getLsbD 6))) .d5 (.ofBit (byte.getLsbD 5)))
        .d4 (.ofBit (byte.getLsbD 4))) .e .high) .e .low) = holding controller.pins byte := by
    funext pin
    cases pin <;> rfl
  rw [← pins]
  simp [Runs.run, LcdDriver.half, receive, withPins]

/-- Both halves of a byte make the controller take it. -/
theorem run_halves (fourBits : controller.fourBits = true) (empty : controller.upper = none)
    (byte : BitVec 8) :
    Runs.run (receive loose) controller (LcdDriver.half byte ++ LcdDriver.half (byte <<< 4)) =
      (controller.withPins (holding controller.pins (byte <<< 4))).take byte := by
  have again : holding (holding controller.pins byte) (byte <<< 4) =
      holding controller.pins (byte <<< 4) := by
    funext pin
    cases pin <;> rfl
  have joined : nibble (holding controller.pins byte) ++
      nibble (holding controller.pins (byte <<< 4)) = byte := by
    rw [nibble_holding, nibble_holding, upper_lower]
  obtain ⟨pins, _, _, twoLines, on, increment, address, memory⟩ := controller
  subst fourBits
  subst empty
  have first : latch loose (withPins ⟨pins, true, none, twoLines, on, increment, address, memory⟩
      (holding pins byte)) = some ⟨holding pins byte, true, some (nibble (holding pins byte)),
        twoLines, on, increment, address, memory⟩ := rfl
  have second : latch loose (withPins ⟨holding pins byte, true,
      some (nibble (holding pins byte)), twoLines, on, increment, address, memory⟩
        (holding (holding pins byte) (byte <<< 4))) =
      take ⟨holding (holding pins byte) (byte <<< 4), true, none, twoLines, on, increment, address,
        memory⟩ (nibble (holding pins byte) ++ nibble (holding (holding pins byte) (byte <<< 4))) :=
    rfl
  rw [Runs.run_append, run_half, first, Option.bind_some, run_half, second, again, joined]
  rfl

theorem run_data (fourBits : controller.fourBits = true) (empty : controller.upper = none)
    (characters : controller.pins .rs = .high) (byte : BitVec 8) :
    Runs.run (receive loose) controller (LcdDriver.data byte) =
      (controller.withPins (holding controller.pins (byte <<< 4))).write byte := by
  rw [LcdDriver.data, run_halves fourBits empty, take]
  exact if_pos characters

/-- While RS is low the byte is an instruction. -/
theorem run_comd (fourBits : controller.fourBits = true) (empty : controller.upper = none)
    (byte : BitVec 8) :
    Runs.run (receive loose) controller (LcdDriver.comd byte) =
      ((controller.withPins
          (holding (Function.update controller.pins .rs .low) (byte <<< 4))).instruct byte).bind
        fun next => some (next.withPins (Function.update next.pins .rs .high)) := by
  have instructs : ¬holding (Function.update controller.pins .rs .low) (byte <<< 4) .rs =
      .high := by
    rw [holding, Function.update_self]
    decide
  rw [LcdDriver.comd, Runs.run_append, ← List.singleton_append, Runs.run_append, receive_rs,
    Option.bind_some, run_halves (by exact fourBits) (by exact empty), take]
  simp only [receive_rs]
  exact congrArg (Option.bind · _) (if_neg instructs)

/-! ### Between two bytes -/

/-- The controller as the driver leaves it between two bytes. -/
structure Ready (controller : Hd44780) : Prop where
  fourBits : controller.fourBits = true
  empty : controller.upper = none
  twoLines : controller.twoLines = true
  on : controller.on = true
  increment : controller.increment = true
  characters : controller.pins .rs = .high

theorem Ready.data (ready : Ready controller) (byte : BitVec 8) :
    ∃ next, Runs.run (receive loose) controller (LcdDriver.data byte) = some next ∧ Ready next ∧
      next.memory = Function.update controller.memory controller.address byte ∧
      next.address = controller.following := by
  have writes : Runs.run (receive loose) controller (LcdDriver.data byte) = _ :=
    (run_data ready.fourBits ready.empty ready.characters byte).trans (if_pos ready.increment)
  exact ⟨_, writes, ⟨ready.fourBits, ready.empty, ready.twoLines, ready.on, ready.increment,
    ready.characters⟩, rfl, rfl⟩

/-- An instruction that the controller knows. -/
theorem run_instruction (fourBits : controller.fourBits = true) (empty : controller.upper = none)
    {byte : BitVec 8} (after : Hd44780)
    (known : ∀ pins, (controller.withPins pins).instruct byte = some (after.withPins pins)) :
    ∃ pins, Runs.run (receive loose) controller (LcdDriver.comd byte) =
      some (after.withPins pins) ∧ pins .rs = .high := by
  have ran := @run_comd loose controller fourBits empty byte
  rw [known, Option.bind_some] at ran
  exact ⟨_, ran, Function.update_self _ _ _⟩

/-- An address goes to the controller, and nothing else changes. -/
theorem Ready.address (ready : Ready controller) {byte : BitVec 8} (high : byte.getLsbD 7 = true) :
    ∃ next, Runs.run (receive loose) controller (LcdDriver.comd byte) = some next ∧ Ready next ∧
      next.memory = controller.memory ∧ next.address = (byte.extractLsb' 0 7).toNat := by
  obtain ⟨pins, ran, characters⟩ := run_instruction ready.fourBits ready.empty
    { controller with address := (byte.extractLsb' 0 7).toNat } fun _ => if_pos high
  exact ⟨_, ran, ⟨ready.fourBits, ready.empty, ready.twoLines, ready.on, ready.increment,
    characters⟩, rfl, rfl⟩

/-- On eight wires, four of them loose, the first half switches to four wires. -/
theorem run_half_eight (fourBits : controller.fourBits = false)
    (instructs : controller.pins .rs = .low) :
    Runs.run (receive loose) controller (LcdDriver.half 0x20) =
      some { controller with
        pins := holding controller.pins 0x20, fourBits := true, twoLines := loose.getLsbD 3 } := by
  have upper : nibble (controller.withPins (holding controller.pins 0x20)).pins = 2 := by
    rw [withPins, nibble_holding]
    decide
  have bits : ∀ loose : BitVec 4, ((2 : BitVec 4) ++ loose).getLsbD 7 = false ∧
      ((2 : BitVec 4) ++ loose).getLsbD 6 = false ∧ ((2 : BitVec 4) ++ loose).getLsbD 5 = true ∧
      ((2 : BitVec 4) ++ loose).getLsbD 4 = false ∧
      ((2 : BitVec 4) ++ loose).getLsbD 3 = loose.getLsbD 3 := by
    decide
  obtain ⟨seven, six, five, four, three⟩ := bits loose
  have low : (controller.withPins (holding controller.pins 0x20)).pins .rs ≠ .high :=
    instructs.trans_ne (by decide)
  rw [run_half, latch, if_neg (by exact fourBits ▸ Bool.false_ne_true)]
  rw [take, if_neg low, upper, instruct, seven, six, five, four, three]
  rfl

/-- The constructor switches the controller to four wires and two lines and clears it. -/
theorem PowerUp.create (powerUp : PowerUp controller) {driver : LcdDriver}
    (lines : driver.row ≠ 1) :
    ∃ next, Runs.run (receive loose) controller driver.create = some next ∧ Ready next ∧
      next.memory = (fun _ => LcdDriver.code ' ') ∧ next.address = 0 := by
  have parts : driver.create = ([(LcdPin.e, Level.low)] ++ ([(LcdPin.rs, Level.low)] ++
      (LcdDriver.half 0x20 ++ [(LcdPin.rs, Level.high)]))) ++ (LcdDriver.comd 40 ++
        (LcdDriver.comd 12 ++ (LcdDriver.comd 6 ++ LcdDriver.comd 1))) := by
    rw [LcdDriver.create, LcdDriver.init, if_neg lines, LcdDriver.clear]
    simp only [List.cons_append, List.append_assoc, List.nil_append]
  have steady : Runs.run (receive loose) controller [(.e, .low)] =
      some (controller.withPins (Function.update controller.pins .e .low)) := by
    simp [Runs.run, receive, powerUp.idle]
  obtain ⟨pins, fourBits, upper, twoLines, on, increment, address, memory⟩ := controller
  obtain ⟨rfl, rfl, -⟩ := powerUp
  have four : ∃ wires, Runs.run (receive loose)
      ⟨pins, false, none, twoLines, on, increment, address, memory⟩
      ([(LcdPin.e, Level.low)] ++ ([(LcdPin.rs, Level.low)] ++
        (LcdDriver.half 0x20 ++ [(LcdPin.rs, Level.high)]))) =
        some ⟨wires, true, none, loose.getLsbD 3, on, increment, address, memory⟩ := by
    rw [Runs.run_append, steady, Option.bind_some, Runs.run_append, receive_rs, Option.bind_some,
      Runs.run_append, run_half_eight rfl (by simp [withPins]), Option.bind_some, receive_rs]
    exact ⟨_, rfl⟩
  obtain ⟨wires, ranFour⟩ := four
  obtain ⟨set, ranSet, -⟩ := @run_instruction loose
    ⟨wires, true, none, loose.getLsbD 3, on, increment, address, memory⟩ rfl rfl 40
    ⟨wires, true, none, true, on, increment, address, memory⟩ fun _ => rfl
  obtain ⟨shown, ranShown, -⟩ := @run_instruction loose
    ⟨set, true, none, true, on, increment, address, memory⟩ rfl rfl 12
    ⟨set, true, none, true, true, increment, address, memory⟩ fun _ => rfl
  obtain ⟨entry, ranEntry, -⟩ := @run_instruction loose
    ⟨shown, true, none, true, true, increment, address, memory⟩ rfl rfl 6
    ⟨shown, true, none, true, true, true, address, memory⟩ fun _ => rfl
  obtain ⟨clear, ranClear, characters⟩ := @run_instruction loose
    ⟨entry, true, none, true, true, true, address, memory⟩ rfl rfl 1
    ⟨entry, true, none, true, true, true, 0, fun _ => LcdDriver.code ' '⟩ fun _ => rfl
  simp only [withPins] at ranSet ranShown ranEntry ranClear
  have ran := Runs.run_join ranFour (Runs.run_join ranSet (Runs.run_join ranShown
    (Runs.run_join ranEntry ranClear)))
  rw [← parts] at ran
  exact ⟨_, ran, ⟨rfl, rfl, rfl, rfl, rfl, characters⟩, rfl, rfl⟩

/-! ### The memory holds the cells -/

/-- The controller's memory holds the cells of the LCD: forty characters in each of two lines, the
second of which starts at 64. Behind the last one the cursor is lost. -/
structure Shows (controller : Hd44780) (lcd : Lcd44780) : Prop where
  ready : Ready controller
  line : lcd.y < 2
  cursor : lcd.x < 40 → controller.address = 64 * lcd.y + lcd.x
  cells : ∀ y < 2, ∀ x < 40, controller.memory (64 * y + x) = LcdDriver.code (lcd.cells y x)

variable {lcd : Lcd44780}

theorem Shows.create (powerUp : PowerUp controller) {driver : LcdDriver} (lines : driver.row ≠ 1) :
    ∃ next, Runs.run (receive loose) controller driver.create = some next ∧
      Shows next (Lcd44780.create driver.row driver.col) := by
  obtain ⟨next, ran, ready, memory, address⟩ := powerUp.create lines
  refine ⟨next, ran, ready, Nat.two_pos, fun _ => address, fun y _ x _ => ?_⟩
  rw [memory]
  rfl

/-- The address that `go` sends is the place of the cursor. -/
theorem address_of_place : ∀ y < 2, ∀ x < 40,
    (BitVec.ofNat 8 (0x80 ||| (if y &&& 1 ≠ 0 then 0x40 else 0) ||| x)).getLsbD 7 = true ∧
      ((BitVec.ofNat 8 (0x80 ||| (if y &&& 1 ≠ 0 then 0x40 else 0) ||| x)).extractLsb' 0 7).toNat =
        64 * y + x := by
  decide +kernel

theorem Shows.go (shows : Shows controller lcd) {driver : LcdDriver} (same : driver.col = lcd.col)
    (rows : driver.row = lcd.row) (wide : lcd.col ≤ 40) {x y : Nat} (inside : x < lcd.col)
    (low : y < lcd.row) (two : y < 2) :
    ∃ next, Runs.run (receive loose) controller (driver.go x y) = some next ∧
      Shows next (lcd.go x y) := by
  have here : ¬(lcd.col ≤ x ∨ lcd.row ≤ y) := by omega
  have short : ¬y > 1 := by omega
  obtain ⟨high, place⟩ := address_of_place y two x (by omega)
  obtain ⟨next, ran, ready, memory, address⟩ := @Ready.address loose controller shows.ready _ high
  refine ⟨next, ?_, ?_⟩
  · rw [LcdDriver.go, same, rows, if_neg here, if_neg short]
    exact ran
  · rw [Lcd44780.go, if_neg here, if_neg short, Nat.mod_eq_of_lt two]
    exact ⟨ready, two, fun _ => address.trans place, memory ▸ shows.cells⟩

theorem Shows.data (shows : Shows controller lcd) (room : lcd.x < 40) (byte : Char) :
    ∃ next, Runs.run (receive loose) controller (LcdDriver.data (LcdDriver.code byte)) =
      some next ∧ Shows next (lcd.data byte) := by
  obtain ⟨next, ran, ready, memory, address⟩ :=
    @Ready.data loose controller shows.ready (LcdDriver.code byte)
  have place := shows.cursor room
  have line := shows.line
  refine ⟨next, ran, ready, line, fun more => ?_, fun y two x inside => ?_⟩
  · -- the cursor has not reached the end of its line
    have more : lcd.x + 1 < 40 := more
    rw [address, following, if_pos shows.ready.twoLines, if_neg (by omega), if_neg (by omega),
      place]
    rfl
  · rw [memory, place]
    show Function.update controller.memory (64 * lcd.y + lcd.x) (LcdDriver.code byte) _ =
      LcdDriver.code (Function.update lcd.cells lcd.y
        (Function.update (lcd.cells lcd.y) lcd.x byte) y x)
    by_cases row : y = lcd.y
    · subst row
      rw [Function.update_self]
      by_cases column : x = lcd.x
      · subst column
        rw [Function.update_self, Function.update_self]
      · rw [Function.update_of_ne column, Function.update_of_ne (by omega)]
        exact shows.cells _ two x inside
    · rw [Function.update_of_ne row, Function.update_of_ne (by omega)]
      exact shows.cells y two x inside

theorem Shows.printf (shows : Shows controller lcd) (line : List Char)
    (room : lcd.x + line.length ≤ 40) :
    ∃ next, Runs.run (receive loose) controller (LcdDriver.printf line) = some next ∧
      Shows next (lcd.printf line) := by
  induction line generalizing controller lcd with
  | nil => exact ⟨controller, rfl, shows⟩
  | cons byte rest inductionHypothesis =>
    rw [List.length_cons] at room
    obtain ⟨middle, ranByte, showsByte⟩ := @Shows.data loose controller lcd shows (by omega) byte
    have rooms : (lcd.data byte).x + rest.length ≤ 40 := by
      show lcd.x + 1 + rest.length ≤ 40
      omega
    obtain ⟨next, ranRest, showsRest⟩ := inductionHypothesis showsByte rooms
    refine ⟨next, ?_, showsRest⟩
    rw [LcdDriver.printf, List.flatMap_cons, Runs.run_append, ranByte, Option.bind_some]
    exact ranRest

end Hd44780

/-! ### The display on its wires -/

namespace Display

def driver : LcdDriver where
  row := HEIGHT
  col := LENGTH

/-- A row: its text, and one call of `printf` for every blank behind it. -/
def rowWrites (y : Nat) (text : List Char) : List PinWrite :=
  driver.go 0 y ++ LcdDriver.printf text ++
    (List.replicate (LENGTH - text.length) (LcdDriver.printf [' '])).flatten

/-- What a call of the class writes to the pins, the display being as it is. -/
def callWrites (display : Display) : Call Float32T → List PinWrite
  | .setFrequency frequency =>
    if display.frequency == frequency && !display.isFrequencyTooLow then []
    else rowWrites 0 (frequencyText frequency)
  | .setFrequencyTooLow => rowWrites 0 tooLowText
  | .setCommand command => if display.command = command then [] else rowWrites 1 command.text

def createWrites : List PinWrite :=
  driver.create ++ (rowWrites 0 tooLowText ++ rowWrites 1 Command.stop.text)

def writes (display : Display) : List (Call Float32T) → List PinWrite
  | [] => []
  | call :: rest => display.callWrites call ++ (display.call call).writes rest

/-- The text of a frequency fits into the buffer of `printf`, with its end. -/
def Fits : Call Float32T → Prop
  | .setFrequency frequency => (frequencyText frequency).length < 40
  | _ => True

theorem printf_replicate (count : Nat) :
    (List.replicate count (LcdDriver.printf [' '])).flatten =
      LcdDriver.printf (List.replicate count ' ') := by
  induction count with
  | zero => rfl
  | succ count inductionHypothesis =>
    rw [List.replicate_succ, List.replicate_succ, List.flatten_cons, inductionHypothesis]
    rfl

theorem rowWrites_eq (y : Nat) (text : List Char) :
    rowWrites y text = driver.go 0 y ++ LcdDriver.printf (padded text) := by
  rw [rowWrites, printf_replicate, padded, List.append_assoc, LcdDriver.printf, LcdDriver.printf,
    LcdDriver.printf, ← List.flatMap_append]

/-- The controller shows the LCD of the display. -/
structure Wired (controller : Hd44780) (lcd : Lcd44780) : Prop where
  shows : controller.Shows lcd
  row : lcd.row = HEIGHT
  col : lcd.col = LENGTH

variable {loose : BitVec 4} {controller : Hd44780} {lcd : Lcd44780} {display : Display}

theorem Wired.draw (wired : Wired controller lcd) {y : Nat} (two : y < HEIGHT) {text : List Char}
    (short : text.length < 40) :
    ∃ next, Runs.run (Hd44780.receive loose) controller (rowWrites y text) = some next ∧
      Wired next ((lcd.go 0 y).printf (padded text)) := by
  have start : lcd.Printed y [] (lcd.go 0 y) :=
    .go lcd (wired.col ▸ by decide) (wired.row ▸ two) two
  have printed := start.printf (padded text)
  have length : (padded text).length ≤ 40 := by
    rw [padded, List.length_append, List.length_replicate]
    show text.length + (16 - text.length) ≤ 40
    omega
  obtain ⟨x, -⟩ := Prod.mk.inj start.cursor
  obtain ⟨placed, ranGo, showsGo⟩ := @Hd44780.Shows.go loose controller lcd wired.shows driver
    wired.col.symm wired.row.symm (wired.col ▸ by decide) 0 y (wired.col ▸ by decide)
    (wired.row ▸ two) two
  obtain ⟨next, ranText, showsText⟩ := @Hd44780.Shows.printf loose placed _ showsGo (padded text)
    (by rw [x]; exact (Nat.zero_add _).trans_le length)
  refine ⟨next, ?_, showsText, printed.row.trans wired.row, printed.col.trans wired.col⟩
  rw [rowWrites_eq]
  exact Runs.run_join ranGo ranText

theorem Wired.call (wired : Wired controller display.display) {call : Call Float32T}
    (fits : Fits call) :
    ∃ next, Runs.run (Hd44780.receive loose) controller (display.callWrites call) = some next ∧
      Wired next (display.call call).display := by
  cases call with
  | setFrequency frequency =>
    rw [callWrites, Display.call, setFrequency_eq]
    by_cases skipped : (display.frequency == frequency && !display.isFrequencyTooLow) = true
    · rw [if_pos skipped, if_pos skipped]
      exact ⟨controller, rfl, wired⟩
    · rw [if_neg skipped, if_neg skipped]
      have short : (frequencyText frequency).length < 40 := fits
      dsimp only
      exact @Wired.draw loose controller _ wired 0 (by decide) _ short
  | setFrequencyTooLow =>
    rw [callWrites, Display.call, setFrequencyTooLow_eq]
    exact wired.draw (show 0 < HEIGHT by decide) (show tooLowText.length < 40 by decide)
  | setCommand command =>
    rw [callWrites, Display.call, setCommand_eq]
    by_cases skipped : display.command = command
    · rw [if_pos skipped, if_pos skipped]
      exact ⟨controller, rfl, wired⟩
    · rw [if_neg skipped, if_neg skipped]
      exact wired.draw (show 1 < HEIGHT by decide)
        ((length_commandText command).trans_lt (show LENGTH < 40 by decide))

theorem Wired.calls (wired : Wired controller display.display) {made : List (Call Float32T)}
    (fits : ∀ call ∈ made, Fits call) :
    ∃ final, Runs.run (Hd44780.receive loose) controller (display.writes made) = some final ∧
      Wired final (display.calls made).display := by
  induction made generalizing controller display with
  | nil => exact ⟨controller, rfl, wired⟩
  | cons call rest inductionHypothesis =>
    obtain ⟨next, ranCall, wiredNext⟩ :=
      @Wired.call loose controller display wired call (fits call List.mem_cons_self)
    obtain ⟨final, ranRest, wiredFinal⟩ :=
      inductionHypothesis wiredNext fun other member => fits other (List.mem_cons_of_mem _ member)
    exact ⟨final, Runs.run_join ranCall ranRest, wiredFinal⟩

theorem Wired.create (powerUp : controller.PowerUp) (command : Command) :
    ∃ next, Runs.run (Hd44780.receive loose) controller createWrites = some next ∧
      Wired next (create command).display := by
  obtain ⟨blank, ranBlank, showsBlank⟩ :=
    @Hd44780.Shows.create loose controller powerUp driver (by decide)
  have wiredBlank : Wired blank (Lcd44780.create HEIGHT LENGTH) := ⟨showsBlank, rfl, rfl⟩
  obtain ⟨first, ranFirst, wiredFirst⟩ := @Wired.draw loose blank _ wiredBlank 0 (by decide)
    tooLowText (by decide)
  obtain ⟨next, ranNext, wiredNext⟩ := @Wired.draw loose first _ wiredFirst 1 (by decide)
    Command.stop.text (by decide)
  have start : (Display.create command).display = ((((Lcd44780.create HEIGHT LENGTH).go 0 0).printf
      (padded tooLowText)).go 0 1).printf (padded Command.stop.text) := by
    rw [Display.create, setFrequencyTooLow_eq, updateCommand, printRow_fillDisplaySpace]
  exact ⟨next, Runs.run_join ranBlank (Runs.run_join ranFirst ranNext), start ▸ wiredNext⟩

/-- From power-up on, whatever is called, the controller reads only bytes that it knows, and after
each call its memory holds the cells of the LCD. -/
theorem wires_calls (powerUp : controller.PowerUp) (command : Command)
    {made : List (Call Float32T)} (fits : ∀ call ∈ made, Fits call) :
    ∃ final, Runs.run (Hd44780.receive loose) controller
        (createWrites ++ (create command).writes made) = some final ∧
      final.Shows ((create command).calls made).display := by
  obtain ⟨start, ranStart, wired⟩ := @Wired.create loose controller powerUp command
  obtain ⟨final, ran, wiredFinal⟩ := @Wired.calls loose start _ wired made fits
  exact ⟨final, Runs.run_join ranStart ran, wiredFinal.shows⟩

/-- A first frequency and its command. -/
theorem wires_calls_forward :
    ∃ final, Runs.run (Hd44780.receive 0)
        ⟨fun _ => .low, false, none, false, false, false, 0, fun _ => 0⟩
        (createWrites ++ (create .none).writes
          [.setFrequency (Float32.Model.ofInt 644), .setCommand .forward]) = some final ∧
      final.Shows ((create .none).calls
        [.setFrequency (Float32.Model.ofInt 644), .setCommand .forward]).display := by
  refine wires_calls ⟨rfl, rfl, rfl⟩ .none fun call member => ?_
  simp only [List.mem_cons, List.not_mem_nil, or_false] at member
  rcases member with rfl | rfl
  · show (frequencyText (Float32.Model.ofInt 644)).length < 40
    decide
  · trivial

end Display

end WhistleDrivenRobot
