/-
This file says what is to be read on the display after any sequence of calls of
the class. Rows are written over and never cleared, and a call may be skipped;
what carries the two together is that the fields of the class agree with what
its callers asked for last, and the cells with the fields. Nothing is written
behind the last column. A call that is skipped is one that asks for what is
shown, but the converse fails for the one operation that is never skipped.
-/

import WhistleDrivenRobot.Cells
import WhistleDrivenRobot.Display

namespace WhistleDrivenRobot

/-! ### A row of the LCD -/

namespace Lcd44780

/-- `line` was printed from the beginning of the row `y` on. -/
structure Printed (before : Lcd44780) (y : Nat) (line : List Char) (after : Lcd44780) : Prop where
  row : after.row = before.row
  col : after.col = before.col
  cursor : (after.x, after.y) = (line.length, y)
  written : (List.range line.length).map (after.cells y) = line
  others : ∀ other, other ≠ y → after.cells other = before.cells other
  sent : after.sent = before.sent ++ line.mapIdx fun x byte => (y, x, byte)

variable {before after : Lcd44780} {y : Nat} {line : List Char}

theorem Printed.go (lcd : Lcd44780) (room : 0 < lcd.col) {y : Nat} (inside : y < lcd.row)
    (low : y < 2) : Printed lcd y [] (lcd.go 0 y) := by
  have here : ¬(lcd.col ≤ 0 ∨ lcd.row ≤ y) := by omega
  have short : ¬1 < y := by omega
  rw [Lcd44780.go, if_neg here, if_neg short, Nat.mod_eq_of_lt low]
  exact ⟨rfl, rfl, rfl, rfl, fun _ _ => rfl, (List.append_nil _).symm⟩

theorem Printed.data (printed : Printed before y line after) (byte : Char) :
    Printed before y (line ++ [byte]) (after.data byte) := by
  obtain ⟨x, rfl⟩ := Prod.mk.inj printed.cursor
  refine ⟨printed.row, printed.col, ?_, ?_, fun other different => ?_, ?_⟩
  · rw [List.length_append, ← x]
    rfl
  · rw [List.length_append, List.length_singleton]
    show (List.range (line.length + 1)).map (Function.update after.cells after.y
      (Function.update (after.cells after.y) after.x byte) after.y) = _
    rw [x, Function.update_self, Cells.map_range_update, printed.written]
  · exact (Function.update_of_ne different _ _).trans (printed.others other different)
  · show after.sent ++ [(after.y, after.x, byte)] = _
    rw [printed.sent, x, List.mapIdx_concat, List.append_assoc]

theorem Printed.printf (printed : Printed before y [] after) (line : List Char) :
    Printed before y line (after.printf line) := by
  induction line using List.reverseRecOn with
  | nil => exact printed
  | append_singleton line byte inductionHypothesis =>
    rw [Lcd44780.printf, List.foldl_append]
    exact inductionHypothesis.data byte

theorem length_sent_printf (lcd : Lcd44780) (line : List Char) :
    (lcd.printf line).sent.length = lcd.sent.length + line.length := by
  induction line generalizing lcd with
  | nil => rfl
  | cons byte rest inductionHypothesis =>
    refine (inductionHypothesis (lcd.data byte)).trans ?_
    rw [Lcd44780.data, List.length_append, List.length_singleton, List.length_cons,
      Nat.add_assoc, Nat.add_comm 1]

theorem sent_go (lcd : Lcd44780) (x y : Nat) : (lcd.go x y).sent = lcd.sent := by
  rw [Lcd44780.go]
  split <;> rfl

theorem iterate_printf (lcd : Lcd44780) (byte : Char) (count : Nat) :
    (fun lcd : Lcd44780 => lcd.printf [byte])^[count] lcd =
      lcd.printf (List.replicate count byte) := by
  induction count with
  | zero => rfl
  | succ count inductionHypothesis =>
    rw [Function.iterate_succ_apply', inductionHypothesis, List.replicate_succ',
      Lcd44780.printf, Lcd44780.printf, Lcd44780.printf, List.foldl_append]

end Lcd44780

/-! ### The texts -/

/-- A number that is worth a natural number has ten times as many tenths. -/
theorem tenths_of_whole {mantissa whole : Nat} {exponent : Int}
    (same : (whole : Rat) = mantissa * 2 ^ exponent) : tenths mantissa exponent = 10 * whole := by
  have digits : mantissa * 2 ^ exponent.toNat = whole * 2 ^ (-exponent).toNat :=
    Binary32.shift_of_whole same
  have count : 10 * (mantissa * 2 ^ exponent.toNat) = 10 * whole * 2 ^ (-exponent).toNat := by
    rw [digits, Nat.mul_assoc]
  have unit := Nat.two_pow_pos (-exponent).toNat
  rw [tenths, count, Nat.mul_mod_left, Nat.mul_zero, if_pos (Or.inl unit),
    Nat.mul_div_cancel _ unit]

theorem formatTenths_ofInt {number : Nat} (small : number < 2 ^ 24) :
    formatTenths (Float32.Model.ofInt number) = Nat.toDigits 10 number ++ ".0".toList := by
  have short : |(number : Int)| < 2 ^ 24 := by
    rw [Nat.abs_cast]
    exact_mod_cast small
  have whole : 10 * number / 10 = number := Nat.mul_div_cancel_left number (by decide)
  have point : 10 * number % 10 = 0 := Nat.mul_mod_right 10 number
  rcases Nat.eq_zero_or_pos number with rfl | positive
  · decide
  · rcases Binary32.value_finite_inj (Binary32.represents_float_ofInt short) with
      ⟨_, _, zero⟩ | ⟨sign, mantissa, exponent, nonzero, unpacked, _, same⟩
    · exact absurd (Int.cast_eq_zero.mp zero) (by omega)
    · rw [formatTenths, unpacked]
      cases sign with
      | negative =>
        have least := Binary32.size_pos nonzero exponent
        have most : (0 : Rat) ≤ (number : Int) := by exact_mod_cast Nat.zero_le number
        rw [same] at most
        exact absurd most (not_le.mpr (neg_neg_of_pos least))
      | positive =>
        have size : (number : Rat) = mantissa * 2 ^ exponent := same
        show Nat.toDigits 10 (tenths mantissa exponent / 10) ++
          '.' :: Nat.toDigits 10 (tenths mantissa exponent % 10) = _
        rw [tenths_of_whole size, whole, point]
        rfl

namespace Display

/-- A text and the blanks behind it. -/
def padded (text : List Char) : List Char := text ++ List.replicate (LENGTH - text.length) ' '

theorem length_padded {text : List Char} (short : text.length ≤ LENGTH) :
    (padded text).length = LENGTH := by
  rw [padded, List.length_append, List.length_replicate, Nat.add_sub_cancel' short]

theorem length_commandText (command : Command) : command.text.length ≤ LENGTH := by
  cases command <;> decide

/-- A row is drawn by printing its padded text. -/
theorem printRow_fillDisplaySpace (display : Display) (y : Nat) (text : List Char) :
    (display.printRow y text).fillDisplaySpace text.length =
      { display with display := (display.display.go 0 y).printf (padded text) } := by
  have blanks := ((display.display.go 0 y).printf text).iterate_printf ' ' (LENGTH - text.length)
  refine congrArg (fun lcd => { display with display := lcd }) (blanks.trans ?_)
  rw [padded, Lcd44780.printf, Lcd44780.printf, Lcd44780.printf, List.foldl_append]

theorem setFrequencyTooLow_eq (display : Display) :
    display.setFrequencyTooLow =
      { display with
        isFrequencyTooLow := true
        display := (display.display.go 0 0).printf (padded tooLowText) } :=
  printRow_fillDisplaySpace { display with isFrequencyTooLow := true } 0 tooLowText

theorem setFrequency_eq (display : Display) (frequency : Float32T) :
    display.setFrequency frequency =
      if display.frequency == frequency && !display.isFrequencyTooLow then display
      else
        { display with
          frequency := frequency
          isFrequencyTooLow := false
          display := (display.display.go 0 0).printf (padded (frequencyText frequency)) } := by
  rw [setFrequency]
  split
  · rfl
  · exact printRow_fillDisplaySpace
      { display with frequency := frequency, isFrequencyTooLow := false } 0
      (frequencyText frequency)

theorem setCommand_eq (display : Display) (command : Command) :
    display.setCommand command =
      if display.command = command then display
      else
        { display with
          command := command
          display := (display.display.go 0 1).printf (padded command.text) } := by
  rw [setCommand]
  split
  · rfl
  · exact printRow_fillDisplaySpace { display with command := command } 1 command.text

/-! ### Calls and what they ask for -/

inductive Call (Frequency : Type)
  | setFrequency (frequency : Frequency)
  | setFrequencyTooLow
  | setCommand (command : Command)
  deriving DecidableEq, Repr

/-- The display after a call. -/
def call (display : Display) : Call Float32T → Display
  | .setFrequency frequency => display.setFrequency frequency
  | .setFrequencyTooLow => display.setFrequencyTooLow
  | .setCommand command => display.setCommand command

def calls (display : Display) (made : List (Call Float32T)) : Display := made.foldl call display

theorem calls_append (display : Display) (first second : List (Call Float32T)) :
    display.calls (first ++ second) = (display.calls first).calls second := List.foldl_append

/-- What the two rows are to show: a frequency, none when the volume is too low, and a command. -/
structure Shown (Frequency : Type) where
  frequency : Option Frequency
  command : Command

section Asking

variable {Frequency Other : Type}

def Call.map (convert : Frequency → Other) : Call Frequency → Call Other
  | .setFrequency frequency => .setFrequency (convert frequency)
  | .setFrequencyTooLow => .setFrequencyTooLow
  | .setCommand command => .setCommand command

def Shown.map (convert : Frequency → Other) (shown : Shown Frequency) : Shown Other where
  frequency := shown.frequency.map convert
  command := shown.command

def Shown.after (shown : Shown Frequency) : Call Frequency → Shown Frequency
  | .setFrequency frequency => { shown with frequency := some frequency }
  | .setFrequencyTooLow => { shown with frequency := none }
  | .setCommand command => { shown with command := command }

/-- What the calls after the construction asked for last. -/
def shown (made : List (Call Frequency)) : Shown Frequency := made.foldl .after ⟨none, .stop⟩

/-- What a call asks for is shown already. -/
def Shown.Has [BEq Frequency] (shown : Shown Frequency) : Call Frequency → Prop
  | .setFrequency frequency => shown.frequency.any (· == frequency) = true
  | .setFrequencyTooLow => shown.frequency = none
  | .setCommand command => shown.command = command

theorem shown_concat (made : List (Call Frequency)) (last : Call Frequency) :
    shown (made ++ [last]) = (shown made).after last := by
  rw [shown, List.foldl_append]
  rfl

end Asking

/-! ### The fields hold what was asked for -/

/-- The fields of the class agree with what the calls asked for; the frequency that is held may be
the other zero. -/
structure Agrees (shown : Shown Float32T) (display : Display) : Prop where
  command : display.command = shown.command
  tooLow : display.isFrequencyTooLow = shown.frequency.isNone
  frequency : ∀ frequency, shown.frequency = some frequency →
    ∀ other, (display.frequency == other) = (frequency == other)

variable {display : Display}

/-- A call is skipped when it asks for what is shown, unless it is `setFrequencyTooLow`. -/
theorem Agrees.skips {shown : Shown Float32T} (agrees : Agrees shown display)
    (frequency : Float32T) :
    (display.frequency == frequency && !display.isFrequencyTooLow) = true ↔
      shown.Has (.setFrequency frequency) := by
  rw [agrees.tooLow, Shown.Has]
  cases here : shown.frequency with
  | none => simp
  | some shownFrequency =>
    rw [agrees.frequency shownFrequency here]
    simp

theorem Agrees.call {shown : Shown Float32T} (agrees : Agrees shown display)
    (call : Call Float32T) : Agrees (shown.after call) (display.call call) := by
  cases call with
  | setFrequency frequency =>
    rw [Display.call, setFrequency_eq]
    split
    · rename_i unchanged
      obtain ⟨equal, notTooLow⟩ := Bool.and_eq_true_iff.mp unchanged
      have tooLow : display.isFrequencyTooLow = false := by simpa using notTooLow
      refine ⟨agrees.command, tooLow, fun asked same => ?_⟩
      obtain rfl := Option.some.inj same
      exact Binary32.equal_congr equal
    · refine ⟨agrees.command, rfl, fun asked same other => ?_⟩
      obtain rfl := Option.some.inj same
      rfl
  | setFrequencyTooLow =>
    rw [Display.call, setFrequencyTooLow_eq]
    exact ⟨agrees.command, rfl, nofun⟩
  | setCommand command =>
    rw [Display.call, setCommand_eq]
    split
    · rename_i same
      exact ⟨same, agrees.tooLow, agrees.frequency⟩
    · exact ⟨rfl, agrees.tooLow, agrees.frequency⟩

theorem Agrees.create (command : Command) : Agrees ⟨none, .stop⟩ (create command) :=
  ⟨rfl, rfl, nofun⟩

theorem agrees_calls (command : Command) (made : List (Call Float32T)) :
    Agrees (shown made) ((create command).calls made) := by
  induction made using List.reverseRecOn with
  | nil => exact Agrees.create command
  | append_singleton before last inductionHypothesis =>
    rw [shown_concat, calls_append]
    exact inductionHypothesis.call last

/-! ### The cells show the fields -/

/-- The largest frequency of an analysis. -/
def maxFrequency : Nat := 10989

/-- A whole number as a frequency. -/
def whole (number : Nat) : Float32T := Float32.Model.ofInt number

/-- What the first row is to show. -/
def Shown.frequencyText (shown : Shown Nat) : List Char :=
  match shown.frequency with
  | none => "Volume too low".toList
  | some number => "Freq: ".toList ++ Nat.toDigits 10 number ++ ".0 Hz".toList

/-- The cells of the two rows show what they are to, and nothing was sent to any other cell. -/
structure Displays (shown : Shown Nat) (lcd : Lcd44780) : Prop where
  frequencyRow : (List.range LENGTH).map (lcd.cells 0) = padded shown.frequencyText
  commandRow : (List.range LENGTH).map (lcd.cells 1) = padded shown.command.text
  inside : ∀ sent ∈ lcd.sent, sent.1 < HEIGHT ∧ sent.2.1 < LENGTH

theorem frequencyText_whole {number : Nat} (inside : number ≤ maxFrequency) :
    frequencyText (whole number) =
      "Freq: ".toList ++ Nat.toDigits 10 number ++ ".0 Hz".toList := by
  have digits : formatTenths (whole number) = Nat.toDigits 10 number ++ ".0".toList :=
    formatTenths_ofInt (Nat.lt_of_le_of_lt inside (by decide))
  have tail : ".0 Hz".toList = ".0".toList ++ " Hz".toList := by decide
  show "Freq: ".toList ++ formatTenths (whole number) ++ " Hz".toList = _
  rw [digits, tail, List.append_assoc, List.append_assoc, List.append_assoc]

theorem length_frequencyText {number : Nat} (inside : number ≤ maxFrequency) :
    (frequencyText (whole number)).length ≤ LENGTH := by
  have digits : (Nat.toDigits 10 number).length ≤ 5 :=
    (Nat.length_toDigits_le_iff (by decide) (by decide)).mpr (Nat.lt_of_le_of_lt inside (by decide))
  rw [frequencyText_whole inside, List.length_append, List.length_append]
  show 6 + (Nat.toDigits 10 number).length + 5 ≤ 16
  omega

theorem whole_equal {one other : Nat} (inside : one ≤ maxFrequency)
    (otherInside : other ≤ maxFrequency) (equal : (whole one == whole other) = true) :
    one = other := by
  have short : ∀ {number : Nat}, number ≤ maxFrequency → |(number : Int)| < 2 ^ 24 := by
    intro number inside
    rw [Nat.abs_cast]
    exact_mod_cast Nat.lt_of_le_of_lt inside (by decide)
  exact Int.ofNat_inj.mp ((Binary32.ofInt_equal_ofInt (short inside) (short otherInside)).mp equal)

/-- The LCD has two rows of sixteen cells, and no character was sent to any other cell. -/
structure Bounded (lcd : Lcd44780) : Prop where
  row : lcd.row = HEIGHT
  col : lcd.col = LENGTH
  inside : ∀ sent ∈ lcd.sent, sent.1 < HEIGHT ∧ sent.2.1 < LENGTH

/-- Drawing a row leaves the other one as it is. -/
theorem Bounded.draw {lcd : Lcd44780} (bounded : Bounded lcd) {y : Nat} (inside : y < HEIGHT)
    {text : List Char} (short : text.length ≤ LENGTH) :
    Bounded ((lcd.go 0 y).printf (padded text)) ∧
      (List.range LENGTH).map (((lcd.go 0 y).printf (padded text)).cells y) = padded text ∧
      ∀ other, other ≠ y → ((lcd.go 0 y).printf (padded text)).cells other = lcd.cells other := by
  have start : lcd.Printed y [] (lcd.go 0 y) :=
    .go lcd (bounded.col ▸ by decide) (bounded.row ▸ inside) inside
  have printed := start.printf (padded text)
  have length := length_padded short
  refine ⟨⟨printed.row.trans bounded.row, printed.col.trans bounded.col, ?_⟩,
    length ▸ printed.written, printed.others⟩
  intro sent member
  rw [printed.sent] at member
  rcases List.mem_append.mp member with old | new
  · exact bounded.inside sent old
  · obtain ⟨x, within, rfl⟩ := List.mem_mapIdx.mp new
    exact ⟨inside, length ▸ within⟩

/-- The fields agree with what was asked for, and the cells with the fields. -/
structure Drawn (shown : Shown Nat) (display : Display) : Prop where
  agrees : Agrees (shown.map whole) display
  small : ∀ number, shown.frequency = some number → number ≤ maxFrequency
  bounded : Bounded display.display
  frequencyRow : (List.range LENGTH).map (display.display.cells 0) = padded shown.frequencyText
  commandRow : (List.range LENGTH).map (display.display.cells 1) = padded shown.command.text

theorem Drawn.displays {shown : Shown Nat} (drawn : Drawn shown display) :
    Displays shown display.display :=
  ⟨drawn.frequencyRow, drawn.commandRow, drawn.bounded.inside⟩

theorem Drawn.create (command : Command) : Drawn ⟨none, .stop⟩ (create command) := by
  have blank : Bounded (Lcd44780.create HEIGHT LENGTH) := ⟨rfl, rfl, nofun⟩
  obtain ⟨bounded, frequencyRow, -⟩ := blank.draw (show 0 < HEIGHT by decide)
    (show tooLowText.length ≤ LENGTH by decide)
  obtain ⟨boundedNow, commandRow, others⟩ := bounded.draw (show 1 < HEIGHT by decide)
    (length_commandText .stop)
  have start : (Display.create command).display = ((((Lcd44780.create HEIGHT LENGTH).go 0 0).printf
      (padded tooLowText)).go 0 1).printf (padded Command.stop.text) := by
    rw [Display.create, setFrequencyTooLow_eq, updateCommand, printRow_fillDisplaySpace]
  refine ⟨Agrees.create command, nofun, start ▸ boundedNow, ?_, start ▸ commandRow⟩
  rw [start, others 0 (by decide)]
  exact frequencyRow

section Drawing

variable {shown after : Shown Nat} {next : Display}

theorem Drawn.drawFrequency (drawn : Drawn shown display) (agrees : Agrees (after.map whole) next)
    (small : ∀ number, after.frequency = some number → number ≤ maxFrequency)
    (command : after.command = shown.command) (short : after.frequencyText.length ≤ LENGTH)
    (draws : next.display = (display.display.go 0 0).printf (padded after.frequencyText)) :
    Drawn after next := by
  obtain ⟨bounded, row, others⟩ := drawn.bounded.draw (show 0 < HEIGHT by decide) short
  rw [← draws] at bounded row others
  refine ⟨agrees, small, bounded, row, ?_⟩
  rw [others 1 (by decide), command]
  exact drawn.commandRow

theorem Drawn.drawCommand (drawn : Drawn shown display) (agrees : Agrees (after.map whole) next)
    (frequency : after.frequency = shown.frequency)
    (draws : next.display = (display.display.go 0 1).printf (padded after.command.text)) :
    Drawn after next := by
  obtain ⟨bounded, row, others⟩ := drawn.bounded.draw (show 1 < HEIGHT by decide)
    (length_commandText after.command)
  rw [← draws] at bounded row others
  refine ⟨agrees, frequency ▸ drawn.small, bounded, ?_, row⟩
  rw [others 0 (by decide), Shown.frequencyText, frequency]
  exact drawn.frequencyRow

theorem Drawn.setFrequency (drawn : Drawn shown display) {number : Nat}
    (inside : number ≤ maxFrequency) :
    Drawn { shown with frequency := some number } (display.setFrequency (whole number)) := by
  have agrees := drawn.agrees.call (.setFrequency (whole number))
  have skips := drawn.agrees.skips (whole number)
  rw [Display.call, setFrequency_eq] at agrees
  rw [setFrequency_eq]
  split
  · rename_i unchanged
    -- the frequency that is shown has the same float, so it is the same number
    have same : shown.frequency = some number := by
      have has := skips.mp unchanged
      cases here : shown.frequency with
      | none =>
        rw [Shown.Has, Shown.map, here] at has
        exact absurd has Bool.false_ne_true
      | some old =>
        rw [Shown.Has, Shown.map, here] at has
        exact congrArg some (whole_equal (drawn.small old here) inside has)
    rw [← same]
    exact drawn
  · rename_i changed
    rw [if_neg changed] at agrees
    have text : frequencyText (whole number) =
        Shown.frequencyText { shown with frequency := some number } := frequencyText_whole inside
    refine drawn.drawFrequency agrees (fun other same => ?_) rfl ?_ ?_
    · exact Option.some.inj same ▸ inside
    · exact text ▸ length_frequencyText inside
    · rw [← text]

theorem Drawn.setFrequencyTooLow (drawn : Drawn shown display) :
    Drawn { shown with frequency := none } display.setFrequencyTooLow := by
  have agrees := drawn.agrees.call .setFrequencyTooLow
  have short : tooLowText.length ≤ LENGTH := by decide
  refine drawn.drawFrequency agrees nofun rfl short ?_
  rw [setFrequencyTooLow_eq]
  rfl

theorem Drawn.setCommand (drawn : Drawn shown display) (command : Command) :
    Drawn { shown with command := command } (display.setCommand command) := by
  have agrees := drawn.agrees.call (.setCommand command)
  rw [Display.call, setCommand_eq] at agrees
  rw [setCommand_eq]
  split
  · rename_i same
    have held : shown.command = command := drawn.agrees.command.symm.trans same
    rw [← held]
    exact drawn
  · rename_i changed
    rw [if_neg changed] at agrees
    exact drawn.drawCommand agrees rfl rfl

end Drawing

/-- After any calls with whole frequencies in the range of the analysis the display shows what they
asked for last. -/
theorem displays_calls (command : Command) {made : List (Call Nat)}
    (inside : ∀ number, .setFrequency number ∈ made → number ≤ maxFrequency) :
    Displays (shown made) ((create command).calls (made.map (Call.map whole))).display := by
  suffices drawn : Drawn (shown made) ((create command).calls (made.map (Call.map whole))) from
    drawn.displays
  induction made using List.reverseRecOn with
  | nil => exact Drawn.create command
  | append_singleton before last inductionHypothesis =>
    have drawn := inductionHypothesis fun number member =>
      inside number (List.mem_append_left _ member)
    rw [shown_concat, List.map_append, calls_append]
    cases last with
    | setFrequency number =>
      exact drawn.setFrequency (inside number (List.mem_append_right _ List.mem_cons_self))
    | setFrequencyTooLow => exact drawn.setFrequencyTooLow
    | setCommand command => exact drawn.setCommand command

/-- The longest texts fill their rows. -/
theorem displays_calls_longest :
    Displays (shown [.setFrequency 10989, .setCommand .none, .setFrequency 11])
      ((create .none).calls ([.setFrequency 10989, .setCommand .none, .setFrequency 11].map
        (Call.map whole))).display := by
  refine displays_calls .none fun number member => ?_
  simp only [List.mem_cons, Call.setFrequency.injEq, reduceCtorEq, List.not_mem_nil, or_false,
    false_or] at member
  rcases member with rfl | rfl <;> decide

/-! ### When characters are sent -/

/-- A call sends characters to the LCD. -/
def Sends (display : Display) (call : Call Float32T) : Prop :=
  (display.call call).display.sent ≠ display.display.sent

/-- Drawing a row sends at least as many characters as it has cells. -/
theorem length_sent_draw (lcd : Lcd44780) (y : Nat) (text : List Char) :
    lcd.sent.length + LENGTH ≤ ((lcd.go 0 y).printf (padded text)).sent.length := by
  rw [Lcd44780.length_sent_printf, Lcd44780.sent_go, padded, List.length_append,
    List.length_replicate]
  omega

theorem sent_draw_ne (lcd : Lcd44780) (y : Nat) (text : List Char) :
    ((lcd.go 0 y).printf (padded text)).sent ≠ lcd.sent := by
  intro same
  have longer := length_sent_draw lcd y text
  rw [same] at longer
  exact absurd longer (Nat.not_le.mpr (Nat.lt_add_of_pos_right (by decide)))

theorem length_sent_setCommand (display : Display) (command : Command) :
    display.display.sent.length ≤ (display.setCommand command).display.sent.length := by
  rw [setCommand_eq]
  split
  · exact Nat.le_refl _
  · exact (Nat.le_add_right _ _).trans (length_sent_draw _ _ _)

/-- `setFrequencyTooLow` always sends something, the others unless they are skipped. -/
theorem Agrees.sends_iff {shown : Shown Float32T} (agrees : Agrees shown display)
    (call : Call Float32T) :
    display.Sends call ↔ call = .setFrequencyTooLow ∨ ¬shown.Has call := by
  rw [Sends]
  cases call with
  | setFrequency frequency =>
    rw [← agrees.skips, Display.call, setFrequency_eq]
    split
    · rename_i unchanged
      exact iff_of_false (fun sends => sends rfl) (by rintro (other | changed) <;> contradiction)
    · rename_i changed
      exact iff_of_true (sent_draw_ne _ _ _) (Or.inr changed)
  | setFrequencyTooLow =>
    rw [Display.call, setFrequencyTooLow_eq]
    exact iff_of_true (sent_draw_ne _ _ _) (Or.inl rfl)
  | setCommand command =>
    rw [Shown.Has, ← agrees.command, Display.call, setCommand_eq]
    split
    · rename_i same
      exact iff_of_false (fun sends => sends rfl) (by rintro (other | changed) <;> contradiction)
    · rename_i changed
      exact iff_of_true (sent_draw_ne _ _ _) (Or.inr changed)

/-- Every call sends characters if and only if what it asks for is not shown yet. -/
def UpdatesIffNew (command : Command) (made : List (Call Float32T)) : Prop :=
  ∀ before call, before ++ [call] <+: made →
    (((create command).calls before).Sends call ↔ ¬(shown before).Has call)

/-- The volume is never called too low while that is shown, as it is from the construction on. -/
def TooLowOnce (made : List (Call Float32T)) : Prop :=
  ∀ before, before ++ [.setFrequencyTooLow] <+: made → (shown before).frequency ≠ none

theorem updates_iff_tooLowOnce (command : Command) (made : List (Call Float32T)) :
    UpdatesIffNew command made ↔ TooLowOnce made := by
  constructor
  · intro updates before early here
    have sends := (agrees_calls command before).sends_iff .setFrequencyTooLow
    exact (updates before .setFrequencyTooLow early).mp (sends.mpr (Or.inl rfl)) here
  · intro once before call early
    rw [(agrees_calls command before).sends_iff]
    refine ⟨fun sends => sends.elim ?_ id, Or.inr⟩
    rintro rfl
    exact once before early

/-- The first call after the construction writes the same row again. -/
theorem not_updates_tooLow :
    ((create .none).calls [.setFrequencyTooLow]).display.sent =
        (create .none).display.sent ++
          ("Volume too low  ".toList.mapIdx fun x byte => (0, x, byte)) ∧
      ¬UpdatesIffNew .none [.setFrequencyTooLow] := by
  refine ⟨by decide +kernel, fun updates => ?_⟩
  have sends := (agrees_calls .none []).sends_iff .setFrequencyTooLow
  exact (updates [] .setFrequencyTooLow List.prefix_rfl).mp (sends.mpr (Or.inl rfl)) rfl

end Display

end WhistleDrivenRobot
