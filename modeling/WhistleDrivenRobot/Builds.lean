/-
This file proves that the two builds of the receiver run the same handlers on
everything the transmitter can send. A transmission is a sequence of lines of
one letter each, padded with bytes that are not lower-case letters. In the
line-based build a letter waits for the newline that follows it in the
transmission; noise can only withdraw it earlier or withdraw empty strings, and
the empty string names no handler.
-/

import WhistleDrivenRobot.Lines
import WhistleDrivenRobot.Streams
import WhistleDrivenRobot.Transmitter

namespace WhistleDrivenRobot

/-! ### Transmissions -/

/-- The bytes of a sequence of lines as `sendCommand` writes them. -/
def transmission (lines : List Command) : List UInt8 :=
  lines.flatMap fun command => ReceiverState.sendCommand ⟨command⟩

theorem transmission_cons (command : Command) (lines : List Command) :
    transmission (command :: lines) =
      command.letter :: '\n'.toUInt8 :: transmission lines := by
  cases command <;> rfl

theorem letter_lowerCase (command : Command) : LowerCase command.letter.toInt8 := by
  cases command <;> decide

/-- What is still to come of a transmission when the handler holds `letters`: either the handler
is empty and whole lines follow, or it holds at most one letter and its newline follows. -/
inductive Awaits : ArduinoString → List UInt8 → Prop
  | lines (lines : List Command) : Awaits [] (transmission lines)
  | newline (letters : ArduinoString) (short : letters.length ≤ 1) (lines : List Command) :
      Awaits letters ('\n'.toUInt8 :: transmission lines)

theorem Awaits.short {letters : ArduinoString} {original : List UInt8}
    (awaits : Awaits letters original) : letters.length ≤ 1 := by
  cases awaits with
  | lines => exact Nat.zero_le 1
  | newline _ short => exact short

theorem Awaits.emptied {letters : ArduinoString} {original : List UInt8}
    (awaits : Awaits letters original) : Awaits [] original := by
  cases awaits with
  | lines lines => exact .lines lines
  | newline _ _ lines => exact .newline [] (Nat.zero_le 1) lines

/-! ### The line-based build on a padded transmission -/

variable (memory : Int → Option Handler)

/-- The handlers of the strings that a stream makes the line-based build execute. -/
def ranByLines (handler : StringHandler) (stream : List UInt8) : List Handler :=
  (absorb handler stream).1.filterMap (Executer.create memory).execute

/-- Executing at most one letter runs the handler it names, if it names one. -/
theorem execute_short {letters : ArduinoString} (short : letters.length ≤ 1)
    (lower : ∀ c ∈ letters, LowerCase c) :
    ((Executer.create memory).execute letters).toList = letters.filterMap namedHandler := by
  cases letters with
  | nil =>
    rw [execute_eq memory (Or.inr rfl)]
    rfl
  | cons c rest =>
    cases rest with
    | nil =>
      have first : LowerCase (charAt [c] 0) := lower c List.mem_cons_self
      rw [execute_eq memory (Or.inl first), List.filterMap_cons, List.filterMap_nil]
      show (namedHandler c).toList = _
      cases namedHandler c <;> rfl
    | cons other more => exact absurd short (by simp)

theorem filterMap_cons_toList {Value Other : Type} (pick : Value → Option Other) (value : Value)
    (rest : List Value) :
    (value :: rest).filterMap pick = (pick value).toList ++ rest.filterMap pick := by
  rw [List.filterMap_cons]
  cases pick value <;> rfl

theorem ranByLines_newline {handler : StringHandler} {letters : ArduinoString}
    (holds : handler.Holds letters) (short : letters.length ≤ 1) {byte : UInt8}
    (rest : List UInt8) (newline : byte.toInt8 = ascii '\n') :
    ∃ emptied : StringHandler, emptied.Holds [] ∧
      ranByLines memory handler (byte :: rest) =
        letters.filterMap namedHandler ++ ranByLines memory emptied rest := by
  obtain ⟨emptied, empty, absorbed⟩ := absorb_newline holds rest newline
  refine ⟨emptied, empty, ?_⟩
  rw [ranByLines, absorbed, filterMap_cons_toList, execute_short memory short holds.lower]
  rfl

/-- The line-based build runs the handler of the letter it holds and those of the letters to
come, wherever the noise is. The induction is on the padding: a byte of the transmission moves
`Awaits` on by one byte, a byte of noise at most empties the handler. -/
theorem ranByLines_padded {original stream : List UInt8}
    (padding : Streams.Padded (fun byte => isLetter byte = false) original stream)
    {handler : StringHandler} {letters : ArduinoString} (holds : handler.Holds letters)
    (awaits : Awaits letters original) :
    ranByLines memory handler stream = letters.filterMap namedHandler ++ named original := by
  induction padding generalizing handler letters with
  | nil =>
    cases letters with
    | nil => rfl
    | cons c rest => cases awaits
  | keep byte _ inductionHypothesis =>
    generalize whole : byte :: _ = stream at awaits
    cases awaits with
    | lines lines =>
      cases lines with
      | nil => cases whole
      | cons command lines =>
        rw [transmission_cons] at whole
        cases whole
        have lower := letter_lowerCase command
        have held := holds.letter (by decide) lower
        have later := inductionHypothesis held (.newline [_] (Nat.le_refl 1) lines)
        rw [ranByLines, absorb_letter holds (by decide) _ lower, transmission_cons, named_cons,
          if_pos (isLetter_iff.mpr lower)]
        refine later.trans (congrArg (· ++ _) ?_)
        rw [List.nil_append, filterMap_cons_toList, List.filterMap_nil, List.append_nil]
    | newline _ short lines =>
      cases whole
      have newline : '\n'.toUInt8.toInt8 = ascii '\n' := by decide
      obtain ⟨emptied, empty, ran⟩ := ranByLines_newline memory holds short _ newline
      rw [ran, inductionHypothesis empty (.lines lines), named_cons]
      rfl
  | insert byte noise _ inductionHypothesis =>
    have notLower : ¬ LowerCase byte.toInt8 :=
      fun lower => absurd (isLetter_iff.mpr lower) (Bool.eq_false_iff.mp noise)
    by_cases newline : byte.toInt8 = ascii '\n'
    · obtain ⟨emptied, empty, ran⟩ := ranByLines_newline memory holds awaits.short _ newline
      rw [ran, inductionHypothesis empty awaits.emptied]
      rfl
    · have bad : isThisCharGood byte.toInt8 = false :=
        Bool.eq_false_iff.mpr fun good => (isThisCharGood_iff.mp good).elim newline notLower
      rw [ranByLines, absorb_bad holds _ bad]
      exact inductionHypothesis (holds.bad bad) awaits

/-! ### The two builds -/

/-- The line-based and the optimized receiver run the same handlers on every padded
transmission, however its bytes arrive at either of them, once they have consumed it. -/
theorem builds_agree (memory memory' : Int → Option Handler) (buffer : Nat → Int8)
    (lines : List Command) (stream : List UInt8) (schedule schedule' : List (List UInt8))
    (padding : Streams.Padded (fun byte => isLetter byte = false) (transmission lines) stream)
    (arrived : schedule.flatten = stream) (arrived' : schedule'.flatten = stream)
    (consumed : ((LineReceiver.setup memory buffer).iterate schedule).port = [])
    (consumed' : ((OptimizedReceiver.setup memory').iterate schedule').port = []) :
    ((LineReceiver.setup memory buffer).iterate schedule).robot.handlers =
      ((OptimizedReceiver.setup memory').iterate schedule').robot.handlers := by
  have ran := (LineReceiver.iterate_ran (LineReceiver.setup memory buffer) ⟨rfl, rfl⟩
    schedule).handlers
  rw [LineReceiver.iterate_executed memory buffer schedule consumed, arrived] at ran
  have byLines := ranByLines_padded memory padding (StringHandler.create_holds buffer)
    (.lines lines)
  have seen : named stream = named (transmission lines) :=
    congrArg (List.filterMap _) (padding.filter_eq fun _ noise => noise)
  rw [OptimizedReceiver.iterate_handlers memory' schedule' consumed', arrived', seen, ran]
  exact byLines

/-- A forward line with an empty line before it and noise around it, arriving at once at the
line-based receiver and in two pieces at the optimized one. -/
theorem builds_agree_forward :
    ((LineReceiver.setup (fun _ => none) fun _ => 0).iterate
        [[10, 102, 7, 10, 13], [], []]).robot.handlers =
      ((OptimizedReceiver.setup fun _ => none).iterate
        [[10, 102, 7], [10, 13], [], [], []]).robot.handlers :=
  builds_agree _ _ _ [.forward] [10, 102, 7, 10, 13] _ _
    (.insert _ (by decide) (.keep _ (.insert _ (by decide) (.keep _ (.insert _ (by decide) .nil)))))
    rfl rfl rfl rfl

end WhistleDrivenRobot
