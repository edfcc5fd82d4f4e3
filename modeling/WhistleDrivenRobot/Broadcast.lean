/-
This file is about the lines that the transmitter sends for a sequence of
commands. A command is suppressed when it is the current one, and sent as a
letter; three commands share a letter, and one of the three is the current
command in the beginning. So the same line can be sent twice, and the first one
can be missing.
-/

import WhistleDrivenRobot.Changes
import WhistleDrivenRobot.Transmitter

namespace WhistleDrivenRobot

open Changes

namespace ReceiverState

/-- The lines that a sequence of calls of `setState` writes. -/
def setStates : ReceiverState → List Command → List (List UInt8)
  | _, [] => []
  | state, command :: rest =>
    let (next, written) := state.setState command
    if written = [] then next.setStates rest else written :: next.setStates rest

/-- The line of a command. -/
def lineOf (command : Command) : List UInt8 := [command.letter, '\n'.toUInt8]

theorem setStates_eq (state : ReceiverState) (commands : List Command) :
    state.setStates commands = (changes state.actualCommand commands).map lineOf := by
  induction commands generalizing state with
  | nil => rfl
  | cons command rest inductionHypothesis =>
    rw [setStates, setState]
    by_cases same : state.actualCommand = command
    · rw [if_pos same, changes, if_pos same]
      exact inductionHypothesis state
    · rw [if_neg same, changes, if_neg same]
      show (if sendCommand ⟨command⟩ = [] then setStates ⟨command⟩ rest
        else sendCommand ⟨command⟩ :: setStates ⟨command⟩ rest) = _
      rw [sendCommand_eq, if_neg (List.cons_ne_nil _ _), inductionHypothesis, List.map_cons, lineOf]

/-- The lines that the program sends for a sequence of calls, from the constructor on. -/
def broadcast (commands : List Command) : List (List UInt8) := create.setStates commands

/-- What is sent is the letters of the commands with equal neighbours made one: no line is repeated,
and the last line is that of the last command. -/
structure Broadcasts (commands : List Command) : Prop where
  lines : broadcast commands =
    ((commands.map Command.letter).destutter (· ≠ ·)).map fun letter => [letter, '\n'.toUInt8]
  distinct : (broadcast commands).IsChain (· ≠ ·)
  last : ∀ command, commands.getLast? = some command →
    (broadcast commands).getLast? = some (lineOf command)

theorem broadcast_eq (commands : List Command) :
    broadcast commands = ((changes .undefined commands).map Command.letter).map
      fun letter => [letter, '\n'.toUInt8] := by
  rw [broadcast, setStates_eq, List.map_map]
  rfl

theorem line_injective : Function.Injective fun letter : UInt8 => [letter, '\n'.toUInt8] :=
  fun _ _ equal => (List.cons.inj equal).1

/-- The other two laws follow from the first. -/
theorem broadcasts_iff (commands : List Command) :
    Broadcasts commands ↔
      (changes .undefined commands).map Command.letter =
        (commands.map Command.letter).destutter (· ≠ ·) := by
  constructor
  · intro broadcasts
    have lines := broadcasts.lines
    rw [broadcast_eq] at lines
    exact List.map_injective_iff.mpr line_injective lines
  · intro same
    have lines : broadcast commands = ((commands.map Command.letter).destutter (· ≠ ·)).map
        fun letter => [letter, '\n'.toUInt8] := by
      rw [broadcast_eq, same]
    refine ⟨lines, ?_, fun command last => ?_⟩
    · rw [lines, List.isChain_map]
      exact (List.isChain_destutter _ _).imp fun _ _ different => line_injective.ne different
    · rw [lines, List.getLast?_map, getLast?_destutter_ne, List.getLast?_map, last]
      rfl

/-- The law holds of a sequence of commands exactly when, behind the calls with `UNDEFINED` in its
beginning, neighbours with the same letter are the same command, and a command with the letter of
`UNDEFINED` follows such calls, if there are any. -/
theorem broadcasts_iff_distinguished (commands : List Command) :
    Broadcasts commands ↔
      Distinguished Command.letter (commands.dropWhile (· = .undefined)) ∧
        (commands.head? = some .undefined →
          (commands.dropWhile (· = .undefined)).head?.map Command.letter =
            some Command.undefined.letter) := by
  rw [broadcasts_iff, map_changes_eq_destutter_iff]

theorem not_broadcasts_stop_none :
    broadcast [.stop, .none] = [['s'.toUInt8, '\n'.toUInt8], ['s'.toUInt8, '\n'.toUInt8]] ∧
      broadcast [.undefined] = [] ∧ ¬Broadcasts [.stop, .none] ∧ ¬Broadcasts [.undefined] := by
  refine ⟨by decide, by decide, fun broadcasts => ?_, fun broadcasts => ?_⟩
  · exact absurd broadcasts.distinct (by decide)
  · exact absurd (broadcasts.last .undefined rfl) (by decide)

end ReceiverState

end WhistleDrivenRobot
