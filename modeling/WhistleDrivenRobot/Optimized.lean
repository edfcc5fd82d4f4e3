/-
This file says what the optimized receiver runs. Of the bytes it takes it acts
on the lower-case letters only, each at once. So at every moment the handlers it
has run, followed by the handlers named by the letters still waiting in its
serial port, are the handlers named by the letters of all bytes that arrived.
-/

import WhistleDrivenRobot.Receiver

namespace WhistleDrivenRobot

/-! ### The handlers named by a stream of bytes -/

def isLetter (byte : UInt8) : Bool := isALowerCaseLiteralChar byte.toInt8

/-- The handlers named by the letters among some bytes. -/
def named (bytes : List UInt8) : List Handler :=
  (bytes.filter isLetter).filterMap fun byte => namedHandler byte.toInt8

theorem isLetter_iff {byte : UInt8} : isLetter byte = true ↔ LowerCase byte.toInt8 := by
  rw [isLetter, isALowerCaseLiteralChar, Bool.and_eq_true, decide_eq_true_iff,
    decide_eq_true_iff, LowerCase]

theorem named_append (first second : List UInt8) :
    named (first ++ second) = named first ++ named second := by
  rw [named, List.filter_append, List.filterMap_append, named, named]

theorem named_cons (byte : UInt8) (rest : List UInt8) :
    named (byte :: rest) =
      (if isLetter byte then (namedHandler byte.toInt8).toList else []) ++ named rest := by
  by_cases letter : isLetter byte = true
  · rw [named, List.filter_cons_of_pos letter, List.filterMap_cons, if_pos letter, named]
    cases namedHandler byte.toInt8 <;> rfl
  · rw [named, List.filter_cons_of_neg letter, if_neg letter, List.nil_append, named]

/-! ### One call -/

theorem call_handlers (robot : Robot) (found : Option Handler) :
    (robot.call found).handlers = robot.handlers ++ found.toList := by
  cases found with
  | none => exact (List.append_nil _).symm
  | some handler => rfl

theorem call_executer (robot : Robot) (found : Option Handler) :
    (robot.call found).executer = robot.executer := by
  cases found <;> rfl

namespace OptimizedReceiver

/-! ### Runs of the loop -/

variable (receiver : OptimizedReceiver) {memory : Int → Option Handler}

theorem loop_executer :
    receiver.loop.robot.executer = receiver.robot.executer := by
  cases waiting : receiver.port with
  | nil => rw [loop_nil waiting]
  | cons byte rest =>
    rw [loop_cons waiting]
    show (ite _ _ _ : Robot).executer = _
    split
    · exact call_executer _ _
    · rfl

/-- An iteration moves a letter from the port to the handlers that were run. -/
theorem loop_named (executer : receiver.robot.executer = Executer.create memory) :
    receiver.loop.robot.handlers ++ named receiver.loop.port =
      receiver.robot.handlers ++ named receiver.port := by
  cases waiting : receiver.port with
  | nil => rw [loop_nil waiting, waiting]
  | cons byte rest =>
    rw [loop_cons waiting, named_cons, ← List.append_assoc]
    refine congrArg (· ++ named rest) ?_
    show (ite (isLetter byte = true) _ _ : Robot).handlers = _
    by_cases letter : isLetter byte = true
    · rw [if_pos letter, if_pos letter, call_handlers, executer,
        optimizedExecute_eq memory (isLetter_iff.mp letter)]
    · rw [if_neg letter, if_neg letter, List.append_nil]

theorem iterate_named (executer : receiver.robot.executer = Executer.create memory)
    (schedule : List (List UInt8)) :
    (receiver.iterate schedule).robot.handlers ++ named (receiver.iterate schedule).port =
      receiver.robot.handlers ++ named (receiver.port ++ schedule.flatten) := by
  induction schedule generalizing receiver with
  | nil => rw [List.flatten_nil, List.append_nil]; rfl
  | cons arrived rest inductionHypothesis =>
    let arrival : OptimizedReceiver := { receiver with port := receiver.port ++ arrived }
    have later := inductionHypothesis arrival.loop ((loop_executer arrival).trans executer)
    rw [named_append, ← List.append_assoc, loop_named arrival executer] at later
    rw [List.flatten_cons, ← List.append_assoc, named_append, ← List.append_assoc]
    exact later

/-- Once every byte that arrived has been consumed, the handlers run are those named by the
letters that arrived. -/
theorem iterate_handlers (memory : Int → Option Handler) (schedule : List (List UInt8))
    (consumed : ((setup memory).iterate schedule).port = []) :
    ((setup memory).iterate schedule).robot.handlers = named schedule.flatten := by
  have all := iterate_named (setup memory) rfl schedule
  rwa [consumed, show named [] = [] from rfl, List.append_nil] at all

end OptimizedReceiver

end WhistleDrivenRobot
