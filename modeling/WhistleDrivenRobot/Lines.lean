/-
This file says what the line-based receiver executes. The loop takes bytes until
the line is complete or the port runs dry, so one iteration may stop in the
middle of a line or leave further lines waiting. None of this can be seen in the
strings that are executed: they are those that the bytes, absorbed one by one
and withdrawn as soon as a line is complete, would give.
-/

import WhistleDrivenRobot.Cells
import WhistleDrivenRobot.Optimized

namespace WhistleDrivenRobot

/-! ### Absorbing a stream byte by byte -/

/-- The strings withdrawn while a stream is absorbed byte by byte, and the handler it leaves. -/
def absorb : StringHandler → List UInt8 → List ArduinoString × StringHandler
  | handler, [] => ([], handler)
  | handler, byte :: rest =>
    let next := putInTheBuffer handler byte.toInt8
    if next.areYouOver then
      let later := absorb next.getString.2 rest
      (next.getString.1 :: later.1, later.2)
    else absorb next rest

theorem absorb_cons_over {handler : StringHandler} {byte : UInt8} (rest : List UInt8)
    (finished : (putInTheBuffer handler byte.toInt8).areYouOver = true) :
    absorb handler (byte :: rest) =
      ((putInTheBuffer handler byte.toInt8).getString.1 ::
          (absorb (putInTheBuffer handler byte.toInt8).getString.2 rest).1,
        (absorb (putInTheBuffer handler byte.toInt8).getString.2 rest).2) :=
  if_pos finished

theorem absorb_cons_open {handler : StringHandler} {byte : UInt8} (rest : List UInt8)
    (unfinished : (putInTheBuffer handler byte.toInt8).areYouOver = false) :
    absorb handler (byte :: rest) = absorb (putInTheBuffer handler byte.toInt8) rest :=
  if_neg (Bool.eq_false_iff.mp unfinished)

theorem absorb_append (handler : StringHandler) (first second : List UInt8) :
    absorb handler (first ++ second) =
      ((absorb handler first).1 ++ (absorb (absorb handler first).2 second).1,
        (absorb (absorb handler first).2 second).2) := by
  induction first generalizing handler with
  | nil => rfl
  | cons byte rest inductionHypothesis =>
    rw [List.cons_append]
    cases finished : (putInTheBuffer handler byte.toInt8).areYouOver with
    | true =>
      rw [absorb_cons_over _ finished, absorb_cons_over _ finished, inductionHypothesis]
      rfl
    | false => rw [absorb_cons_open _ finished, absorb_cons_open _ finished, inductionHypothesis]

/-- The loop of `updateBuffer` stops as soon as the line is complete. -/
theorem takeCharacters_over {handler : StringHandler} (bytes : List UInt8)
    (finished : handler.areYouOver = true) : takeCharacters handler bytes = (handler, bytes) := by
  cases bytes with
  | nil => rfl
  | cons next later => exact if_pos finished

theorem takeCharacters_open {handler : StringHandler} (byte : UInt8) (rest : List UInt8)
    (unfinished : handler.areYouOver = false) :
    takeCharacters handler (byte :: rest) =
      takeCharacters (putInTheBuffer handler byte.toInt8) rest :=
  if_neg (Bool.eq_false_iff.mp unfinished)

/-- What `updateBuffer` takes from the port is absorbed byte by byte, up to the line that it
completes. -/
theorem exists_taken (handler : StringHandler) (bytes : List UInt8)
    (fresh : handler.areYouOver = false) :
    ∃ taken, taken ++ (takeCharacters handler bytes).2 = bytes ∧
      absorb handler taken =
        if (takeCharacters handler bytes).1.areYouOver then
          ([(takeCharacters handler bytes).1.getString.1],
            (takeCharacters handler bytes).1.getString.2)
        else ([], (takeCharacters handler bytes).1) := by
  induction bytes generalizing handler with
  | nil =>
    refine ⟨[], rfl, ?_⟩
    show _ = ite (handler.areYouOver = true) _ _
    rw [fresh, if_neg Bool.false_ne_true]
    rfl
  | cons byte rest inductionHypothesis =>
    rw [takeCharacters_open byte rest fresh]
    cases finished : (putInTheBuffer handler byte.toInt8).areYouOver with
    | true =>
      rw [takeCharacters_over rest finished, if_pos finished]
      exact ⟨[byte], rfl, absorb_cons_over [] finished⟩
    | false =>
      obtain ⟨taken, split, absorbed⟩ := inductionHypothesis _ finished
      refine ⟨byte :: taken, congrArg (byte :: ·) split, ?_⟩
      rw [absorb_cons_open taken finished, absorbed]

/-- What `updateBuffer` takes from the port: either it completes a line, which absorbing would
withdraw, or it empties the port. -/
theorem takeCharacters_absorb (handler : StringHandler) (bytes : List UInt8)
    (fresh : handler.areYouOver = false) :
    absorb handler bytes =
      if (takeCharacters handler bytes).1.areYouOver then
        ((takeCharacters handler bytes).1.getString.1 ::
            (absorb (takeCharacters handler bytes).1.getString.2
              (takeCharacters handler bytes).2).1,
          (absorb (takeCharacters handler bytes).1.getString.2 (takeCharacters handler bytes).2).2)
      else absorb (takeCharacters handler bytes).1 (takeCharacters handler bytes).2 := by
  obtain ⟨taken, whole, absorbed⟩ := exists_taken handler bytes fresh
  have all := absorb_append handler taken (takeCharacters handler bytes).2
  rw [whole, absorbed] at all
  rw [all]
  split <;> rfl

namespace LineReceiver

/-! ### Runs of the loop -/

variable (receiver : LineReceiver)

/-- Between two iterations no complete line is waiting to be withdrawn. -/
def Fresh : Prop := receiver.stringHandler.areYouOver = false

theorem loop_fresh : receiver.loop.Fresh := by
  rw [loop_eq]
  split
  · rfl
  · rename_i unfinished
    exact Bool.eq_false_iff.mpr unfinished

/-- The strings executed, then those that absorbing the port would give, stay the same in an
iteration, and so does the handler that is left in the end. -/
theorem loop_absorb (fresh : receiver.Fresh) :
    receiver.loop.executed ++ (absorb receiver.loop.stringHandler receiver.loop.port).1 =
        receiver.executed ++ (absorb receiver.stringHandler receiver.port).1 ∧
      (absorb receiver.loop.stringHandler receiver.loop.port).2 =
        (absorb receiver.stringHandler receiver.port).2 := by
  rw [takeCharacters_absorb receiver.stringHandler receiver.port fresh]
  cases finished : (takeCharacters receiver.stringHandler receiver.port).1.areYouOver with
  | true =>
    have withdrawn : receiver.loop = receiver.updateBuffer.withdraw := if_pos finished
    rw [withdrawn, if_pos rfl]
    exact ⟨List.append_assoc _ _ _, rfl⟩
  | false =>
    have kept : receiver.loop = receiver.updateBuffer := if_neg (Bool.eq_false_iff.mp finished)
    rw [kept, if_neg Bool.false_ne_true]
    exact ⟨rfl, rfl⟩

theorem iterate_absorb (fresh : receiver.Fresh) (schedule : List (List UInt8)) :
    (receiver.iterate schedule).executed ++
        (absorb (receiver.iterate schedule).stringHandler (receiver.iterate schedule).port).1 =
      receiver.executed ++
        (absorb receiver.stringHandler (receiver.port ++ schedule.flatten)).1 := by
  induction schedule generalizing receiver with
  | nil => rw [List.flatten_nil, List.append_nil]; rfl
  | cons arrived rest inductionHypothesis =>
    let arrival : LineReceiver := { receiver with port := receiver.port ++ arrived }
    have later := inductionHypothesis arrival.loop (loop_fresh arrival)
    obtain ⟨strings, left⟩ := loop_absorb arrival fresh
    rw [absorb_append, ← List.append_assoc, strings, left] at later
    rw [List.flatten_cons, ← List.append_assoc, absorb_append, ← List.append_assoc]
    exact later

/-- Once every byte that arrived has been consumed, the strings executed are those of the whole
stream absorbed byte by byte. -/
theorem iterate_executed (memory : Int → Option Handler) (buffer : Nat → Int8)
    (schedule : List (List UInt8))
    (consumed : ((setup memory buffer).iterate schedule).port = []) :
    ((setup memory buffer).iterate schedule).executed =
      (absorb (StringHandler.create buffer) schedule.flatten).1 := by
  have all := iterate_absorb (setup memory buffer) rfl schedule
  rwa [consumed, show ∀ handler, (absorb handler []).1 = [] from fun _ => rfl,
    List.append_nil] at all

/-! ### The handlers of the strings executed -/

/-- The handlers run are those that the executed strings name. -/
structure Ran (memory : Int → Option Handler) : Prop where
  executer : receiver.robot.executer = Executer.create memory
  handlers : receiver.robot.handlers =
    receiver.executed.filterMap (Executer.create memory).execute

theorem loop_ran {memory : Int → Option Handler} (ran : receiver.Ran memory) :
    receiver.loop.Ran memory := by
  rw [loop_eq]
  split
  · refine ⟨(call_executer _ _).trans ran.executer, ?_⟩
    show (receiver.robot.call _).handlers = (receiver.executed ++ [_]).filterMap _
    rw [call_handlers, ran.handlers, List.filterMap_append]
    show _ ++ (receiver.robot.executer.execute _).toList = _
    rw [ran.executer]
    refine congrArg (List.append _) ?_
    rw [List.filterMap_cons, List.filterMap_nil]
    cases (Executer.create memory).execute _ <;> rfl
  · exact ⟨ran.executer, ran.handlers⟩

theorem iterate_ran {memory : Int → Option Handler} (ran : receiver.Ran memory)
    (schedule : List (List UInt8)) : (receiver.iterate schedule).Ran memory := by
  induction schedule generalizing receiver with
  | nil => exact ran
  | cons arrived rest inductionHypothesis =>
    exact inductionHypothesis _ (loop_ran { receiver with port := receiver.port ++ arrived }
      ⟨ran.executer, ran.handlers⟩)

end LineReceiver

/-! ### The letters a handler holds -/

theorem LowerCase.not_special {c : Int8} (lower : LowerCase c) :
    c ≠ 0 ∧ c ≠ ascii '\n' ∧ StringHandler.isSpace c = false := by
  have range := lower.range
  have values : (0 : Int8).toInt = 0 ∧ (ascii '\n').toInt = 10 ∧ (ascii ' ').toInt = 32 ∧
      (ascii '\t').toInt = 9 ∧ (ascii '\r').toInt = 13 := by decide
  refine ⟨fun same => ?_, fun same => ?_, ?_⟩
  · rw [same] at range
    omega
  · rw [same] at range
    omega
  · rw [StringHandler.isSpace, Bool.or_eq_false_iff, Bool.and_eq_false_iff, decide_eq_false_iff_not,
      decide_eq_false_iff_not, decide_eq_false_iff_not, Int8.le_iff_toInt_le, Int8.le_iff_toInt_le,
      ← Int8.toInt_inj]
    omega

theorem isThisCharGood_iff {c : Int8} :
    isThisCharGood c = true ↔ c = ascii '\n' ∨ LowerCase c := by
  rw [isThisCharGood, isInTheInterval, Bool.or_eq_true, Bool.and_eq_true, decide_eq_true_iff,
    decide_eq_true_iff, decide_eq_true_iff, LowerCase]

namespace StringHandler

/-- The handler is in the middle of a line whose letters so far are `letters`. -/
structure Holds (handler : StringHandler) (letters : ArduinoString) : Prop where
  unfinished : handler.isOver = false
  index : handler.bufferIndex = letters.length
  cells : (List.range letters.length).map handler.buffer = letters
  lower : ∀ c ∈ letters, LowerCase c

variable {handler : StringHandler} {letters : ArduinoString}

theorem create_holds (buffer : Nat → Int8) : (create buffer).Holds [] where
  unfinished := rfl
  index := rfl
  cells := rfl
  lower := fun _ member => absurd member List.not_mem_nil

theorem Holds.bad (holds : handler.Holds letters) {c : Int8} (bad : isThisCharGood c = false) :
    (putInTheBuffer handler c).Holds letters := by
  rw [putInTheBuffer, if_neg (Bool.eq_false_iff.mp bad)]
  exact holds

theorem Holds.letter (holds : handler.Holds letters) (room : letters.length < stringLength)
    {c : Int8} (lower : LowerCase c) : (putInTheBuffer handler c).Holds (letters ++ [c]) := by
  have open_ : ¬ (stringLength ≤ handler.bufferIndex ∨ handler.isOver = true) := by
    rw [holds.index, holds.unfinished]
    simp only [Bool.false_eq_true, or_false]
    omega
  have other : c ≠ endChar := lower.not_special.2.1
  rw [putInTheBuffer, if_pos (isThisCharGood_iff.mpr (Or.inr lower)), addChar, if_neg open_,
    if_pos other]
  refine ⟨holds.unfinished, ?_, ?_, ?_⟩
  · rw [List.length_append, List.length_singleton, ← holds.index]
  · show (List.range (letters ++ [c]).length).map
      (Function.update handler.buffer handler.bufferIndex c) = _
    rw [List.length_append, List.length_singleton, holds.index, Cells.map_range_update, holds.cells]
  · intro letter member
    rcases List.mem_append.mp member with old | new
    · exact holds.lower letter old
    · exact List.mem_singleton.mp new ▸ lower

/-- The end character completes the line, also when the buffer is full. -/
theorem putInTheBuffer_newline (handler : StringHandler) :
    putInTheBuffer handler (ascii '\n') = { handler with isOver := true } := by
  rw [putInTheBuffer, if_pos (isThisCharGood_iff.mpr (Or.inl rfl)), addChar]
  split
  · rfl
  · exact if_neg fun different => different rfl

theorem trim_eq_self (plain : ∀ c ∈ letters, isSpace c = false) : trim letters = letters := by
  have front : letters.dropWhile isSpace = letters := by
    refine List.dropWhile_eq_self_iff.mpr fun nonempty => ?_
    exact Bool.eq_false_iff.mp (plain _ (List.getElem_mem nonempty))
  rw [trim, front]
  refine List.rdropWhile_eq_self_iff.mpr fun nonempty => ?_
  exact Bool.eq_false_iff.mp (plain _ (List.getLast_mem nonempty))

/-- The string ends at the NUL that is written behind the characters of the buffer. -/
theorem getString_of_cells
    (cells : (List.range handler.bufferIndex).map handler.buffer = letters)
    (legible : ∀ c ∈ letters, c ≠ 0) : handler.getString.1 = trim letters := by
  have written : (List.range handler.bufferIndex).map
      (Function.update handler.buffer handler.bufferIndex 0) = letters :=
    (Cells.map_range_update_of_le _ (Nat.le_refl _) _).trans cells
  show trim (cString (Function.update handler.buffer handler.bufferIndex 0)
    handler.bufferIndex) = trim letters
  rw [cString, written, List.takeWhile_eq_self_iff.mpr fun c member =>
    decide_eq_true (legible c member)]

/-- Withdrawing the line gives its letters and leaves an empty handler. -/
theorem Holds.withdraw (holds : handler.Holds letters) :
    ({ handler with isOver := true } : StringHandler).getString.1 = letters ∧
      ({ handler with isOver := true } : StringHandler).getString.2.Holds [] := by
  refine ⟨?_, ⟨rfl, rfl, rfl, fun _ member => absurd member List.not_mem_nil⟩⟩
  have plain := fun c member => (holds.lower c member).not_special
  have cells : (List.range handler.bufferIndex).map handler.buffer = letters :=
    holds.index ▸ holds.cells
  have string := @getString_of_cells { handler with isOver := true } letters cells
    fun c member => (plain c member).1
  rw [string]
  exact trim_eq_self fun c member => (plain c member).2.2

end StringHandler

/-! ### Absorbing one byte of a line -/

section Bytes

variable {handler : StringHandler} {letters : ArduinoString}

theorem absorb_bad (holds : handler.Holds letters) {byte : UInt8} (rest : List UInt8)
    (bad : isThisCharGood byte.toInt8 = false) :
    absorb handler (byte :: rest) = absorb (putInTheBuffer handler byte.toInt8) rest :=
  absorb_cons_open rest (holds.bad bad).unfinished

theorem absorb_letter (holds : handler.Holds letters)
    (room : letters.length < StringHandler.stringLength) {byte : UInt8} (rest : List UInt8)
    (lower : LowerCase byte.toInt8) :
    absorb handler (byte :: rest) = absorb (putInTheBuffer handler byte.toInt8) rest :=
  absorb_cons_open rest (holds.letter room lower).unfinished

/-- A completed line is executed, and an empty handler goes on. -/
theorem absorb_complete (holds : handler.Holds letters) {byte : UInt8} (rest : List UInt8)
    (finished : putInTheBuffer handler byte.toInt8 = { handler with isOver := true }) :
    ∃ emptied : StringHandler, emptied.Holds [] ∧
      absorb handler (byte :: rest) =
        (letters :: (absorb emptied rest).1, (absorb emptied rest).2) := by
  obtain ⟨withdrawn, empty⟩ := holds.withdraw
  refine ⟨_, empty, ?_⟩
  rw [absorb_cons_over rest (by rw [finished]; rfl), finished, withdrawn]

/-- A newline executes the letters of the line and leaves an empty handler. -/
theorem absorb_newline (holds : handler.Holds letters) {byte : UInt8} (rest : List UInt8)
    (newline : byte.toInt8 = ascii '\n') :
    ∃ emptied : StringHandler, emptied.Holds [] ∧
      absorb handler (byte :: rest) =
        (letters :: (absorb emptied rest).1, (absorb emptied rest).2) :=
  absorb_complete holds rest (newline ▸ StringHandler.putInTheBuffer_newline handler)

end Bytes

end WhistleDrivenRobot
