/-
This file gives the grammar of the line-based receiver. What counts of a stream
are its letters and its newlines: a newline completes a line, and so does the
letter for which the buffer has no room, which is lost. The handler behaves like
a reader that knows nothing of buffers. From the reader one sees when no letter
is lost, what is executed then, and that the arrival times do not matter.
-/

import WhistleDrivenRobot.Lines

namespace WhistleDrivenRobot

/-! ### The reader -/

def newline : UInt8 := '\n'.toUInt8

/-- The letters among some bytes. -/
def letters (bytes : List UInt8) : ArduinoString := (bytes.filter isLetter).map UInt8.toInt8

theorem letters_append (first second : List UInt8) :
    letters (first ++ second) = letters first ++ letters second := by
  rw [letters, List.filter_append, List.map_append, letters, letters]

/-- The lines read from a stream and the letters held of the next one. -/
def readLines : ArduinoString → List UInt8 → List ArduinoString × ArduinoString
  | held, [] => ([], held)
  | held, byte :: rest =>
    if isLetter byte then
      if held.length < StringHandler.stringLength then readLines (held ++ [byte.toInt8]) rest
      else (held :: (readLines [] rest).1, (readLines [] rest).2)
    else if byte = newline then (held :: (readLines [] rest).1, (readLines [] rest).2)
    else readLines held rest

section Reader

variable (held : ArduinoString) {byte : UInt8} (rest : List UInt8)

theorem readLines_letter (letter : isLetter byte = true)
    (room : held.length < StringHandler.stringLength) :
    readLines held (byte :: rest) = readLines (held ++ [byte.toInt8]) rest := by
  rw [readLines, if_pos letter, if_pos room]

theorem readLines_full (letter : isLetter byte = true)
    (full : ¬held.length < StringHandler.stringLength) :
    readLines held (byte :: rest) = (held :: (readLines [] rest).1, (readLines [] rest).2) := by
  rw [readLines, if_pos letter, if_neg full]

theorem readLines_newline :
    readLines held (newline :: rest) = (held :: (readLines [] rest).1, (readLines [] rest).2) := by
  rw [readLines, if_neg (by decide), if_pos rfl]

theorem readLines_other (other : ¬isLetter byte = true) (different : byte ≠ newline) :
    readLines held (byte :: rest) = readLines held rest := by
  rw [readLines, if_neg other, if_neg different]

theorem letters_cons_letter (letter : isLetter byte = true) :
    letters (byte :: rest) = byte.toInt8 :: letters rest := by
  rw [letters, List.filter_cons_of_pos letter, List.map_cons, letters]

theorem letters_cons_other (other : ¬isLetter byte = true) :
    letters (byte :: rest) = letters rest := by
  rw [letters, List.filter_cons_of_neg other, letters]

end Reader

/-! ### The handler is the reader -/

section Handler

variable {handler : StringHandler} {held : ArduinoString}

/-- The letter for which there is no room completes the line and is dropped. -/
theorem putInTheBuffer_full (holds : handler.Holds held)
    (full : ¬held.length < StringHandler.stringLength) {c : Int8} (lower : LowerCase c) :
    putInTheBuffer handler c = { handler with isOver := true } := by
  have closed : StringHandler.stringLength ≤ handler.bufferIndex ∨ handler.isOver = true :=
    Or.inl (holds.index ▸ not_lt.mp full)
  rw [putInTheBuffer, if_pos (isThisCharGood_iff.mpr (Or.inr lower)), StringHandler.addChar,
    if_pos closed]

theorem toInt8_newline {byte : UInt8} : byte.toInt8 = ascii '\n' ↔ byte = newline := by
  constructor
  · intro same
    exact congrArg Int8.toUInt8 same
  · rintro rfl
    rfl

/-- Absorbing a stream gives the lines that the reader reads and leaves a handler that holds what
the reader holds, whatever else is in its buffer. -/
theorem absorb_readLines (holds : handler.Holds held) (bytes : List UInt8) :
    (absorb handler bytes).1 = (readLines held bytes).1 ∧
      (absorb handler bytes).2.Holds (readLines held bytes).2 := by
  induction bytes generalizing handler held with
  | nil => exact ⟨rfl, holds⟩
  | cons byte rest inductionHypothesis =>
    by_cases letter : isLetter byte = true
    · have lower := isLetter_iff.mp letter
      by_cases room : held.length < StringHandler.stringLength
      · rw [absorb_letter holds room rest lower, readLines_letter held rest letter room]
        exact inductionHypothesis (holds.letter room lower)
      · obtain ⟨emptied, empty, complete⟩ :=
          absorb_complete holds rest (putInTheBuffer_full holds room lower)
        rw [complete, readLines_full held rest letter room]
        obtain ⟨lines, left⟩ := inductionHypothesis empty
        exact ⟨congrArg (held :: ·) lines, left⟩
    · by_cases same : byte = newline
      · obtain ⟨emptied, empty, complete⟩ := absorb_newline holds rest (toInt8_newline.mpr same)
        rw [complete, same, readLines_newline]
        obtain ⟨lines, left⟩ := inductionHypothesis empty
        exact ⟨congrArg (held :: ·) lines, left⟩
      · have bad : isThisCharGood byte.toInt8 = false := by
          rw [Bool.eq_false_iff]
          intro good
          rcases isThisCharGood_iff.mp good with ending | lower
          · exact same (toInt8_newline.mp ending)
          · exact letter (isLetter_iff.mpr lower)
        rw [absorb_bad holds rest bad, readLines_other held rest letter same]
        exact inductionHypothesis (holds.bad bad)

end Handler

/-! ### Lines and letters -/

/-- The letters of the stretches between newlines, before the first and after the last included. -/
def stretches (bytes : List UInt8) : List ArduinoString := (bytes.splitOn newline).map letters

/-- No stretch between newlines has more letters than the buffer has room for. -/
def ShortLines (bytes : List UInt8) : Prop :=
  ∀ stretch ∈ stretches bytes, stretch.length ≤ StringHandler.stringLength

instance (bytes : List UInt8) : Decidable (ShortLines bytes) := List.decidableBAll _ _

theorem stretches_newline (rest : List UInt8) :
    stretches (newline :: rest) = [] :: stretches rest := by
  rw [stretches, List.splitOn, List.splitOnP_cons_eq_if_modifyHead, if_pos (beq_self_eq_true _)]
  rfl

theorem stretches_cons {byte : UInt8} (different : byte ≠ newline) (rest : List UInt8) :
    stretches (byte :: rest) = (stretches rest).modifyHead (letters [byte] ++ ·) := by
  have split : (byte :: rest).splitOn newline =
      (rest.splitOn newline).modifyHead (byte :: ·) := by
    rw [List.splitOn, List.splitOnP_cons_eq_if_modifyHead,
      if_neg (by rwa [beq_iff_eq]), List.splitOn]
  rw [stretches, split, stretches]
  cases rest.splitOn newline with
  | nil => rfl
  | cons first more => exact congrArg (· :: more.map letters) (letters_append [byte] first)

/-- The lines that the stretches make when some letters are held already. -/
def continued (held : ArduinoString) (bytes : List UInt8) : List ArduinoString :=
  (stretches bytes).modifyHead (held ++ ·)

theorem continued_nil (bytes : List UInt8) : continued [] bytes = stretches bytes := by
  rw [continued]
  cases stretches bytes <;> rfl

theorem continued_empty (held : ArduinoString) : continued held [] = [held] :=
  congrArg ([·]) (List.append_nil held)

theorem continued_newline (held : ArduinoString) (rest : List UInt8) :
    continued held (newline :: rest) = held :: stretches rest := by
  rw [continued, stretches_newline]
  exact congrArg (· :: stretches rest) (List.append_nil held)

theorem continued_cons (held : ArduinoString) {byte : UInt8} (different : byte ≠ newline)
    (rest : List UInt8) :
    continued held (byte :: rest) = continued (held ++ letters [byte]) rest := by
  rw [continued, stretches_cons different, continued, List.modifyHead_modifyHead]
  refine congrArg (fun extend => (stretches rest).modifyHead extend) (funext fun line => ?_)
  exact (List.append_assoc _ _ _).symm

theorem exists_continued (held : ArduinoString) (bytes : List UInt8) :
    ∃ first more, continued held bytes = (held ++ first) :: more := by
  rw [continued, stretches]
  cases split : bytes.splitOn newline with
  | nil => exact absurd split (List.splitOnP_ne_nil _ bytes)
  | cons first more => exact ⟨letters first, more.map letters, rfl⟩

theorem letter_ne_newline {byte : UInt8} (letter : isLetter byte = true) : byte ≠ newline := by
  rintro rfl
  exact absurd letter (by decide)

theorem letters_singleton {byte : UInt8} (letter : isLetter byte = true) :
    letters [byte] = [byte.toInt8] := letters_cons_letter [] letter

theorem letters_singleton_other {byte : UInt8} (other : ¬isLetter byte = true) :
    letters [byte] = [] := letters_cons_other [] other

/-- The lines that the stretches make are short. -/
def Fits (held : ArduinoString) (bytes : List UInt8) : Prop :=
  ∀ line ∈ continued held bytes, line.length ≤ StringHandler.stringLength

theorem Fits.held_le {held : ArduinoString} {bytes : List UInt8} (fits : Fits held bytes) :
    held.length ≤ StringHandler.stringLength := by
  obtain ⟨first, more, lines⟩ := exists_continued held bytes
  have short := fits (held ++ first) (lines ▸ List.mem_cons_self)
  rw [List.length_append] at short
  omega

theorem fits_newline {held : ArduinoString} {rest : List UInt8} :
    Fits held (newline :: rest) ↔
      held.length ≤ StringHandler.stringLength ∧ Fits [] rest := by
  unfold Fits
  rw [continued_newline, continued_nil]
  exact List.forall_mem_cons

theorem fits_cons {held : ArduinoString} {byte : UInt8} (different : byte ≠ newline)
    {rest : List UInt8} : Fits held (byte :: rest) ↔ Fits (held ++ letters [byte]) rest := by
  unfold Fits
  rw [continued_cons held different]

/-- When the lines are short, the reader reads them, and holds the last one, which has no newline at
its end. -/
theorem readLines_of_fits {held : ArduinoString} {bytes : List UInt8} (fits : Fits held bytes) :
    (readLines held bytes).1 ++ [(readLines held bytes).2] = continued held bytes := by
  induction bytes generalizing held with
  | nil => rw [continued_empty]; rfl
  | cons byte rest inductionHypothesis =>
    by_cases letter : isLetter byte = true
    · rw [continued_cons held (letter_ne_newline letter), letters_singleton letter]
      rw [fits_cons (letter_ne_newline letter), letters_singleton letter] at fits
      have room := fits.held_le
      rw [List.length_append, List.length_singleton] at room
      rw [readLines_letter held rest letter (by omega)]
      exact inductionHypothesis fits
    · by_cases same : byte = newline
      · subst same
        rw [readLines_newline, continued_newline, ← continued_nil,
          ← inductionHypothesis (fits_newline.mp fits).2]
        rfl
      · rw [continued_cons held same, letters_singleton_other letter, List.append_nil]
        rw [fits_cons same, letters_singleton_other letter, List.append_nil] at fits
        rw [readLines_other held rest letter same]
        exact inductionHypothesis fits

/-- The letters in the lines that were read and in the one that is held. -/
def kept (held : ArduinoString) (bytes : List UInt8) : ArduinoString :=
  (readLines held bytes).1.flatten ++ (readLines held bytes).2

theorem kept_complete {held : ArduinoString} {byte : UInt8} {rest : List UInt8}
    (complete : readLines held (byte :: rest) =
      (held :: (readLines [] rest).1, (readLines [] rest).2)) :
    kept held (byte :: rest) = held ++ kept [] rest := by
  rw [kept, complete, kept, List.flatten_cons, List.append_assoc]

/-- Letters are lost at most, never repeated or put in another order. -/
theorem kept_sublist (held : ArduinoString) (bytes : List UInt8) :
    (kept held bytes).Sublist (held ++ letters bytes) := by
  induction bytes generalizing held with
  | nil => rw [letters, List.filter_nil, List.map_nil, List.append_nil]; exact List.Sublist.refl _
  | cons byte rest inductionHypothesis =>
    by_cases letter : isLetter byte = true
    · rw [letters_cons_letter rest letter]
      by_cases room : held.length < StringHandler.stringLength
      · have later := inductionHypothesis (held ++ [byte.toInt8])
        rwa [List.append_assoc, List.singleton_append, kept,
          ← readLines_letter held rest letter room] at later
      · rw [kept_complete (readLines_full held rest letter room)]
        exact (List.Sublist.refl held).append ((inductionHypothesis []).cons _)
    · rw [letters_cons_other rest letter]
      by_cases same : byte = newline
      · subst same
        rw [kept_complete (readLines_newline held rest)]
        exact (List.Sublist.refl held).append (inductionHypothesis [])
      · rw [kept, readLines_other held rest letter same]
        exact inductionHypothesis held

/-- No letter is lost exactly when the lines are short. -/
theorem kept_eq_iff {held : ArduinoString} {bytes : List UInt8}
    (room : held.length ≤ StringHandler.stringLength) :
    kept held bytes = held ++ letters bytes ↔ Fits held bytes := by
  induction bytes generalizing held with
  | nil =>
    refine iff_of_true (List.append_nil held).symm fun line member => ?_
    rw [continued_empty] at member
    exact List.mem_singleton.mp member ▸ room
  | cons byte rest inductionHypothesis =>
    by_cases letter : isLetter byte = true
    · rw [letters_cons_letter rest letter, fits_cons (letter_ne_newline letter),
        letters_singleton letter]
      by_cases more : held.length < StringHandler.stringLength
      · rw [← inductionHypothesis (by rwa [List.length_append, List.length_singleton]), kept,
          readLines_letter held rest letter more, List.append_assoc, List.singleton_append, kept]
      · -- the lost letter leaves too few letters to make up for it
        rw [kept_complete (readLines_full held rest letter more)]
        refine iff_of_false (fun same => ?_) fun fits => ?_
        · have few := (kept_sublist [] rest).length_le
          have many := congrArg List.length (List.append_cancel_left same)
          rw [List.length_cons] at many
          rw [List.nil_append] at few
          omega
        · have short := fits.held_le
          rw [List.length_append, List.length_singleton] at short
          omega
    · rw [letters_cons_other rest letter]
      by_cases same : byte = newline
      · subst same
        rw [kept_complete (readLines_newline held rest), fits_newline, and_iff_right room,
          ← inductionHypothesis (Nat.zero_le _), List.append_right_inj, List.nil_append]
      · rw [fits_cons same, letters_singleton_other letter, List.append_nil,
          ← inductionHypothesis room, kept, readLines_other held rest letter same, kept]

theorem fits_nil_iff {bytes : List UInt8} : Fits [] bytes ↔ ShortLines bytes := by
  rw [Fits, continued_nil, ShortLines]

/-! ### The bytes that were taken -/

/-- The characters that the handler holds. -/
def StringHandler.held (handler : StringHandler) : ArduinoString :=
  (List.range handler.bufferIndex).map handler.buffer

theorem StringHandler.Holds.held_eq {handler : StringHandler} {held : ArduinoString}
    (holds : handler.Holds held) : handler.held = held := by
  rw [StringHandler.held, holds.index, holds.cells]

namespace LineReceiver

/-- Of the bytes that arrived, those that are no longer in the port. -/
def taken (receiver : LineReceiver) (arrived : List UInt8) : List UInt8 :=
  arrived.take (arrived.length - receiver.port.length)

/-- The bytes that arrived are those that were absorbed and those that are still in the port. -/
structure Absorbed (start : StringHandler) (arrived : List UInt8) (receiver : LineReceiver) :
    Prop where
  split : receiver.taken arrived ++ receiver.port = arrived
  executed : receiver.executed = (absorb start (receiver.taken arrived)).1
  stringHandler : receiver.stringHandler = (absorb start (receiver.taken arrived)).2

variable {start : StringHandler} {arrived : List UInt8} {receiver : LineReceiver}

theorem taken_eq {used : List UInt8} (split : used ++ receiver.port = arrived) :
    receiver.taken arrived = used := by
  rw [taken, ← split, List.length_append, Nat.add_sub_cancel, List.take_left]

theorem absorbed_of_split {used : List UInt8} (split : used ++ receiver.port = arrived)
    (executed : receiver.executed = (absorb start used).1)
    (stringHandler : receiver.stringHandler = (absorb start used).2) :
    receiver.Absorbed start arrived := by
  have same := taken_eq split
  exact ⟨same ▸ split, same ▸ executed, same ▸ stringHandler⟩

theorem loop_port :
    receiver.loop.port = (takeCharacters receiver.stringHandler receiver.port).2 := by
  rw [loop_eq]
  split <;> rfl

theorem absorbed_loop (absorbed : receiver.Absorbed start arrived) (fresh : receiver.Fresh) :
    receiver.loop.Absorbed start arrived := by
  obtain ⟨split, executed, stringHandler⟩ := absorbed
  obtain ⟨used, rest, step⟩ := exists_taken receiver.stringHandler receiver.port fresh
  have whole : receiver.taken arrived ++ used ++ receiver.loop.port = arrived := by
    rw [loop_port, List.append_assoc, rest, split]
  have all := absorb_append start (receiver.taken arrived) used
  rw [← executed, ← stringHandler, step] at all
  refine absorbed_of_split whole ?_ ?_
  · rw [all, loop_eq]
    show (ite ((takeCharacters receiver.stringHandler receiver.port).1.areYouOver = true) _ _
      : LineReceiver).executed = _
    split
    · rfl
    · exact (List.append_nil _).symm
  · rw [all, loop_eq]
    show (ite ((takeCharacters receiver.stringHandler receiver.port).1.areYouOver = true) _ _
      : LineReceiver).stringHandler = _
    split <;> rfl

theorem absorbed_iterate (absorbed : receiver.Absorbed start arrived) (fresh : receiver.Fresh)
    (schedule : List (List UInt8)) :
    (receiver.iterate schedule).Absorbed start (arrived ++ schedule.flatten) := by
  induction schedule generalizing receiver arrived with
  | nil => rwa [List.flatten_nil, List.append_nil]
  | cons bytes rest inductionHypothesis =>
    let arrival : LineReceiver := { receiver with port := receiver.port ++ bytes }
    have whole : receiver.taken arrived ++ arrival.port = arrived ++ bytes := by
      show receiver.taken arrived ++ (receiver.port ++ bytes) = arrived ++ bytes
      rw [← List.append_assoc, absorbed.split]
    have arrivalAbsorbed : arrival.Absorbed start (arrived ++ bytes) :=
      absorbed_of_split whole absorbed.executed absorbed.stringHandler
    rw [List.flatten_cons, ← List.append_assoc]
    exact inductionHypothesis (absorbed_loop arrivalAbsorbed fresh) (loop_fresh arrival)

/-! ### Every byte is taken in the end -/

theorem takeCharacters_suffix (handler : StringHandler) (bytes : List UInt8) :
    (takeCharacters handler bytes).2 <:+ bytes := by
  induction bytes generalizing handler with
  | nil => exact List.suffix_rfl
  | cons byte rest inductionHypothesis =>
    unfold takeCharacters
    split
    · exact List.suffix_rfl
    · exact (inductionHypothesis _).trans (List.suffix_cons byte rest)

/-- An iteration takes at least one byte from a port that holds any. -/
theorem loop_port_length (fresh : receiver.Fresh) :
    receiver.loop.port.length ≤ receiver.port.length - 1 := by
  rw [loop_port]
  cases receiver.port with
  | nil => exact Nat.le_refl 0
  | cons byte rest =>
    rw [takeCharacters_open byte rest fresh]
    exact (takeCharacters_suffix _ rest).length_le

/-- When nothing arrives any more, as many iterations as there are bytes empty the port. -/
theorem iterate_idle (fresh : receiver.Fresh) {iterations : Nat}
    (enough : receiver.port.length ≤ iterations) :
    (receiver.iterate (List.replicate iterations [])).port = [] := by
  induction iterations generalizing receiver with
  | zero => exact List.eq_nil_of_length_eq_zero (Nat.le_zero.mp enough)
  | succ iterations inductionHypothesis =>
    let arrival : LineReceiver := { receiver with port := receiver.port ++ [] }
    have fewer := @loop_port_length arrival fresh
    have same : arrival.port.length = receiver.port.length :=
      congrArg List.length (List.append_nil receiver.port)
    have shorter : arrival.loop.port.length ≤ iterations := by omega
    exact inductionHypothesis (loop_fresh arrival) shorter

theorem iterate_fresh (fresh : receiver.Fresh) (schedule : List (List UInt8)) :
    (receiver.iterate schedule).Fresh := by
  induction schedule generalizing receiver with
  | nil => exact fresh
  | cons bytes rest inductionHypothesis => exact inductionHypothesis (loop_fresh _)

/-- Every schedule goes on, without further arrivals, to one after which all bytes were consumed. -/
theorem exists_consumed (fresh : receiver.Fresh) (schedule : List (List UInt8)) :
    ∃ longer : List (List UInt8),
      longer.flatten = schedule.flatten ∧ schedule <+: longer ∧
        (receiver.iterate longer).port = [] := by
  have later := iterate_fresh fresh schedule
  refine ⟨schedule ++ List.replicate (receiver.iterate schedule).port.length [], ?_,
    List.prefix_append _ _, ?_⟩
  · rw [List.flatten_append, List.flatten_replicate_nil, List.append_nil]
  · rw [iterate, List.foldl_append]
    exact iterate_idle later (Nat.le_refl _)

/-! ### Runs of the loop on the reader's terms -/

section Runs

variable (memory : Int → Option Handler) (buffer : Nat → Int8) (schedule : List (List UInt8))

/-- At every moment the strings executed and the characters held are those of the reader, on the
bytes that were taken so far. -/
theorem iterate_readLines :
    ((setup memory buffer).iterate schedule).executed =
        (readLines [] (((setup memory buffer).iterate schedule).taken schedule.flatten)).1 ∧
      ((setup memory buffer).iterate schedule).stringHandler.held =
        (readLines [] (((setup memory buffer).iterate schedule).taken schedule.flatten)).2 := by
  have initially : (setup memory buffer).Absorbed (StringHandler.create buffer) [] :=
    ⟨rfl, rfl, rfl⟩
  have absorbed := absorbed_iterate initially rfl schedule
  rw [List.nil_append] at absorbed
  obtain ⟨lines, holds⟩ := absorb_readLines (StringHandler.create_holds buffer)
    (((setup memory buffer).iterate schedule).taken schedule.flatten)
  refine ⟨absorbed.executed.trans lines, ?_⟩
  rw [absorbed.stringHandler]
  exact holds.held_eq

/-- Every letter taken is in a string executed or still held, exactly when no stretch without
newlines among the bytes taken has more letters than the buffer has room for. -/
theorem conserves_iff :
    ((setup memory buffer).iterate schedule).executed.flatten ++
          ((setup memory buffer).iterate schedule).stringHandler.held =
        letters (((setup memory buffer).iterate schedule).taken schedule.flatten) ↔
      ShortLines (((setup memory buffer).iterate schedule).taken schedule.flatten) := by
  obtain ⟨executed, held⟩ := iterate_readLines memory buffer schedule
  rw [executed, held, ← fits_nil_iff, ← kept_eq_iff (Nat.zero_le _), kept, List.nil_append]

theorem not_conserves_long :
    ((setup (fun _ => none) fun _ => 0).iterate [List.replicate 51 97]).taken
          [List.replicate 51 97].flatten = List.replicate 51 97 ∧
      ((setup (fun _ => none) fun _ => 0).iterate [List.replicate 51 97]).executed =
        [List.replicate 50 97] ∧
      ((setup (fun _ => none) fun _ => 0).iterate [List.replicate 51 97]).stringHandler.held = [] ∧
      ((setup (fun _ => none) fun _ => 0).iterate [List.replicate 51 97]).executed.flatten ++
          ((setup (fun _ => none) fun _ => 0).iterate [List.replicate 51 97]).stringHandler.held ≠
        letters (((setup (fun _ => none) fun _ => 0).iterate [List.replicate 51 97]).taken
          [List.replicate 51 97].flatten) := by
  decide +kernel

/-- No stretch between two newlines has more letters than the buffer has room for. Nothing is said
of the one before the first newline and the one after the last. -/
def ShortBetween (bytes : List UInt8) : Prop :=
  ∀ stretch ∈ (stretches bytes).tail.dropLast, stretch.length ≤ StringHandler.stringLength

instance (bytes : List UInt8) : Decidable (ShortBetween bytes) := List.decidableBAll _ _

/-- Once every byte was consumed, the strings executed are the letters of the stretches that a
newline ends, for a stream that has no long stretches without newlines, the one before the first and
the one after the last newline included. -/
theorem executed_eq_stretches (short : ShortLines schedule.flatten)
    (consumed : ((setup memory buffer).iterate schedule).port = []) :
    ((setup memory buffer).iterate schedule).executed =
      (schedule.flatten.splitOn newline).dropLast.map letters := by
  rw [iterate_executed memory buffer schedule consumed,
    (absorb_readLines (StringHandler.create_holds buffer) schedule.flatten).1, List.map_dropLast]
  have read := readLines_of_fits (fits_nil_iff.mpr short)
  rw [continued_nil, stretches] at read
  rw [← read, List.dropLast_concat]

theorem executed_eq_stretches_commands :
    ((setup (fun _ => none) fun _ => 0).iterate [[102, 111], [114, 10, 10, 48, 115], [10, 98], [],
        []]).executed =
      ([[102, 111], [114, 10, 10, 48, 115], [10, 98], [], []].flatten.splitOn
        newline).dropLast.map letters :=
  executed_eq_stretches _ _ _ (by decide) (by decide +kernel)

/-- Before the first newline and after the last one the stretches have to be short, too: of 51
letters without a newline, 50 are executed. -/
theorem not_executed_eq_stretches_long :
    (ShortBetween [List.replicate 51 97].flatten ∧
      ((setup (fun _ => none) fun _ => 0).iterate [List.replicate 51 97]).port = [] ∧
      ((setup (fun _ => none) fun _ => 0).iterate [List.replicate 51 97]).executed =
        [List.replicate 50 97] ∧
      ((setup (fun _ => none) fun _ => 0).iterate [List.replicate 51 97]).executed ≠
        ([List.replicate 51 97].flatten.splitOn newline).dropLast.map letters) ∧
    (ShortBetween [List.replicate 51 97, [10]].flatten ∧
      ((setup (fun _ => none) fun _ => 0).iterate [List.replicate 51 97, [10]]).port = [] ∧
      ((setup (fun _ => none) fun _ => 0).iterate [List.replicate 51 97, [10]]).executed ≠
        ([List.replicate 51 97, [10]].flatten.splitOn newline).dropLast.map letters) ∧
    ShortBetween [[10], List.replicate 51 97].flatten ∧
      ((setup (fun _ => none) fun _ => 0).iterate [[10], List.replicate 51 97]).port = [] ∧
      ((setup (fun _ => none) fun _ => 0).iterate [[10], List.replicate 51 97]).executed ≠
        ([[10], List.replicate 51 97].flatten.splitOn newline).dropLast.map letters := by
  decide +kernel

end Runs

/-- Two schedules that deliver the same bytes lead to the same strings, once every byte was
consumed, whatever the memory of the two receivers held in the beginning. -/
theorem executed_of_same_bytes (memory other : Int → Option Handler)
    (buffer otherBuffer : Nat → Int8)
    {schedule otherSchedule : List (List UInt8)}
    (same : schedule.flatten = otherSchedule.flatten)
    (consumed : ((setup memory buffer).iterate schedule).port = [])
    (otherConsumed : ((setup other otherBuffer).iterate otherSchedule).port = []) :
    ((setup memory buffer).iterate schedule).executed =
      ((setup other otherBuffer).iterate otherSchedule).executed := by
  rw [iterate_executed memory buffer schedule consumed,
    iterate_executed other otherBuffer otherSchedule otherConsumed, same,
    (absorb_readLines (StringHandler.create_holds buffer) _).1,
    (absorb_readLines (StringHandler.create_holds otherBuffer) _).1]

theorem executed_of_same_bytes_two :
    ((setup (fun _ => none) fun _ => 0).iterate [[102, 10], [98], [], [10]]).executed =
      ((setup (fun _ => none) fun _ => 1).iterate [[102, 10, 98, 10], []]).executed :=
  executed_of_same_bytes _ _ _ _ (by decide) (by decide +kernel) (by decide +kernel)

end LineReceiver

end WhistleDrivenRobot
