/-
This file gives the representation invariant of the `StringHandler` under calls
in any order and with any characters, not only those that a receiver lets
through. What the buffer holds is the beginning of what was offered since the
last `getString`; an end character and the character for which there is no room
both complete the line, and neither is written. No cell behind the array changes.
-/

import WhistleDrivenRobot.Lines

namespace WhistleDrivenRobot

namespace StringHandler

/-! ### Calls -/

inductive Call
  | addChar (ch : Int8)
  | getString
  | areYouOver
  deriving DecidableEq, Repr

/-- The handler after a call. -/
def call (handler : StringHandler) : Call → StringHandler
  | .addChar ch => handler.addChar ch
  | .getString => handler.getString.2
  | .areYouOver => handler

def calls (handler : StringHandler) (made : List Call) : StringHandler := made.foldl call handler

/-- The characters that were offered since the last `getString`. -/
def offered (made : List Call) : List Int8 :=
  made.foldl (fun chars made => match made with
    | .addChar ch => chars ++ [ch]
    | .getString => []
    | .areYouOver => chars) []

/-- The characters before the first end character. -/
def line (chars : List Int8) : List Int8 := chars.takeWhile (· ≠ endChar)

/-- The characters for which there is room. -/
def kept (chars : List Int8) : List Int8 := (line chars).take stringLength

/-! ### The characters that are kept -/

variable {chars : List Int8} {ch : Int8}

theorem line_of_notMem (endless : endChar ∉ chars) : line chars = chars :=
  List.takeWhile_eq_self_iff.mpr fun _ member =>
    decide_eq_true fun same => endless (same ▸ member)

theorem notMem_concat (endless : endChar ∉ chars) (other : ch ≠ endChar) :
    endChar ∉ chars ++ [ch] := by
  rw [List.mem_append, List.mem_singleton]
  rintro (before | same)
  · exact endless before
  · exact other same.symm

theorem line_concat_of_mem (ended : endChar ∈ chars) : line (chars ++ [ch]) = line chars := by
  have stops : (chars.takeWhile (· ≠ endChar)).length ≠ chars.length := by
    intro all
    have whole := (List.takeWhile_sublist (· ≠ endChar)).eq_of_length all
    exact of_decide_eq_true (List.takeWhile_eq_self_iff.mp whole endChar ended) rfl
  rw [line, List.takeWhile_append, if_neg stops, line]

theorem line_concat_endChar (endless : endChar ∉ chars) : line (chars ++ [endChar]) = chars := by
  have all : ∀ c ∈ chars, decide (c ≠ endChar) = true := fun _ member =>
    decide_eq_true fun same => endless (same ▸ member)
  rw [line, List.takeWhile_append_of_pos all, List.takeWhile_cons_of_neg (by decide),
    List.append_nil]

theorem kept_length_le (chars : List Int8) : (kept chars).length ≤ chars.length :=
  ((List.take_sublist _ _).trans (List.takeWhile_sublist _)).length_le

/-- Behind an end character, or when there is no room, nothing more is kept. -/
theorem kept_concat_of_full (full : endChar ∈ chars ∨ stringLength ≤ chars.length) :
    kept (chars ++ [ch]) = kept chars := by
  by_cases ended : endChar ∈ chars
  · rw [kept, line_concat_of_mem ended, kept]
  · have long := full.resolve_left ended
    by_cases last : ch = endChar
    · rw [kept, last, line_concat_endChar ended, kept, line_of_notMem ended]
    · rw [kept, line_of_notMem (notMem_concat ended last), kept, line_of_notMem ended,
        List.take_append_of_le_length long]

theorem kept_of_room (endless : endChar ∉ chars) (room : chars.length ≤ stringLength) :
    kept chars = chars := by
  rw [kept, line_of_notMem endless, List.take_of_length_le room]

/-! ### The invariant -/

/-- The handler holds what is kept of the characters, and `memory` behind its array. -/
structure Buffers (memory : Nat → Int8) (chars : List Int8) (handler : StringHandler) : Prop where
  index : handler.bufferIndex = (kept chars).length
  cells : (List.range handler.bufferIndex).map handler.buffer = kept chars
  finished : handler.isOver = true ↔ endChar ∈ chars ∨ stringLength < chars.length
  outside : ∀ index, stringLength < index → handler.buffer index = memory index

variable {memory : Nat → Int8} {handler : StringHandler}

theorem Buffers.create (memory : Nat → Int8) : Buffers memory [] (create memory) where
  index := rfl
  cells := rfl
  finished := iff_of_false Bool.false_ne_true fun finished => finished.elim nofun nofun
  outside := fun _ _ => rfl

theorem Buffers.index_le (buffers : Buffers memory chars handler) :
    handler.bufferIndex ≤ stringLength := by
  rw [buffers.index, kept]
  exact List.length_take_le _ _

/-- Until the line is over there was room for all that was offered, and no end character. -/
theorem Buffers.room_of_unfinished (buffers : Buffers memory chars handler)
    (unfinished : handler.isOver = false) :
    endChar ∉ chars ∧ chars.length ≤ stringLength := by
  obtain ⟨endless, short⟩ := not_or.mp fun finished =>
    absurd (buffers.finished.mpr finished) (Bool.eq_false_iff.mp unfinished)
  exact ⟨endless, Nat.not_lt.mp short⟩

theorem Buffers.addChar_full (buffers : Buffers memory chars handler)
    (full : stringLength ≤ handler.bufferIndex ∨ handler.isOver = true) (ch : Int8) :
    Buffers memory (chars ++ [ch]) { handler with isOver := true } := by
  have noRoom : endChar ∈ chars ∨ stringLength ≤ chars.length := by
    rcases full with long | finished
    · exact Or.inr (long.trans (buffers.index ▸ kept_length_le chars))
    · exact (buffers.finished.mp finished).imp_right Nat.le_of_lt
  have same := @kept_concat_of_full chars ch noRoom
  refine ⟨same ▸ buffers.index, same ▸ buffers.cells, iff_of_true rfl ?_, buffers.outside⟩
  refine noRoom.imp (List.mem_append_left [ch]) fun long => ?_
  rw [List.length_append]
  exact Nat.lt_succ_of_le long

theorem Buffers.addChar_room (buffers : Buffers memory chars handler)
    (room : handler.bufferIndex < stringLength) (unfinished : handler.isOver = false)
    (other : ch ≠ endChar) :
    Buffers memory (chars ++ [ch])
      { handler with
        buffer := Function.update handler.buffer handler.bufferIndex ch
        bufferIndex := handler.bufferIndex + 1 } := by
  obtain ⟨endless, short⟩ := buffers.room_of_unfinished unfinished
  have all : kept chars = chars := kept_of_room endless short
  have index : handler.bufferIndex = chars.length := by rw [buffers.index, all]
  have endlessNow : endChar ∉ chars ++ [ch] := notMem_concat endless other
  have roomNow : (chars ++ [ch]).length ≤ stringLength := by
    rw [List.length_append, List.length_singleton]
    omega
  have allNow : kept (chars ++ [ch]) = chars ++ [ch] := kept_of_room endlessNow roomNow
  refine ⟨?_, ?_, ?_, fun place behind => ?_⟩
  · rw [allNow, List.length_append, List.length_singleton]
    exact congrArg (· + 1) index
  · rw [allNow, Cells.map_range_update, buffers.cells, all]
  · refine iff_of_false (Bool.eq_false_iff.mp unfinished) fun finished => ?_
    exact finished.elim endlessNow (Nat.not_lt.mpr roomNow)
  · have inside : place ≠ handler.bufferIndex := by omega
    exact (Function.update_of_ne inside _ _).trans (buffers.outside place behind)

theorem Buffers.addChar_endChar (buffers : Buffers memory chars handler)
    (unfinished : handler.isOver = false) :
    Buffers memory (chars ++ [endChar]) { handler with isOver := true } := by
  obtain ⟨endless, -⟩ := buffers.room_of_unfinished unfinished
  have same : kept (chars ++ [endChar]) = kept chars := by
    rw [kept, line_concat_endChar endless, kept, line_of_notMem endless]
  refine ⟨same ▸ buffers.index, same ▸ buffers.cells, iff_of_true rfl (Or.inl ?_),
    buffers.outside⟩
  exact List.mem_append_right chars (List.mem_singleton_self endChar)

theorem Buffers.addChar (buffers : Buffers memory chars handler) (ch : Int8) :
    Buffers memory (chars ++ [ch]) (handler.addChar ch) := by
  unfold StringHandler.addChar
  split
  · rename_i full
    exact buffers.addChar_full full ch
  · rename_i notFull
    obtain ⟨room, unfinished⟩ := not_or.mp notFull
    have unfinished := Bool.eq_false_iff.mpr unfinished
    split
    · rename_i other
      exact buffers.addChar_room (Nat.not_le.mp room) unfinished other
    · rename_i same
      rw [not_not.mp same]
      exact buffers.addChar_endChar unfinished

/-- The terminator is written at the last cell of the array at the latest. -/
theorem Buffers.getString (buffers : Buffers memory chars handler) :
    Buffers memory [] handler.getString.2 := by
  refine ⟨rfl, rfl, (Buffers.create memory).finished, fun place behind => ?_⟩
  have inside := buffers.index_le
  refine (Function.update_of_ne ?_ _ _).trans (buffers.outside place behind)
  omega

theorem buffers_calls (memory : Nat → Int8) (made : List Call) :
    Buffers memory (offered made) ((create memory).calls made) := by
  induction made using List.reverseRecOn with
  | nil => exact Buffers.create memory
  | append_singleton before last inductionHypothesis =>
    unfold offered calls at inductionHypothesis ⊢
    rw [List.foldl_append, List.foldl_append]
    cases last with
    | addChar ch => exact inductionHypothesis.addChar ch
    | getString => exact inductionHypothesis.getString
    | areYouOver => exact inductionHypothesis

/-! ### What a caller sees -/

/-- The representation of the characters that were offered since the last `getString`. -/
structure Represents (memory : Nat → Int8) (chars : List Int8) (handler : StringHandler) :
    Prop where
  bound : handler.bufferIndex ≤ stringLength
  outside : ∀ index, stringLength < index →
    handler.buffer index = memory index ∧ handler.getString.2.buffer index = memory index
  index : handler.bufferIndex = min stringLength (line chars).length
  cells : (List.range handler.bufferIndex).map handler.buffer = (line chars).take stringLength
  closed : handler.areYouOver = true → ∀ ch, handler.addChar ch = handler
  finished : handler.areYouOver = true ↔ endChar ∈ chars ∨ stringLength < chars.length
  string : handler.getString.1 = trim ((line chars).take stringLength)
  emptied : handler.getString.2 = create handler.getString.2.buffer

theorem addChar_of_finished {handler : StringHandler} (finished : handler.areYouOver = true)
    (ch : Int8) : handler.addChar ch = handler := by
  obtain ⟨buffer, bufferIndex, isOver⟩ := handler
  obtain rfl : isOver = true := finished
  exact if_pos (Or.inr rfl)

theorem Buffers.represents (buffers : Buffers memory chars handler)
    (legible : ∀ c ∈ chars, c ≠ 0) : Represents memory chars handler where
  bound := buffers.index_le
  outside := fun place behind =>
    ⟨buffers.outside place behind, buffers.getString.outside place behind⟩
  index := buffers.index.trans List.length_take
  cells := buffers.cells
  closed := addChar_of_finished
  finished := buffers.finished
  string := getString_of_cells buffers.cells fun c member =>
    legible c ((List.takeWhile_sublist _).subset ((List.take_sublist _ _).subset member))
  emptied := rfl

theorem mem_offered {made : List Call} {ch : Int8} (member : ch ∈ offered made) :
    Call.addChar ch ∈ made := by
  induction made using List.reverseRecOn with
  | nil => exact absurd member List.not_mem_nil
  | append_singleton before last inductionHypothesis =>
    unfold offered at member inductionHypothesis
    rw [List.foldl_append] at member
    cases last with
    | addChar other =>
      rcases List.mem_append.mp member with early | late
      · exact List.mem_append_left _ (inductionHypothesis early)
      · exact List.mem_append_right _ (List.mem_singleton.mp late ▸ List.mem_singleton_self _)
    | getString => exact absurd member List.not_mem_nil
    | areYouOver => exact List.mem_append_left _ (inductionHypothesis member)

/-- After any calls with characters other than NUL the handler represents what was offered since the
last `getString`, whatever its memory held in the beginning. -/
theorem represents_calls (memory : Nat → Int8) {made : List Call}
    (legible : ∀ ch, Call.addChar ch ∈ made → ch ≠ 0) :
    Represents memory (offered made) ((create memory).calls made) :=
  (buffers_calls memory made).represents fun ch member => legible ch (mem_offered member)

theorem represents_calls_word :
    Represents (fun _ => 1) (offered [.addChar 32, .addChar 102, .areYouOver, .addChar 10,
        .addChar 98, .getString, .addChar 108])
      ((create fun _ => 1).calls [.addChar 32, .addChar 102, .areYouOver, .addChar 10,
        .addChar 98, .getString, .addChar 108]) := by
  refine represents_calls _ fun ch member => ?_
  simp only [List.mem_cons, Call.addChar.injEq, reduceCtorEq, List.not_mem_nil, or_false,
    false_or] at member
  rcases member with rfl | rfl | rfl | rfl | rfl <;> decide

end StringHandler

end WhistleDrivenRobot
