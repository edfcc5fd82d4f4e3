/-
This file is a small library about byte-like streams that pick up noise on the
way. A padded stream is the original one with further elements inserted
anywhere, all of them noise. A reader that drops the noise sees the original
stream with the noise dropped, wherever the insertions went.
-/

import Mathlib.Data.List.Infix

namespace Streams

variable {Value : Type}

/-- The second stream is the first one with elements inserted, all of them noise. -/
inductive Padded (noise : Value → Prop) : List Value → List Value → Prop
  | nil : Padded noise [] []
  | keep (value : Value) {original padded : List Value} (rest : Padded noise original padded) :
      Padded noise (value :: original) (value :: padded)
  | insert (value : Value) {original padded : List Value} (isNoise : noise value)
      (rest : Padded noise original padded) : Padded noise original (value :: padded)

variable {noise : Value → Prop} {relevant : Value → Bool}

/-- A filter that drops the noise does not see the padding. -/
theorem Padded.filter_eq {original padded : List Value} (padding : Padded noise original padded)
    (dropped : ∀ value, noise value → relevant value = false) :
    padded.filter relevant = original.filter relevant := by
  induction padding with
  | nil => rfl
  | keep value _ inductionHypothesis =>
    rw [List.filter_cons, List.filter_cons, inductionHypothesis]
  | insert value isNoise _ inductionHypothesis =>
    rw [List.filter_cons, dropped value isNoise, if_neg Bool.false_ne_true, inductionHypothesis]

/-- A filter does not see an irrelevant element inserted at one position. -/
theorem filter_insertIdx (values : List Value) (position : Nat) {value : Value}
    (irrelevant : relevant value = false) :
    (values.insertIdx position value).filter relevant = values.filter relevant := by
  induction values generalizing position with
  | nil =>
    cases position with
    | zero => rw [List.insertIdx_zero, List.filter_cons, irrelevant, if_neg Bool.false_ne_true]
    | succ position => rw [List.insertIdx_succ_nil]
  | cons head rest inductionHypothesis =>
    cases position with
    | zero => rw [List.insertIdx_zero, List.filter_cons, irrelevant, if_neg Bool.false_ne_true]
    | succ position =>
      rw [List.insertIdx_succ_cons, List.filter_cons, List.filter_cons, inductionHypothesis]

end Streams
