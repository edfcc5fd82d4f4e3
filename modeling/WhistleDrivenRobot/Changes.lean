/-
This file is a small library about streams of values that are passed on only when
they change. Passing on the changes of a stream and encoding them gives the
changes of the encoded stream only where neighbours that differ are encoded
differently; where they are not, a code is passed on twice.
-/

import Mathlib.Data.List.Destutter

namespace Changes

variable {Value Code : Type*} [DecidableEq Value] [DecidableEq Code]

/-- The values of a stream that differ from the one before, which is `last` for the first. -/
def changes : Value → List Value → List Value
  | _, [] => []
  | last, value :: rest =>
    if last = value then changes last rest else value :: changes value rest

theorem changes_cons_self (last : Value) (rest : List Value) :
    changes last (last :: rest) = changes last rest := if_pos rfl

theorem changes_cons_of_ne {last value : Value} (different : last ≠ value) (rest : List Value) :
    changes last (value :: rest) = value :: changes value rest := if_neg different

theorem destutter'_ne (last : Value) (values : List Value) :
    values.destutter' (· ≠ ·) last = last :: changes last values := by
  induction values generalizing last with
  | nil => rfl
  | cons value rest inductionHypothesis =>
    by_cases same : last = value
    · subst same
      rw [List.destutter'_cons_neg _ (not_not.mpr rfl), inductionHypothesis, changes_cons_self]
    · rw [List.destutter'_cons_pos _ same, inductionHypothesis, changes_cons_of_ne same]

theorem destutter_ne_cons (value : Value) (rest : List Value) :
    (value :: rest).destutter (· ≠ ·) = value :: changes value rest :=
  destutter'_ne value rest

/-- The last value of a stream is the last one that is left of it. -/
theorem getLast?_cons_changes (last : Value) (values : List Value) :
    (last :: changes last values).getLast? = (last :: values).getLast? := by
  induction values generalizing last with
  | nil => rfl
  | cons value rest inductionHypothesis =>
    rw [List.getLast?_cons_cons]
    by_cases same : last = value
    · subst same
      rw [changes_cons_self, inductionHypothesis]
    · rw [changes_cons_of_ne same, List.getLast?_cons_cons, inductionHypothesis]

theorem getLast?_destutter_ne (values : List Value) :
    (values.destutter (· ≠ ·)).getLast? = values.getLast? := by
  cases values with
  | nil => rfl
  | cons value rest => rw [destutter_ne_cons, getLast?_cons_changes]

/-! ### Changes of an encoded stream -/

variable (encode : Value → Code)

/-- Neighbours with one code are one value. -/
def Distinguished (values : List Value) : Prop :=
  values.IsChain fun first second => encode first = encode second → first = second

/-- Encoding a stream leaves no more changes. -/
theorem length_changes_map_le (last : Value) (values : List Value) :
    (changes (encode last) (values.map encode)).length ≤ (changes last values).length := by
  induction values generalizing last with
  | nil => exact Nat.le_refl 0
  | cons value rest inductionHypothesis =>
    rw [List.map_cons]
    by_cases same : last = value
    · subst same
      rw [changes_cons_self, changes_cons_self]
      exact inductionHypothesis last
    · rw [changes_cons_of_ne same, List.length_cons]
      by_cases code : encode last = encode value
      · rw [code, changes_cons_self]
        exact Nat.le_succ_of_le (inductionHypothesis value)
      · rw [changes_cons_of_ne code, List.length_cons]
        exact Nat.succ_le_succ (inductionHypothesis value)

theorem map_changes_iff (last : Value) (values : List Value) :
    (changes last values).map encode = changes (encode last) (values.map encode) ↔
      Distinguished encode (last :: values) := by
  induction values generalizing last with
  | nil => exact iff_of_true rfl (List.isChain_singleton last)
  | cons value rest inductionHypothesis =>
    rw [Distinguished, List.isChain_cons_cons, ← Distinguished, List.map_cons,
      ← inductionHypothesis]
    by_cases same : last = value
    · subst same
      rw [changes_cons_self, changes_cons_self, and_iff_right fun _ => rfl]
    · rw [changes_cons_of_ne same, List.map_cons]
      by_cases code : encode last = encode value
      · -- the same code is passed on once more, and nothing can make up for it
        refine iff_of_false (fun equal => ?_) fun both => same (both.1 code)
        have longer := congrArg List.length equal
        have shorter := length_changes_map_le encode value rest
        rw [code, changes_cons_self, List.length_cons, List.length_map] at longer
        omega
      · rw [changes_cons_of_ne code, List.cons_inj_right,
          and_iff_right fun equal => absurd equal code]

theorem dropWhile_cons_self (last : Value) (rest : List Value) :
    (last :: rest).dropWhile (· = last) = rest.dropWhile (· = last) :=
  List.dropWhile_cons_of_pos (decide_eq_true rfl)

theorem dropWhile_cons_of_ne {last value : Value} (different : last ≠ value) (rest : List Value) :
    (value :: rest).dropWhile (· = last) = value :: rest :=
  List.dropWhile_cons_of_neg fun equal => different (of_decide_eq_true equal).symm

/-- Repetitions of a value that was not passed on before are missed, unless the value that follows
them has the same code. -/
theorem map_changes_eq_cons_iff (last : Value) (values : List Value) :
    (changes last values).map encode =
        encode last :: changes (encode last) (values.map encode) ↔
      Distinguished encode (values.dropWhile (· = last)) ∧
        (values.dropWhile (· = last)).head?.map encode = some (encode last) := by
  induction values with
  | nil => exact iff_of_false nofun fun both => absurd both.2 nofun
  | cons value rest inductionHypothesis =>
    rw [List.map_cons]
    by_cases same : last = value
    · subst same
      rw [changes_cons_self, changes_cons_self, dropWhile_cons_self, inductionHypothesis]
    · rw [changes_cons_of_ne same, dropWhile_cons_of_ne same, List.map_cons, List.head?_cons,
        Option.map_some, Option.some_inj]
      by_cases code : encode last = encode value
      · rw [code, changes_cons_self, List.cons_inj_right, map_changes_iff, and_iff_left rfl]
      · refine iff_of_false (fun equal => ?_) fun both => code both.2.symm
        exact code (List.cons.inj equal).1.symm

/-- The changes from a value that was not passed on, when they are the changes of the codes. -/
theorem map_changes_eq_destutter_iff (last : Value) (values : List Value) :
    (changes last values).map encode = (values.map encode).destutter (· ≠ ·) ↔
      Distinguished encode (values.dropWhile (· = last)) ∧
        (values.head? = some last →
          (values.dropWhile (· = last)).head?.map encode = some (encode last)) := by
  cases values with
  | nil => exact iff_of_true rfl ⟨List.isChain_nil, nofun⟩
  | cons value rest =>
    rw [List.map_cons, destutter_ne_cons, List.head?_cons, Option.some_inj]
    by_cases same : last = value
    · subst same
      rw [changes_cons_self, dropWhile_cons_self, map_changes_eq_cons_iff, forall_prop_of_true rfl]
    · rw [changes_cons_of_ne same, dropWhile_cons_of_ne same, List.map_cons, List.cons_inj_right,
        map_changes_iff, and_iff_left fun head => absurd head.symm same]

end Changes
