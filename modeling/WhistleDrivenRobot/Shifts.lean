/-
This file is a small library about streams on which polynomials act: the variable
moves a stream one step forward in time. Products of polynomials act one after
the other, so an identity between polynomials is one between the operations that
they stand for. A stream that is sampled at a regular distance sees a polynomial
as the whole stream sees its expansion.
-/

import Mathlib.Algebra.Polynomial.AlgebraMap
import Mathlib.Algebra.Polynomial.Expand

namespace Shifts

open Polynomial

variable {R : Type*} [CommRing R]

/-- A stream one step later. -/
def shift : Module.End R (Nat → R) where
  toFun stream time := stream (time + 1)
  map_add' _ _ := rfl
  map_smul' _ _ := rfl

theorem shift_pow_apply (count : Nat) (stream : Nat → R) (time : Nat) :
    (shift ^ count) stream time = stream (time + count) := by
  induction count generalizing time with
  | zero => rfl
  | succ count inductionHypothesis =>
    rw [pow_succ', Module.End.mul_apply]
    show (shift ^ count) stream (time + 1) = _
    rw [inductionHypothesis, Nat.add_assoc, Nat.add_comm 1]

/-- A polynomial applied to a stream. -/
noncomputable def act (polynomial : R[X]) (stream : Nat → R) : Nat → R :=
  aeval shift polynomial stream

theorem act_mul (first second : R[X]) (stream : Nat → R) :
    act (first * second) stream = act first (act second stream) := by
  rw [act, map_mul, Module.End.mul_apply, act, act]

theorem act_add (first second : R[X]) (stream : Nat → R) :
    act (first + second) stream = act first stream + act second stream := by
  rw [act, map_add, LinearMap.add_apply, act, act]

theorem act_sub (first second : R[X]) (stream : Nat → R) :
    act (first - second) stream = act first stream - act second stream := by
  rw [act, map_sub, LinearMap.sub_apply, act, act]

theorem act_one (stream : Nat → R) : act 1 stream = stream := by
  rw [act, map_one, Module.End.one_apply]

theorem act_X_pow (count : Nat) (stream : Nat → R) (time : Nat) :
    act (X ^ count) stream time = stream (time + count) := by
  rw [act, aeval_X_pow, shift_pow_apply]

theorem act_X (stream : Nat → R) (time : Nat) : act X stream time = stream (time + 1) := by
  rw [act, aeval_X]
  rfl

theorem act_monomial (degree : Nat) (factor : R) (stream : Nat → R) (time : Nat) :
    act (monomial degree factor) stream time = factor * stream (time + degree) := by
  rw [act, aeval_monomial, Module.End.mul_apply, Module.algebraMap_end_apply, Pi.smul_apply,
    smul_eq_mul, shift_pow_apply]

/-- A polynomial weighs the values from now on by its coefficients. -/
theorem act_apply (polynomial : R[X]) {bound : Nat} (degree : polynomial.natDegree < bound)
    (stream : Nat → R) (time : Nat) :
    act polynomial stream time =
      ∑ k ∈ Finset.range bound, polynomial.coeff k * stream (time + k) := by
  rw [act, aeval_eq_sum_range' degree, LinearMap.sum_apply, Finset.sum_apply]
  refine Finset.sum_congr rfl fun k _ => ?_
  rw [LinearMap.smul_apply, Pi.smul_apply, smul_eq_mul, shift_pow_apply]

/-- On the samples at a regular distance a polynomial acts as its expansion does on the stream. -/
theorem act_sampled (polynomial : R[X]) (distance first : Nat) (stream : Nat → R) (time : Nat) :
    act polynomial (fun index => stream (distance * index + first)) time =
      act (expand R distance polynomial) stream (distance * time + first) := by
  induction polynomial using Polynomial.induction_on' with
  | add one other inductionOne inductionOther =>
    rw [act_add, map_add, act_add, Pi.add_apply, Pi.add_apply, inductionOne, inductionOther]
  | monomial degree factor =>
    rw [act_monomial, expand_monomial, act_monomial]
    refine congrArg (fun index => factor * stream index) ?_
    rw [Nat.mul_add, Nat.add_right_comm, Nat.mul_comm degree]

end Shifts
