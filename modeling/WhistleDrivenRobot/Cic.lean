/-
This file is a small library about CIC decimators: a cascade of integrators that
is fed every sample, and a cascade of combs that is fed the last integrator at a
regular distance. The integrators never forget what they held in the beginning
and grow without bound; the differences that the combs take cancel all of it.
From as many outputs on as there are combs an output is a weighted sum of the
latest samples, whatever the registers held, and with empty registers it is one
from the first output on. The weights are the coefficients of a power of a sum
of consecutive powers. Everything holds in any commutative ring, so also where
the registers wrap around.
-/

import Mathlib.Algebra.Polynomial.Reverse
import Mathlib.Algebra.Ring.GeomSum
import WhistleDrivenRobot.Shifts

namespace Cic

open Polynomial Shifts

variable {R : Type*} [CommRing R]

/-! ### The two cascades -/

/-- One sample enters the integrators: every one adds the one before it, already updated, and the
first one adds the sample. -/
def integrate : R → List R → List R
  | _, [] => []
  | sample, sum :: rest => (sum + sample) :: integrate (sum + sample) rest

/-- One value enters the combs: what leaves the last one, and the delays afterwards. -/
def comb : R → List R → R × List R
  | value, [] => (value, [])
  | value, delay :: rest =>
    ((comb (value - delay) rest).1, value :: (comb (value - delay) rest).2)

/-- The integrators before the sample at a time. -/
def sums (initial : List R) (samples : Nat → R) : Nat → List R
  | 0 => initial
  | time + 1 => integrate (samples time) (sums initial samples time)

/-- The delays of the combs before the value at an index. -/
def delays (initial : List R) (values : Nat → R) : Nat → List R
  | 0 => initial
  | index + 1 => (comb (values index) (delays initial values index)).2

/-- What leaves the combs at an index. -/
def combed (initial : List R) (values : Nat → R) (index : Nat) : R :=
  (comb (values index) (delays initial values index)).1

/-- The last of the integrators after each block of samples. -/
def decimated (ratio : Nat) (initial : List R) (samples : Nat → R) (index : Nat) : R :=
  (sums initial samples (ratio * (index + 1))).getLastD 0

/-- The output of the decimator at an index, on integrators and delays that hold anything. -/
def output (ratio : Nat) (integrators combs : List R) (samples : Nat → R) (index : Nat) : R :=
  combed combs (decimated ratio integrators samples) index

/-- The polynomial of the decimator's impulse response. -/
noncomputable def response (R : Type*) [CommRing R] (ratio order : Nat) : R[X] :=
  (∑ i ∈ Finset.range ratio, X ^ i) ^ order

/-! ### The integrators -/

theorem length_integrate (sample : R) (registers : List R) :
    (integrate sample registers).length = registers.length := by
  induction registers generalizing sample with
  | nil => rfl
  | cons sum rest inductionHypothesis =>
    rw [integrate, List.length_cons, inductionHypothesis, List.length_cons]

theorem length_sums (initial : List R) (samples : Nat → R) (time : Nat) :
    (sums initial samples time).length = initial.length := by
  induction time with
  | zero => rfl
  | succ time inductionHypothesis => rw [sums, length_integrate, inductionHypothesis]

theorem getD_integrate_zero (sample : R) {registers : List R} (some : 0 < registers.length) :
    (integrate sample registers).getD 0 0 = registers.getD 0 0 + sample := by
  cases registers with
  | nil => exact absurd some (Nat.lt_irrefl 0)
  | cons sum rest => rfl

theorem getD_integrate_succ (sample : R) {registers : List R} {stage : Nat}
    (inside : stage + 1 < registers.length) :
    (integrate sample registers).getD (stage + 1) 0 =
      registers.getD (stage + 1) 0 + (integrate sample registers).getD stage 0 := by
  induction registers generalizing sample stage with
  | nil => exact absurd inside (Nat.not_lt_zero _)
  | cons sum rest inductionHypothesis =>
    have within : stage < rest.length := Nat.lt_of_succ_lt_succ inside
    rw [integrate, List.getD_cons_succ, List.getD_cons_succ]
    cases stage with
    | zero => exact getD_integrate_zero _ within
    | succ stage => exact inductionHypothesis _ within

/-- What one of the integrators holds, as a stream. -/
def stage (initial : List R) (samples : Nat → R) (index time : Nat) : R :=
  (sums initial samples time).getD index 0

/-- As many differences as there are integrators before it bring a stage back to the samples. -/
theorem act_stage (initial : List R) (samples : Nat → R) {index : Nat}
    (inside : index < initial.length) :
    act ((X - 1) ^ (index + 1)) (stage initial samples index) = act (X ^ index) samples := by
  induction index with
  | zero =>
    rw [zero_add, pow_one, pow_zero, act_one, act_sub, act_one]
    funext time
    rw [Pi.sub_apply, act_X]
    have step : stage initial samples 0 (time + 1) = stage initial samples 0 time + samples time :=
      getD_integrate_zero _ (by rwa [length_sums])
    rw [step, add_sub_cancel_left]
  | succ index inductionHypothesis =>
    have difference : act (X - 1) (stage initial samples (index + 1)) =
        act X (stage initial samples index) := by
      rw [act_sub, act_one]
      funext time
      rw [Pi.sub_apply, act_X, act_X]
      have step : stage initial samples (index + 1) (time + 1) =
          stage initial samples (index + 1) time + stage initial samples index (time + 1) :=
        getD_integrate_succ _ (by rwa [length_sums])
      rw [step, add_sub_cancel_left]
    rw [pow_succ, act_mul, difference, ← act_mul, mul_comm, act_mul,
      inductionHypothesis (Nat.lt_of_succ_lt inside), ← act_mul, ← pow_succ']

/-! ### The combs -/

theorem length_comb (value : R) (registers : List R) :
    (comb value registers).2.length = registers.length := by
  induction registers generalizing value with
  | nil => rfl
  | cons delay rest inductionHypothesis =>
    rw [comb, List.length_cons, inductionHypothesis, List.length_cons]

theorem length_delays (initial : List R) (values : Nat → R) (index : Nat) :
    (delays initial values index).length = initial.length := by
  induction index with
  | zero => rfl
  | succ index inductionHypothesis => rw [delays, length_comb, inductionHypothesis]

/-- What enters the comb at a place; at the place after the last comb it is the output. -/
def entering (initial : List R) (values : Nat → R) (place index : Nat) : R :=
  values index - ((delays initial values index).take place).sum

theorem comb_fst (value : R) (registers : List R) :
    (comb value registers).1 = value - registers.sum := by
  induction registers generalizing value with
  | nil => rw [List.sum_nil, sub_zero]; rfl
  | cons delay rest inductionHypothesis =>
    rw [comb, inductionHypothesis, List.sum_cons, sub_sub]

theorem getD_comb (value : R) {registers : List R} {place : Nat}
    (inside : place < registers.length) :
    (comb value registers).2.getD place 0 = value - (registers.take place).sum := by
  induction registers generalizing value place with
  | nil => exact absurd inside (Nat.not_lt_zero _)
  | cons delay rest inductionHypothesis =>
    cases place with
    | zero => exact (sub_zero value).symm
    | succ place =>
      rw [comb, List.getD_cons_succ, inductionHypothesis _ (Nat.lt_of_succ_lt_succ inside),
        List.take_succ_cons, List.sum_cons, sub_sub]

theorem sum_take_succ (registers : List R) (place : Nat) :
    (registers.take (place + 1)).sum = (registers.take place).sum + registers.getD place 0 := by
  rw [List.take_add_one, List.sum_append, List.getD_eq_getElem?_getD]
  cases registers[place]? with
  | none => rfl
  | some delay => rw [Option.toList_some, List.sum_singleton, Option.getD_some]

/-- A comb takes the difference of what enters it now and what entered it before. -/
theorem entering_succ (initial : List R) (values : Nat → R) {place : Nat}
    (inside : place < initial.length) (index : Nat) :
    entering initial values (place + 1) (index + 1) =
      entering initial values place (index + 1) - entering initial values place index := by
  rw [entering, sum_take_succ, ← sub_sub]
  refine congrArg (entering initial values place (index + 1) - ·) ?_
  rw [delays, getD_comb _ (by rwa [length_delays])]
  rfl

/-- Going through the combs takes as many differences as there are combs before. -/
theorem act_entering (initial : List R) (values : Nat → R) {place : Nat}
    (inside : place ≤ initial.length) :
    act (X ^ place) (entering initial values place) = act ((X - 1) ^ place) values := by
  induction place with
  | zero =>
    rw [pow_zero, pow_zero, act_one, act_one]
    funext index
    exact sub_zero _
  | succ place inductionHypothesis =>
    have difference : act X (entering initial values (place + 1)) =
        act (X - 1) (entering initial values place) := by
      rw [act_sub, act_one]
      funext index
      rw [Pi.sub_apply, act_X, act_X, entering_succ _ _ inside]
    rw [pow_succ, act_mul, difference, ← act_mul, mul_comm, act_mul,
      inductionHypothesis (Nat.le_of_succ_le inside), ← act_mul, ← pow_succ']

theorem combed_eq_entering (initial : List R) (values : Nat → R) :
    combed initial values = entering initial values initial.length := by
  funext index
  rw [combed, comb_fst, entering, List.take_of_length_le (by rw [length_delays])]

/-! ### The response -/

theorem response_mul (ratio order : Nat) :
    response R ratio order * (X - 1) ^ order = expand R ratio ((X - 1) ^ order) := by
  rw [response, ← mul_pow, geom_sum_mul, map_pow, map_sub, expand_X, map_one]

theorem natDegree_box_le (ratio : Nat) :
    (∑ i ∈ Finset.range ratio, X ^ i : R[X]).natDegree ≤ ratio - 1 := by
  refine natDegree_sum_le_of_forall_le _ _ fun i member => ?_
  exact (natDegree_X_pow_le i).trans (Nat.le_sub_one_of_lt (Finset.mem_range.mp member))

theorem natDegree_response_le (ratio order : Nat) :
    (response R ratio order).natDegree ≤ order * (ratio - 1) :=
  natDegree_pow_le_of_le order (natDegree_box_le ratio)

/-- The gain of the decimator. -/
theorem sum_coeff_response (ratio order : Nat) :
    ∑ k ∈ Finset.range (order * (ratio - 1) + 1), (response R ratio order).coeff k =
      (ratio : R) ^ order := by
  have degree : (response R ratio order).natDegree ≤ _ := natDegree_response_le ratio order
  have atOne := eval_eq_sum_range' (Nat.lt_succ_of_le degree) 1
  simp only [one_pow, mul_one] at atOne
  rw [Nat.succ_eq_add_one] at atOne
  rw [← atOne, response, eval_pow, eval_finsetSum]
  simp only [eval_pow, eval_X, one_pow, Finset.sum_const, Finset.card_range, nsmul_one]

/-- As many outputs on as there are combs, an output weighs the latest samples by the response,
whatever the registers held in the beginning. -/
theorem output_settled {ratio order : Nat} {integrators combs : List R}
    (stages : integrators.length = order + 1) (places : combs.length = order + 1)
    (samples : Nat → R) (index : Nat) :
    output ratio integrators combs samples (index + (order + 1)) =
      ∑ k ∈ Finset.range ((order + 1) * (ratio - 1) + 1),
        (response R ratio (order + 1)).coeff k * samples (ratio * (index + 1) + k + order) := by
  have last : decimated ratio integrators samples =
      fun index => stage integrators samples order (ratio * index + ratio) := by
    funext index
    rw [decimated, stage, ← Nat.mul_succ, List.getLastD_eq_getLast?, List.getLast?_eq_getElem?,
      length_sums, stages, Nat.add_sub_cancel, List.getD_eq_getElem?_getD]
  have degree : (response R ratio (order + 1)).natDegree < (order + 1) * (ratio - 1) + 1 :=
    Nat.lt_succ_of_le (natDegree_response_le ratio (order + 1))
  calc output ratio integrators combs samples (index + (order + 1))
      = act (X ^ (order + 1)) (entering combs (decimated ratio integrators samples) (order + 1))
          index := by
        rw [act_X_pow, output, combed_eq_entering, places]
    _ = act ((X - 1) ^ (order + 1)) (decimated ratio integrators samples) index := by
        rw [act_entering _ _ places.ge]
    _ = act (response R ratio (order + 1))
          (act ((X - 1) ^ (order + 1)) (stage integrators samples order))
          (ratio * index + ratio) := by
        rw [last, act_sampled, ← response_mul, act_mul]
    _ = act (response R ratio (order + 1)) (act (X ^ order) samples) (ratio * (index + 1)) := by
        rw [act_stage _ _ (stages ▸ Nat.lt_succ_self order), Nat.mul_succ]
    _ = _ := by
        rw [act_apply _ degree]
        exact Finset.sum_congr rfl fun k _ => congrArg _ (act_X_pow _ _ _)

/-! ### Later blocks -/

theorem sums_add (initial : List R) (samples : Nat → R) (first later : Nat) :
    sums initial samples (first + later) =
      sums (sums initial samples first) (fun time => samples (first + time)) later := by
  induction later with
  | zero => rfl
  | succ later inductionHypothesis => rw [← Nat.add_assoc, sums, sums, inductionHypothesis]

theorem delays_add (initial : List R) (values : Nat → R) (first later : Nat) :
    delays initial values (first + later) =
      delays (delays initial values first) (fun index => values (first + index)) later := by
  induction later with
  | zero => rfl
  | succ later inductionHypothesis => rw [← Nat.add_assoc, delays, delays, inductionHypothesis]

/-- Some blocks later the decimator goes on from the registers that these left. -/
theorem output_add (ratio : Nat) (integrators combs : List R) (samples : Nat → R)
    (blocks index : Nat) :
    output ratio integrators combs samples (blocks + index) =
      output ratio (sums integrators samples (ratio * blocks))
        (delays combs (decimated ratio integrators samples) blocks)
        (fun time => samples (ratio * blocks + time)) index := by
  have later : ∀ index, decimated ratio integrators samples (blocks + index) =
      decimated ratio (sums integrators samples (ratio * blocks))
        (fun time => samples (ratio * blocks + time)) index := by
    intro index
    have split : ratio * (blocks + index + 1) = ratio * blocks + ratio * (index + 1) := by
      rw [Nat.add_assoc, Nat.mul_add]
    rw [decimated, split, sums_add, decimated]
  simp only [output, combed, delays_add, later]

/-- Only the samples so far matter. -/
theorem sums_congr {initial : List R} {samples other : Nat → R} {time : Nat}
    (same : ∀ before < time, samples before = other before) :
    sums initial samples time = sums initial other time := by
  induction time with
  | zero => rfl
  | succ time inductionHypothesis =>
    rw [sums, sums, same time (Nat.lt_succ_self time),
      inductionHypothesis fun before early => same before (Nat.lt_succ_of_lt early)]

/-! ### Empty registers -/

theorem integrate_zero (order : Nat) :
    integrate (0 : R) (List.replicate order 0) = List.replicate order 0 := by
  induction order with
  | zero => rfl
  | succ order inductionHypothesis =>
    rw [List.replicate_succ, integrate, add_zero, inductionHypothesis]

theorem comb_zero (order : Nat) :
    (comb (0 : R) (List.replicate order 0)).2 = List.replicate order 0 := by
  induction order with
  | zero => rfl
  | succ order inductionHypothesis =>
    rw [List.replicate_succ, comb, sub_zero, inductionHypothesis]

/-- Zeros leave empty integrators empty. -/
theorem sums_of_zero {order length : Nat} {samples : Nat → R}
    (silent : ∀ time < length, samples time = 0) {time : Nat} (early : time ≤ length) :
    sums (List.replicate order 0) samples time = List.replicate order 0 := by
  induction time with
  | zero => rfl
  | succ time inductionHypothesis =>
    rw [sums, silent time early, inductionHypothesis (Nat.le_of_succ_le early), integrate_zero]

/-- Zeros leave empty combs empty. -/
theorem delays_of_zero {order length : Nat} {values : Nat → R}
    (silent : ∀ index < length, values index = 0) {index : Nat} (early : index ≤ length) :
    delays (List.replicate order 0) values index = List.replicate order 0 := by
  induction index with
  | zero => rfl
  | succ index inductionHypothesis =>
    rw [delays, silent index early, inductionHypothesis (Nat.le_of_succ_le early), comb_zero]

/-- A stream of samples, silent before its first one. -/
def extended (samples : Nat → R) (time : Int) : R := if time < 0 then 0 else samples time.toNat

/-- A stream that begins with zeros. -/
def delayed (length : Nat) (samples : Nat → R) (time : Nat) : R :=
  extended samples (time - length)

theorem delayed_of_lt {length time : Nat} (early : time < length) (samples : Nat → R) :
    delayed length samples time = 0 := if_pos (by omega)

theorem delayed_add (length : Nat) (samples : Nat → R) (time : Nat) :
    delayed length samples (length + time) = samples time := by
  rw [delayed, extended, if_neg (by omega)]
  exact congrArg samples (by omega)

/-- Blocks of zeros before the first sample only delay the output. -/
theorem output_delayed (ratio order blocks : Nat) (samples : Nat → R) (index : Nat) :
    output ratio (List.replicate order 0) (List.replicate order 0)
        (delayed (ratio * blocks) samples) (blocks + index) =
      output ratio (List.replicate order 0) (List.replicate order 0) samples index := by
  have empty : ∀ time ≤ ratio * blocks, sums (List.replicate order 0)
      (delayed (ratio * blocks) samples) time = List.replicate order 0 :=
    fun time early => sums_of_zero (fun time before => delayed_of_lt before samples) early
  have silent : ∀ index < blocks, decimated ratio (List.replicate order 0)
      (delayed (ratio * blocks) samples) index = 0 := by
    intro index early
    rw [decimated, empty _ (Nat.mul_le_mul_left ratio early)]
    cases order with
    | zero => rfl
    | succ order => rw [List.getLastD_eq_getLast?, List.getLast?_replicate]; rfl
  rw [output_add, empty _ le_rfl, delays_of_zero silent le_rfl]
  simp only [delayed_add]

/-! ### The response is the same backwards -/

theorem coeff_box (ratio k : Nat) :
    (∑ i ∈ Finset.range ratio, X ^ i : R[X]).coeff k = if k < ratio then 1 else 0 := by
  simp only [finsetSum_coeff, coeff_X_pow, Finset.sum_ite_eq, Finset.mem_range]

theorem reflect_box (ratio : Nat) :
    reflect (ratio - 1) (∑ i ∈ Finset.range ratio, X ^ i : R[X]) =
      ∑ i ∈ Finset.range ratio, X ^ i := by
  ext k
  rw [coeff_reflect, coeff_box, coeff_box]
  rcases Nat.lt_or_ge (ratio - 1) k with outside | inside
  · rw [revAt_eq_self_of_lt outside]
  · rw [revAt_le inside]
    exact if_congr (by omega) rfl rfl

theorem reflect_response (ratio order : Nat) :
    reflect (order * (ratio - 1)) (response R ratio order) = response R ratio order := by
  induction order with
  | zero => rw [response, pow_zero, Nat.zero_mul, ← C_1, reflect_C, pow_zero, mul_one]
  | succ order inductionHypothesis =>
    have longer : response R ratio (order + 1) =
        response R ratio order * ∑ i ∈ Finset.range ratio, X ^ i := pow_succ _ order
    rw [longer, Nat.succ_mul,
      reflect_mul _ _ (natDegree_response_le ratio order) (natDegree_box_le ratio),
      inductionHypothesis, reflect_box]

theorem coeff_response_reflect {ratio order k : Nat} (inside : k ≤ order * (ratio - 1)) :
    (response R ratio order).coeff (order * (ratio - 1) - k) =
      (response R ratio order).coeff k := by
  have reflected : reflect _ (response R ratio order) = _ := reflect_response ratio order
  have same := congrArg (fun polynomial => coeff polynomial k) reflected
  simp only [coeff_reflect, revAt_le inside] at same
  exact same

/-- With empty registers every output weighs the latest samples by the response. -/
theorem output_eq {ratio order : Nat} (positive : 0 < ratio) (samples : Nat → R) (index : Nat) :
    output ratio (List.replicate (order + 1) 0) (List.replicate (order + 1) 0) samples index =
      ∑ k ∈ Finset.range ((order + 1) * (ratio - 1) + 1),
        (response R ratio (order + 1)).coeff k *
          extended samples (ratio * index + (ratio - 1) - k) := by
  rw [← output_delayed ratio (order + 1) (order + 1) samples index, Nat.add_comm (order + 1) index,
    output_settled List.length_replicate List.length_replicate, ← Finset.sum_range_reflect]
  refine Finset.sum_congr rfl fun k member => ?_
  have inside : k ≤ (order + 1) * (ratio - 1) := Nat.le_of_lt_succ (Finset.mem_range.mp member)
  rw [Nat.add_sub_cancel, coeff_response_reflect inside, delayed]
  refine congrArg (fun time => _ * extended samples time) ?_
  obtain ⟨less, rfl⟩ := Nat.exists_eq_succ_of_ne_zero positive.ne'
  rw [Nat.succ_sub_one] at inside ⊢
  push_cast [Nat.cast_sub inside]
  ring

/-! ### Homomorphisms -/

section Map

variable {S : Type*} [CommRing S] (f : R →+* S)

theorem map_integrate (sample : R) (registers : List R) :
    (integrate sample registers).map f = integrate (f sample) (registers.map f) := by
  induction registers generalizing sample with
  | nil => rfl
  | cons sum rest inductionHypothesis =>
    rw [integrate, List.map_cons, inductionHypothesis, map_add, List.map_cons, integrate]

theorem map_comb (value : R) (registers : List R) :
    (f (comb value registers).1, (comb value registers).2.map f) =
      comb (f value) (registers.map f) := by
  induction registers generalizing value with
  | nil => rfl
  | cons delay rest inductionHypothesis =>
    rw [comb, List.map_cons, List.map_cons, comb, ← map_sub, ← inductionHypothesis]

theorem map_sums (initial : List R) (samples : Nat → R) (time : Nat) :
    (sums initial samples time).map f =
      sums (initial.map f) (fun time => f (samples time)) time := by
  induction time with
  | zero => rfl
  | succ time inductionHypothesis => rw [sums, map_integrate, inductionHypothesis, sums]

theorem map_delays (initial : List R) (values : Nat → R) (index : Nat) :
    (delays initial values index).map f =
      delays (initial.map f) (fun index => f (values index)) index := by
  induction index with
  | zero => rfl
  | succ index inductionHypothesis =>
    rw [delays, delays, ← inductionHypothesis, ← map_comb]

/-- The decimator computes alike in both rings. -/
theorem map_output (ratio : Nat) (integrators combs : List R) (samples : Nat → R) (index : Nat) :
    f (output ratio integrators combs samples index) =
      output ratio (integrators.map f) (combs.map f) (fun time => f (samples time)) index := by
  have values : ∀ index, f (decimated ratio integrators samples index) =
      decimated ratio (integrators.map f) (fun time => f (samples time)) index := by
    intro index
    rw [decimated, decimated, ← map_sums, List.getLastD_eq_getLast?, List.getLastD_eq_getLast?,
      List.getLast?_map]
    cases (sums integrators samples (ratio * (index + 1))).getLast? with
    | none => exact map_zero f
    | some last => rfl
  have left := congrArg Prod.fst (map_comb f (decimated ratio integrators samples index)
    (delays combs (decimated ratio integrators samples) index))
  rw [map_delays] at left
  simp only [values] at left
  exact left

end Map

end Cic
