/-
This file bounds how far the magnitudes that the transmitter computes in floats are
from the magnitudes of the discrete Fourier transform of the samples.
-/

import WhistleDrivenRobot.Accuracy
import WhistleDrivenRobot.Rounding
import WhistleDrivenRobot.Spectrum

namespace WhistleDrivenRobot

open Binary32 Fourier Rounded

noncomputable section

/-! ### Floats as rounded arithmetic -/

theorem slack_eq (size : ℝ) : slack size = 1 / 2 ^ 24 * |size| + 1 / 2 ^ 150 := by
  have part : (2 : ℝ) ^ (-24 : Int) = 1 / 2 ^ 24 := by norm_num
  have least : (2 : ℝ) ^ (-150 : Int) = 1 / 2 ^ 150 := by norm_num
  rw [slack, part, least]

theorem slack_le (size : ℝ) : slack size ≤ 1 / 2 ^ 24 * |size| + 1 / 2 ^ 24 := by
  rw [slack_eq]
  have least : (1 : ℝ) / 2 ^ 150 ≤ 1 / 2 ^ 24 := by norm_num
  linarith

/-- Floats miss a result by half a place of their 24 bits. -/
theorem arithmetic_float :
    Arithmetic Worth (1 / 2 ^ 24) (1 / 2 ^ 24) (2 ^ 127) where
  part_nonneg := by norm_num
  least_nonneg := by norm_num
  add firstWorth secondWorth small := by
    obtain ⟨sum, sumWorth, near⟩ := worth_add firstWorth secondWorth small
    exact ⟨sum, sumWorth, near.trans (slack_le _)⟩
  sub firstWorth secondWorth small := by
    obtain ⟨difference, differenceWorth, near⟩ := worth_sub firstWorth secondWorth small
    exact ⟨difference, differenceWorth, near.trans (slack_le _)⟩
  mul firstWorth secondWorth small := by
    obtain ⟨product, productWorth, near⟩ := worth_mul firstWorth secondWorth small
    exact ⟨product, productWorth, near.trans (slack_le _)⟩

/-- The coefficients rounded to 23 bits behind the point. -/
def fixedCoef (place : Nat) : Float32T :=
  Float32.Model.pack (Float.Model.UnpackedFloat.normalize .binary32
    (round ((2 : Nat) ^ 23 * twiddleCoef place)) (-23) .positive)

theorem table_fixedCoef : Table Worth (1 / 2 ^ 24) fixedCoef := by
  intro place _
  obtain ⟨low, high⟩ := abs_le.mp (abs_twiddleCoef place)
  obtain ⟨below, above⟩ := abs_le.mp (abs_sub_round (2 ^ 23 * twiddleCoef place))
  have small : |round (2 ^ 23 * twiddleCoef place)| < 2 ^ 24 := by
    have scaledLow : -(2 ^ 23 : ℝ) ≤ 2 ^ 23 * twiddleCoef place := by linarith
    have scaledHigh : 2 ^ 23 * twiddleCoef place ≤ (2 ^ 23 : ℝ) := by linarith
    have real : |(round (2 ^ 23 * twiddleCoef place) : ℝ)| < 2 ^ 24 := by
      generalize (round (2 ^ 23 * twiddleCoef place) : ℝ) = rounded at below above ⊢
      generalize 2 ^ 23 * twiddleCoef place = scaled at below above scaledLow scaledHigh
      exact abs_lt.mpr ⟨by linarith, by linarith⟩
    exact_mod_cast real
  have exact := represents_normalize small (show (-149 : Int) ≤ -23 by decide) (by decide) 0
    .positive
  rw [pow_zero, mul_one, Nat.cast_zero, sub_zero] at exact
  have isWorth : Worth (fixedCoef place) (round (2 ^ 23 * twiddleCoef place) * 2 ^ (-23 : Int)) := by
    refine ⟨(round (2 ^ 23 * twiddleCoef place) : Rat) * 2 ^ (-23 : Int), ?_, by push_cast; rfl⟩
    rw [fixedCoef, Nat.cast_ofNat, unpack_float exact.stored]
    exact exact
  refine ⟨_, isWorth, ?_⟩
  have places : (2 : ℝ) ^ (-23 : Int) = 1 / 2 ^ 23 := by norm_num
  rw [places]
  exact abs_le.mpr ⟨by linarith, by linarith⟩

theorem worth_zero : Worth (Float32.Model.ofInt 0) 0 := by
  have zero := @worth_ofInt 0 (by decide)
  rwa [Int.cast_zero] at zero

/-- A sum of two squares in floats. -/
theorem near_squares {point : Point Float32T} {re im : ℝ} (reWorth : Worth point.re re)
    (imWorth : Worth point.im im) (small : re ^ 2 + im ^ 2 < 2 ^ 100) :
    ∃ sum, Worth (point.re * point.re + point.im * point.im) sum ∧
      |sum - (re ^ 2 + im ^ 2)| ≤ 3 / 2 ^ 24 * (re ^ 2 + im ^ 2) + 1 / 2 ^ 148 := by
  have reSquare : |re * re| = re ^ 2 := by rw [abs_mul_self, pow_two]
  have imSquare : |im * im| = im ^ 2 := by rw [abs_mul_self, pow_two]
  have reNonneg := sq_nonneg re
  have imNonneg := sq_nonneg im
  obtain ⟨first, firstWorth, firstNear⟩ :=
    worth_mul reWorth reWorth (by rw [reSquare]; linarith)
  obtain ⟨second, secondWorth, secondNear⟩ :=
    worth_mul imWorth imWorth (by rw [imSquare]; linarith)
  rw [slack_eq, reSquare, ← pow_two] at firstNear
  rw [slack_eq, imSquare, ← pow_two] at secondNear
  have firstBounds := abs_le.mp firstNear
  have secondBounds := abs_le.mp secondNear
  have inside : |first + second| ≤ (1 + 1 / 2 ^ 24) * (re ^ 2 + im ^ 2) + 1 / 2 ^ 149 :=
    abs_le.mpr ⟨by linarith, by linarith⟩
  obtain ⟨sum, sumWorth, sumNear⟩ := worth_add firstWorth secondWorth (by linarith)
  rw [slack_eq] at sumNear
  have sumBounds := abs_le.mp sumNear
  exact ⟨sum, sumWorth, abs_le.mpr ⟨by linarith, by linarith⟩⟩

/-- A float above zero is at least the smallest one. -/
theorem least_of_worth {number : Float32T} {size : ℝ} (isWorth : Worth number size)
    (positive : 0 < size) : (2 : ℝ) ^ (-149 : Int) ≤ size := by
  obtain ⟨stored, represents, rfl⟩ := isWorth
  rcases value_finite_inj represents with
    ⟨sign, -, rfl⟩ | ⟨sign, mantissa, exponent, nonzero, -, isStored, rfl⟩
  · rw [Rat.cast_zero] at positive
    exact absurd positive (lt_irrefl 0)
  · rw [cast_signed] at positive ⊢
    have one : (1 : ℝ) ≤ mantissa := by exact_mod_cast nonzero
    have place : (2 : ℝ) ^ (-149 : Int) ≤ 2 ^ exponent :=
      zpow_le_zpow_right₀ (by norm_num) isStored.low
    have least : (2 : ℝ) ^ (-149 : Int) ≤ mantissa * 2 ^ exponent :=
      place.trans (le_mul_of_one_le_left (by positivity) one)
    push_cast at positive ⊢
    cases sign with
    | positive =>
      rw [unitOf, one_mul]
      exact least
    | negative =>
      rw [unitOf, neg_one_mul] at positive
      have size : (0 : ℝ) < mantissa * 2 ^ exponent := lt_of_lt_of_le (by positivity) least
      exact absurd positive (not_lt.mpr (neg_nonpos.mpr size.le))

/-- The root of a sum of squares, or zero where the sum vanishes. -/
theorem root_near {number : Float32T} {stored square : ℝ} (isWorth : Worth number stored)
    (nonnegative : 0 ≤ square) (near : |stored - square| ≤ 3 / 2 ^ 24 * square + 1 / 2 ^ 148) :
    ∃ root, Worth (armSqrtF32 number).2 root ∧ 0 ≤ root ∧
      |root - √square| ≤ 5 / 2 ^ 24 * √square + 1 / 2 ^ 72 := by
  have size := Real.sqrt_nonneg square
  have squareNear : |stored - square| ≤ 3 / 2 ^ 24 * square + (1 / 2 ^ 74) ^ 2 :=
    near.trans_eq (by norm_num)
  have rootNear := abs_sqrt_sub_le nonnegative (by norm_num) (by norm_num) (by norm_num) squareNear
  by_cases positive : 0 < stored
  · have above : number > Float32.Model.ofInt 0 := (lt_iff_of_worth worth_zero isWorth).mpr positive
    obtain ⟨root, rootWorth, close⟩ := worth_sqrt isWorth positive.le
    rw [slack_eq, abs_of_nonneg (Real.sqrt_nonneg stored)] at close
    rw [armSqrtF32, if_pos above]
    have bounds := abs_le.mp close
    have rootBounds := abs_le.mp rootNear
    refine ⟨root, rootWorth, ?_, abs_le.mpr ⟨by linarith, by linarith⟩⟩
    have least : 1 / 2 ^ 75 ≤ √stored := by
      refine Real.le_sqrt_of_sq_le (le_trans ?_ (least_of_worth isWorth positive))
      norm_num
    linarith
  · have below : ¬number > Float32.Model.ofInt 0 := fun above =>
      positive ((lt_iff_of_worth worth_zero isWorth).mp above)
    rw [armSqrtF32, if_neg below]
    rw [Real.sqrt_eq_zero_of_nonpos (not_lt.mp positive)] at rootNear
    exact ⟨0, worth_zero, le_rfl, by linarith⟩

/-- The magnitude of a value that is known up to an error. -/
theorem magnitude_near {point : Point Float32T} {exact : ℂ} {error bound : ℝ}
    (near : NearPoint Worth point exact error) (inside : ‖exact‖ + error ≤ bound)
    (small : bound ≤ 2 ^ 40) :
    ∃ size, Worth (magnitude point) size ∧ 0 ≤ size ∧
      |size - ‖exact‖| ≤ error + (5 / 2 ^ 24 * bound + 1 / 2 ^ 72) := by
  obtain ⟨stored, reWorth, imWorth, close⟩ := near
  have storedInside : ‖stored‖ ≤ bound := by
    have triangle := norm_sub_norm_le stored exact
    linarith
  have square : stored.re ^ 2 + stored.im ^ 2 = ‖stored‖ ^ 2 := by
    rw [Complex.sq_norm, Complex.normSq_apply, pow_two, pow_two]
  have room : stored.re ^ 2 + stored.im ^ 2 < 2 ^ 100 := by
    rw [square]
    have nonneg := norm_nonneg stored
    calc ‖stored‖ ^ 2 ≤ (2 ^ 40) ^ 2 := by gcongr; linarith
      _ < 2 ^ 100 := by norm_num
  obtain ⟨sum, sumWorth, sumNear⟩ := near_squares reWorth imWorth room
  obtain ⟨root, rootWorth, nonnegative, rootNear⟩ := root_near sumWorth (by positivity) sumNear
  rw [square, Real.sqrt_sq (norm_nonneg stored)] at rootNear
  refine ⟨root, rootWorth, nonnegative, ?_⟩
  have moved := abs_norm_sub_norm_le stored exact
  have triangle := abs_sub_le root ‖stored‖ ‖exact‖
  linarith

/-! ### The spectrum of a chunk -/

/-- The samples of a chunk around the middle of their range. -/
def samples (PCMvector : Nat → UInt16) (i : Nat) : ℂ := ((PCMvector i).toNat - 32768 : ℝ)

theorem abs_sample_le (word : UInt16) : |(word.toNat : ℝ) - 32768| ≤ 32768 := by
  have bound : (word.toNat : ℝ) ≤ 65536 := by exact_mod_cast word.toNat_lt.le
  have low : (0 : ℝ) ≤ word.toNat := Nat.cast_nonneg _
  exact abs_le.mpr ⟨by linarith, by linarith⟩

theorem norm_samples_le (PCMvector : Nat → UInt16) (i : Nat) : ‖samples PCMvector i‖ ≤ 32768 := by
  rw [samples, Complex.norm_real]
  exact abs_sample_le (PCMvector i)

/-- The magnitude of the discrete Fourier transform of a chunk at one frequency. -/
def level (PCMvector : Nat → UInt16) (k : Nat) : ℝ :=
  ‖dft 4096 (rootOf 4096) (samples PCMvector) k‖

theorem norm_dft_le {length : Nat} {root : ℂ} (circle : ‖root‖ = 1) {data : Nat → ℂ} {bound : ℝ}
    (inside : ∀ index < length, ‖data index‖ ≤ bound) (frequency : Nat) :
    ‖dft length root data frequency‖ ≤ length * bound := by
  have turned : ∀ index ∈ Finset.range length,
      ‖data index * root ^ (index * frequency)‖ ≤ bound := by
    intro index member
    rw [norm_mul, norm_pow, circle, one_pow, mul_one]
    exact inside index (Finset.mem_range.mp member)
  refine (norm_sum_le_of_le _ turned).trans_eq ?_
  rw [Finset.sum_const, Finset.card_range, nsmul_eq_mul]

/-- Values that are off by a little move the transform by that at every value. -/
theorem norm_dft_sub_le {length : Nat} {root : ℂ} (circle : ‖root‖ = 1) {data other : Nat → ℂ}
    {error : ℝ} (near : ∀ index < length, ‖data index - other index‖ ≤ error) (frequency : Nat) :
    ‖dft length root data frequency - dft length root other frequency‖ ≤ length * error := by
  rw [dft_sub]
  exact norm_dft_le circle near frequency

/-- The point of a sample is the sample: the difference has few bits. -/
theorem spread_near (PCMvector : Nat → UInt16) (i : Nat) :
    NearPoint Worth (spread (PCMvector i)) (samples PCMvector i) 0 := by
  have bound := (PCMvector i).toNat_lt
  have word : |((PCMvector i).toNat : Int)| < 2 ^ 24 := by
    rw [Nat.abs_cast]
    omega
  have small : |((PCMvector i).toNat - 32768 : Int)| < 2 ^ 24 := abs_lt.mpr ⟨by omega, by omega⟩
  have difference : (((PCMvector i).toNat : Int) : Rat) - (32768 : Int) =
      (((PCMvector i).toNat - 32768 : Int) : Rat) * 2 ^ (0 : Int) := by
    push_cast
    ring
  have exact := represents_float_sub (represents_float_ofInt word)
    (@represents_float_ofInt 32768 (by decide)) small (by decide) (by decide) difference
  refine ⟨samples PCMvector i, ⟨_, exact, ?_⟩, worth_zero, by rw [sub_self, norm_zero]⟩
  push_cast
  rfl

variable {pTwiddle : Nat → Float32T}

/-- Every magnitude that is computed for a chunk is close to the one of its discrete Fourier
transform. -/
theorem output_near (table : Table Worth (1 / 2 ^ 24) pTwiddle) (S : CfftRadix4 Float32T)
    (PCMvector : Nat → UInt16) (analyser : Analyser) {k : Nat} (inside : k < 4096) :
    ∃ size, Worth ((analyser.transform pTwiddle S PCMvector 4096).output k) size ∧ 0 ≤ size ∧
      |size - level PCMvector k| ≤ 1600 := by
  have range : ∀ i < 4096, ‖samples PCMvector i‖ ≤ 32768 := fun i _ => norm_samples_le PCMvector i
  have succeeds : armCfftRadix4InitF32 pTwiddle S FFT_SIZE.toUInt16 0 1 =
      (.success, (armCfftRadix4InitF32 pTwiddle S FFT_SIZE.toUInt16 0 1).2) := rfl
  obtain ⟨stages, ready⟩ := ready_armCfftRadix4InitF32 succeeds
  have spreads : ∀ i < 4096, NearPoint Worth (load (spreadLoop PCMvector 4096 0 analyser.input) i)
      (samples PCMvector i) 0 := by
    intro i low
    rw [load_spreadLoop PCMvector (by norm_num), if_pos (by omega)]
    exact spread_near PCMvector i
  have length : FFT_SIZE.toUInt16.toNat = 4096 := rfl
  have transformed := near_armCfftRadix4F32 arithmetic_float (by norm_num) (by norm_num)
    (by rw [length]; norm_num) table ready (by decide) spreads range inside
  rw [frequencyAt, if_pos rfl, length] at transformed
  have largest := norm_dft_le (norm_rootOf 4096) range k
  obtain ⟨size, isWorth, nonnegative, close⟩ := magnitude_near transformed le_rfl
    (by push_cast at largest ⊢; linarith)
  have computed := Analyser.output_transform pTwiddle S PCMvector 4096 analyser k
  rw [if_pos (show k < FFT_SIZE.toNat from inside)] at computed
  refine ⟨size, computed ▸ isWorth, nonnegative, close.trans ?_⟩
  push_cast at largest ⊢
  linarith

end

end WhistleDrivenRobot
