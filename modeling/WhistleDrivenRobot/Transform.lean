/-
This file reads the Fourier transform in exact numbers. With the sines and cosines
that the table of coefficients stands for, the butterflies of every length that the
set-up accepts compute the discrete Fourier transform, or its inverse, and the bit
reversal puts the frequencies in order.
-/

import WhistleDrivenRobot.BitReversal
import Mathlib.RingTheory.RootsOfUnity.Complex

namespace WhistleDrivenRobot

open Fourier Reversal

noncomputable section

/-- The table of coefficients: `twiddleCoef[2*i] = cos(i * 2*PI/N)` and
`twiddleCoef[2*i+1] = sin(i * 2*PI/N)`, for `N` of 4096. -/
def twiddleCoef (place : Nat) : ℝ :=
  let angle := (place / 2 : Nat) * ((2 : Nat) * Real.pi / (4096 : Nat))
  if place % 2 = 0 then Real.cos angle else Real.sin angle

def toComplex (point : Point ℝ) : ℂ := ⟨point.re, point.im⟩

theorem toComplex_injective {one other : Point ℝ} (same : toComplex one = toComplex other) :
    one = other := by
  obtain ⟨re, im⟩ := one
  have parts := Complex.ext_iff.mp same
  exact congrArg₂ Point.mk parts.1 parts.2

/-- The turn between two values at one frequency, for a transform of a length. -/
def rootOf (length : Nat) : ℂ := Complex.exp (-((2 : Nat) * Real.pi * Complex.I / length))

/-- The turn of the transform back. -/
def rootBack (length : Nat) : ℂ := Complex.exp ((2 : Nat) * Real.pi * Complex.I / length)

theorem rootOf_eq (length : Nat) :
    rootOf length = Complex.exp (-(2 * Real.pi * Complex.I / length)) := by
  rw [rootOf, Nat.cast_ofNat]

theorem rootBack_eq (length : Nat) :
    rootBack length = Complex.exp (2 * Real.pi * Complex.I / length) := by
  rw [rootBack, Nat.cast_ofNat]

theorem rootOf_mul_rootBack (length : Nat) : rootOf length * rootBack length = 1 := by
  rw [rootOf, rootBack, ← Complex.exp_add, neg_add_cancel, Complex.exp_zero]

/-- The angle between two coefficients, as a turn of the unit circle. -/
def turn : ℂ := rootOf 4096

/-- The turn the other way. -/
def turnBack : ℂ := rootBack 4096

theorem turn_eq : turn = Complex.exp (-(2 * Real.pi * Complex.I / 4096)) := by
  rw [turn, rootOf_eq, Nat.cast_ofNat]

theorem turnBack_eq : turnBack = Complex.exp (2 * Real.pi * Complex.I / 4096) := by
  rw [turnBack, rootBack_eq, Nat.cast_ofNat]

theorem turn_mul_turnBack : turn * turnBack = 1 :=
  rootOf_mul_rootBack 4096

theorem turnBack_pow (index : Nat) :
    turnBack ^ index = ⟨twiddleCoef (index * 2), twiddleCoef (index * 2 + 1)⟩ := by
  have even : index * 2 % 2 = 0 := by omega
  have odd : (index * 2 + 1) % 2 ≠ 0 := by omega
  have half : index * 2 / 2 = index := by omega
  have otherHalf : (index * 2 + 1) / 2 = index := by omega
  have angle : (index : ℂ) * (2 * Real.pi * Complex.I / 4096) =
      ((index * (2 * Real.pi / 4096) : ℝ) : ℂ) * Complex.I := by
    push_cast
    ring
  rw [turnBack_eq, ← Complex.exp_nat_mul, angle]
  refine Complex.ext ?_ ?_
  · rw [Complex.exp_ofReal_mul_I_re]
    simp only [twiddleCoef, half, if_pos even, Nat.cast_ofNat]
  · rw [Complex.exp_ofReal_mul_I_im]
    simp only [twiddleCoef, otherHalf, if_neg odd, Nat.cast_ofNat]

theorem turn_pow (index : Nat) :
    turn ^ index = ⟨twiddleCoef (index * 2), -twiddleCoef (index * 2 + 1)⟩ := by
  have conjugate : turn = (starRingEnd ℂ) turnBack := by
    rw [turn_eq, turnBack_eq, ← Complex.exp_conj]
    refine congrArg Complex.exp ?_
    simp only [map_div₀, map_mul, Complex.conj_ofReal, Complex.conj_I, map_ofNat]
    ring
  rw [conjugate, ← map_pow, turnBack_pow]
  rfl

/-! ### Sums of four values -/

theorem combine_zero (unit first second third fourth : ℂ) :
    combine unit 0 first second third fourth = first + second + third + fourth := by
  rw [combine, pow_zero, mul_one, mul_one, mul_one]

section Quarters

variable {unit : ℂ} (square : unit ^ 2 = -1) (first second third fourth : ℂ)
include square

theorem unit_pow_four : unit ^ 4 = 1 := by
  rw [show 4 = 2 * 2 from rfl, pow_mul, square]
  ring

theorem combine_one : combine unit 1 first second third fourth =
    first + second * unit - third - fourth * unit := by
  have cube : unit ^ 3 = -unit := by
    rw [pow_succ, square]
    ring
  rw [combine, pow_one, Nat.mul_one, Nat.mul_one, square, cube]
  ring

theorem combine_two : combine unit 2 first second third fourth =
    first - second + third - fourth := by
  have sixth : unit ^ (3 * 2) = -1 := by
    rw [mul_comm, pow_mul, square]
    ring
  rw [combine, sixth, unit_pow_four square, square]
  ring

theorem combine_three : combine unit 3 first second third fourth =
    first - second * unit - third + fourth * unit := by
  have cube : unit ^ 3 = -unit := by
    rw [pow_succ, square]
    ring
  have sixth : unit ^ (2 * 3) = -1 := by
    rw [pow_mul, square]
    ring
  have ninth : unit ^ (3 * 3) = unit := by
    rw [pow_mul, cube]
    calc (-unit) ^ 3 = -(unit ^ 3) := by ring
      _ = unit := by rw [cube, neg_neg]
  rw [combine, cube, sixth, ninth]
  ring

end Quarters

theorem turned (re im co si : ℝ) :
    (⟨re * co + im * si, im * co - re * si⟩ : ℂ) = ⟨re, im⟩ * ⟨co, -si⟩ :=
  Complex.ext (by simp [Complex.mul_re]) (by simp [Complex.mul_im]; ring)

theorem turnedBack (re im co si : ℝ) :
    (⟨re * co - im * si, im * co + re * si⟩ : ℂ) = ⟨re, im⟩ * ⟨co, si⟩ :=
  Complex.ext (by simp [Complex.mul_re]) (by simp [Complex.mul_im]; ring)

theorem scaled (re im factor : ℝ) : (⟨re * factor, im * factor⟩ : ℂ) = ⟨re, im⟩ * factor :=
  Complex.ext (by simp [Complex.mul_re]) (by simp [Complex.mul_im])

section Sums

variable (first second third fourth : Point ℝ)

theorem sum_all (unit : ℂ) :
    (⟨first.re + third.re + (second.re + fourth.re), first.im + third.im + (second.im + fourth.im)⟩ :
      ℂ) = combine unit 0 (toComplex first) (toComplex second) (toComplex third)
        (toComplex fourth) := by
  rw [combine_zero]
  refine Complex.ext ?_ ?_ <;> simp [toComplex] <;> ring

theorem sum_alternating {unit : ℂ} (square : unit ^ 2 = -1) :
    (⟨first.re + third.re - (second.re + fourth.re), first.im + third.im - (second.im + fourth.im)⟩ :
      ℂ) = combine unit 2 (toComplex first) (toComplex second) (toComplex third)
        (toComplex fourth) := by
  rw [combine_two square]
  refine Complex.ext ?_ ?_ <;> simp [toComplex] <;> ring

/-- The sum with the second input turned by a quarter clockwise. -/
def clockwise : ℂ :=
  ⟨first.re - third.re + (second.im - fourth.im), first.im - third.im - (second.re - fourth.re)⟩

/-- The sum with the second input turned by a quarter the other way. -/
def anticlockwise : ℂ :=
  ⟨first.re - third.re - (second.im - fourth.im), first.im - third.im + (second.re - fourth.re)⟩

theorem clockwise_eq : clockwise first second third fourth =
    toComplex first - toComplex second * Complex.I - toComplex third +
      toComplex fourth * Complex.I := by
  refine Complex.ext ?_ ?_ <;> simp [clockwise, toComplex] <;> ring

theorem anticlockwise_eq : anticlockwise first second third fourth =
    toComplex first + toComplex second * Complex.I - toComplex third -
      toComplex fourth * Complex.I := by
  refine Complex.ext ?_ ?_ <;> simp [anticlockwise, toComplex] <;> ring

end Sums

/-! ### The butterflies turn and add -/

/-- A butterfly adds the inputs, turned by quarters, and turns the sum by its coefficients. -/
def Turns (kernel : Nat → Quad ℝ → Quad ℝ) (step unit : ℂ) : Prop :=
  ∀ ia1 quad, ∀ digit < 4, toComplex ((kernel ia1 quad).part digit) =
    combine unit (swapped digit) (toComplex quad.first) (toComplex quad.second)
      (toComplex quad.third) (toComplex quad.fourth) * step ^ (ia1 * swapped digit)

/-- The butterfly of the last stage adds the inputs, turned by quarters, and scales the sum. -/
def Adds (kernel : Quad ℝ → Quad ℝ) (unit scale : ℂ) : Prop :=
  ∀ quad, ∀ digit < 4, toComplex ((kernel quad).part digit) =
    combine unit (swapped digit) (toComplex quad.first) (toComplex quad.second)
      (toComplex quad.third) (toComplex quad.fourth) * scale

theorem square_neg_I : (-Complex.I) ^ 2 = -1 := by rw [neg_sq, Complex.I_sq]

theorem clockwise_combine (quad : Quad ℝ) :
    clockwise quad.first quad.second quad.third quad.fourth =
      combine (-Complex.I) 1 (toComplex quad.first) (toComplex quad.second)
        (toComplex quad.third) (toComplex quad.fourth) := by
  rw [clockwise_eq, combine_one square_neg_I]
  ring

theorem anticlockwise_combine (quad : Quad ℝ) :
    anticlockwise quad.first quad.second quad.third quad.fourth =
      combine (-Complex.I) 3 (toComplex quad.first) (toComplex quad.second)
        (toComplex quad.third) (toComplex quad.fourth) := by
  rw [anticlockwise_eq, combine_three square_neg_I]
  ring

theorem anticlockwise_combineBack (quad : Quad ℝ) :
    anticlockwise quad.first quad.second quad.third quad.fourth =
      combine Complex.I 1 (toComplex quad.first) (toComplex quad.second)
        (toComplex quad.third) (toComplex quad.fourth) := by
  rw [anticlockwise_eq, combine_one Complex.I_sq]

theorem clockwise_combineBack (quad : Quad ℝ) :
    clockwise quad.first quad.second quad.third quad.fourth =
      combine Complex.I 3 (toComplex quad.first) (toComplex quad.second)
        (toComplex quad.third) (toComplex quad.fourth) := by
  rw [clockwise_eq, combine_three Complex.I_sq]

theorem adds_lastButterfly : Adds lastButterfly (-Complex.I) 1 := by
  intro quad digit single
  rw [mul_one]
  match digit, single with
  | 0, _ => exact sum_all ..
  | 1, _ => exact sum_alternating _ _ _ _ square_neg_I
  | 2, _ => exact clockwise_combine quad
  | 3, _ =>
    -- the source adds the imaginary part of this output in the other order
    refine Eq.trans ?_ (anticlockwise_combine quad)
    exact Complex.ext rfl (add_comm ..)

theorem adds_lastButterflyInverse (onebyfftLen : ℝ) :
    Adds (lastButterflyInverse onebyfftLen) Complex.I onebyfftLen := by
  intro quad digit single
  match digit, single with
  | 0, _ => exact (scaled ..).trans (congrArg (· * _) (sum_all ..))
  | 1, _ => exact (scaled ..).trans (congrArg (· * _) (sum_alternating _ _ _ _ Complex.I_sq))
  | 2, _ => exact (scaled ..).trans (congrArg (· * _) (anticlockwise_combineBack quad))
  | 3, _ => exact (scaled ..).trans (congrArg (· * _) (clockwise_combineBack quad))

theorem turns_butterfly : Turns (butterfly twiddleCoef) turn (-Complex.I) := by
  intro ia1 quad digit single
  match digit, single with
  | 0, _ =>
    rw [swapped, Nat.mul_zero, pow_zero, mul_one]
    exact sum_all ..
  | 1, _ =>
    have place : ia1 * swapped 1 = ia1 + ia1 := Nat.mul_two ia1
    rw [place, turn_pow]
    exact (turned ..).trans (congrArg (· * _) (sum_alternating _ _ _ _ square_neg_I))
  | 2, _ =>
    have place : ia1 * swapped 2 = ia1 := Nat.mul_one ia1
    rw [place, turn_pow]
    exact (turned ..).trans (congrArg (· * _) (clockwise_combine quad))
  | 3, _ =>
    have place : ia1 * swapped 3 = ia1 + ia1 + ia1 := by
      show ia1 * 3 = ia1 + ia1 + ia1
      ring
    rw [place, turn_pow]
    refine (turned ..).trans (congrArg (· * _) ?_)
    refine Eq.trans ?_ (anticlockwise_combine quad)
    exact Complex.ext rfl (add_comm ..)

theorem turns_butterflyInverse : Turns (butterflyInverse twiddleCoef) turnBack Complex.I := by
  intro ia1 quad digit single
  match digit, single with
  | 0, _ =>
    rw [swapped, Nat.mul_zero, pow_zero, mul_one]
    exact sum_all ..
  | 1, _ =>
    have place : ia1 * swapped 1 = ia1 + ia1 := Nat.mul_two ia1
    rw [place, turnBack_pow]
    exact (turnedBack ..).trans (congrArg (· * _) (sum_alternating _ _ _ _ Complex.I_sq))
  | 2, _ =>
    have place : ia1 * swapped 2 = ia1 := Nat.mul_one ia1
    rw [place, turnBack_pow]
    exact (turnedBack ..).trans (congrArg (· * _) (anticlockwise_combineBack quad))
  | 3, _ =>
    have place : ia1 * swapped 3 = ia1 + ia1 + ia1 := by
      show ia1 * 3 = ia1 + ia1 + ia1
      ring
    rw [place, turnBack_pow]
    exact (turnedBack ..).trans (congrArg (· * _) (clockwise_combineBack quad))

/-! ### The stages split the transform -/

/-- The complex values of an array. -/
def values (pSrc : Nat → ℝ) (place : Nat) : ℂ := toComplex (load pSrc place)

variable {kernel : Nat → Quad ℝ → Quad ℝ} {lastKernel : Quad ℝ → Quad ℝ} {step unit scale : ℂ}

theorem parts_of_passes {blocks quarter modifier : Nat} {factor : Nat → Nat → ℂ}
    (sums : ∀ index quad, ∀ digit < 4, toComplex ((kernel (index * modifier) quad).part digit) =
      combine unit (swapped digit) (toComplex quad.first) (toComplex quad.second)
        (toComplex quad.third) (toComplex quad.fourth) * factor index digit)
    {before after : Nat → Point ℝ} (passes : Passes kernel blocks quarter modifier before after)
    {block digit index : Nat} (inside : block < blocks) (single : digit < 4)
    (low : index < quarter) :
    toComplex (after ((4 * block + digit) * quarter + index)) =
      combine unit (swapped digit) (toComplex (before (4 * block * quarter + index)))
          (toComplex (before ((4 * block + 1) * quarter + index)))
          (toComplex (before ((4 * block + 2) * quarter + index)))
          (toComplex (before ((4 * block + 3) * quarter + index))) *
        factor index digit := by
  have first : 4 * block * quarter + index = block * (4 * quarter) + index := by ring
  have second : (4 * block + 1) * quarter + index = block * (4 * quarter) + index + quarter := by
    ring
  have third : (4 * block + 2) * quarter + index =
      block * (4 * quarter) + index + quarter + quarter := by ring
  have fourth : (4 * block + 3) * quarter + index =
      block * (4 * quarter) + index + quarter + quarter + quarter := by ring
  rw [passes.parts block inside digit single index low, sums _ _ digit single, first, second,
    third, fourth]
  rfl

theorem stage_of_passes (turns : Turns kernel step unit) {blocks quarter modifier : Nat}
    {before after : Nat → Point ℝ} (passes : Passes kernel blocks quarter modifier before after) :
    Stage (step ^ modifier) unit blocks quarter (toComplex ∘ before) (toComplex ∘ after) := by
  intro block inside digit single index low
  have sums : ∀ index quad, ∀ digit < 4, toComplex ((kernel (index * modifier) quad).part digit) =
      combine unit (swapped digit) (toComplex quad.first) (toComplex quad.second)
        (toComplex quad.third) (toComplex quad.fourth) *
          (step ^ modifier) ^ (index * swapped digit) := by
    intro index quad digit single
    rw [turns _ _ digit single, ← pow_mul]
    ring_nf
  exact parts_of_passes sums passes inside single low

section Whole

variable {stages modifier : Nat} (whole : modifier * 4 ^ (stages + 2) = 4096)
include whole

/-- The coefficients of a stage fill a quarter of the turn. -/
theorem quarter_of_whole {stage quarter : Nat} (total : 4 ^ (stage + 1) * quarter = 4 ^ (stages + 2)) :
    modifier * 4 ^ stage * quarter = 1024 := by
  have product : modifier * 4 ^ stage * quarter * 4 = 1024 * 4 := by
    calc modifier * 4 ^ stage * quarter * 4 = modifier * (4 ^ (stage + 1) * quarter) := by ring
      _ = 1024 * 4 := by rw [total, whole]
  omega

theorem narrow_of_whole : modifier * 4 ^ (stages + 1) < 2 ^ 16 := by
  have less : modifier * 4 ^ (stages + 1) ≤ modifier * 4 ^ (stages + 2) :=
    Nat.mul_le_mul_left _ (Nat.pow_le_pow_right (by decide) (by omega))
  omega

end Whole

/-- The stages of either direction compute the transform in the order of the reversals. -/
theorem radix4_eq_dft (turns : Turns kernel step unit) (adds : Adds lastKernel unit scale)
    (nonzero : scale ≠ 0) (quarterTurn : step ^ 1024 = unit) (full : unit ^ 4 = 1)
    {stages modifier : Nat} (whole : modifier * 4 ^ (stages + 2) = 4096) (pSrc : Nat → ℝ)
    {place : Nat} (inside : place < 4 ^ (stages + 2)) :
    values (radix4 kernel lastKernel pSrc (4 ^ (stages + 2)) modifier) place =
      dft (4 ^ (stages + 2)) (step ^ modifier) (values pSrc)
        (reverse (2 * (stages + 2)) place) * scale := by
  have keeps : Keeps kernel (4 ^ (stages + 2)) modifier fun stage points =>
      ∀ length, 4 ^ stage * length = 4 ^ (stages + 2) →
        Split (step ^ modifier) (values pSrc) stage length (toComplex ∘ points) := by
    intro stage quarter before after total holds passes length same
    have positive : 0 < 4 ^ (stage + 1) := Nat.pow_pos (by decide)
    obtain rfl : length = quarter := Nat.eq_of_mul_eq_mul_left positive (same.trans total.symm)
    have stageSteps := stage_of_passes turns passes
    rw [pow_mul] at stageSteps
    refine (holds (4 * length) (by rw [← total, pow_succ]; ring)).next ?_ full stageSteps
    rw [← pow_mul step, ← pow_mul step, quarter_of_whole whole total, quarterTurn]
  have start : ∀ length, 4 ^ 0 * length = 4 ^ (stages + 2) →
      Split (step ^ modifier) (values pSrc) 0 length (toComplex ∘ load pSrc) :=
    fun length _ => Split.start (step ^ modifier) length (values pSrc)
  obtain ⟨before, split, passes⟩ :=
    radix4_rule lastKernel keeps rfl (narrow_of_whole whole) start
  have last : Stage ((step ^ modifier) ^ 4 ^ (stages + 1)) unit (4 ^ (stages + 1)) 1
      (toComplex ∘ before) fun place =>
        values (radix4 kernel lastKernel pSrc (4 ^ (stages + 2)) modifier) place / scale := by
    intro block inside digit single index low
    have sum := parts_of_passes (fun _ quad => adds quad) passes inside single low
    obtain rfl : index = 0 := by omega
    refine (div_eq_iff nonzero).mpr (sum.trans ?_)
    rw [Nat.zero_mul, pow_zero]
    exact congrArg (· * scale) (mul_one _).symm
  have lastTurn : ((step ^ modifier) ^ 4 ^ (stages + 1)) ^ 1 = unit := by
    rw [← pow_mul step, ← pow_mul step, quarter_of_whole whole (Nat.mul_one _), quarterTurn]
  have length : 4 ^ (stages + 1) * (4 * 1) = 4 ^ (stages + 2) := by ring
  have done := ((split (4 * 1) length).next lastTurn full last).done inside
  exact (div_eq_iff nonzero).mp done

/-! ### The transform -/

theorem turn_pow_modifier {modifier length : Nat} (whole : modifier * length = 4096) :
    turn ^ modifier = rootOf length := by
  have lengths : (modifier : ℂ) * length = 4096 := by exact_mod_cast whole
  have nonzero : (length : ℂ) ≠ 0 := right_ne_zero_of_mul (lengths.trans_ne (by norm_num))
  rw [turn_eq, rootOf_eq, ← Complex.exp_nat_mul]
  congr 1
  rw [← lengths]
  have factor : (modifier : ℂ) ≠ 0 := left_ne_zero_of_mul (lengths.trans_ne (by norm_num))
  field_simp

theorem turnBack_pow_modifier {modifier length : Nat} (whole : modifier * length = 4096) :
    turnBack ^ modifier = rootBack length := by
  have lengths : (modifier : ℂ) * length = 4096 := by exact_mod_cast whole
  have nonzero : (length : ℂ) ≠ 0 := right_ne_zero_of_mul (lengths.trans_ne (by norm_num))
  rw [turnBack_eq, rootBack_eq, ← Complex.exp_nat_mul]
  congr 1
  rw [← lengths]
  have factor : (modifier : ℂ) ≠ 0 := left_ne_zero_of_mul (lengths.trans_ne (by norm_num))
  field_simp

theorem turnBack_pow_quarter : turnBack ^ 1024 = Complex.I := by
  have quarter : ((1024 : ℕ) : ℂ) * (2 * Real.pi * Complex.I / 4096) = Real.pi / 2 * Complex.I := by
    push_cast
    ring
  rw [turnBack_eq, ← Complex.exp_nat_mul, quarter, Complex.exp_pi_div_two_mul_I]

theorem turn_pow_quarter : turn ^ 1024 = -Complex.I := by
  have inverse : turn ^ 1024 * turnBack ^ 1024 = 1 := by
    rw [← mul_pow, turn_mul_turnBack, one_pow]
  rw [turnBack_pow_quarter] at inverse
  calc turn ^ 1024 = -(turn ^ 1024 * Complex.I * Complex.I) := by
        rw [mul_assoc, Complex.I_mul_I, mul_neg, mul_one, neg_neg]
    _ = -Complex.I := by rw [inverse, one_mul]

/-- The reciprocal of the length that the set-up stores. -/
theorem onebyfftLen_eq {table : Nat → ℝ} {S ready : CfftRadix4 ℝ} {fftLen : UInt16}
    {ifftFlag bitReverseFlag : UInt8}
    (succeeds : armCfftRadix4InitF32 table S fftLen ifftFlag bitReverseFlag = (.success, ready)) :
    ready.onebyfftLen * ready.fftLen.toNat = 1 := by
  unfold armCfftRadix4InitF32 at succeeds
  dsimp only at succeeds
  split_ifs at succeeds with first second third fourth fifth <;>
    simp only [Prod.mk.injEq, reduceCtorEq, false_and, true_and] at succeeds <;> subst succeeds
  · rw [first]
    show (0.000244140625 : ℝ) * (4096 : ℕ) = 1
    norm_num
  · rw [second]
    show (0.0009765625 : ℝ) * (1024 : ℕ) = 1
    norm_num
  · rw [third]
    show (0.00390625 : ℝ) * (256 : ℕ) = 1
    norm_num
  · rw [fourth]
    show (0.015625 : ℝ) * (64 : ℕ) = 1
    norm_num
  · rw [fifth]
    show (0.0625 : ℝ) * (16 : ℕ) = 1
    norm_num

section Ready

/-- The frequency that is stored at a place: the reversal of the place unless the output is
ordered. -/
def frequencyAt (bitReverseFlag : UInt8) (length place : Nat) : Nat :=
  if bitReverseFlag = 1 then place else reverse (Nat.log2 length) place

/-- The bit reversal, when it is asked for, puts the frequencies in order: what holds of a place
after the stages and of its reversal holds of a place in the end and of its frequency. -/
theorem ordered_rule {Value : Type} {table : Nat → Value} {fftLen : UInt16}
    {ifftFlag bitReverseFlag : UInt8} {stages : Nat} {S : CfftRadix4 Value}
    (ready : Ready table fftLen ifftFlag bitReverseFlag stages S) {stored : Nat → Value}
    (holds : Point Value → Nat → Prop)
    (reversed : ∀ place < 4 ^ (stages + 2),
      holds (load stored place) (reverse (2 * (stages + 2)) place))
    {place : Nat} (inside : place < 4 ^ (stages + 2)) :
    holds (load (if S.bitReverseFlag = 1 then
        armBitreversalF32 stored S.fftLen.toNat S.bitRevFactor.toNat
          fun place => armBitRevTable.getD (S.pBitRevTable + place) 0
      else stored) place) (frequencyAt bitReverseFlag S.fftLen.toNat place) := by
  have exponent : 2 * (stages + 2) = 2 * stages + 2 + 2 := by ring
  rw [← ready.length, ready.width, exponent] at reversed
  rw [← ready.length, ready.width] at inside
  rw [ready.ordered, frequencyAt, ready.width]
  split
  · have here := reversed _ (reverse_lt (2 * stages + 2 + 2) place)
    rw [reverse_reverse inside] at here
    rwa [armBitreversalF32_eq ready.reverses stored inside]
  · rw [Nat.log2_two_pow]
    exact reversed place inside

variable {fftLen : UInt16} {ifftFlag bitReverseFlag : UInt8} {stages : Nat} {S : CfftRadix4 ℝ}

/-- The transform: the discrete Fourier transform of the complex values of the array. -/
theorem values_forward (ready : Ready twiddleCoef fftLen ifftFlag bitReverseFlag stages S)
    (forward : ifftFlag ≠ 1) (pSrc : Nat → ℝ) {place : Nat} (inside : place < fftLen.toNat) :
    values (armCfftRadix4F32 S pSrc) place =
      dft fftLen.toNat (rootOf fftLen.toNat) (values pSrc)
        (frequencyAt bitReverseFlag fftLen.toNat place) := by
  rw [← ready.requested] at inside ⊢
  rw [ready.length] at inside
  refine ordered_rule ready (fun point frequency => toComplex point =
    dft S.fftLen.toNat (rootOf S.fftLen.toNat) (values pSrc) frequency)
    (fun place inside => ?_) inside
  have test : S.ifftFlag ≠ 1 := by rwa [ready.direction]
  have transformed := radix4_eq_dft turns_butterfly adds_lastButterfly one_ne_zero
    turn_pow_quarter (unit_pow_four square_neg_I) ready.whole pSrc inside
  rw [mul_one, turn_pow_modifier ready.whole] at transformed
  rw [if_neg test, ready.twiddles, ready.length, ready.modifier]
  exact transformed

/-- The transform back, which divides by the length. -/
theorem values_inverse (ready : Ready twiddleCoef fftLen 1 bitReverseFlag stages S)
    (reciprocal : S.onebyfftLen * S.fftLen.toNat = 1) (pSrc : Nat → ℝ) {place : Nat}
    (inside : place < fftLen.toNat) :
    values (armCfftRadix4F32 S pSrc) place =
      dft fftLen.toNat (rootBack fftLen.toNat) (values pSrc)
        (frequencyAt bitReverseFlag fftLen.toNat place) / fftLen.toNat := by
  rw [← ready.requested] at inside ⊢
  have scale : (S.onebyfftLen : ℂ) = 1 / S.fftLen.toNat := by
    have product : (S.onebyfftLen : ℂ) * S.fftLen.toNat = 1 := by exact_mod_cast reciprocal
    exact eq_one_div_of_mul_eq_one_left product
  have nonzero : (S.onebyfftLen : ℂ) ≠ 0 := by
    have real : S.onebyfftLen ≠ 0 := left_ne_zero_of_mul (reciprocal.trans_ne one_ne_zero)
    exact_mod_cast real
  rw [ready.length] at inside
  refine ordered_rule ready (fun point frequency => toComplex point =
    dft S.fftLen.toNat (rootBack S.fftLen.toNat) (values pSrc) frequency / S.fftLen.toNat)
    (fun place inside => ?_) inside
  have transformed := radix4_eq_dft turns_butterflyInverse
    (adds_lastButterflyInverse S.onebyfftLen) nonzero turnBack_pow_quarter
    (unit_pow_four Complex.I_sq) ready.whole pSrc inside
  rw [turnBack_pow_modifier ready.whole, scale, mul_one_div] at transformed
  rw [if_pos ready.direction, ready.twiddles, ready.length, ready.modifier]
  rw [ready.length] at transformed
  exact transformed

end Ready

/-! ### From the set-up to the result -/

section Results

variable {S Sback ready readyBack : CfftRadix4 ℝ} {fftLen : UInt16}
  {ifftFlag bitReverseFlag : UInt8}

/-- After a set-up that succeeds, the transform is the discrete Fourier transform. -/
theorem armCfftRadix4F32_eq_dft
    (succeeds : armCfftRadix4InitF32 twiddleCoef S fftLen ifftFlag bitReverseFlag =
      (.success, ready)) (forward : ifftFlag ≠ 1) (pSrc : Nat → ℝ) {place : Nat}
    (inside : place < fftLen.toNat) :
    values (armCfftRadix4F32 ready pSrc) place =
      dft fftLen.toNat (rootOf fftLen.toNat) (values pSrc)
        (frequencyAt bitReverseFlag fftLen.toNat place) := by
  obtain ⟨stages, isReady⟩ := ready_armCfftRadix4InitF32 succeeds
  exact values_forward isReady forward pSrc inside

/-- Sixteen values, in order. -/
theorem armCfftRadix4F32_eq_dft_sixteen :
    values (armCfftRadix4F32
        (armCfftRadix4InitF32 twiddleCoef ⟨0, 0, 0, twiddleCoef, 0, 0, 0, 1⟩ 16 0 1).2
        fun place : Nat => (place : ℝ)) 3 =
      dft 16 (rootOf 16) (values fun place : Nat => (place : ℝ)) (frequencyAt 1 16 3) :=
  @armCfftRadix4F32_eq_dft ⟨0, 0, 0, twiddleCoef, 0, 0, 0, 1⟩ _ 16 0 1 rfl (by decide)
    (fun place : Nat => (place : ℝ)) 3 (by decide)

/-- The transform back is the inverse discrete Fourier transform. -/
theorem armCfftRadix4F32_eq_inverse
    (succeeds : armCfftRadix4InitF32 twiddleCoef S fftLen 1 bitReverseFlag = (.success, ready))
    (pSrc : Nat → ℝ) {place : Nat} (inside : place < fftLen.toNat) :
    values (armCfftRadix4F32 ready pSrc) place =
      dft fftLen.toNat (rootBack fftLen.toNat) (values pSrc)
        (frequencyAt bitReverseFlag fftLen.toNat place) / fftLen.toNat := by
  obtain ⟨stages, isReady⟩ := ready_armCfftRadix4InitF32 succeeds
  exact values_inverse isReady (onebyfftLen_eq succeeds) pSrc inside

/-- Sixteen values, in the order of the reversals. -/
theorem armCfftRadix4F32_eq_inverse_sixteen :
    values (armCfftRadix4F32
        (armCfftRadix4InitF32 twiddleCoef ⟨0, 0, 0, twiddleCoef, 0, 0, 0, 1⟩ 16 1 0).2
        fun place : Nat => (place : ℝ)) 3 =
      dft 16 (rootBack 16) (values fun place : Nat => (place : ℝ)) (frequencyAt 0 16 3) / (16 : ℕ) :=
  @armCfftRadix4F32_eq_inverse ⟨0, 0, 0, twiddleCoef, 0, 0, 0, 1⟩ _ 16 0 rfl
    (fun place : Nat => (place : ℝ)) 3 (by decide)

theorem isPrimitiveRoot_rootOf {length : Nat} (nonzero : length ≠ 0) :
    IsPrimitiveRoot (rootOf length) length := by
  rw [rootOf_eq, Complex.exp_neg]
  exact (Complex.isPrimitiveRoot_exp length nonzero).inv

/-- The transform and the transform back, both ordered, give the array back. -/
theorem armCfftRadix4F32_roundTrip (forward : ifftFlag ≠ 1)
    (succeeds : armCfftRadix4InitF32 twiddleCoef S fftLen ifftFlag 1 = (.success, ready))
    (succeedsBack : armCfftRadix4InitF32 twiddleCoef Sback fftLen 1 1 = (.success, readyBack))
    (pSrc : Nat → ℝ) : armCfftRadix4F32 readyBack (armCfftRadix4F32 ready pSrc) = pSrc := by
  obtain ⟨stages, isReady⟩ := ready_armCfftRadix4InitF32 succeeds
  obtain ⟨stagesBack, isReadyBack⟩ := ready_armCfftRadix4InitF32 succeedsBack
  refine load_injective (funext fun place => ?_)
  -- the complex values inside the transform come back, those behind it were never written
  by_cases inside : place < fftLen.toNat
  · have nonzero : fftLen.toNat ≠ 0 := Nat.ne_of_gt (Nat.zero_lt_of_lt inside)
    have cast : (fftLen.toNat : ℂ) ≠ 0 := by exact_mod_cast nonzero
    have back := values_inverse isReadyBack (onebyfftLen_eq succeedsBack)
      (armCfftRadix4F32 ready pSrc) inside
    have there : ∀ frequency < fftLen.toNat, values (armCfftRadix4F32 ready pSrc) frequency =
        dft fftLen.toNat (rootOf fftLen.toNat) (values pSrc) frequency :=
      fun frequency low => values_forward isReady forward pSrc low
    have same : values (armCfftRadix4F32 readyBack (armCfftRadix4F32 ready pSrc)) place =
        values pSrc place := by
      rw [back, dft_congr _ there, frequencyAt, if_pos rfl,
        dft_dft (isPrimitiveRoot_rootOf nonzero) (rootOf_mul_rootBack _) _ inside,
        mul_div_cancel_left₀ _ cast]
    exact toComplex_injective same
  · rw [armCfftRadix4F32_frame isReadyBack _ (by rw [isReadyBack.requested]; omega),
      armCfftRadix4F32_frame isReady _ (by rw [isReady.requested]; omega)]

theorem armCfftRadix4F32_roundTrip_sixteen :
    armCfftRadix4F32 (armCfftRadix4InitF32 twiddleCoef ⟨0, 0, 0, twiddleCoef, 0, 0, 0, 1⟩ 16 1 1).2
        (armCfftRadix4F32
          (armCfftRadix4InitF32 twiddleCoef ⟨0, 0, 0, twiddleCoef, 0, 0, 0, 1⟩ 16 0 1).2
          fun place : Nat => (place : ℝ)) = fun place : Nat => (place : ℝ) :=
  @armCfftRadix4F32_roundTrip ⟨0, 0, 0, twiddleCoef, 0, 0, 0, 1⟩
    ⟨0, 0, 0, twiddleCoef, 0, 0, 0, 1⟩ _ _ 16 0 (by decide) rfl rfl fun place : Nat => (place : ℝ)

end Results

end

end WhistleDrivenRobot
