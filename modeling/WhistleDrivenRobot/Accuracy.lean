/-
This file bounds how far the Fourier transform in rounded arithmetic is from the
exact one. A butterfly adds a small multiple of the size of its inputs to the
errors that come in; after the stages of a transform the error is a small part of
the largest value that the transform can have.
-/

import WhistleDrivenRobot.Transform
import WhistleDrivenRobot.Rounded

namespace WhistleDrivenRobot

open Fourier Reversal Rounded

noncomputable section

variable {Value : Type} [Add Value] [Sub Value] [Mul Value] {worth : Value → ℝ → Prop}
  {part limit size : ℝ}

/-! ### Sums and turns in rounded arithmetic -/

/-- Arithmetic that is fine enough for values of a size. The least error counts as a part of one. -/
structure Fine (worth : Value → ℝ → Prop) (part limit size : ℝ) : Prop where
  arithmetic : Arithmetic worth part part limit
  small : part ≤ 1 / 2 ^ 20
  least : 1 ≤ size
  room : 16 * size < limit

/-- A value that is worth a number up to an error, with a bound on the number. -/
structure Within (worth : Value → ℝ → Prop) (value : Value) (number error bound : ℝ) : Prop where
  close : Close worth value number error
  inside : |number| ≤ bound

section Sums

variable (fine : Fine worth part limit size)
include fine

theorem Fine.nonneg : 0 ≤ part * size :=
  mul_nonneg fine.arithmetic.part_nonneg (zero_le_one.trans fine.least)

theorem Fine.part_le : part ≤ part * size :=
  le_mul_of_one_le_right fine.arithmetic.part_nonneg fine.least

theorem Fine.product_le : part * size ≤ size / 2 ^ 20 := by
  have scaled := mul_le_mul_of_nonneg_right fine.small (zero_le_one.trans fine.least)
  linarith

variable {first second : Value} {one other : ℝ}

theorem Fine.pair_add (firstWorth : worth first one) (secondWorth : worth second other)
    (oneInside : |one| ≤ size) (otherInside : |other| ≤ size) :
    Within worth (first + second) (one + other) (3 * (part * size)) (2 * size) := by
  have triangle := abs_add_le one other
  have tiny := fine.part_le
  have close := (Close.of_worth firstWorth).add fine.arithmetic (2 * size) (.of_worth secondWorth)
    (by linarith) (by linarith [fine.room, fine.least])
  exact ⟨close.mono (by linarith), by linarith⟩

theorem Fine.pair_sub (firstWorth : worth first one) (secondWorth : worth second other)
    (oneInside : |one| ≤ size) (otherInside : |other| ≤ size) :
    Within worth (first - second) (one - other) (3 * (part * size)) (2 * size) := by
  have triangle := abs_sub one other
  have tiny := fine.part_le
  have close := (Close.of_worth firstWorth).sub fine.arithmetic (2 * size) (.of_worth secondWorth)
    (by linarith) (by linarith [fine.room, fine.least])
  exact ⟨close.mono (by linarith), by linarith⟩

theorem Fine.quad_add (firstWithin : Within worth first one (3 * (part * size)) (2 * size))
    (secondWithin : Within worth second other (3 * (part * size)) (2 * size)) :
    Within worth (first + second) (one + other) (12 * (part * size)) (4 * size) := by
  have triangle := abs_add_le one other
  have tiny := fine.part_le
  have product := fine.product_le
  have oneInside := firstWithin.inside
  have otherInside := secondWithin.inside
  have close := firstWithin.close.add fine.arithmetic (5 * size) secondWithin.close
    (by linarith [fine.least]) (by linarith [fine.room, fine.least])
  exact ⟨close.mono (by linarith), by linarith⟩

theorem Fine.quad_sub (firstWithin : Within worth first one (3 * (part * size)) (2 * size))
    (secondWithin : Within worth second other (3 * (part * size)) (2 * size)) :
    Within worth (first - second) (one - other) (12 * (part * size)) (4 * size) := by
  have triangle := abs_sub one other
  have tiny := fine.part_le
  have product := fine.product_le
  have oneInside := firstWithin.inside
  have otherInside := secondWithin.inside
  have close := firstWithin.close.sub fine.arithmetic (5 * size) secondWithin.close
    (by linarith [fine.least]) (by linarith [fine.room, fine.least])
  exact ⟨close.mono (by linarith), by linarith⟩

/-- A product with a coefficient. -/
theorem Fine.scale {coefficient : Value} {exact : ℝ}
    (within : Within worth first one (12 * (part * size)) (4 * size))
    (table : Close worth coefficient exact part) (unit : |exact| ≤ 1) :
    Within worth (first * coefficient) (one * exact) (23 * (part * size)) (4 * size) := by
  have tiny := fine.part_le
  have product := fine.product_le
  have nonneg := fine.nonneg
  have small := fine.small
  have positive := fine.arithmetic.part_nonneg
  have squares : part * size * part ≤ part * size / 2 ^ 20 := by
    have scaled := mul_le_mul_of_nonneg_left small nonneg
    linarith
  have close := within.close.mul fine.arithmetic (5 * size) table within.inside unit
    (by nlinarith [fine.least]) (by linarith [fine.room, fine.least])
  refine ⟨close.mono ?_, ?_⟩
  · nlinarith
  · rw [abs_mul]
    nlinarith [within.inside, abs_nonneg one, abs_nonneg exact]

theorem Fine.turn_add (firstWithin : Within worth first one (23 * (part * size)) (4 * size))
    (secondWithin : Within worth second other (23 * (part * size)) (4 * size)) :
    Close worth (first + second) (one + other) (56 * (part * size)) := by
  have triangle := abs_add_le one other
  have tiny := fine.part_le
  have product := fine.product_le
  have oneInside := firstWithin.inside
  have otherInside := secondWithin.inside
  have close := firstWithin.close.add fine.arithmetic (9 * size) secondWithin.close
    (by linarith [fine.least]) (by linarith [fine.room, fine.least])
  exact close.mono (by linarith)

theorem Fine.turn_sub (firstWithin : Within worth first one (23 * (part * size)) (4 * size))
    (secondWithin : Within worth second other (23 * (part * size)) (4 * size)) :
    Close worth (first - second) (one - other) (56 * (part * size)) := by
  have triangle := abs_sub one other
  have tiny := fine.part_le
  have product := fine.product_le
  have oneInside := firstWithin.inside
  have otherInside := secondWithin.inside
  have close := firstWithin.close.sub fine.arithmetic (9 * size) secondWithin.close
    (by linarith [fine.least]) (by linarith [fine.room, fine.least])
  exact close.mono (by linarith)

end Sums

/-! ### Butterflies in rounded arithmetic -/

/-- A point that is worth a complex number of a size. -/
structure Holds (worth : Value → ℝ → Prop) (size : ℝ) (point : Point Value) (exact : Point ℝ) :
    Prop where
  re : worth point.re exact.re
  im : worth point.im exact.im
  reInside : |exact.re| ≤ size
  imInside : |exact.im| ≤ size

structure HoldsQuad (worth : Value → ℝ → Prop) (size : ℝ) (quad : Quad Value) (exact : Quad ℝ) :
    Prop where
  first : Holds worth size quad.first exact.first
  second : Holds worth size quad.second exact.second
  third : Holds worth size quad.third exact.third
  fourth : Holds worth size quad.fourth exact.fourth

def ClosePoint (worth : Value → ℝ → Prop) (point : Point Value) (exact : Point ℝ) (error : ℝ) :
    Prop :=
  Close worth point.re exact.re error ∧ Close worth point.im exact.im error

/-- The coefficients of the table are rounded cosines and sines. -/
def Table (worth : Value → ℝ → Prop) (part : ℝ) (pCoef : Nat → Value) : Prop :=
  ∀ place < 6144, Close worth (pCoef place) (twiddleCoef place) part

theorem abs_twiddleCoef (place : Nat) : |twiddleCoef place| ≤ 1 := by
  unfold twiddleCoef
  dsimp only
  split
  · exact Real.abs_cos_le_one _
  · exact Real.abs_sin_le_one _

section Butterflies

variable {quad : Quad Value} {exact : Quad ℝ} {pCoef : Nat → Value}
  (fine : Fine worth part limit size)
include fine

/-- A sum of the first stage of a butterfly is a result of the last stage. -/
theorem Fine.close_of_within {value : Value} {number : ℝ}
    (within : Within worth value number (12 * (part * size)) (4 * size)) :
    Close worth value number (56 * (part * size)) :=
  within.close.mono (by linarith [fine.nonneg])

theorem within_lastButterfly (holds : HoldsQuad worth size quad exact) {digit : Nat}
    (single : digit < 4) :
    Within worth ((lastButterfly quad).part digit).re ((lastButterfly exact).part digit).re
        (12 * (part * size)) (4 * size) ∧
      Within worth ((lastButterfly quad).part digit).im ((lastButterfly exact).part digit).im
        (12 * (part * size)) (4 * size) := by
  obtain ⟨⟨are, aim, areIn, aimIn⟩, ⟨bre, bim, breIn, bimIn⟩, ⟨cre, cim, creIn, cimIn⟩,
    ⟨dre, dim, dreIn, dimIn⟩⟩ := holds
  have Xaplusc := fine.pair_add are cre areIn creIn
  have Xaminusc := fine.pair_sub are cre areIn creIn
  have Yaplusc := fine.pair_add aim cim aimIn cimIn
  have Yaminusc := fine.pair_sub aim cim aimIn cimIn
  have Xbplusd := fine.pair_add bre dre breIn dreIn
  have Ybplusd := fine.pair_add bim dim bimIn dimIn
  have Xbminusd := fine.pair_sub bre dre breIn dreIn
  have Ybminusd := fine.pair_sub bim dim bimIn dimIn
  match digit, single with
  | 0, _ => exact ⟨fine.quad_add Xaplusc Xbplusd, fine.quad_add Yaplusc Ybplusd⟩
  | 1, _ => exact ⟨fine.quad_sub Xaplusc Xbplusd, fine.quad_sub Yaplusc Ybplusd⟩
  | 2, _ => exact ⟨fine.quad_add Xaminusc Ybminusd, fine.quad_sub Yaminusc Xbminusd⟩
  | 3, _ => exact ⟨fine.quad_sub Xaminusc Ybminusd, fine.quad_add Xbminusd Yaminusc⟩

theorem close_lastButterfly (holds : HoldsQuad worth size quad exact) {digit : Nat}
    (single : digit < 4) :
    ClosePoint worth ((lastButterfly quad).part digit) ((lastButterfly exact).part digit)
      (56 * (part * size)) := by
  obtain ⟨re, im⟩ := within_lastButterfly fine holds single
  exact ⟨fine.close_of_within re, fine.close_of_within im⟩

theorem close_butterfly (table : Table worth part pCoef) {ia1 : Nat} (low : ia1 < 1024)
    (holds : HoldsQuad worth size quad exact) {digit : Nat} (single : digit < 4) :
    ClosePoint worth ((butterfly pCoef ia1 quad).part digit)
      ((butterfly twiddleCoef ia1 exact).part digit) (56 * (part * size)) := by
  obtain ⟨re, im⟩ := within_lastButterfly fine holds single
  have unit := abs_twiddleCoef
  match digit, single with
  | 0, _ => exact ⟨fine.close_of_within re, fine.close_of_within im⟩
  | 1, _ =>
    have co := table ((ia1 + ia1) * 2) (by omega)
    have si := table ((ia1 + ia1) * 2 + 1) (by omega)
    exact ⟨fine.turn_add (fine.scale re co (unit _)) (fine.scale im si (unit _)),
      fine.turn_sub (fine.scale im co (unit _)) (fine.scale re si (unit _))⟩
  | 2, _ =>
    have co := table (ia1 * 2) (by omega)
    have si := table (ia1 * 2 + 1) (by omega)
    exact ⟨fine.turn_add (fine.scale re co (unit _)) (fine.scale im si (unit _)),
      fine.turn_sub (fine.scale im co (unit _)) (fine.scale re si (unit _))⟩
  | 3, _ =>
    have co := table ((ia1 + ia1 + ia1) * 2) (by omega)
    have si := table ((ia1 + ia1 + ia1) * 2 + 1) (by omega)
    exact ⟨fine.turn_add (fine.scale re co (unit _)) (fine.scale im si (unit _)),
      fine.turn_sub (fine.scale im co (unit _)) (fine.scale re si (unit _))⟩

end Butterflies

/-! ### Stages in rounded arithmetic -/

section Stages

omit [Add Value] [Sub Value] [Mul Value]

/-- A point is worth a complex number up to an error. -/
def NearPoint (worth : Value → ℝ → Prop) (point : Point Value) (exact : ℂ) (error : ℝ) : Prop :=
  ∃ stored : ℂ, worth point.re stored.re ∧ worth point.im stored.im ∧ ‖stored - exact‖ ≤ error

theorem ClosePoint.near {point : Point Value} {exact : Point ℝ} {error : ℝ}
    (close : ClosePoint worth point exact error) :
    NearPoint worth point (toComplex exact) (2 * error) := by
  obtain ⟨⟨re, reWorth, reClose⟩, ⟨im, imWorth, imClose⟩⟩ := close
  refine ⟨⟨re, im⟩, reWorth, imWorth, (Complex.norm_le_abs_re_add_abs_im _).trans ?_⟩
  show |re - exact.re| + |im - exact.im| ≤ 2 * error
  linarith

theorem NearPoint.trans {point : Point Value} {middle exact : ℂ} {error more : ℝ}
    (near : NearPoint worth point middle error) (moved : ‖middle - exact‖ ≤ more) :
    NearPoint worth point exact (more + error) := by
  obtain ⟨stored, re, im, close⟩ := near
  have triangle := norm_sub_le_norm_sub_add_norm_sub stored middle exact
  exact ⟨stored, re, im, by linarith⟩

theorem NearPoint.mono {point : Point Value} {exact : ℂ} {error more : ℝ}
    (near : NearPoint worth point exact error) (larger : error ≤ more) :
    NearPoint worth point exact more := by
  obtain ⟨stored, re, im, close⟩ := near
  exact ⟨stored, re, im, close.trans larger⟩

/-- The number that a point is worth, as a pair of reals of a size. -/
theorem NearPoint.holds {point : Point Value} {exact : ℂ} {error bound : ℝ}
    (near : NearPoint worth point exact error) (inside : ‖exact‖ ≤ bound)
    (covered : error + bound ≤ size) :
    ∃ stored : Point ℝ, Holds worth size point stored ∧ ‖toComplex stored - exact‖ ≤ error := by
  obtain ⟨stored, re, im, close⟩ := near
  have whole : ‖stored‖ ≤ size := by
    have triangle := norm_sub_norm_le stored exact
    linarith
  exact ⟨⟨stored.re, stored.im⟩, ⟨re, im, (Complex.abs_re_le_norm _).trans whole,
    (Complex.abs_im_le_norm _).trans whole⟩, close⟩

theorem norm_combine_le {unit : ℂ} (circle : ‖unit‖ = 1) (turns : Nat) {bound : ℝ}
    {first second third fourth : ℂ} (firstInside : ‖first‖ ≤ bound)
    (secondInside : ‖second‖ ≤ bound) (thirdInside : ‖third‖ ≤ bound)
    (fourthInside : ‖fourth‖ ≤ bound) :
    ‖combine unit turns first second third fourth‖ ≤ 4 * bound := by
  have turned : ∀ (number : ℂ) exponent, ‖number * unit ^ exponent‖ = ‖number‖ :=
    fun number exponent => by rw [norm_mul, norm_pow, circle, one_pow, mul_one]
  have one := norm_add_le first (second * unit ^ turns)
  have two := norm_add_le (first + second * unit ^ turns) (third * unit ^ (2 * turns))
  have three := norm_add_le (first + second * unit ^ turns + third * unit ^ (2 * turns))
    (fourth * unit ^ (3 * turns))
  rw [turned] at one two three
  rw [combine]
  linarith

theorem combine_sub (unit : ℂ) (turns : Nat) (first second third fourth : ℂ)
    (first' second' third' fourth' : ℂ) :
    combine unit turns first second third fourth -
        combine unit turns first' second' third' fourth' =
      combine unit turns (first - first') (second - second') (third - third')
        (fourth - fourth') := by
  simp only [combine]
  ring

end Stages

/-- Points that are worth complex numbers up to an error, with a bound on the numbers. -/
structure Approximates (worth : Value → ℝ → Prop) (length : Nat) (points : Nat → Point Value)
    (exact : Nat → ℂ) (error bound : ℝ) : Prop where
  near : ∀ place < length, NearPoint worth (points place) (exact place) error
  inside : ∀ place < length, ‖exact place‖ ≤ bound

/-- A kernel follows an exact one for coefficients below a limit: every component of its output
is off by a multiple of the part of the size. -/
def Follows (worth : Value → ℝ → Prop) (part size : ℝ) (top : Nat)
    (kernel : Nat → Quad Value → Quad Value) (exactKernel : Nat → Quad ℝ → Quad ℝ) : Prop :=
  ∀ ia1 < top, ∀ quad exact, HoldsQuad worth size quad exact → ∀ digit < 4,
    ClosePoint worth ((kernel ia1 quad).part digit) ((exactKernel ia1 exact).part digit)
      (56 * (part * size))

section Passes

variable {kernel : Nat → Quad Value → Quad Value} {exactKernel : Nat → Quad ℝ → Quad ℝ}
  {top blocks quarter modifier : Nat} {before after : Nat → Point Value} {exact : Nat → ℂ}
  {step unit : ℂ} {error bound : ℝ}

omit [Add Value] [Sub Value] [Mul Value] in
/-- What one stage does to the error and to the bound. -/
theorem Approximates.next (follows : Follows worth part size top kernel exactKernel)
    (turns : Turns exactKernel step unit) (circle : ‖step‖ = 1) (unitCircle : ‖unit‖ = 1)
    (low : ∀ index < quarter, index * modifier < top)
    (approximates : Approximates worth (blocks * (4 * quarter)) before exact error bound)
    (covered : error + bound ≤ size) (passes : Passes kernel blocks quarter modifier before after) :
    Approximates worth (blocks * (4 * quarter)) after
      (stageValues (step ^ modifier) unit quarter exact)
      (4 * error + 2 * (56 * (part * size))) (4 * bound) := by
  have stage := stage_stageValues (step ^ modifier) unit blocks quarter exact
  have power : ∀ exponent, ‖(step ^ modifier) ^ exponent‖ = 1 := fun exponent => by
    rw [norm_pow, norm_pow, circle, one_pow, one_pow]
  refine ⟨fun place inside => ?_, fun place inside => ?_⟩
  · obtain ⟨block, blockInside, digit, single, index, indexInside, rfl⟩ := exists_part inside
    have here : ∀ digit < 4, (4 * block + digit) * quarter + index < blocks * (4 * quarter) :=
      fun digit single => part_inside blockInside single indexInside
    have firstPlace := here 0 (by decide)
    rw [Nat.add_zero] at firstPlace
    obtain ⟨first, firstHolds, firstNear⟩ :=
      (approximates.near _ firstPlace).holds (approximates.inside _ firstPlace) covered
    obtain ⟨second, secondHolds, secondNear⟩ := (approximates.near _ (here 1 (by decide))).holds
      (approximates.inside _ (here 1 (by decide))) covered
    obtain ⟨third, thirdHolds, thirdNear⟩ := (approximates.near _ (here 2 (by decide))).holds
      (approximates.inside _ (here 2 (by decide))) covered
    obtain ⟨fourth, fourthHolds, fourthNear⟩ := (approximates.near _ (here 3 (by decide))).holds
      (approximates.inside _ (here 3 (by decide))) covered
    have places : inputs before quarter (block * (4 * quarter) + index) =
        ⟨before (4 * block * quarter + index), before ((4 * block + 1) * quarter + index),
          before ((4 * block + 2) * quarter + index),
          before ((4 * block + 3) * quarter + index)⟩ := by
      rw [inputs]
      congr 2 <;> ring
    have holds : HoldsQuad worth size (inputs before quarter (block * (4 * quarter) + index))
        ⟨first, second, third, fourth⟩ := by
      rw [places]
      exact ⟨firstHolds, secondHolds, thirdHolds, fourthHolds⟩
    have close := follows (index * modifier) (low index indexInside) _ _ holds digit single
    have exponent : index * modifier * swapped digit = modifier * (index * swapped digit) := by ring
    rw [passes.parts block blockInside digit single index indexInside]
    refine close.near.trans ?_
    rw [turns _ _ digit single, stage block blockInside digit single index indexInside, exponent,
      pow_mul, ← sub_mul, norm_mul, power, mul_one, combine_sub]
    exact norm_combine_le unitCircle _ firstNear secondNear thirdNear fourthNear
  · obtain ⟨block, blockInside, digit, single, index, indexInside, rfl⟩ := exists_part inside
    have here : ∀ digit < 4, (4 * block + digit) * quarter + index < blocks * (4 * quarter) :=
      fun digit single => part_inside blockInside single indexInside
    have firstPlace := here 0 (by decide)
    rw [Nat.add_zero] at firstPlace
    rw [stage block blockInside digit single index indexInside, norm_mul, power, mul_one]
    exact norm_combine_le unitCircle _ (approximates.inside _ firstPlace)
      (approximates.inside _ (here 1 (by decide))) (approximates.inside _ (here 2 (by decide)))
      (approximates.inside _ (here 3 (by decide)))

end Passes

/-! ### The whole transform in rounded arithmetic -/

theorem norm_rootOf (length : Nat) : ‖rootOf length‖ = 1 := by
  have real : -(2 * Real.pi * Complex.I / length) =
      ((-(2 * Real.pi / length) : ℝ) : ℂ) * Complex.I := by
    push_cast
    ring
  rw [rootOf_eq, real, Complex.norm_exp_ofReal_mul_I]

theorem norm_neg_I : ‖-Complex.I‖ = 1 := by rw [norm_neg, Complex.norm_I]

/-- The last stage in exact numbers, as a stage whose coefficients are all one. -/
theorem turns_lastButterfly : Turns (fun _ => lastButterfly) 1 (-Complex.I) := by
  intro ia1 quad digit single
  rw [one_pow]
  exact adds_lastButterfly quad digit single

section Whole

variable {pCoef : Nat → Value} {pSrc : Nat → Value} {data : Nat → ℂ} {stages modifier : Nat}

/-- The error after some stages, when the inputs are exact. -/
def errorAfter (part size : ℝ) (stage : Nat) : ℝ := stage * (32 * part) * (4 ^ stage * size)

/-- The size of the values that a stage meets, with their errors. -/
def sizeAt (size : ℝ) (stage : Nat) : ℝ := 9 / 8 * (4 ^ stage * size)

theorem errorAfter_next (nonneg : 0 ≤ part) (positive : 0 ≤ size) (stage : Nat) :
    4 * errorAfter part size stage + 2 * (56 * (part * sizeAt size stage)) ≤
      errorAfter part size (stage + 1) := by
  have power : 0 ≤ part * (4 ^ stage * size) := by positivity
  simp only [errorAfter, sizeAt, pow_succ]
  push_cast
  linarith

theorem errorAfter_covered (small : part ≤ 1 / 2 ^ 20) (nonneg : 0 ≤ part) (positive : 0 ≤ size)
    {stage : Nat} (low : stage ≤ 6) :
    errorAfter part size stage + 4 ^ stage * size ≤ sizeAt size stage := by
  have power : 0 ≤ 4 ^ stage * size := by positivity
  have few : (stage : ℝ) ≤ 6 := by exact_mod_cast low
  have factor : stage * (32 * part) ≤ 1 / 8 := by
    calc stage * (32 * part) ≤ 6 * (32 * (1 / 2 ^ 20)) := by gcongr
      _ ≤ 1 / 8 := by norm_num
  have product := mul_le_mul_of_nonneg_right factor power
  simp only [errorAfter, sizeAt]
  linarith

/-- After some stages, the points are worth values that split the transform, up to the error. -/
def Nearly (worth : Value → ℝ → Prop) (part size : ℝ) (root : ℂ) (data : Nat → ℂ)
    (length stage : Nat) (points : Nat → Point Value) : Prop :=
  ∃ exact, (∀ block, 4 ^ stage * block = length → Split root data stage block exact) ∧
    Approximates worth length points exact (errorAfter part size stage) (4 ^ stage * size)

omit [Add Value] [Sub Value] [Mul Value] in
theorem Nearly.start {root : ℂ} {length : Nat} {points : Nat → Point Value}
    (near : ∀ place < length, NearPoint worth (points place) (data place) 0)
    (inside : ∀ place < length, ‖data place‖ ≤ size) :
    Nearly worth part size root data length 0 points := by
  refine ⟨data, fun block same => ?_, fun place low => ?_, fun place low => ?_⟩
  · exact Split.start root block data
  · rw [errorAfter, Nat.cast_zero, zero_mul, zero_mul]
    exact near place low
  · rw [pow_zero, one_mul]
    exact inside place low

variable (arithmetic : Arithmetic worth part part limit) (small : part ≤ 1 / 2 ^ 20)
  (least : 1 ≤ size) (room : 18 * (4 ^ (stages + 1) * size) < limit) (short : stages ≤ 4)
  (whole : modifier * 4 ^ (stages + 2) = 4096)
include arithmetic small least room

theorem fine_sizeAt {stage : Nat} (early : stage ≤ stages + 1) :
    Fine worth part limit (sizeAt size stage) := by
  have positive : 0 ≤ size := zero_le_one.trans least
  have power : (4 : ℝ) ^ stage ≤ 4 ^ (stages + 1) := pow_le_pow_right₀ (by norm_num) early
  have one : (1 : ℝ) ≤ 4 ^ stage := one_le_pow₀ (by norm_num)
  have upper := mul_le_mul_of_nonneg_right power positive
  have lower := mul_le_mul_of_nonneg_right one positive
  refine ⟨arithmetic, small, ?_, ?_⟩ <;> rw [sizeAt] <;> linarith

include short whole

/-- A stage with coefficients keeps this. -/
theorem keeps_nearly (table : Table worth part pCoef) :
    Keeps (butterfly pCoef) (4 ^ (stages + 2)) modifier
      (Nearly worth part size (turn ^ modifier) data (4 ^ (stages + 2))) := by
  rintro stage quarter before after total ⟨exact, split, approximates⟩ passes
  have nonneg := arithmetic.part_nonneg
  have positive : 0 ≤ size := zero_le_one.trans least
  have quarters := quarter_of_whole whole total
  have early : stage ≤ stages + 1 := by
    have power : 4 ^ (stage + 1) ≤ 4 ^ (stages + 2) := by
      rw [← total]
      exact Nat.le_mul_of_pos_right _
        (Nat.pos_of_ne_zero (right_ne_zero_of_mul (quarters.trans_ne (by decide))))
    have exponent := (Nat.pow_le_pow_iff_right (by decide)).mp power
    omega
  have lengths : 4 ^ stage * (4 * quarter) = 4 ^ (stages + 2) := by
    rw [← total, pow_succ]
    ring
  refine ⟨stageValues (turn ^ (modifier * 4 ^ stage)) (-Complex.I) quarter exact,
    fun block same => ?_, ?_⟩
  · obtain rfl : quarter = block :=
      Nat.eq_of_mul_eq_mul_left (Nat.pow_pos (by decide)) (total.trans same.symm)
    have stageSteps := stage_stageValues (turn ^ (modifier * 4 ^ stage)) (-Complex.I) (4 ^ stage)
      quarter exact
    rw [pow_mul] at stageSteps ⊢
    refine (split (4 * quarter) lengths).next ?_ (unit_pow_four square_neg_I) stageSteps
    rw [← pow_mul turn, ← pow_mul turn, quarters, turn_pow_quarter]
  · have follows : Follows worth part (sizeAt size stage) 1024 (butterfly pCoef)
        (butterfly twiddleCoef) := fun ia1 low quad exact holds digit single =>
      close_butterfly (fine_sizeAt arithmetic small least room early) table low holds single
    have covered := errorAfter_covered small nonneg positive (show stage ≤ 6 by omega)
    rw [← lengths] at approximates ⊢
    have next := approximates.next follows turns_butterfly (norm_rootOf 4096) norm_neg_I
      (fun index inside => ?_) covered passes
    · refine ⟨fun place inside => (next.near place inside).mono
        (errorAfter_next nonneg positive stage), fun place inside => ?_⟩
      rw [pow_succ']
      exact (next.inside place inside).trans_eq (mul_assoc ..).symm
    · rw [← quarters, Nat.mul_comm index]
      exact Nat.mul_lt_mul_of_pos_left inside
        (Nat.pos_of_ne_zero (left_ne_zero_of_mul (quarters.trans_ne (by decide))))

/-- After the stages, every place holds the transform at its reversal up to the error. -/
theorem near_radix4 (table : Table worth part pCoef)
    (near : ∀ place < 4 ^ (stages + 2), NearPoint worth (load pSrc place) (data place) 0)
    (inside : ∀ place < 4 ^ (stages + 2), ‖data place‖ ≤ size) {place : Nat}
    (low : place < 4 ^ (stages + 2)) :
    NearPoint worth
      (load (armRadix4ButterflyF32 pSrc (4 ^ (stages + 2)) pCoef modifier) place)
      (dft (4 ^ (stages + 2)) (turn ^ modifier) data (reverse (2 * (stages + 2)) place))
      (errorAfter part size (stages + 2)) := by
  have nonneg := arithmetic.part_nonneg
  have positive : 0 ≤ size := zero_le_one.trans least
  have keeps := @keeps_nearly _ _ _ _ _ _ _ _ _ data _ _ arithmetic small least room short whole
    table
  obtain ⟨before, ⟨exact, split, approximates⟩, passes⟩ :=
    radix4_rule lastButterfly keeps rfl (narrow_of_whole whole) (Nearly.start near inside)
  -- the last stage has no coefficients: in exact numbers they are all one
  have follows : Follows worth part (sizeAt size (stages + 1)) 1 (fun _ => lastButterfly)
      (fun _ => lastButterfly) := fun ia1 _ quad exact holds digit single =>
    close_lastButterfly (fine_sizeAt arithmetic small least room le_rfl) holds single
  have covered := errorAfter_covered small nonneg positive (show stages + 1 ≤ 6 by omega)
  have lengths : 4 ^ (stages + 1) * (4 * 1) = 4 ^ (stages + 2) := by ring
  rw [← lengths] at approximates
  have last := approximates.next follows turns_lastButterfly norm_one norm_neg_I
    (fun index _ => by omega) covered passes
  rw [lengths] at last
  have lastTurn : ((turn ^ modifier) ^ 4 ^ (stages + 1)) ^ 1 = -Complex.I := by
    rw [← pow_mul turn, ← pow_mul turn, quarter_of_whole whole (Nat.mul_one _), turn_pow_quarter]
  have lastStage := stage_stageValues (1 ^ 0) (-Complex.I) (4 ^ (stages + 1)) 1 exact
  have done := ((split (4 * 1) lengths).next lastTurn (unit_pow_four square_neg_I)
    (lastStage.single _)).done low
  rw [← done]
  exact (last.near place low).mono (errorAfter_next nonneg positive (stages + 1))

end Whole

section Ready

variable {pCoef pSrc : Nat → Value} {data : Nat → ℂ} {stages : Nat} {S : CfftRadix4 Value}
  {fftLen : UInt16} {ifftFlag bitReverseFlag : UInt8}

/-- The transform in rounded arithmetic is the transform up to a part of its largest value. -/
theorem near_armCfftRadix4F32 (arithmetic : Arithmetic worth part part limit)
    (small : part ≤ 1 / 2 ^ 20) (least : 1 ≤ size)
    (room : 18 * (fftLen.toNat * size) < limit) (table : Table worth part pCoef)
    (ready : Ready pCoef fftLen ifftFlag bitReverseFlag stages S) (forward : ifftFlag ≠ 1)
    (near : ∀ place < fftLen.toNat, NearPoint worth (load pSrc place) (data place) 0)
    (inside : ∀ place < fftLen.toNat, ‖data place‖ ≤ size) {place : Nat}
    (low : place < fftLen.toNat) :
    NearPoint worth (load (armCfftRadix4F32 S pSrc) place)
      (dft fftLen.toNat (rootOf fftLen.toNat) data
        (frequencyAt bitReverseFlag fftLen.toNat place)) (192 * part * (fftLen.toNat * size)) := by
  have positive : 0 ≤ size := zero_le_one.trans least
  have length := ready.length
  rw [ready.requested] at length
  have stagesRoom : 18 * (4 ^ (stages + 1) * size) < limit := by
    refine lt_of_le_of_lt ?_ room
    have power : (4 : ℝ) ^ (stages + 1) ≤ fftLen.toNat := by
      rw [length]
      push_cast
      exact pow_le_pow_right₀ (by norm_num) (by omega)
    have product := mul_le_mul_of_nonneg_right power positive
    linarith
  have more : errorAfter part size (stages + 2) ≤ 192 * part * (fftLen.toNat * size) := by
    have few : ((stages + 2 : ℕ) : ℝ) ≤ 6 := by
      have short := ready.short
      exact_mod_cast (by omega : stages + 2 ≤ 6)
    have nonneg := arithmetic.part_nonneg
    rw [errorAfter, length]
    push_cast at few ⊢
    have product : (0 : ℝ) ≤ 32 * part * (4 ^ (stages + 2) * size) := by positivity
    have scaled := mul_le_mul_of_nonneg_right few product
    linarith
  rw [length] at near inside low
  have test : S.ifftFlag ≠ 1 := by rwa [ready.direction]
  rw [← ready.requested]
  refine ordered_rule ready (fun point frequency => NearPoint worth point
    (dft S.fftLen.toNat (rootOf S.fftLen.toNat) data frequency)
      (192 * part * (S.fftLen.toNat * size))) (fun place low => ?_) low
  have transformed := near_radix4 arithmetic small least stagesRoom ready.short ready.whole table
    near inside low
  rw [turn_pow_modifier ready.whole] at transformed
  rw [← ready.requested] at more
  rw [if_neg test, ready.twiddles, ready.length, ready.modifier]
  rw [ready.length] at more
  exact transformed.mono more

end Ready

end

end WhistleDrivenRobot
