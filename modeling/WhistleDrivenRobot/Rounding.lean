/-
This file adds to the library about binary32 how far a rounded result is from the
exact one. The two bits behind a mantissa say on which side of the middle the
exact number is, and shifting keeps that true; so rounding misses by at most half
of the last place.
-/

import WhistleDrivenRobot.Binary32

namespace Binary32

open Float.Model (Format totalExponent UnpackedFloat)
open Float.Model.UnpackedFloat

/-! ### The bits behind a mantissa -/

/-- A mantissa with its two bits stands for a number. -/
def Marks : ExtendedMantissa → ℝ → Prop
  | ⟨mantissa, false, false⟩, number => number = mantissa
  | ⟨mantissa, false, true⟩, number => mantissa < number ∧ number < mantissa + 1 / 2
  | ⟨mantissa, true, false⟩, number => number = mantissa + 1 / 2
  | ⟨mantissa, true, true⟩, number => mantissa + 1 / 2 < number ∧ number < mantissa + 1

theorem Marks.shiftRightOne {mantissa : ExtendedMantissa} {number : ℝ}
    (marks : Marks mantissa number) : Marks mantissa.shiftRightOne (number / 2) := by
  obtain ⟨digits, half, rest⟩ := mantissa
  have split : (digits : ℝ) = 2 * (digits / 2 : Nat) + (digits % 2 : Nat) := by
    exact_mod_cast (Nat.div_add_mod digits 2).symm
  rcases Nat.mod_two_eq_zero_or_one digits with even | odd
  · have bit : (digits % 2 != 0) = false := by rw [even]; rfl
    rw [even, Nat.cast_zero] at split
    cases half <;> cases rest <;>
      simp only [Marks, ExtendedMantissa.shiftRightOne, bit, Bool.or_false, Bool.or_true] at marks ⊢
    · linarith
    · constructor <;> linarith
    · constructor <;> linarith
    · constructor <;> linarith
  · have bit : (digits % 2 != 0) = true := by rw [odd]; rfl
    rw [odd, Nat.cast_one] at split
    cases half <;> cases rest <;>
      simp only [Marks, ExtendedMantissa.shiftRightOne, bit, Bool.or_false, Bool.or_true] at marks ⊢
    · linarith
    · constructor <;> linarith
    · constructor <;> linarith
    · constructor <;> linarith

theorem Marks.shiftRight {mantissa : ExtendedMantissa} {number : ℝ}
    (marks : Marks mantissa number) (length : Nat) :
    Marks (mantissa >>> length) (number / 2 ^ length) := by
  induction length with
  | zero => rwa [pow_zero, div_one]
  | succ length inductionHypothesis =>
    rw [shiftRight_succ, pow_succ, ← div_div]
    exact inductionHypothesis.shiftRightOne

/-- Rounding misses by half at most. -/
theorem Marks.rounded {mantissa : ExtendedMantissa} {number : ℝ} (marks : Marks mantissa number) :
    |(mantissa.roundedMantissa : ℝ) - number| ≤ 1 / 2 := by
  obtain ⟨digits, half, rest⟩ := mantissa
  cases half <;> cases rest <;> simp only [Marks, ExtendedMantissa.roundedMantissa,
    ExtendedMantissa.accuracy, Accuracy.roundToNearestEven] at marks ⊢
  · rw [marks, sub_self, abs_zero]
    norm_num
  · rw [abs_le]
    constructor <;> linarith
  · -- a tie goes to the even neighbour
    rw [marks, abs_le]
    rcases Nat.mod_two_eq_zero_or_one digits with even | odd
    · rw [even, Nat.add_zero]
      constructor <;> linarith
    · rw [odd, Nat.cast_add, Nat.cast_one]
      constructor <;> linarith
  · rw [abs_le, Nat.cast_add, Nat.cast_one]
    constructor <;> linarith

theorem rounded_bounds (mantissa : ExtendedMantissa) :
    mantissa.mantissa ≤ mantissa.roundedMantissa ∧
      mantissa.roundedMantissa ≤ mantissa.mantissa + 1 := by
  obtain ⟨digits, half, rest⟩ := mantissa
  cases half <;> cases rest <;> simp only [ExtendedMantissa.roundedMantissa,
    ExtendedMantissa.accuracy, Accuracy.roundToNearestEven] <;> omega

/-! ### Rounding to the format -/

/-- The mantissa after the first shift, rounded. -/
def rounded (mantissa : Nat) (exponent : Int) (accuracy : Accuracy) : Nat :=
  (ExtendedMantissa.ofMantissaAndAccuracy mantissa accuracy >>>
    (target mantissa exponent - exponent).toNat).roundedMantissa

theorem mantissa_ofMantissaAndAccuracy (mantissa : Nat) (accuracy : Accuracy) :
    (ExtendedMantissa.ofMantissaAndAccuracy mantissa accuracy).mantissa = mantissa := by
  rcases accuracy with _ | (_ | _ | _) <;> rfl

/-- The rounded mantissa has 24 bits, or is the next power of two. -/
theorem rounded_le {mantissa : Nat} (exponent : Int) (accuracy : Accuracy) :
    rounded mantissa exponent accuracy ≤ 2 ^ 24 := by
  have bounds := rounded_bounds (ExtendedMantissa.ofMantissaAndAccuracy mantissa accuracy >>>
    (target mantissa exponent - exponent).toNat)
  rw [mantissa_shiftRight, mantissa_ofMantissaAndAccuracy] at bounds
  have place : target mantissa exponent = max (mantissa.log2 - 23 + exponent) (-149) := rfl
  have short : mantissa / 2 ^ (target mantissa exponent - exponent).toNat < 2 ^ 24 := by
    refine (Nat.div_lt_iff_lt_mul (Nat.two_pow_pos _)).mpr ?_
    rw [← Nat.pow_add]
    refine Nat.lt_of_lt_of_le Nat.lt_log2_self (Nat.pow_le_pow_right (by decide) ?_)
    omega
  unfold rounded
  omega

/-- Above the smallest exponent the rounded mantissa has its leading bit. -/
theorem full_rounded {mantissa : Nat} (positive : 0 < mantissa) {exponent : Int}
    (below : exponent ≤ target mantissa exponent) (accuracy : Accuracy) :
    2 ^ 23 ≤ rounded mantissa exponent accuracy ∨ target mantissa exponent = -149 := by
  have place : target mantissa exponent = max (mantissa.log2 - 23 + exponent) (-149) := rfl
  rcases le_total (mantissa.log2 - 23 + exponent) (-149) with subnormal | normal
  · exact .inr (place.trans (max_eq_right subnormal))
  · left
    have bounds := rounded_bounds (ExtendedMantissa.ofMantissaAndAccuracy mantissa accuracy >>>
      (target mantissa exponent - exponent).toNat)
    rw [mantissa_shiftRight, mantissa_ofMantissaAndAccuracy] at bounds
    refine le_trans ?_ bounds.1
    refine (Nat.le_div_iff_mul_le (Nat.two_pow_pos _)).mpr ?_
    rw [← Nat.pow_add]
    refine le_trans (Nat.pow_le_pow_right (by decide) ?_) (Nat.log2_self_le positive.ne')
    rw [max_eq_left normal] at place
    omega

/-- The second shift takes nothing from a mantissa of 24 bits. -/
theorem shiftToTargetExponent_small {mantissa : Nat} (small : mantissa < 2 ^ 24) {exponent : Int}
    (low : -149 ≤ exponent) :
    shiftToTargetExponent .binary32 mantissa exponent .exact =
      (⟨mantissa, false, false⟩, exponent) := by
  have below := target_le small low
  have distance : (target mantissa exponent - exponent).toNat = 0 := by omega
  have back : exponent + (0 : Nat) = exponent := by omega
  simp only [shiftToTargetExponent, targetExponent_eq, shiftToExponent,
    ExtendedMantissa.ofMantissaAndAccuracy, distance, back]
  rfl

/-- The second shift drops the last zero of the next power of two. -/
theorem shiftToTargetExponent_full {exponent : Int} (low : -149 ≤ exponent) :
    shiftToTargetExponent .binary32 (2 ^ 24) exponent .exact =
      (⟨2 ^ 23, false, false⟩, exponent + 1) := by
  have there : target (2 ^ 24) exponent = exponent + 1 := by
    rw [target, Nat.log2_two_pow]
    omega
  have distance : (exponent + 1 - exponent).toNat = 1 := by omega
  simp only [shiftToTargetExponent, targetExponent_eq, shiftToExponent, there,
    ExtendedMantissa.ofMantissaAndAccuracy, distance]
  rfl

/-- What is stored after the second shift. -/
theorem represents_shifted (sign : Sign) {digits : Nat} (bound : digits ≤ 2 ^ 24) {exponent : Int}
    (low : -149 ≤ exponent) (high : exponent ≤ 103) (full : 2 ^ 23 ≤ digits ∨ exponent = -149) :
    Represents
      (let shifted := shiftToTargetExponent .binary32 digits exponent .exact
      if nonzero : shifted.1.mantissa = 0 then .zero sign
      else .finite sign shifted.1.mantissa shifted.2 (Nat.pos_of_ne_zero nonzero))
      (signed sign (digits * 2 ^ exponent)) := by
  rcases Nat.lt_or_eq_of_le bound with small | rfl
  · rw [shiftToTargetExponent_small small low]
    rcases Nat.eq_zero_or_pos digits with rfl | positive
    · rw [Nat.cast_zero, zero_mul]
      cases sign
      · exact represents_zero .negative
      · exact represents_zero .positive
    · dsimp only
      rw [dif_neg positive.ne']
      exact ⟨⟨small, low, by omega, full⟩, rfl, rfl⟩
  · rw [shiftToTargetExponent_full low]
    have size : ((2 ^ 24 : Nat) : Rat) * 2 ^ exponent = (2 ^ 23 : Nat) * 2 ^ (exponent + 1) := by
      rw [zpow_add₀ (by decide), zpow_one]
      push_cast
      ring
    rw [size]
    have small : 2 ^ 23 < 2 ^ 24 := by decide
    exact ⟨⟨small, by omega, by omega, .inl le_rfl⟩, rfl, rfl⟩

/-- What rounding stores. -/
theorem represents_roundWithAccuracy (sign : Sign) {mantissa : Nat} (positive : 0 < mantissa)
    {exponent : Int} (below : exponent ≤ target mantissa exponent)
    (high : target mantissa exponent ≤ 103) (accuracy : Accuracy) :
    Represents (roundWithAccuracy .binary32 sign mantissa exponent accuracy)
      (signed sign (rounded mantissa exponent accuracy * 2 ^ target mantissa exponent)) := by
  have first : shiftToTargetExponent .binary32 mantissa exponent accuracy =
      (ExtendedMantissa.ofMantissaAndAccuracy mantissa accuracy >>>
        (target mantissa exponent - exponent).toNat, target mantissa exponent) := by
    have back : exponent + (target mantissa exponent - exponent).toNat =
        target mantissa exponent := by omega
    simp only [shiftToTargetExponent, targetExponent_eq, shiftToExponent, back]
  have stored := represents_shifted sign (rounded_le exponent accuracy) (le_max_right _ _) high
    (full_rounded positive below accuracy)
  rw [roundWithAccuracy, first]
  exact stored

/-- The middle between two neighbours of a number is near, in terms of the number. -/
theorem half_place_le {mantissa : Nat} (positive : 0 < mantissa) {exponent : Int} {number : ℝ}
    (above : (mantissa : ℝ) ≤ number) :
    (2 : ℝ) ^ target mantissa exponent / 2 ≤
      2 ^ (-24 : Int) * (number * 2 ^ exponent) + 2 ^ (-150 : Int) := by
  have scale : (0 : ℝ) < 2 ^ exponent := zpow_pos (by norm_num) _
  have least : (0 : ℝ) < 2 ^ (-150 : Int) := zpow_pos (by norm_num) _
  have size : (0 : ℝ) ≤ 2 ^ (-24 : Int) * (number * 2 ^ exponent) := by
    have nonnegative : (0 : ℝ) ≤ number := le_trans (Nat.cast_nonneg _) above
    positivity
  have place : target mantissa exponent = max (mantissa.log2 - 23 + exponent) (-149) := rfl
  rcases le_total (mantissa.log2 - 23 + exponent) (-149) with subnormal | normal
  · rw [place, max_eq_right subnormal]
    have half : (2 : ℝ) ^ (-149 : Int) / 2 = 2 ^ (-150 : Int) := by norm_num
    rw [half]
    exact le_add_of_nonneg_left size
  · rw [place, max_eq_left normal]
    have leading : (2 : ℝ) ^ mantissa.log2 ≤ number := by
      refine le_trans ?_ above
      exact_mod_cast Nat.log2_self_le positive.ne'
    have half : (2 : ℝ) ^ (mantissa.log2 - 23 + exponent : Int) / 2 =
        2 ^ (-24 : Int) * (2 ^ mantissa.log2 * 2 ^ exponent) := by
      rw [zpow_add₀ (by norm_num), zpow_sub₀ (by norm_num), zpow_natCast]
      ring_nf
    rw [half]
    have scaled := mul_le_mul_of_nonneg_right leading scale.le
    have shrunk := mul_le_mul_of_nonneg_left scaled (zpow_pos (by norm_num : (0 : ℝ) < 2) (-24)).le
    exact shrunk.trans (le_add_of_nonneg_right least.le)

/-- What rounding misses. -/
theorem rounded_near {mantissa : Nat} (positive : 0 < mantissa) {exponent : Int}
    (below : exponent ≤ target mantissa exponent) {accuracy : Accuracy} {number : ℝ}
    (marks : Marks (.ofMantissaAndAccuracy mantissa accuracy) number) :
    |(rounded mantissa exponent accuracy : ℝ) * 2 ^ target mantissa exponent -
        number * 2 ^ exponent| ≤
      2 ^ (-24 : Int) * (number * 2 ^ exponent) + 2 ^ (-150 : Int) := by
  have above : (mantissa : ℝ) ≤ number := by
    rcases accuracy with _ | (_ | _ | _) <;>
      simp only [Marks, ExtendedMantissa.ofMantissaAndAccuracy] at marks <;> linarith
  have close := (marks.shiftRight (target mantissa exponent - exponent).toNat).rounded
  have scale : (0 : ℝ) < 2 ^ target mantissa exponent := zpow_pos (by norm_num) _
  have place : number * 2 ^ exponent =
      number / 2 ^ (target mantissa exponent - exponent).toNat * 2 ^ target mantissa exponent := by
    have distance : ((target mantissa exponent - exponent).toNat : Int) + exponent =
        target mantissa exponent := by omega
    rw [← distance, zpow_add₀ (by norm_num), zpow_natCast, distance]
    field_simp
  calc |(rounded mantissa exponent accuracy : ℝ) * 2 ^ target mantissa exponent -
        number * 2 ^ exponent|
      = |(rounded mantissa exponent accuracy : ℝ) -
          number / 2 ^ (target mantissa exponent - exponent).toNat| *
            2 ^ target mantissa exponent := by
        rw [place, ← sub_mul, abs_mul, abs_of_pos scale]
    _ ≤ 1 / 2 * 2 ^ target mantissa exponent := mul_le_mul_of_nonneg_right close scale.le
    _ = 2 ^ target mantissa exponent / 2 := one_div_mul_eq_div _ _
    _ ≤ 2 ^ (-24 : Int) * (number * 2 ^ exponent) + 2 ^ (-150 : Int) := half_place_le positive above

/-! ### Operations -/

/-- What one rounding misses at most. -/
noncomputable def slack (size : ℝ) : ℝ := 2 ^ (-24 : Int) * |size| + 2 ^ (-150 : Int)

/-- A float that is worth a number up to an error. -/
def Near (number : UnpackedFloat) (size error : ℝ) : Prop :=
  ∃ stored : Rat, Represents number stored ∧ |(stored : ℝ) - size| ≤ error

theorem Represents.near {number : UnpackedFloat} {size : Rat} (represents : Represents number size)
    {error : ℝ} (nonnegative : 0 ≤ error) : Near number size error :=
  ⟨size, represents, by rwa [sub_self, abs_zero]⟩

theorem slack_nonneg (size : ℝ) : 0 ≤ slack size := by
  unfold slack
  positivity

theorem target_le_of_lt {mantissa : Nat} (positive : 0 < mantissa) {exponent : Int}
    (small : (mantissa : ℝ) * 2 ^ exponent < 2 ^ 127) : target mantissa exponent ≤ 103 := by
  have leading : (2 : ℝ) ^ mantissa.log2 ≤ mantissa := by
    exact_mod_cast Nat.log2_self_le positive.ne'
  have scale : (0 : ℝ) < 2 ^ exponent := zpow_pos (by norm_num) _
  have powers : (2 : ℝ) ^ (mantissa.log2 + exponent : Int) < 2 ^ (127 : Int) := by
    rw [zpow_add₀ (by norm_num), zpow_natCast]
    exact (mul_le_mul_of_nonneg_right leading scale.le).trans_lt small
  have exponents : (mantissa.log2 + exponent : Int) < 127 :=
    (zpow_lt_zpow_iff_right₀ (by norm_num)).mp powers
  have place : target mantissa exponent = max (mantissa.log2 - 23 + exponent) (-149) := rfl
  omega

noncomputable def unitOf : Sign → ℝ
  | .negative => -1
  | .positive => 1

theorem cast_signed (sign : Sign) (size : Rat) :
    ((signed sign size : Rat) : ℝ) = unitOf sign * (size : ℝ) := by
  cases sign
  · exact (Rat.cast_neg size).trans (neg_one_mul _).symm
  · exact (one_mul _).symm

theorem abs_unitOf_mul (sign : Sign) (size : ℝ) : |unitOf sign * size| = |size| := by
  cases sign
  · rw [unitOf, neg_one_mul, abs_neg]
  · rw [unitOf, one_mul]

theorem near_roundWithAccuracy (sign : Sign) {mantissa : Nat} (positive : 0 < mantissa)
    {exponent : Int} (below : exponent ≤ target mantissa exponent)
    (high : target mantissa exponent ≤ 103) {accuracy : Accuracy} {number : ℝ}
    (marks : Marks (.ofMantissaAndAccuracy mantissa accuracy) number) (above : 0 ≤ number) :
    Near (roundWithAccuracy .binary32 sign mantissa exponent accuracy)
      (unitOf sign * (number * 2 ^ exponent)) (slack (unitOf sign * (number * 2 ^ exponent))) := by
  refine ⟨_, represents_roundWithAccuracy sign positive below high accuracy, ?_⟩
  have nonnegative : (0 : ℝ) ≤ number * 2 ^ exponent := by positivity
  rw [cast_signed, ← mul_sub, abs_unitOf_mul, slack, abs_unitOf_mul, abs_of_nonneg nonnegative]
  push_cast
  exact rounded_near positive below marks

/-- Rounding a mantissa at any exponent. -/
theorem near_round (sign : Sign) {mantissa : Nat} (positive : 0 < mantissa) {exponent : Int}
    (small : (mantissa : ℝ) * 2 ^ exponent < 2 ^ 127) :
    Near (UnpackedFloat.round .binary32 sign mantissa exponent)
      (unitOf sign * (mantissa * 2 ^ exponent)) (slack (unitOf sign * (mantissa * 2 ^ exponent))) := by
  have high := target_le_of_lt positive small
  generalize distance : (exponent - target mantissa exponent).toNat = length
  have there := target_scaled positive length exponent
  have longer : 0 < mantissa * 2 ^ length := Nat.mul_pos positive (Nat.two_pow_pos _)
  have size : ((mantissa * 2 ^ length : Nat) : ℝ) * 2 ^ (exponent - length : Int) =
      mantissa * 2 ^ exponent := by
    rw [zpow_sub₀ (by norm_num), zpow_natCast]
    push_cast
    field_simp
  have marks : Marks (.ofMantissaAndAccuracy (mantissa * 2 ^ length) .exact)
      (mantissa * 2 ^ length : Nat) := rfl
  have below : exponent - length ≤ target (mantissa * 2 ^ length) (exponent - length) := by
    rw [there]
    omega
  have near := near_roundWithAccuracy sign longer below (by rwa [there]) marks (Nat.cast_nonneg _)
  rw [size] at near
  simp only [UnpackedFloat.round, targetExponent_eq, decreaseExponent, Nat.shiftLeft_eq, distance]
  exact near

/-- Normalizing a signed mantissa. -/
theorem near_normalize (mantissa exponent : Int) (zeroSign : Sign)
    (small : |(mantissa : ℝ) * 2 ^ exponent| < 2 ^ 127) :
    Near (UnpackedFloat.normalize .binary32 mantissa exponent zeroSign) (mantissa * 2 ^ exponent)
      (slack (mantissa * 2 ^ exponent)) := by
  have scale : (0 : ℝ) < 2 ^ exponent := zpow_pos (by norm_num) _
  unfold UnpackedFloat.normalize
  rcases lt_trichotomy mantissa 0 with negative | rfl | positive
  · obtain ⟨size, rfl⟩ : ∃ size : Nat, mantissa = -size := ⟨mantissa.natAbs, by omega⟩
    have order : compare (-(size : Int)) 0 = .lt := compare_lt_iff_lt.mpr negative
    have turned : (- -(size : Int)).toNat = size := by omega
    have same : ((-(size : Int) : Int) : ℝ) * 2 ^ exponent =
        unitOf .negative * (size * 2 ^ exponent) := by
      rw [unitOf]
      push_cast
      ring
    rw [same] at small ⊢
    rw [abs_unitOf_mul, abs_of_nonneg (by positivity)] at small
    rw [order, turned]
    exact near_round .negative (by omega) small
  · rw [Int.cast_zero, zero_mul]
    have near := (represents_zero zeroSign).near (slack_nonneg 0)
    rwa [Rat.cast_zero] at near
  · obtain ⟨size, rfl⟩ : ∃ size : Nat, mantissa = size := ⟨mantissa.natAbs, by omega⟩
    have order : compare (size : Int) 0 = .gt := compare_gt_iff_gt.mpr positive
    have same : ((size : Int) : ℝ) * 2 ^ exponent = unitOf .positive * (size * 2 ^ exponent) := by
      rw [unitOf]
      push_cast
      ring
    rw [same] at small ⊢
    rw [abs_unitOf_mul, abs_of_nonneg (by positivity)] at small
    rw [order, Int.toNat_natCast]
    exact near_round .positive (by omega) small

section Operations

variable {first second : UnpackedFloat} {firstSize secondSize : Rat}

/-- A signed mantissa that is written at a smaller exponent. -/
theorem cast_shifted (sign : Sign) (mantissa : Nat) {low exponent : Int} (less : low ≤ exponent)
    {size : Rat} (worth : size = signed sign (mantissa * 2 ^ exponent)) :
    ((sign.apply (mantissa <<< (exponent - low).toNat : Nat) : Int) : ℝ) * 2 ^ low = size := by
  rw [worth, ← apply_shiftLeft sign mantissa less]
  push_cast
  rfl

theorem near_add (firstRepresents : Represents first firstSize)
    (secondRepresents : Represents second secondSize)
    (small : |(firstSize + secondSize : ℝ)| < 2 ^ 127) :
    Near (add .binary32 first second) (firstSize + secondSize)
      (slack (firstSize + secondSize)) := by
  rcases value_finite_inj firstRepresents with
    ⟨sign, rfl, rfl⟩ | ⟨sign, mantissa, exponent, positive, rfl, stored, worth⟩
  · have same : ((0 : Rat) : ℝ) + secondSize = secondSize := by rw [Rat.cast_zero, zero_add]
    rw [same]
    rcases value_finite_inj secondRepresents with
      ⟨other, rfl, rfl⟩ | ⟨other, mantissa, exponent, positive, rfl, stored, worth⟩
    · show Near (if sign == other then .zero sign else .zero .positive) _ _
      split <;> exact (represents_zero _).near (slack_nonneg _)
    · exact secondRepresents.near (slack_nonneg _)
  · rcases value_finite_inj secondRepresents with
      ⟨other, rfl, rfl⟩ | ⟨other, otherMantissa, otherExponent, otherPositive, rfl, otherStored,
        otherWorth⟩
    · rw [Rat.cast_zero, add_zero]
      exact firstRepresents.near (slack_nonneg _)
    · rw [← cast_shifted sign mantissa (min_le_left exponent otherExponent) worth,
        ← cast_shifted other otherMantissa (min_le_right exponent otherExponent) otherWorth,
        ← add_mul, ← Int.cast_add] at small ⊢
      exact near_normalize _ _ .positive small

theorem near_sub (firstRepresents : Represents first firstSize)
    (secondRepresents : Represents second secondSize)
    (small : |(firstSize - secondSize : ℝ)| < 2 ^ 127) :
    Near (sub .binary32 first second) (firstSize - secondSize)
      (slack (firstSize - secondSize)) := by
  rcases value_finite_inj firstRepresents with
    ⟨sign, rfl, rfl⟩ | ⟨sign, mantissa, exponent, positive, rfl, stored, worth⟩
  · have same : ((0 : Rat) : ℝ) - secondSize = ((-secondSize : Rat) : ℝ) := by
      rw [Rat.cast_zero, zero_sub, Rat.cast_neg]
    rw [same]
    rcases value_finite_inj secondRepresents with
      ⟨other, rfl, rfl⟩ | ⟨other, mantissa, exponent, positive, rfl, stored, worth⟩
    · rw [neg_zero]
      show Near (if sign == -other then .zero sign else .zero .positive) _ _
      split <;> exact (represents_zero _).near (slack_nonneg _)
    · have opposite : Represents (.finite (-other) mantissa exponent positive)
          (signed (-other) (mantissa * 2 ^ exponent)) := ⟨stored, rfl, rfl⟩
      rw [worth, ← signed_neg]
      exact opposite.near (slack_nonneg _)
  · rcases value_finite_inj secondRepresents with
      ⟨other, rfl, rfl⟩ | ⟨other, otherMantissa, otherExponent, otherPositive, rfl, otherStored,
        otherWorth⟩
    · rw [Rat.cast_zero, sub_zero]
      exact firstRepresents.near (slack_nonneg _)
    · rw [← cast_shifted sign mantissa (min_le_left exponent otherExponent) worth,
        ← cast_shifted other otherMantissa (min_le_right exponent otherExponent) otherWorth,
        ← sub_mul, ← Int.cast_sub] at small ⊢
      exact near_normalize _ _ .positive small

theorem unitOf_mul (sign other : Sign) : unitOf (sign * other) = unitOf sign * unitOf other := by
  cases sign <;> cases other
  · show (1 : ℝ) = -1 * -1
    norm_num
  · exact (mul_one _).symm
  · exact (one_mul _).symm
  · exact (mul_one _).symm

/-- A product of stored mantissas has bits enough to be rounded. -/
theorem below_target_mul {mantissa otherMantissa : Nat} {exponent otherExponent : Int}
    (stored : Stored mantissa exponent) (otherStored : Stored otherMantissa otherExponent)
    (positive : 0 < mantissa) (otherPositive : 0 < otherMantissa) :
    exponent + otherExponent ≤ target (mantissa * otherMantissa) (exponent + otherExponent) := by
  have place : target (mantissa * otherMantissa) (exponent + otherExponent) =
      max ((mantissa * otherMantissa).log2 - 23 + (exponent + otherExponent)) (-149) := rfl
  have product : mantissa * otherMantissa ≠ 0 := (Nat.mul_pos positive otherPositive).ne'
  rcases stored.full with full | lowest
  · have bits : 23 ≤ (mantissa * otherMantissa).log2 :=
      (Nat.le_log2 product).mpr (full.trans (Nat.le_mul_of_pos_right _ otherPositive))
    omega
  · rcases otherStored.full with full | otherLowest
    · have bits : 23 ≤ (mantissa * otherMantissa).log2 :=
        (Nat.le_log2 product).mpr (full.trans (Nat.le_mul_of_pos_left _ positive))
      omega
    · omega

theorem near_mul (firstRepresents : Represents first firstSize)
    (secondRepresents : Represents second secondSize)
    (small : |(firstSize * secondSize : ℝ)| < 2 ^ 127) :
    Near (mul .binary32 first second) (firstSize * secondSize)
      (slack (firstSize * secondSize)) := by
  rcases value_finite_inj firstRepresents with
    ⟨sign, rfl, rfl⟩ | ⟨sign, mantissa, exponent, positive, rfl, stored, worth⟩
  · have zero : ((0 : Rat) : ℝ) * secondSize = ((0 : Rat) : ℝ) := by rw [Rat.cast_zero, zero_mul]
    rw [zero]
    rcases value_finite_inj secondRepresents with
      ⟨other, rfl, rfl⟩ | ⟨other, mantissa, exponent, positive, rfl, stored, worth⟩
    · exact (represents_zero (sign * other)).near (slack_nonneg _)
    · exact (represents_zero (sign * other)).near (slack_nonneg _)
  · rcases value_finite_inj secondRepresents with
      ⟨other, rfl, rfl⟩ | ⟨other, otherMantissa, otherExponent, otherPositive, rfl, otherStored,
        otherWorth⟩
    · have zero : (firstSize : ℝ) * ((0 : Rat) : ℝ) = ((0 : Rat) : ℝ) := by
        rw [Rat.cast_zero, mul_zero]
      rw [zero]
      exact (represents_zero (sign * other)).near (slack_nonneg _)
    · have size : (firstSize * secondSize : ℝ) = unitOf (sign * other) *
          ((mantissa * otherMantissa : Nat) * 2 ^ (exponent + otherExponent)) := by
        rw [worth, otherWorth, cast_signed, cast_signed, unitOf_mul, zpow_add₀ (by norm_num)]
        push_cast
        ring
      have product : 0 < mantissa * otherMantissa := Nat.mul_pos positive otherPositive
      rw [size, abs_unitOf_mul, abs_of_nonneg (by positivity)] at small
      rw [size]
      have marks : Marks (.ofMantissaAndAccuracy (mantissa * otherMantissa) .exact)
          (mantissa * otherMantissa : Nat) := rfl
      exact near_roundWithAccuracy (sign * other) product
        (below_target_mul stored otherStored positive otherPositive)
        (target_le_of_lt product small) marks (Nat.cast_nonneg _)

/-- The remainder of the root says on which side of the middle the real root is. -/
theorem marks_sqrt (radicand : Nat) :
    Marks (.ofMantissaAndAccuracy radicand.sqrt
      (if radicand - radicand.sqrt * radicand.sqrt = 0 then .exact
      else .inexact (if radicand - radicand.sqrt * radicand.sqrt ≤ radicand.sqrt then .lt else .gt)))
      √(radicand : ℝ) := by
  have low := Nat.sqrt_le radicand
  have high := Nat.lt_succ_sqrt radicand
  generalize radicand.sqrt = root at *
  have lowReal : (root : ℝ) * root ≤ radicand := by exact_mod_cast low
  have highReal : (radicand : ℝ) < (root + 1) * (root + 1) := by exact_mod_cast high
  have nonnegative : (0 : ℝ) ≤ root := Nat.cast_nonneg _
  have square := Real.mul_self_sqrt (Nat.cast_nonneg radicand : (0 : ℝ) ≤ radicand)
  have rootNonnegative := Real.sqrt_nonneg (radicand : ℝ)
  split_ifs with exact less
  · have same : root * root = radicand := by omega
    have sameReal : (radicand : ℝ) = root * root := by exact_mod_cast same.symm
    show √(radicand : ℝ) = root
    rw [sameReal, Real.sqrt_mul_self nonnegative]
  · have above : root * root < radicand := by omega
    have aboveReal : (root : ℝ) * root < radicand := by exact_mod_cast above
    have below : radicand ≤ root * root + root := by omega
    have belowReal : (radicand : ℝ) ≤ root * root + root := by exact_mod_cast below
    constructor
    · nlinarith
    · nlinarith
  · have above : root * root + root < radicand := by omega
    have aboveReal : (root : ℝ) * root + root + 1 ≤ radicand := by exact_mod_cast above
    constructor
    · nlinarith
    · nlinarith

/-- The exponent that the root is computed at. -/
def rootExponent (mantissa : Nat) (exponent : Int) : Int :=
  min (exponent.ediv 2) (Format.binary32.targetExponent ((totalExponent mantissa exponent + 1).ediv 2))

theorem rootExponent_le (mantissa : Nat) (exponent : Int) :
    2 * rootExponent mantissa exponent ≤ exponent ∧
      (rootExponent mantissa exponent ≤ -149 ∨
        2 * rootExponent mantissa exponent + 46 ≤ mantissa.log2 + exponent) := by
  have half : rootExponent mantissa exponent =
      min (exponent / 2) (max ((mantissa.log2 + 1 + exponent + 1) / 2 - 24) (-149)) := rfl
  omega

/-- The radicand at that exponent. -/
def radicand (mantissa : Nat) (exponent : Int) : Nat :=
  mantissa * 2 ^ (exponent - 2 * rootExponent mantissa exponent).toNat

/-- The square root rounds the root of the radicand. -/
theorem sqrt_finite {mantissa : Nat} (exponent : Int) (positive : 0 < mantissa) :
    sqrt .binary32 (.finite .positive mantissa exponent positive) =
      roundWithAccuracy .binary32 .positive (radicand mantissa exponent).sqrt
        (rootExponent mantissa exponent)
        (if radicand mantissa exponent -
            (radicand mantissa exponent).sqrt * (radicand mantissa exponent).sqrt = 0 then .exact
        else .inexact (if radicand mantissa exponent -
            (radicand mantissa exponent).sqrt * (radicand mantissa exponent).sqrt ≤
              (radicand mantissa exponent).sqrt then .lt else .gt)) := by
  simp only [sqrt, sqrtCore, Nat.shiftLeft_eq, radicand, rootExponent]
  congr 1

theorem sqrt_radicand (mantissa : Nat) (exponent : Int) :
    √(radicand mantissa exponent : ℝ) * 2 ^ rootExponent mantissa exponent =
      √((mantissa : ℝ) * 2 ^ exponent) := by
  have below := (rootExponent_le mantissa exponent).1
  have scale : (0 : ℝ) ≤ 2 ^ rootExponent mantissa exponent := by positivity
  have distance : ((exponent - 2 * rootExponent mantissa exponent).toNat : Int) +
      (rootExponent mantissa exponent + rootExponent mantissa exponent) = exponent := by omega
  have size : (mantissa : ℝ) * 2 ^ exponent = radicand mantissa exponent *
      (2 ^ rootExponent mantissa exponent * 2 ^ rootExponent mantissa exponent) := by
    rw [radicand]
    push_cast
    rw [mul_assoc, ← zpow_natCast, ← zpow_add₀ (by norm_num), ← zpow_add₀ (by norm_num), distance]
  rw [size, Real.sqrt_mul (Nat.cast_nonneg _), Real.sqrt_mul_self scale]

/-- The root has bits enough to be rounded. -/
theorem below_target_sqrt {mantissa : Nat} (positive : 0 < mantissa) (exponent : Int) :
    rootExponent mantissa exponent ≤
      target (radicand mantissa exponent).sqrt (rootExponent mantissa exponent) := by
  have place : target (radicand mantissa exponent).sqrt (rootExponent mantissa exponent) =
      max ((radicand mantissa exponent).sqrt.log2 - 23 + rootExponent mantissa exponent) (-149) :=
    rfl
  obtain ⟨low, lowest | long⟩ := rootExponent_le mantissa exponent
  · omega
  · have leading := log2_mul_two_pow positive
      (exponent - 2 * rootExponent mantissa exponent).toNat
    have nonzero : radicand mantissa exponent ≠ 0 :=
      (Nat.mul_pos positive (Nat.two_pow_pos _)).ne'
    have square : 2 ^ 23 * 2 ^ 23 ≤ radicand mantissa exponent := by
      rw [← Nat.pow_add]
      refine (Nat.le_log2 nonzero).mp ?_
      rw [radicand]
      omega
    have root : 2 ^ 23 ≤ (radicand mantissa exponent).sqrt := Nat.le_sqrt.mpr square
    have bits : 23 ≤ (radicand mantissa exponent).sqrt.log2 :=
      (Nat.le_log2 (by omega)).mpr root
    omega

theorem near_sqrt (represents : Represents first firstSize) (nonnegative : 0 ≤ firstSize) :
    Near (sqrt .binary32 first) √(firstSize : ℝ) (slack √(firstSize : ℝ)) := by
  rcases value_finite_inj represents with
    ⟨sign, rfl, rfl⟩ | ⟨sign, mantissa, exponent, positive, rfl, stored, worth⟩
  · have zero : √((0 : Rat) : ℝ) = ((0 : Rat) : ℝ) := by rw [Rat.cast_zero, Real.sqrt_zero]
    rw [zero]
    exact (represents_zero sign).near (slack_nonneg _)
  · have least := size_pos positive exponent
    cases sign with
    | negative =>
      rw [worth] at nonnegative
      exact absurd nonnegative (not_le.mpr (neg_neg_of_pos least))
    | positive =>
      have size : √(firstSize : ℝ) = unitOf .positive *
          (√(radicand mantissa exponent : ℝ) * 2 ^ rootExponent mantissa exponent) := by
        rw [sqrt_radicand, unitOf, one_mul, worth]
        show √((((mantissa : Rat) * 2 ^ exponent : Rat)) : ℝ) = _
        push_cast
        rfl
      have nonzero : 0 < radicand mantissa exponent := Nat.mul_pos positive (Nat.two_pow_pos _)
      have root : 0 < (radicand mantissa exponent).sqrt := Nat.sqrt_pos.mpr nonzero
      have small : ((radicand mantissa exponent).sqrt : ℝ) * 2 ^ rootExponent mantissa exponent <
          2 ^ 127 := by
        have floor : ((radicand mantissa exponent).sqrt : ℝ) ≤ √(radicand mantissa exponent : ℝ) :=
          Real.le_sqrt_of_sq_le (by exact_mod_cast Nat.sqrt_le' _)
        have whole : (mantissa : ℝ) * 2 ^ exponent < (2 ^ 64) ^ 2 := by
          have digits : (mantissa : ℝ) < 2 ^ 24 := by exact_mod_cast stored.small
          have places : (2 : ℝ) ^ exponent ≤ 2 ^ (104 : Int) :=
            zpow_le_zpow_right₀ (by norm_num) stored.high
          calc (mantissa : ℝ) * 2 ^ exponent < 2 ^ 24 * 2 ^ (104 : Int) :=
                mul_lt_mul digits places (by positivity) (by positivity)
            _ = (2 ^ 64) ^ 2 := by norm_num
        calc ((radicand mantissa exponent).sqrt : ℝ) * 2 ^ rootExponent mantissa exponent
            ≤ √(radicand mantissa exponent : ℝ) * 2 ^ rootExponent mantissa exponent :=
              mul_le_mul_of_nonneg_right floor (by positivity)
          _ = √((mantissa : ℝ) * 2 ^ exponent) := sqrt_radicand mantissa exponent
          _ < 2 ^ 64 := (Real.sqrt_lt' (by norm_num)).mpr whole
          _ ≤ 2 ^ 127 := by norm_num
      rw [size, sqrt_finite]
      exact near_roundWithAccuracy .positive root (below_target_sqrt positive exponent)
        (target_le_of_lt root small) (marks_sqrt _) (Real.sqrt_nonneg _)

end Operations

/-! ### Floats that are worth real numbers -/

/-- A float that is worth a real number. -/
def Worth (number : Float32.Model) (size : ℝ) : Prop :=
  ∃ stored : Rat, Represents number.unpack stored ∧ (stored : ℝ) = size

theorem worth_pack {number : UnpackedFloat} {size error : ℝ} (near : Near number size error) :
    ∃ stored, Worth (Float32.Model.pack number) stored ∧ |stored - size| ≤ error := by
  obtain ⟨stored, represents, close⟩ := near
  refine ⟨stored, ⟨stored, ?_, rfl⟩, close⟩
  rwa [unpack_float represents.stored]

section Floats

variable {first second : Float32.Model} {firstSize secondSize : ℝ}

theorem worth_add (firstWorth : Worth first firstSize) (secondWorth : Worth second secondSize)
    (small : |firstSize + secondSize| < 2 ^ 127) :
    ∃ sum, Worth (first + second) sum ∧
      |sum - (firstSize + secondSize)| ≤ slack (firstSize + secondSize) := by
  obtain ⟨stored, represents, rfl⟩ := firstWorth
  obtain ⟨other, otherRepresents, rfl⟩ := secondWorth
  exact worth_pack (near_add represents otherRepresents small)

theorem worth_sub (firstWorth : Worth first firstSize) (secondWorth : Worth second secondSize)
    (small : |firstSize - secondSize| < 2 ^ 127) :
    ∃ difference, Worth (first - second) difference ∧
      |difference - (firstSize - secondSize)| ≤ slack (firstSize - secondSize) := by
  obtain ⟨stored, represents, rfl⟩ := firstWorth
  obtain ⟨other, otherRepresents, rfl⟩ := secondWorth
  exact worth_pack (near_sub represents otherRepresents small)

theorem worth_mul (firstWorth : Worth first firstSize) (secondWorth : Worth second secondSize)
    (small : |firstSize * secondSize| < 2 ^ 127) :
    ∃ product, Worth (first * second) product ∧
      |product - firstSize * secondSize| ≤ slack (firstSize * secondSize) := by
  obtain ⟨stored, represents, rfl⟩ := firstWorth
  obtain ⟨other, otherRepresents, rfl⟩ := secondWorth
  exact worth_pack (near_mul represents otherRepresents small)

theorem worth_sqrt (isWorth : Worth first firstSize) (nonnegative : 0 ≤ firstSize) :
    ∃ root, Worth first.sqrt root ∧ |root - √firstSize| ≤ slack √firstSize := by
  obtain ⟨stored, represents, rfl⟩ := isWorth
  exact worth_pack (near_sqrt represents (by exact_mod_cast nonnegative))

theorem worth_ofInt {number : Int} (small : |number| < 2 ^ 24) :
    Worth (Float32.Model.ofInt number) number :=
  ⟨number, represents_float_ofInt small, Rat.cast_intCast number⟩

theorem lt_iff_of_worth (firstWorth : Worth first firstSize)
    (secondWorth : Worth second secondSize) : first < second ↔ firstSize < secondSize := by
  obtain ⟨stored, represents, rfl⟩ := firstWorth
  obtain ⟨other, otherRepresents, rfl⟩ := secondWorth
  rw [lt_iff_of_represents represents otherRepresents, Rat.cast_lt]

theorem le_iff_of_worth (firstWorth : Worth first firstSize)
    (secondWorth : Worth second secondSize) : first ≤ second ↔ firstSize ≤ secondSize := by
  obtain ⟨stored, represents, rfl⟩ := firstWorth
  obtain ⟨other, otherRepresents, rfl⟩ := secondWorth
  rw [le_iff_of_represents represents otherRepresents, Rat.cast_le]

end Floats

end Binary32
