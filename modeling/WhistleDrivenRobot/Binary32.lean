/-
This file is a small library about numbers in the format binary32, on the model
of the format that comes with Lean. A float is worth an extended rational
number, and what the operations do is said in terms of what their operands are
worth: comparisons compare it, and an operation whose exact result the format
has is exact.
-/

import Mathlib

namespace Binary32

open Float.Model (Format totalExponent UnpackedFloat)
open Float.Model.UnpackedFloat

/-! ### Stored numbers -/

/-- A mantissa and an exponent as the format stores them: the leading bit of the mantissa is
explicit, and missing only at the smallest exponent. -/
structure Stored (mantissa : Nat) (exponent : Int) : Prop where
  small : mantissa < 2 ^ 24
  low : -149 ≤ exponent
  high : exponent ≤ 104
  full : 2 ^ 23 ≤ mantissa ∨ exponent = -149

def IsStored : UnpackedFloat → Prop
  | .finite _ mantissa exponent _ => Stored mantissa exponent
  | _ => True

theorem exponentBias_binary32 : Format.binary32.exponentBias = 127 := rfl

theorem toNat_one_append (fraction : BitVec 23) :
    (1#1 ++ fraction).toNat = 2 ^ 23 + fraction.toNat := by
  rw [BitVec.toNat_append, ← Nat.shiftLeft_add_eq_or_of_lt fraction.isLt, Nat.shiftLeft_eq]
  rfl

theorem isStored_unpack (bits : BitVec 32) : IsStored (unpack .binary32 bits) := by
  have fraction : (@unpackMantissa .binary32 bits).toNat < 2 ^ 23 := BitVec.isLt _
  have biased : (@unpackExponent .binary32 bits).toNat < 2 ^ 8 := BitVec.isLt _
  unfold unpack
  rw [exponentBias_binary32]
  dsimp only
  split
  · split <;> trivial
  · rename_i finite
    split
    · rename_i subnormal
      split
      · trivial
      · refine ⟨lt_trans fraction (by decide), ?_, ?_, Or.inr ?_⟩ <;> rw [subnormal] <;> decide
    · rename_i normal
      have above : (@unpackExponent .binary32 bits).toNat ≠ 0 := fun zero =>
        normal (BitVec.eq_of_toNat_eq zero)
      have below : (@unpackExponent .binary32 bits).toNat ≠ 255 := fun last =>
        finite (BitVec.eq_of_toNat_eq last)
      have leading := toNat_one_append (@unpackMantissa .binary32 bits)
      constructor <;> omega

theorem log2_of_full {mantissa : Nat} (small : mantissa < 2 ^ 24) (full : 2 ^ 23 ≤ mantissa) :
    mantissa.log2 = 23 :=
  (Nat.log2_eq_iff (by omega)).mpr ⟨full, small⟩

theorem log2_ne_of_lt {mantissa : Nat} (positive : 0 < mantissa) (less : mantissa < 2 ^ 23) :
    mantissa.log2 ≠ 23 := by
  intro full
  exact absurd ((Nat.log2_eq_iff positive.ne').mp full).1 (Nat.not_le.mpr less)

theorem pack_normal (sign : Sign) {mantissa : Nat} {exponent : Int} (positive : 0 < mantissa)
    (small : mantissa < 2 ^ 24) (full : 2 ^ 23 ≤ mantissa) (high : exponent ≤ 104) :
    pack .binary32 (.finite sign mantissa exponent positive) =
      packComponents .binary32 sign (.ofNat 8 (exponent + 150).toNat) (.ofNat 23 mantissa) := by
  have biased : (exponent + Format.binary32.exponentBias +
      Format.binary32.mantissaBitsWithoutImplicit).toNat = (exponent + 150).toNat := by
    show (exponent + 127 + 23).toNat = (exponent + 150).toNat
    omega
  have below : ¬2 ^ 8 ≤ (exponent + 150).toNat + 1 := by omega
  unfold pack
  dsimp only
  rw [biased, if_neg below, log2_of_full small full]
  exact if_pos rfl

theorem pack_subnormal (sign : Sign) {mantissa : Nat} (positive : 0 < mantissa)
    (less : mantissa < 2 ^ 23) :
    pack .binary32 (.finite sign mantissa (-149) positive) =
      packComponents .binary32 sign 0#8 (.ofNat 23 mantissa) := by
  have fewer : mantissa.log2 + 1 ≠ Format.binary32.mantissaBits := fun full =>
    log2_ne_of_lt positive less (Nat.succ.inj full)
  unfold pack
  dsimp only
  rw [if_neg (by decide), if_neg fewer]

theorem unpack_normal (sign : Sign) {exponent : BitVec 8} (fraction : BitVec 23)
    (finite : exponent ≠ -1#8) (normal : exponent ≠ 0#8) :
    unpack .binary32 (packComponents .binary32 sign exponent fraction) =
      .finite sign (2 ^ 23 + fraction.toNat) (exponent.toNat - 150) (by omega) := by
  unfold unpack
  simp only [unpackMantissa_packComponents, unpackExponent_packComponents,
    unpackSign_packComponents, Sign.ofBitVec_toBitVec, toNat_one_append]
  rw [if_neg finite, if_neg normal]
  rfl

theorem unpack_subnormal (sign : Sign) {fraction : BitVec 23} (positive : 0 < fraction.toNat) :
    unpack .binary32 (packComponents .binary32 sign 0#8 fraction) =
      .finite sign fraction.toNat (-149) positive := by
  have nonzero : fraction ≠ 0#23 := by
    rintro rfl
    exact absurd positive (by decide)
  unfold unpack
  simp only [unpackMantissa_packComponents, unpackExponent_packComponents,
    unpackSign_packComponents, Sign.ofBitVec_toBitVec]
  rw [if_neg (by decide), if_pos trivial, dif_neg nonzero]
  rfl

/-- Unpacking takes back packing, on numbers that the format stores. -/
theorem unpack_pack {number : UnpackedFloat} (stored : IsStored number) :
    unpack .binary32 (pack .binary32 number) = number := by
  cases number with
  | infinity sign => cases sign <;> rfl
  | notANumber => rfl
  | zero sign => cases sign <;> rfl
  | finite sign mantissa exponent positive =>
    have stored : Stored mantissa exponent := stored
    obtain ⟨small, low, high, full⟩ := stored
    by_cases less : mantissa < 2 ^ 23
    · obtain rfl : exponent = -149 := full.resolve_left (Nat.not_le.mpr less)
      have fraction : (BitVec.ofNat 23 mantissa).toNat = mantissa := by
        rw [BitVec.toNat_ofNat, Nat.mod_eq_of_lt less]
      rw [pack_subnormal _ _ less, unpack_subnormal _ (fraction.symm ▸ positive)]
      simp only [fraction]
    · have fraction : 2 ^ 23 + (BitVec.ofNat 23 mantissa).toNat = mantissa := by
        rw [BitVec.toNat_ofNat]
        omega
      have biased : (BitVec.ofNat 8 (exponent + 150).toNat).toNat = (exponent + 150).toNat := by
        rw [BitVec.toNat_ofNat]
        omega
      have finite : BitVec.ofNat 8 (exponent + 150).toNat ≠ -1#8 := fun last => by
        have last : (exponent + 150).toNat = 255 := biased.symm.trans (congrArg BitVec.toNat last)
        omega
      have normal : BitVec.ofNat 8 (exponent + 150).toNat ≠ 0#8 := fun zero => by
        have zero : (exponent + 150).toNat = 0 := biased.symm.trans (congrArg BitVec.toNat zero)
        omega
      have unbiased : ((exponent + 150).toNat : Int) - 150 = exponent := by omega
      rw [pack_normal _ _ small (Nat.not_lt.mp less) high, unpack_normal _ _ finite normal]
      simp only [fraction, biased, unbiased]

/-! ### What a number is worth -/

def signed : Sign → Rat → Rat
  | .negative, size => -size
  | .positive, size => size

/-- The extended rational number that an unpacked float stands for; the one that is not a number
gets no meaning by it. -/
def value : UnpackedFloat → WithBot (WithTop Rat)
  | .infinity .negative => ⊥
  | .infinity .positive => ((⊤ : WithTop Rat) : WithBot (WithTop Rat))
  | .notANumber => ((0 : Rat) : WithTop Rat)
  | .zero _ => ((0 : Rat) : WithTop Rat)
  | .finite sign mantissa exponent _ =>
    ((signed sign (mantissa * 2 ^ exponent) : Rat) : WithTop Rat)

theorem size_pos {mantissa : Nat} (positive : 0 < mantissa) (exponent : Int) :
    (0 : Rat) < mantissa * 2 ^ exponent :=
  mul_pos (Nat.cast_pos.mpr positive) (zpow_pos (by decide) exponent)

theorem size_lt_of_mantissa {smaller larger : Nat} (less : smaller < larger) (exponent : Int) :
    (smaller : Rat) * 2 ^ exponent < larger * 2 ^ exponent :=
  mul_lt_mul_of_pos_right (Nat.cast_lt.mpr less) (zpow_pos (by decide) exponent)

/-- At a larger exponent every stored number is larger. -/
theorem size_lt_of_exponent {smaller larger : Nat} {low high : Int} (first : Stored smaller low)
    (second : Stored larger high) (less : low < high) :
    (smaller : Rat) * 2 ^ low < larger * 2 ^ high := by
  have full : 2 ^ 23 ≤ larger := second.full.resolve_right fun smallest => by
    have bound := first.low
    omega
  have small : (smaller : Rat) < 2 ^ 24 := by exact_mod_cast first.small
  have large : (2 : Rat) ^ 23 ≤ larger := by exact_mod_cast full
  have gap : (2 : Rat) ^ (low + 1) ≤ 2 ^ high := zpow_le_zpow_right₀ (by decide) less
  calc (smaller : Rat) * 2 ^ low < 2 ^ 24 * 2 ^ low :=
        mul_lt_mul_of_pos_right small (zpow_pos (by decide) low)
    _ = 2 ^ 23 * 2 ^ (low + 1) := by
        rw [zpow_add₀ (by decide), zpow_one]
        ring
    _ ≤ larger * 2 ^ high :=
        mul_le_mul large gap (zpow_pos (by decide) _).le (Nat.cast_nonneg larger)

theorem compares_size {first second : Nat} {low high : Int} (firstStored : Stored first low)
    (secondStored : Stored second high) :
    ((compare low high).then (compare first second)).Compares ((first : Rat) * 2 ^ low)
      (second * 2 ^ high) := by
  rcases lt_trichotomy low high with less | rfl | greater
  · rw [compare_lt_iff_lt.mpr less]
    exact size_lt_of_exponent firstStored secondStored less
  · rw [compare_eq_iff_eq.mpr rfl]
    rcases lt_trichotomy first second with less | rfl | greater
    · rw [compare_lt_iff_lt.mpr less]
      exact size_lt_of_mantissa less low
    · rw [compare_eq_iff_eq.mpr rfl]
      exact rfl
    · rw [compare_gt_iff_gt.mpr greater]
      exact size_lt_of_mantissa greater low
  · rw [compare_gt_iff_gt.mpr greater]
    exact size_lt_of_exponent secondStored firstStored greater

theorem compares_neg {order : Ordering} {first second : Rat}
    (compares : order.Compares first second) :
    order.swap.Compares (-first) (-second) := by
  cases order with
  | lt => exact neg_lt_neg compares
  | eq => exact congrArg Neg.neg compares
  | gt => exact neg_lt_neg compares

theorem compares_coe {order : Ordering} {first second : Rat}
    (compares : order.Compares first second) :
    order.Compares ((first : WithTop Rat) : WithBot (WithTop Rat)) ((second : WithTop Rat)) := by
  cases order with
  | lt => exact WithBot.coe_lt_coe.mpr (WithTop.coe_lt_coe.mpr compares)
  | eq => exact congrArg (fun size : Rat => ((size : WithTop Rat) : WithBot (WithTop Rat))) compares
  | gt => exact WithBot.coe_lt_coe.mpr (WithTop.coe_lt_coe.mpr compares)

theorem bot_lt_size (size : Rat) : (⊥ : WithBot (WithTop Rat)) < (size : WithTop Rat) :=
  WithBot.bot_lt_coe _

theorem size_lt_top (size : Rat) :
    ((size : WithTop Rat) : WithBot (WithTop Rat)) < ((⊤ : WithTop Rat) : WithBot (WithTop Rat)) :=
  WithBot.coe_lt_coe.mpr (WithTop.coe_lt_top size)

/-- Comparing two numbers compares what they are worth. -/
theorem compares_value {first second : UnpackedFloat} (firstStored : IsStored first)
    (secondStored : IsStored second) (firstNumber : first.isNaN = false)
    (secondNumber : second.isNaN = false) :
    ∃ order, first.compare second = some order ∧ order.Compares (value first) (value second) := by
  cases first with
  | notANumber => exact absurd firstNumber nofun
  | infinity sign =>
    cases second with
    | notANumber => exact absurd secondNumber nofun
    | infinity other =>
      cases sign <;> cases other
      · exact ⟨.eq, rfl, rfl⟩
      · exact ⟨.lt, rfl, WithBot.bot_lt_coe _⟩
      · exact ⟨.gt, rfl, WithBot.bot_lt_coe _⟩
      · exact ⟨.eq, rfl, rfl⟩
    | zero other =>
      cases sign
      · exact ⟨.lt, rfl, bot_lt_size _⟩
      · exact ⟨.gt, rfl, size_lt_top _⟩
    | finite other mantissa exponent positive =>
      cases sign
      · exact ⟨.lt, rfl, bot_lt_size _⟩
      · exact ⟨.gt, rfl, size_lt_top _⟩
  | zero sign =>
    cases second with
    | notANumber => exact absurd secondNumber nofun
    | infinity other =>
      cases other
      · exact ⟨.gt, rfl, bot_lt_size _⟩
      · exact ⟨.lt, rfl, size_lt_top _⟩
    | zero other => exact ⟨.eq, rfl, rfl⟩
    | finite other mantissa exponent positive =>
      cases other
      · exact ⟨.gt, rfl, @compares_coe .gt _ _ (neg_neg_of_pos (size_pos positive exponent))⟩
      · exact ⟨.lt, rfl, @compares_coe .lt _ _ (size_pos positive exponent)⟩
  | finite sign mantissa exponent positive =>
    have size := size_pos positive exponent
    cases second with
    | notANumber => exact absurd secondNumber nofun
    | infinity other =>
      cases other
      · exact ⟨.gt, by cases sign <;> rfl, bot_lt_size _⟩
      · exact ⟨.lt, by cases sign <;> rfl, size_lt_top _⟩
    | zero other =>
      cases sign
      · exact ⟨.lt, rfl, @compares_coe .lt _ _ (neg_neg_of_pos size)⟩
      · exact ⟨.gt, rfl, @compares_coe .gt _ _ size⟩
    | finite other otherMantissa otherExponent otherPositive =>
      have otherSize := size_pos otherPositive otherExponent
      have sizes : ((compare exponent otherExponent).then (compare mantissa otherMantissa)).Compares
          ((mantissa : Rat) * 2 ^ exponent) (otherMantissa * 2 ^ otherExponent) :=
        compares_size firstStored secondStored
      cases sign <;> cases other
      · exact ⟨_, rfl, compares_coe (compares_neg sizes)⟩
      · exact ⟨.lt, rfl, @compares_coe .lt _ _ (lt_trans (neg_neg_of_pos size) otherSize)⟩
      · exact ⟨.gt, rfl, @compares_coe .gt _ _ (lt_trans (neg_neg_of_pos otherSize) size)⟩
      · exact ⟨_, rfl, compares_coe sizes⟩

/-- Two numbers that compare equal are the same, unless they are zeros. -/
theorem eq_of_compare {first second : UnpackedFloat} (equal : first.compare second = some .eq)
    (nonzero : value second ≠ ((0 : Rat) : WithTop Rat)) : first = second := by
  cases second with
  | notANumber => exact absurd rfl nonzero
  | zero sign => exact absurd rfl nonzero
  | infinity sign =>
    cases first with
    | infinity other => cases sign <;> cases other <;> first | rfl | exact absurd equal nofun
    | notANumber => cases sign <;> exact absurd equal nofun
    | zero other => cases sign <;> exact absurd equal nofun
    | finite other mantissa exponent positive =>
      cases sign <;> cases other <;> exact absurd equal nofun
  | finite sign mantissa exponent positive =>
    cases first with
    | notANumber => cases sign <;> exact absurd equal nofun
    | zero other => cases sign <;> exact absurd equal nofun
    | infinity other => cases sign <;> cases other <;> exact absurd equal nofun
    | finite other otherMantissa otherExponent otherPositive =>
      have fields : (compare otherExponent exponent).then (compare otherMantissa mantissa) = .eq →
          otherExponent = exponent ∧ otherMantissa = mantissa := by
        intro both
        rw [Ordering.then_eq_eq] at both
        exact ⟨compare_eq_iff_eq.mp both.1, compare_eq_iff_eq.mp both.2⟩
      cases sign <;> cases other
      · obtain ⟨rfl, rfl⟩ := fields (Ordering.swap_eq_eq.mp (Option.some.inj equal))
        rfl
      · exact absurd equal nofun
      · exact absurd equal nofun
      · obtain ⟨rfl, rfl⟩ := fields (Option.some.inj equal)
        rfl

/-! ### Floats -/

/-- What a float is worth. -/
def worth (number : Float32.Model) : WithBot (WithTop Rat) := value number.unpack

theorem isStored_float (number : Float32.Model) : IsStored number.unpack :=
  isStored_unpack number.toBits.toBitVec

theorem unpack_injective {first second : Float32.Model} (same : first.unpack = second.unpack) :
    first = second := by
  obtain ⟨bits, valid⟩ := first
  obtain ⟨otherBits, otherValid⟩ := second
  have equal := (unpack_inj_of_valid valid otherValid).mp same
  obtain rfl : bits = otherBits := UInt32.toBitVec_inj.mp equal
  rfl

theorem unpack_float {number : UnpackedFloat} (stored : IsStored number) :
    (Float32.Model.pack number).unpack = number :=
  unpack_pack stored

variable {first second : Float32.Model}

theorem lt_iff (firstNumber : first.isNaN = false) (secondNumber : second.isNaN = false) :
    first < second ↔ worth first < worth second := by
  obtain ⟨order, compared, compares⟩ := compares_value (isStored_float first)
    (isStored_float second) firstNumber secondNumber
  show (first.unpack.compare second.unpack == some .lt) = true ↔ _
  rw [beq_iff_eq, compared, Option.some_inj]
  exact compares.eq_lt

theorem le_iff (firstNumber : first.isNaN = false) (secondNumber : second.isNaN = false) :
    first ≤ second ↔ worth first ≤ worth second := by
  obtain ⟨order, compared, compares⟩ := compares_value (isStored_float first)
    (isStored_float second) firstNumber secondNumber
  show (first.unpack.compare second.unpack).any (·.isLE) = true ↔ _
  rw [compared]
  cases order with
  | lt => exact iff_of_true rfl compares.le
  | eq => exact iff_of_true rfl compares.le
  | gt => exact iff_of_false nofun compares.not_ge

/-- What is not a number compares with nothing. -/
theorem isNumber_of_le (le : first ≤ second) : first.isNaN = false ∧ second.isNaN = false := by
  have compared : (first.unpack.compare second.unpack).any (·.isLE) = true := le
  show first.unpack.isNaN = false ∧ second.unpack.isNaN = false
  cases left : first.unpack with
  | notANumber =>
    rw [left] at compared
    exact absurd compared nofun
  | infinity sign =>
    cases right : second.unpack with
    | notANumber => rw [left, right] at compared; cases sign <;> exact absurd compared nofun
    | _ => exact ⟨rfl, rfl⟩
  | zero sign =>
    cases right : second.unpack with
    | notANumber => rw [left, right] at compared; exact absurd compared nofun
    | _ => exact ⟨rfl, rfl⟩
  | finite sign mantissa exponent positive =>
    cases right : second.unpack with
    | notANumber => rw [left, right] at compared; cases sign <;> exact absurd compared nofun
    | _ => exact ⟨rfl, rfl⟩

/-- Floats are equal when they are numbers and worth the same. -/
theorem equal_iff : (first == second) = true ↔
    first.isNaN = false ∧ second.isNaN = false ∧ worth first = worth second := by
  have compared_iff : (first == second) = true ↔
      first.unpack.compare second.unpack = some .eq :=
    @beq_iff_eq _ _ _ (first.unpack.compare second.unpack) (some .eq)
  rw [compared_iff]
  constructor
  · intro equal
    have le : first ≤ second := by
      show (first.unpack.compare second.unpack).any (·.isLE) = true
      rw [equal]
      rfl
    obtain ⟨firstNumber, secondNumber⟩ := isNumber_of_le le
    obtain ⟨order, compared, compares⟩ := compares_value (isStored_float first)
      (isStored_float second) firstNumber secondNumber
    obtain rfl := Option.some.inj (equal.symm.trans compared)
    exact ⟨firstNumber, secondNumber, compares⟩
  · rintro ⟨firstNumber, secondNumber, same⟩
    obtain ⟨order, compared, compares⟩ := compares_value (isStored_float first)
      (isStored_float second) firstNumber secondNumber
    rw [compared, compares.eq_eq.mpr same]

/-- Equal floats are equal to the same floats. -/
theorem equal_congr (equal : (first == second) = true) (third : Float32.Model) :
    (first == third) = (second == third) := by
  obtain ⟨firstNumber, secondNumber, same⟩ := equal_iff.mp equal
  refine Bool.eq_iff_iff.mpr ?_
  rw [equal_iff, equal_iff, firstNumber, secondNumber, same]

/-- Floats that are equal as numbers are the same float, unless they are zeros. -/
theorem eq_of_equal (equal : (first == second) = true)
    (nonzero : worth second ≠ ((0 : Rat) : WithTop Rat)) : first = second := by
  refine unpack_injective (eq_of_compare ?_ nonzero)
  exact beq_iff_eq.mp equal

/-! ### Rounding -/

theorem shiftRight_succ (mantissa : ExtendedMantissa) (length : Nat) :
    mantissa >>> (length + 1) = (mantissa >>> length).shiftRightOne := rfl

theorem mantissa_shiftRight (mantissa : ExtendedMantissa) (length : Nat) :
    (mantissa >>> length).mantissa = mantissa.mantissa / 2 ^ length := by
  induction length with
  | zero => exact (Nat.div_one _).symm
  | succ length inductionHypothesis =>
    rw [shiftRight_succ, Nat.pow_succ, ← Nat.div_div_eq_div_mul, ← inductionHypothesis]
    rfl

/-- Dropping zeros is exact. -/
theorem shiftRight_exact (mantissa length : Nat) :
    (⟨mantissa * 2 ^ length, false, false⟩ : ExtendedMantissa) >>> length =
      ⟨mantissa, false, false⟩ := by
  induction length generalizing mantissa with
  | zero => rw [Nat.pow_zero, Nat.mul_one]; rfl
  | succ length inductionHypothesis =>
    have even : mantissa * 2 ^ (length + 1) = mantissa * 2 * 2 ^ length := by
      rw [Nat.pow_succ]
      ring
    rw [shiftRight_succ, even, inductionHypothesis, ExtendedMantissa.shiftRightOne,
      Nat.mul_div_cancel _ (by decide), Nat.mul_mod_left]
    rfl

theorem log2_mul_two_pow {mantissa : Nat} (positive : 0 < mantissa) (length : Nat) :
    (mantissa * 2 ^ length).log2 = mantissa.log2 + length := by
  have shifted := Nat.mul_pos positive (Nat.two_pow_pos length)
  refine (Nat.log2_eq_iff shifted.ne').mpr ⟨?_, ?_⟩
  · rw [Nat.pow_add]
    exact Nat.mul_le_mul_right _ (Nat.log2_self_le positive.ne')
  · have above : mantissa < 2 ^ (mantissa.log2 + 1) := Nat.lt_log2_self
    calc mantissa * 2 ^ length < 2 ^ (mantissa.log2 + 1) * 2 ^ length :=
          Nat.mul_lt_mul_of_pos_right above (Nat.two_pow_pos length)
      _ = 2 ^ (mantissa.log2 + length + 1) := by
          rw [← Nat.pow_add, Nat.add_right_comm]

/-- The exponent at which the format stores a number. -/
def target (mantissa : Nat) (exponent : Int) : Int :=
  max (mantissa.log2 - 23 + exponent) (-149)

theorem targetExponent_eq (mantissa : Nat) (exponent : Int) :
    Format.binary32.targetExponent (totalExponent mantissa exponent) =
      target mantissa exponent := by
  show max (mantissa.log2 + 1 + exponent - 24) (-149) = target mantissa exponent
  rw [target]
  congr 1
  omega

/-- The exponent does not depend on how the number is written. -/
theorem target_scaled {mantissa : Nat} (positive : 0 < mantissa) (length : Nat) (exponent : Int) :
    target (mantissa * 2 ^ length) (exponent - length) = target mantissa exponent := by
  rw [target, target, log2_mul_two_pow positive]
  congr 1
  push_cast
  ring

/-- A number with enough zeros at the end is stored as it is. -/
theorem roundWithAccuracy_exact (sign : Sign) {mantissa : Nat} {exponent : Int}
    (positive : 0 < mantissa) (length : Nat) (there : target mantissa exponent = exponent) :
    roundWithAccuracy .binary32 sign (mantissa * 2 ^ length) (exponent - length) .exact =
      .finite sign mantissa exponent positive := by
  have first : shiftToTargetExponent .binary32 (mantissa * 2 ^ length) (exponent - length) .exact =
      (⟨mantissa, false, false⟩, exponent) := by
    have distance : (exponent - (exponent - length)).toNat = length := by omega
    have back : exponent - length + length = exponent := by omega
    simp only [shiftToTargetExponent, targetExponent_eq, target_scaled positive, there,
      shiftToExponent, ExtendedMantissa.ofMantissaAndAccuracy, distance, shiftRight_exact, back]
  have second : shiftToTargetExponent .binary32 mantissa exponent .exact =
      (⟨mantissa, false, false⟩, exponent) := by
    have distance : (exponent - exponent).toNat = 0 := by omega
    have back : exponent + (0 : Nat) = exponent := by omega
    simp only [shiftToTargetExponent, targetExponent_eq, there, shiftToExponent,
      ExtendedMantissa.ofMantissaAndAccuracy, distance, back]
    rfl
  have whole : (⟨mantissa, false, false⟩ : ExtendedMantissa).roundedMantissa = mantissa := rfl
  simp only [roundWithAccuracy, first, whole, second]
  exact dif_neg positive.ne'

/-- A number that the format stores and that is worth a rational number. -/
structure Represents (number : UnpackedFloat) (size : Rat) : Prop where
  stored : IsStored number
  isNumber : number.isNaN = false
  value : value number = ((size : WithTop Rat) : WithBot (WithTop Rat))

theorem target_le {mantissa : Nat} (small : mantissa < 2 ^ 24) {exponent : Int}
    (low : -149 ≤ exponent) : target mantissa exponent ≤ exponent := by
  have bits : mantissa.log2 ≤ 23 := by
    rcases Nat.eq_zero_or_pos mantissa with rfl | positive
    · decide
    · exact Nat.le_of_lt_succ ((Nat.log2_lt positive.ne').mpr small)
  rw [target]
  omega

/-- The format stores a short mantissa at its target exponent. -/
theorem stored_target {mantissa : Nat} (positive : 0 < mantissa) (small : mantissa < 2 ^ 24)
    {exponent : Int} (low : -149 ≤ exponent) (high : exponent ≤ 104) :
    Stored (mantissa * 2 ^ (exponent - target mantissa exponent).toNat)
      (target mantissa exponent) := by
  have shifted := Nat.mul_pos positive
    (Nat.two_pow_pos (exponent - target mantissa exponent).toNat)
  have below := target_le small low
  have bits := log2_mul_two_pow positive (exponent - target mantissa exponent).toNat
  have place : target mantissa exponent = max (mantissa.log2 - 23 + exponent) (-149) := rfl
  refine ⟨(Nat.log2_lt shifted.ne').mp ?_, ?_, ?_, ?_⟩
  · omega
  · omega
  · omega
  · rcases le_total (-149) (mantissa.log2 - 23 + exponent) with normal | subnormal
    · refine Or.inl ((Nat.le_log2 shifted.ne').mp ?_)
      omega
    · exact Or.inr (max_eq_right subnormal)

theorem size_scaled (mantissa : Nat) {low exponent : Int} (less : low ≤ exponent) :
    ((mantissa * 2 ^ (exponent - low).toNat : Nat) : Rat) * 2 ^ low = mantissa * 2 ^ exponent := by
  have distance : ((exponent - low).toNat : Int) + low = exponent := by omega
  push_cast
  rw [mul_assoc, ← zpow_natCast, ← zpow_add₀ (by decide), distance]

/-- Rounding is exact on a number with a short mantissa, however many zeros are written. -/
theorem represents_round (sign : Sign) {mantissa : Nat} (positive : 0 < mantissa)
    (small : mantissa < 2 ^ 24) {exponent : Int} (low : -149 ≤ exponent) (high : exponent ≤ 104)
    (zeros : Nat) :
    Represents (UnpackedFloat.round .binary32 sign (mantissa * 2 ^ zeros) (exponent - zeros))
      (signed sign (mantissa * 2 ^ exponent)) := by
  have below := target_le small low
  have there : target (mantissa * 2 ^ (exponent - target mantissa exponent).toNat)
      (target mantissa exponent) = target mantissa exponent := by
    have place := target_scaled positive (exponent - target mantissa exponent).toNat exponent
    have shifted : exponent - (exponent - target mantissa exponent).toNat =
        target mantissa exponent := by omega
    rwa [shifted] at place
  have shifted := Nat.mul_pos positive
    (Nat.two_pow_pos (exponent - target mantissa exponent).toNat)
  have rounded : UnpackedFloat.round .binary32 sign (mantissa * 2 ^ zeros) (exponent - zeros) =
      .finite sign (mantissa * 2 ^ (exponent - target mantissa exponent).toNat)
        (target mantissa exponent) shifted := by
    simp only [UnpackedFloat.round, targetExponent_eq, target_scaled positive, decreaseExponent,
      Nat.shiftLeft_eq, mul_assoc, ← Nat.pow_add]
    rcases le_total (target mantissa exponent) (exponent - zeros) with left | right
    · have length : zeros + (exponent - zeros - target mantissa exponent).toNat =
          (exponent - target mantissa exponent).toNat := by omega
      have place : exponent - zeros - (exponent - zeros - target mantissa exponent).toNat =
          target mantissa exponent - (0 : Nat) := by omega
      rw [length, place]
      have exact := roundWithAccuracy_exact sign shifted 0 there
      rwa [Nat.pow_zero, Nat.mul_one] at exact
    · have length : zeros + (exponent - zeros - target mantissa exponent).toNat =
          (exponent - target mantissa exponent).toNat +
            (target mantissa exponent - (exponent - zeros)).toNat := by omega
      have place : exponent - zeros - (exponent - zeros - target mantissa exponent).toNat =
          target mantissa exponent - (target mantissa exponent - (exponent - zeros)).toNat := by
        omega
      rw [length, place, Nat.pow_add, ← mul_assoc]
      exact roundWithAccuracy_exact sign shifted _ there
  rw [rounded]
  refine ⟨stored_target positive small low high, rfl, ?_⟩
  rw [value, size_scaled mantissa below]

theorem represents_zero (sign : Sign) : Represents (.zero sign) 0 := ⟨trivial, rfl, rfl⟩

/-- An integer with a short mantissa, however many zeros are written. -/
theorem represents_normalize {mantissa : Int} (small : |mantissa| < 2 ^ 24) {exponent : Int}
    (low : -149 ≤ exponent) (high : exponent ≤ 104) (zeros : Nat) (zeroSign : Sign) :
    Represents
      (UnpackedFloat.normalize .binary32 (mantissa * 2 ^ zeros) (exponent - zeros) zeroSign)
      (mantissa * 2 ^ exponent) := by
  have scale : (0 : Int) < 2 ^ zeros := by positivity
  unfold UnpackedFloat.normalize
  rcases lt_trichotomy mantissa 0 with negative | rfl | positive
  · obtain ⟨size, rfl⟩ : ∃ size : Nat, mantissa = -size := ⟨mantissa.natAbs, by omega⟩
    have least : 0 < size := by omega
    have less : size < 2 ^ 24 := by
      rw [abs_neg, Nat.abs_cast] at small
      exact_mod_cast small
    have order : compare (-(size : Int) * 2 ^ zeros) 0 = .lt :=
      compare_lt_iff_lt.mpr (mul_neg_of_neg_of_pos negative scale)
    have turned : (-(-(size : Int) * 2 ^ zeros)).toNat = size * 2 ^ zeros := by
      rw [neg_mul, neg_neg]
      exact Int.toNat_natCast (size * 2 ^ zeros)
    have exact := represents_round .negative least less low high zeros
    rw [order, turned]
    rwa [signed, ← neg_mul] at exact
  · rw [zero_mul, Int.cast_zero, zero_mul]
    exact represents_zero zeroSign
  · obtain ⟨size, rfl⟩ : ∃ size : Nat, mantissa = size := ⟨mantissa.natAbs, by omega⟩
    have least : 0 < size := by omega
    have less : size < 2 ^ 24 := by
      rw [Nat.abs_cast] at small
      exact_mod_cast small
    have order : compare ((size : Int) * 2 ^ zeros) 0 = .gt :=
      compare_gt_iff_gt.mpr (mul_pos positive scale)
    have same : ((size : Int) * 2 ^ zeros).toNat = size * 2 ^ zeros :=
      Int.toNat_natCast (size * 2 ^ zeros)
    rw [order, same]
    exact represents_round .positive least less low high zeros

/-- Normalizing is exact on whatever the format can store. -/
theorem represents_normalize_of_eq {written mantissa : Int} {place exponent : Int}
    (same : (written : Rat) * 2 ^ place = mantissa * 2 ^ exponent) (small : |mantissa| < 2 ^ 24)
    (low : -149 ≤ exponent) (high : exponent ≤ 104) (below : place ≤ 104) (zeroSign : Sign) :
    Represents (UnpackedFloat.normalize .binary32 written place zeroSign)
      (mantissa * 2 ^ exponent) := by
  have nonzero : (2 : Rat) ^ place ≠ 0 := zpow_ne_zero _ (by decide)
  rcases le_total place exponent with more | fewer
  · obtain ⟨zeros, rfl⟩ : ∃ zeros : Nat, place = exponent - zeros :=
      ⟨(exponent - place).toNat, by omega⟩
    have digits : written = mantissa * 2 ^ zeros := by
      have scaled : (2 : Rat) ^ exponent = 2 ^ zeros * 2 ^ (exponent - zeros) := by
        rw [← zpow_natCast, ← zpow_add₀ (by decide), add_sub_cancel]
      rw [scaled, ← mul_assoc] at same
      exact_mod_cast mul_right_cancel₀ nonzero same
    rw [digits]
    exact represents_normalize small low high zeros zeroSign
  · obtain ⟨zeros, rfl⟩ : ∃ zeros : Nat, place = exponent + zeros :=
      ⟨(place - exponent).toNat, by omega⟩
    have digits : written * 2 ^ zeros = mantissa := by
      rw [zpow_add₀ (by decide), mul_comm (2 ^ exponent), ← mul_assoc, zpow_natCast] at same
      exact_mod_cast mul_right_cancel₀ (zpow_ne_zero exponent (by decide)) same
    have shorter : |written| < 2 ^ 24 := by
      rw [← digits, abs_mul] at small
      refine lt_of_le_of_lt (le_mul_of_one_le_right (abs_nonneg written) ?_) small
      exact Int.one_le_abs (by positivity)
    have exact := represents_normalize shorter (by omega) below 0 zeroSign
    rw [pow_zero, mul_one, Nat.cast_zero, sub_zero, same] at exact
    exact exact

theorem represents_ofInt {number : Int} (small : |number| < 2 ^ 24) :
    Represents (ofInt .binary32 number) number := by
  have exact := represents_normalize small (show (-149 : Int) ≤ 0 by decide) (by decide) 0 .positive
  rwa [pow_zero, mul_one, Nat.cast_zero, sub_zero, zpow_zero, mul_one] at exact

/-! ### Exact operations -/

theorem value_finite_inj {number : UnpackedFloat} {size : Rat}
    (represents : Represents number size) :
    (∃ sign, number = .zero sign ∧ size = 0) ∨
      ∃ sign mantissa exponent positive, number = .finite sign mantissa exponent positive ∧
        Stored mantissa exponent ∧ size = signed sign (mantissa * 2 ^ exponent) := by
  obtain ⟨stored, isNumber, same⟩ := represents
  cases number with
  | notANumber => exact absurd isNumber nofun
  | infinity sign =>
    cases sign
    · exact absurd same WithBot.bot_ne_coe
    · exact absurd (WithBot.coe_injective same) WithTop.top_ne_coe
  | zero sign => exact .inl ⟨sign, rfl, (WithTop.coe_injective (WithBot.coe_injective same)).symm⟩
  | finite sign mantissa exponent positive =>
    exact .inr ⟨sign, mantissa, exponent, positive, rfl, stored,
      (WithTop.coe_injective (WithBot.coe_injective same)).symm⟩

theorem signed_neg (sign : Sign) (size : Rat) : signed (-sign) size = -signed sign size := by
  cases sign
  · exact (neg_neg size).symm
  · rfl

theorem cast_apply (sign : Sign) (number : Nat) :
    ((sign.apply number : Int) : Rat) = signed sign number := by
  cases sign
  · exact Int.cast_neg (number : Int)
  · rfl

theorem signed_mul (sign : Sign) (size factor : Rat) :
    signed sign size * factor = signed sign (size * factor) := by
  cases sign
  · exact neg_mul size factor
  · rfl

/-- Written at a smaller exponent a mantissa is worth the same. -/
theorem apply_shiftLeft (sign : Sign) (mantissa : Nat) {low exponent : Int}
    (less : low ≤ exponent) :
    ((sign.apply (mantissa <<< (exponent - low).toNat : Nat) : Int) : Rat) * 2 ^ low =
      signed sign (mantissa * 2 ^ exponent) := by
  rw [cast_apply, signed_mul, Nat.shiftLeft_eq, size_scaled mantissa less]

/-- A difference that the format has is exact. -/
theorem represents_sub {first second : UnpackedFloat} {firstSize secondSize : Rat}
    (firstRepresents : Represents first firstSize) (secondRepresents : Represents second secondSize)
    {mantissa exponent : Int} (small : |mantissa| < 2 ^ 24) (low : -149 ≤ exponent)
    (high : exponent ≤ 104) (difference : firstSize - secondSize = mantissa * 2 ^ exponent) :
    Represents (sub .binary32 first second) (firstSize - secondSize) := by
  rcases value_finite_inj firstRepresents with
    ⟨sign, rfl, rfl⟩ | ⟨sign, firstMantissa, firstExponent, positive, rfl, stored, rfl⟩
  · rcases value_finite_inj secondRepresents with
      ⟨other, rfl, rfl⟩ | ⟨other, secondMantissa, secondExponent, positive, rfl, stored, rfl⟩
    · rw [sub_zero]
      show Represents (if sign == -other then .zero sign else .zero .positive) 0
      split <;> exact represents_zero _
    · rw [zero_sub, ← signed_neg]
      exact ⟨stored, rfl, rfl⟩
  · rcases value_finite_inj secondRepresents with
      ⟨other, rfl, rfl⟩ | ⟨other, secondMantissa, secondExponent, positive, rfl, otherStored, rfl⟩
    · rw [sub_zero]
      exact firstRepresents
    · rw [difference]
      refine represents_normalize_of_eq ?_ small low high (min_le_of_left_le stored.high) .positive
      rw [Int.cast_sub, sub_mul, apply_shiftLeft _ _ (min_le_left _ _),
        apply_shiftLeft _ _ (min_le_right _ _), difference]

/-! ### Truncation -/

/-- The part of a finite number before the point. -/
def truncated : UnpackedFloat → Option Int
  | .zero _ => some 0
  | .finite sign mantissa exponent _ => some (roundToInt sign mantissa exponent)
  | _ => none

theorem roundToInt_eq (sign : Sign) (mantissa : Nat) (exponent : Int) :
    roundToInt sign mantissa exponent =
      sign.apply (mantissa * 2 ^ exponent.toNat / 2 ^ (-exponent).toNat : Nat) := by
  have right : (0 - (exponent - exponent.toNat)).toNat = (-exponent).toNat := by omega
  simp only [roundToInt, decreaseExponent, shiftToExponent, sub_zero, right, Nat.shiftLeft_eq,
    mantissa_shiftRight]
  rfl

/-- The digits of a mantissa that is worth a whole number, on either side of the point. -/
theorem shift_of_whole {mantissa whole : Nat} {exponent : Int}
    (same : (whole : Rat) = mantissa * 2 ^ exponent) :
    mantissa * 2 ^ exponent.toNat = whole * 2 ^ (-exponent).toNat := by
  rcases le_total 0 exponent with left | right
  · obtain ⟨length, rfl⟩ := Int.eq_ofNat_of_zero_le left
    have digits : whole = mantissa * 2 ^ length := by
      rw [zpow_natCast] at same
      exact_mod_cast same
    have none : (-(length : Int)).toNat = 0 := by omega
    rw [none, Nat.pow_zero, Nat.mul_one, Int.toNat_natCast, digits]
  · obtain ⟨length, rfl⟩ := Int.exists_eq_neg_ofNat right
    have digits : whole * 2 ^ length = mantissa := by
      rw [zpow_neg, zpow_natCast, eq_mul_inv_iff_mul_eq₀ (by positivity)] at same
      exact_mod_cast same
    have none : (-(length : Int)).toNat = 0 := by omega
    rw [none, neg_neg, Int.toNat_natCast, Nat.pow_zero, Nat.mul_one, digits]

/-- Shifting a mantissa to the point gives the number that it is worth, when that is whole. -/
theorem shifted_of_whole {mantissa whole : Nat} {exponent : Int}
    (same : (whole : Rat) = mantissa * 2 ^ exponent) :
    mantissa * 2 ^ exponent.toNat / 2 ^ (-exponent).toNat = whole := by
  rw [shift_of_whole same]
  exact Nat.mul_div_cancel _ (Nat.two_pow_pos _)

/-- Truncation leaves an integer as it is. -/
theorem truncated_of_represents {number : UnpackedFloat} {size : Int}
    (represents : Represents number size) : truncated number = some size := by
  rcases value_finite_inj represents with
    ⟨sign, rfl, zero⟩ | ⟨sign, mantissa, exponent, positive, rfl, stored, same⟩
  · exact congrArg some (Int.cast_eq_zero.mp zero).symm
  · have least := size_pos positive exponent
    have whole : ((size.natAbs : Nat) : Rat) = mantissa * 2 ^ exponent := by
      rw [Nat.cast_natAbs, Int.cast_abs, same]
      cases sign
      · exact (abs_neg _).trans (abs_of_pos least)
      · exact abs_of_pos least
    refine congrArg some ?_
    rw [roundToInt_eq, shifted_of_whole whole]
    have cast : ((sign.apply (size.natAbs : Nat) : Int) : Rat) = size := by
      rw [cast_apply, whole, same]
    exact Int.cast_injective cast

/-- What does not truncate to zero is not a zero. -/
theorem value_ne_zero_of_truncated {number : UnpackedFloat} {whole : Int}
    (here : truncated number = some whole) (nonzero : whole ≠ 0) :
    value number ≠ ((0 : Rat) : WithTop Rat) := by
  cases number with
  | infinity sign => exact absurd here nofun
  | notANumber => exact absurd here nofun
  | zero sign => exact absurd (Option.some.inj here).symm nonzero
  | finite sign mantissa exponent positive =>
    intro zero
    have size : signed sign (mantissa * 2 ^ exponent) = 0 :=
      WithTop.coe_injective (WithBot.coe_injective zero)
    have least := size_pos positive exponent
    cases sign
    · exact absurd size (neg_neg_of_pos least).ne
    · exact absurd size least.ne'

/-! ### Exact floats -/

theorem represents_float_ofInt {number : Int} (small : |number| < 2 ^ 24) :
    Represents (Float32.Model.ofInt number).unpack number := by
  have exact := represents_ofInt small
  rwa [Float32.Model.ofInt, unpack_float exact.stored]

theorem represents_float_sub {firstSize secondSize : Rat}
    (firstRepresents : Represents first.unpack firstSize)
    (secondRepresents : Represents second.unpack secondSize) {mantissa exponent : Int}
    (small : |mantissa| < 2 ^ 24) (low : -149 ≤ exponent) (high : exponent ≤ 104)
    (difference : firstSize - secondSize = mantissa * 2 ^ exponent) :
    Represents (first - second).unpack (firstSize - secondSize) := by
  have exact := represents_sub firstRepresents secondRepresents small low high difference
  show Represents (Float32.Model.pack _).unpack _
  rwa [unpack_float exact.stored]

theorem lt_iff_of_represents {firstSize secondSize : Rat}
    (firstRepresents : Represents first.unpack firstSize)
    (secondRepresents : Represents second.unpack secondSize) :
    first < second ↔ firstSize < secondSize := by
  rw [lt_iff firstRepresents.isNumber secondRepresents.isNumber, worth, worth,
    firstRepresents.value, secondRepresents.value, WithBot.coe_lt_coe, WithTop.coe_lt_coe]

theorem le_iff_of_represents {firstSize secondSize : Rat}
    (firstRepresents : Represents first.unpack firstSize)
    (secondRepresents : Represents second.unpack secondSize) :
    first ≤ second ↔ firstSize ≤ secondSize := by
  rw [le_iff firstRepresents.isNumber secondRepresents.isNumber, worth, worth,
    firstRepresents.value, secondRepresents.value, WithBot.coe_le_coe, WithTop.coe_le_coe]

/-- Integers with short mantissas are equal when their floats are. -/
theorem ofInt_equal_ofInt {one other : Int} (oneShort : |one| < 2 ^ 24)
    (otherShort : |other| < 2 ^ 24) :
    (Float32.Model.ofInt one == Float32.Model.ofInt other) = true ↔ one = other := by
  have represents := represents_float_ofInt oneShort
  have representsOther := represents_float_ofInt otherShort
  rw [equal_iff, worth, worth, represents.value, representsOther.value]
  constructor
  · rintro ⟨-, -, same⟩
    exact Int.cast_injective (WithTop.coe_injective (WithBot.coe_injective same))
  · rintro rfl
    exact ⟨represents.isNumber, representsOther.isNumber, rfl⟩

/-- Integers with short mantissas are ordered like their floats. -/
theorem ofInt_lt_ofInt {smaller larger : Int} (smallerShort : |smaller| < 2 ^ 24)
    (largerShort : |larger| < 2 ^ 24) :
    Float32.Model.ofInt smaller < Float32.Model.ofInt larger ↔ smaller < larger := by
  rw [lt_iff_of_represents (represents_float_ofInt smallerShort)
    (represents_float_ofInt largerShort), Int.cast_lt]

end Binary32
