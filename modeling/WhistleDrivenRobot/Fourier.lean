/-
This file is a small library about the discrete Fourier transform in a commutative
ring, with a root of unity that is given. A stage of radix four splits the
transform of every block of the data into the transforms of its four quarters; after
the last stage, the place of a value is the reversal of its frequency.
-/

import Mathlib.Algebra.BigOperators.Intervals
import Mathlib.RingTheory.RootsOfUnity.PrimitiveRoots
import WhistleDrivenRobot.Reversal

namespace Fourier

open Reversal

variable {Ring : Type} [CommRing Ring]

/-- The transform of the first values of a sequence, at one frequency. -/
def dft (length : Nat) (root : Ring) (data : Nat → Ring) (frequency : Nat) : Ring :=
  ∑ index ∈ Finset.range length, data index * root ^ (index * frequency)

theorem dft_congr {length : Nat} {root : Ring} {data other : Nat → Ring} (frequency : Nat)
    (same : ∀ index, index < length → data index = other index) :
    dft length root data frequency = dft length root other frequency :=
  Finset.sum_congr rfl fun index member => by rw [same index (Finset.mem_range.mp member)]

theorem dft_one (root : Ring) (data : Nat → Ring) (frequency : Nat) :
    dft 1 root data frequency = data 0 := by
  rw [dft, Finset.sum_range_one, Nat.zero_mul, pow_zero, mul_one]

theorem dft_sub (length : Nat) (root : Ring) (data other : Nat → Ring) (frequency : Nat) :
    dft length root data frequency - dft length root other frequency =
      dft length root (fun index => data index - other index) frequency := by
  simp only [dft, sub_mul, Finset.sum_sub_distrib]

theorem dft_add (length : Nat) (root : Ring) (data other : Nat → Ring) (frequency : Nat) :
    dft length root (fun index => data index + other index) frequency =
      dft length root data frequency + dft length root other frequency := by
  simp only [dft, add_mul, Finset.sum_add_distrib]

theorem dft_smul (length : Nat) (root factor : Ring) (data : Nat → Ring) (frequency : Nat) :
    dft length root (fun index => factor * data index) frequency =
      factor * dft length root data frequency := by
  simp only [dft, mul_assoc, Finset.mul_sum]

/-! ### A stage of radix four -/

/-- Four values, each turned by a multiple of a quarter. -/
def combine (unit : Ring) (turns : Nat) (first second third fourth : Ring) : Ring :=
  first + second * unit ^ turns + third * unit ^ (2 * turns) + fourth * unit ^ (3 * turns)

/-- The transform at the frequencies with one last digit is a transform of a quarter of the
length. -/
theorem dft_quarter {quarter : Nat} {root unit : Ring} (turn : root ^ quarter = unit)
    (full : unit ^ 4 = 1) (data : Nat → Ring) (frequency digit : Nat) :
    dft (4 * quarter) root data (4 * frequency + digit) =
      dft quarter (root ^ 4) (fun index =>
        combine unit digit (data index) (data (quarter + index)) (data (2 * quarter + index))
          (data (3 * quarter + index)) * root ^ (index * digit)) frequency := by
  have term : ∀ part index : Nat,
      root ^ ((part * quarter + index) * (4 * frequency + digit)) =
        (root ^ 4) ^ (index * frequency) * root ^ (index * digit) * unit ^ (part * digit) := by
    intro part index
    have exponents : (part * quarter + index) * (4 * frequency + digit) =
        4 * (index * frequency) + index * digit + quarter * (part * digit) +
          quarter * (4 * (part * frequency)) := by ring
    rw [exponents, pow_add, pow_add, pow_add, pow_mul root quarter, pow_mul root quarter, turn,
      pow_mul unit 4, full, one_pow, mul_one, pow_mul root 4]
  have zeroth : ∀ index : Nat, root ^ (index * (4 * frequency + digit)) =
      (root ^ 4) ^ (index * frequency) * root ^ (index * digit) := by
    intro index
    have plain := term 0 index
    rwa [Nat.zero_mul, Nat.zero_add, Nat.zero_mul, pow_zero, mul_one] at plain
  have lengths : 4 * quarter = quarter + quarter + quarter + quarter := by ring
  have second : quarter + quarter = 2 * quarter := by ring
  have third : 2 * quarter + quarter = 3 * quarter := by ring
  unfold dft
  rw [lengths, Finset.sum_range_add, Finset.sum_range_add, Finset.sum_range_add, second, third,
    ← Finset.sum_add_distrib, ← Finset.sum_add_distrib, ← Finset.sum_add_distrib]
  refine Finset.sum_congr rfl fun index _ => ?_
  have first := term 1 index
  rw [Nat.one_mul, Nat.one_mul] at first
  rw [zeroth, first, term 2 index, term 3 index]
  simp only [combine]
  ring

/-- The two bits of a digit in the opposite order. -/
def swapped (digit : Nat) : Nat := digit % 2 * 2 + digit / 2

/-- A stage: every block is split into four quarters, and each quarter combines the values of the
block for one last digit of the frequency. -/
def Stage (root unit : Ring) (blocks quarter : Nat) (before after : Nat → Ring) : Prop :=
  ∀ block < blocks, ∀ digit < 4, ∀ index < quarter,
    after ((4 * block + digit) * quarter + index) =
      combine unit (swapped digit) (before (4 * block * quarter + index))
          (before ((4 * block + 1) * quarter + index)) (before ((4 * block + 2) * quarter + index))
          (before ((4 * block + 3) * quarter + index)) *
        root ^ (index * swapped digit)

/-- A stage as a function of the values before it. -/
def stageValues (root unit : Ring) (quarter : Nat) (before : Nat → Ring) (place : Nat) : Ring :=
  let base := 4 * (place / quarter / 4) * quarter + place % quarter
  let turns := swapped (place / quarter % 4)
  combine unit turns (before base) (before (base + quarter)) (before (base + 2 * quarter))
      (before (base + 3 * quarter)) * root ^ (place % quarter * turns)

theorem stage_stageValues (root unit : Ring) (blocks quarter : Nat) (before : Nat → Ring) :
    Stage root unit blocks quarter before (stageValues root unit quarter before) := by
  intro block _ digit single index inside
  have positive : 0 < quarter := Nat.zero_lt_of_lt inside
  have number : ((4 * block + digit) * quarter + index) / quarter = 4 * block + digit := by
    rw [Nat.mul_comm, Nat.mul_add_div positive, Nat.div_eq_of_lt inside, Nat.add_zero]
  have rest : ((4 * block + digit) * quarter + index) % quarter = index := by
    rw [Nat.mul_comm, Nat.mul_add_mod, Nat.mod_eq_of_lt inside]
  have blockNumber : (4 * block + digit) / 4 = block := by omega
  have digitNumber : (4 * block + digit) % 4 = digit := by omega
  have second : 4 * block * quarter + index + quarter = (4 * block + 1) * quarter + index := by ring
  have third : 4 * block * quarter + index + 2 * quarter = (4 * block + 2) * quarter + index := by
    ring
  have fourth : 4 * block * quarter + index + 3 * quarter = (4 * block + 3) * quarter + index := by
    ring
  simp only [stageValues, number, rest, blockNumber, digitNumber, second, third, fourth]

/-- With one value in a quarter, the root of a stage does not matter. -/
theorem Stage.single {root unit : Ring} {blocks : Nat} {before after : Nat → Ring}
    (stage : Stage root unit blocks 1 before after) (other : Ring) :
    Stage other unit blocks 1 before after := by
  intro block inside digit single index low
  have here := stage block inside digit single index low
  obtain rfl : index = 0 := by omega
  rwa [Nat.zero_mul, pow_zero] at here ⊢

/-- The transforms of the blocks are the transform of the data, at the frequencies that end in the
reversal of the number of the block. -/
def Split (root : Ring) (data : Nat → Ring) (stages length : Nat) (cells : Nat → Ring) : Prop :=
  ∀ block < 4 ^ stages, ∀ frequency,
    dft length (root ^ 4 ^ stages) (fun index => cells (block * length + index)) frequency =
      dft (4 ^ stages * length) root data (4 ^ stages * frequency + reverse (2 * stages) block)

theorem Split.start (root : Ring) (length : Nat) (data : Nat → Ring) :
    Split root data 0 length data := by
  intro block single frequency
  obtain rfl : block = 0 := by simpa using single
  rw [pow_zero, pow_one, Nat.one_mul, Nat.one_mul]
  exact dft_congr frequency fun index _ => by rw [Nat.zero_mul, Nat.zero_add]

/-- What one stage does. -/
theorem Split.next {root unit : Ring} {data before after : Nat → Ring} {stages quarter : Nat}
    (split : Split root data stages (4 * quarter) before)
    (turn : (root ^ 4 ^ stages) ^ quarter = unit) (full : unit ^ 4 = 1)
    (stage : Stage (root ^ 4 ^ stages) unit (4 ^ stages) quarter before after) :
    Split root data (stages + 1) quarter after := by
  intro block inside frequency
  have digit : block % 4 < 4 := Nat.mod_lt _ (by decide)
  have parent : block / 4 < 4 ^ stages := by
    rw [pow_succ] at inside
    omega
  have number : 4 * (block / 4) + block % 4 = block := Nat.div_add_mod block 4
  have roots : root ^ 4 ^ (stages + 1) = (root ^ 4 ^ stages) ^ 4 := by rw [pow_succ, pow_mul]
  have lengths : 4 ^ (stages + 1) * quarter = 4 ^ stages * (4 * quarter) := by ring
  have parts : ∀ index, index < quarter → after (block * quarter + index) =
      combine unit (swapped (block % 4)) (before (block / 4 * (4 * quarter) + index))
          (before (block / 4 * (4 * quarter) + (quarter + index)))
          (before (block / 4 * (4 * quarter) + (2 * quarter + index)))
          (before (block / 4 * (4 * quarter) + (3 * quarter + index))) *
        (root ^ 4 ^ stages) ^ (index * swapped (block % 4)) := by
    intro index low
    have here := stage (block / 4) parent (block % 4) digit index low
    rw [number] at here
    rw [here]
    ring_nf
  have frequencies : 4 ^ stages * (4 * frequency + swapped (block % 4)) +
      reverse (2 * stages) (block / 4) =
        4 ^ (stages + 1) * frequency + reverse (2 * (stages + 1)) block := by
    have digits := reverse_digit (2 * stages) (block / 4) (block % 4) digit
    have width : 2 * (stages + 1) = 2 * stages + 2 := by ring
    have power : 2 ^ (2 * stages) = 4 ^ stages := pow_mul 2 2 stages
    rw [number, power] at digits
    rw [width, digits, swapped, pow_succ]
    ring
  rw [roots, dft_congr frequency parts,
    ← dft_quarter turn full fun index => before (block / 4 * (4 * quarter) + index),
    split (block / 4) parent, lengths, frequencies]

/-- When the blocks have one value, a place holds the transform at its reversal. -/
theorem Split.done {root : Ring} {data cells : Nat → Ring} {stages : Nat}
    (split : Split root data stages 1 cells) {place : Nat} (inside : place < 4 ^ stages) :
    cells place = dft (4 ^ stages) root data (reverse (2 * stages) place) := by
  have here := split place inside 0
  rwa [dft_one, Nat.mul_one, Nat.add_zero, Nat.mul_one, Nat.mul_zero, Nat.zero_add] at here

/-! ### The transform back -/

/-- The powers of a root of unity other than one cancel. -/
theorem sum_pow_eq_zero [IsDomain Ring] {length : Nat} {ratio : Ring} (full : ratio ^ length = 1)
    (other : ratio ≠ 1) : ∑ index ∈ Finset.range length, ratio ^ index = 0 := by
  have telescopes := geom_sum_mul ratio length
  rw [full, sub_self] at telescopes
  exact (mul_eq_zero.mp telescopes).resolve_right (sub_ne_zero.mpr other)

/-- The powers of two roots of unity cancel unless the roots are inverse to each other. -/
theorem sum_pow_mul_pow [IsDomain Ring] {length : Nat} {root inverse : Ring}
    (primitive : IsPrimitiveRoot root length) (cancels : root * inverse = 1) {one other : Nat}
    (oneInside : one < length) (otherInside : other < length) :
    ∑ frequency ∈ Finset.range length, root ^ (one * frequency) * inverse ^ (frequency * other) =
      if one = other then (length : Ring) else 0 := by
  have ratio : ∀ frequency : Nat, root ^ (one * frequency) * inverse ^ (frequency * other) =
      (root ^ one * inverse ^ other) ^ frequency := by
    intro frequency
    rw [mul_pow, ← pow_mul, ← pow_mul, Nat.mul_comm frequency other]
  have undo : ∀ power : Nat, root ^ power * inverse ^ power = 1 := by
    intro power
    rw [← mul_pow, cancels, one_pow]
  simp only [ratio]
  by_cases same : one = other
  · rw [if_pos same, same, undo]
    simp only [one_pow, Finset.sum_const, Finset.card_range, nsmul_eq_mul, mul_one]
  · rw [if_neg same]
    refine sum_pow_eq_zero ?_ fun unity => same ?_
    · have inverseFull : inverse ^ length = 1 := by
        have both := undo length
        rwa [primitive.pow_eq_one, one_mul] at both
      rw [mul_pow, ← pow_mul, ← pow_mul, Nat.mul_comm one, Nat.mul_comm other, pow_mul, pow_mul,
        primitive.pow_eq_one, inverseFull, one_pow, one_pow, one_mul]
    · refine primitive.pow_inj oneInside otherInside ?_
      have moved : root ^ one * (root ^ other * inverse ^ other) = root ^ other := by
        rw [← mul_assoc, mul_right_comm, unity, one_mul]
      rwa [undo, mul_one] at moved

/-- The transform of a turning sequence stands at its own frequency only. -/
theorem dft_turning [IsDomain Ring] {length : Nat} {root inverse : Ring}
    (primitive : IsPrimitiveRoot root length) (cancels : root * inverse = 1) {one other : Nat}
    (oneInside : one < length) (otherInside : other < length) :
    dft length root (fun index => inverse ^ (index * other)) one =
      if one = other then (length : Ring) else 0 := by
  rw [← sum_pow_mul_pow primitive cancels oneInside otherInside, dft]
  refine Finset.sum_congr rfl fun index _ => ?_
  rw [Nat.mul_comm one, mul_comm]

/-- The transform of a sequence that turns the other way vanishes unless the frequencies add up to
the length. -/
theorem dft_turningBack [IsDomain Ring] {length : Nat} {root : Ring}
    (primitive : IsPrimitiveRoot root length) {one other : Nat} (apart : ¬length ∣ other + one) :
    dft length root (fun index => root ^ (index * other)) one = 0 := by
  have ratio : ∀ index : Nat, root ^ (index * other) * root ^ (index * one) =
      (root ^ (other + one)) ^ index := by
    intro index
    rw [← pow_add, ← Nat.mul_add, Nat.mul_comm index, pow_mul]
  simp only [dft, ratio]
  refine sum_pow_eq_zero ?_ fun unity => apart ((primitive.pow_eq_one_iff_dvd _).mp unity)
  rw [← pow_mul, Nat.mul_comm, pow_mul, primitive.pow_eq_one, one_pow]

/-- Back and forth with inverse roots gives the length times the data. -/
theorem dft_dft [IsDomain Ring] {length : Nat} {root inverse : Ring}
    (primitive : IsPrimitiveRoot root length) (cancels : root * inverse = 1) (data : Nat → Ring)
    {index : Nat} (inside : index < length) :
    dft length inverse (dft length root data) index = length * data index := by
  have exchanged : dft length inverse (dft length root data) index =
      ∑ one ∈ Finset.range length, data one * ∑ frequency ∈ Finset.range length,
        root ^ (one * frequency) * inverse ^ (frequency * index) := by
    simp only [dft, Finset.sum_mul, Finset.mul_sum]
    rw [Finset.sum_comm]
    exact Finset.sum_congr rfl fun one _ => Finset.sum_congr rfl fun _ _ => mul_assoc _ _ _
  rw [exchanged, Finset.sum_congr rfl fun one member => congrArg (data one * ·)
    (sum_pow_mul_pow primitive cancels (Finset.mem_range.mp member) inside)]
  simp only [mul_ite, mul_zero, Finset.sum_ite_eq', Finset.mem_range, inside, if_true]
  exact mul_comm _ _

end Fourier
