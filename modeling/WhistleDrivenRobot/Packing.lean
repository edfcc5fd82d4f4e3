/-
This file follows the PCM words into the input of the Fourier transform. The
filter returns a signed sum as an unsigned word, and the transform is given that
word less 32768, as if the words were centred there. The two agree about sums of
the same sign; silence itself is where they part.
-/

import WhistleDrivenRobot.Recognition
import WhistleDrivenRobot.Transcoder

namespace WhistleDrivenRobot

open Binary32

/-! ### Packing a chunk -/

/-- The real part that is stored for a PCM word. -/
def realPart (word : Word) : Float32T :=
  Float32.Model.ofNat word.toNat - Float32.Model.ofInt 32768

/-- One round of the packing loop: the real part, then the imaginary part, at an index that is
converted to `uint16_t` as a whole. -/
def packRound (PCMvector : Nat → Word) (input : Nat → Float32T) (i : Nat) :
    Nat → Float32T :=
  let input := Function.update input (i * 2) (realPart (PCMvector i))
  Function.update input ((i * 2 + 1) % 2 ^ 16) (Float32.Model.ofInt 0)

/-- The packing loop of `FFTandCallback`. -/
def pack (PCMvector : Nat → Word) (size : Nat) (input : Nat → Float32T) :
    Nat → Float32T :=
  (List.range size).foldl (packRound PCMvector) input

/-- The imaginary parts never overwrite a real part. -/
theorem pack_even (PCMvector : Nat → Word) (input : Nat → Float32T) {size i : Nat}
    (inside : i < size) : pack PCMvector size input (i * 2) = realPart (PCMvector i) := by
  induction size with
  | zero => exact absurd inside (Nat.not_lt_zero _)
  | succ size inductionHypothesis =>
    have odd : i * 2 ≠ (size * 2 + 1) % 2 ^ 16 := by omega
    rw [pack, List.range_succ, List.foldl_append, List.foldl_cons, List.foldl_nil, packRound,
      Function.update_of_ne odd]
    rcases Nat.lt_succ_iff_lt_or_eq.mp inside with before | rfl
    · rw [Function.update_of_ne (by omega)]
      exact inductionHypothesis before
    · exact Function.update_self _ _ _

/-- The number of PCM words in a chunk. -/
def chunkSize : Nat := 4096

/-- The chunk of a stream of PCM words that `FFTandCallback` is called on. -/
def chunkAt (values : List Word) (chunk i : Nat) : Word := values.getD (chunkSize * chunk + i) 0

/-- What `FFTandCallback` stores in `input` for a position of the stream, on whatever the array held
before. -/
def storedSample (words : List Word) (input : Nat → Float32T) (position : Nat) :
    Float32T :=
  pack (chunkAt (transcode FilterRegs.zero words) (position / chunkSize)) chunkSize input
    (position % chunkSize * 2)

theorem storedSample_eq (words : List Word) (input : Nat → Float32T) (position : Nat) :
    storedSample words input position =
      realPart ((transcode FilterRegs.zero words).getD position 0) := by
  rw [storedSample, pack_even _ _ (Nat.mod_lt _ (by decide)), chunkAt, Nat.div_add_mod]

/-! ### What is stored is worth -/

theorem represents_realPart (word : Word) :
    Represents (realPart word).unpack (((word.toNat : Int) : Rat) - (32768 : Int)) := by
  have below := word.isLt
  have word16 : |(word.toNat : Int)| < 2 ^ 24 := by
    rw [abs_of_nonneg (Int.natCast_nonneg _)]
    omega
  have centre : |(32768 : Int)| < 2 ^ 24 := by decide
  have difference : |(word.toNat : Int) - 32768| < 2 ^ 24 := by
    rw [abs_lt]
    omega
  refine represents_float_sub (represents_float_ofInt word16) (represents_float_ofInt centre)
    difference (by decide) (show (0 : Int) ≤ 104 by decide) ?_
  rw [zpow_zero, mul_one, Int.cast_sub]

/-- A sum is stored off by half the range of a word, below or above according to its sign. -/
theorem represents_storedSample {words : List Word} (input : Nat → Float32T) {position : Nat}
    (inside : position < words.length) (fits : FitsShort (exactOutput words position)) :
    Represents (storedSample words input position).unpack
      (exactOutput words position +
        if exactOutput words position < 0 then (32768 : Rat) else -32768) := by
  have returned : (transcode FilterRegs.zero words)[position]? =
      some (BitVec.ofInt 16 (exactOutput words position)) := by
    rw [getElem?_transcode_zero, List.getElem?_eq_getElem inside]
    rfl
  have word : (transcode FilterRegs.zero words).getD position 0 =
      BitVec.ofInt 16 (exactOutput words position) := by
    rw [List.getD_eq_getElem?_getD, returned, Option.getD_some]
  have stored := represents_realPart (BitVec.ofInt 16 (exactOutput words position))
  rw [← word, ← storedSample_eq words input, word] at stored
  obtain ⟨low, high⟩ := fits
  have wrapped : ((BitVec.ofInt 16 (exactOutput words position)).toNat : Int) =
      exactOutput words position + if exactOutput words position < 0 then 65536 else 0 := by
    rw [BitVec.toNat_ofInt]
    split <;> omega
  rw [wrapped] at stored
  refine Eq.subst ?_ stored
  split
  · push_cast
    ring
  · push_cast
    ring

/-! ### The image of the signal -/

/-- The samples that are stored for two positions are ordered like the exact outputs, and off by the
same amount. -/
def FaithfulImage (words : List Word) (input : Nat → Float32T) (first second : Nat) : Prop :=
  (exactOutput words first ≤ exactOutput words second →
      storedSample words input first ≤ storedSample words input second) ∧
    ∃ offset : Rat,
      worth (storedSample words input first) =
          ((exactOutput words first + offset : Rat) : WithTop Rat) ∧
        worth (storedSample words input second) =
          ((exactOutput words second + offset : Rat) : WithTop Rat)

theorem negative_iff_weight (words : List Word) (position : Nat) :
    exactOutput words position < 0 ↔ weight true words position < weight false words position := by
  rw [exactOutput_eq_weight, sub_neg]

/-- The image of two positions is faithful exactly when the zeros outweigh the ones at both of them
or at neither. -/
theorem faithfulImage_iff {words : List Word} (input : Nat → Float32T) {first second : Nat}
    (firstInside : first < words.length) (secondInside : second < words.length)
    (firstFits : FitsShort (exactOutput words first))
    (secondFits : FitsShort (exactOutput words second)) :
    FaithfulImage words input first second ↔
      (weight true words first < weight false words first ↔
        weight true words second < weight false words second) := by
  have firstStored := represents_storedSample input firstInside firstFits
  have secondStored := represents_storedSample input secondInside secondFits
  rw [← negative_iff_weight, ← negative_iff_weight, FaithfulImage,
    le_iff_of_represents firstStored secondStored, worth, worth, firstStored.value,
    secondStored.value]
  constructor
  · rintro ⟨-, offset, firstOffset, secondOffset⟩
    have firstSame := add_left_cancel (WithTop.coe_injective (WithBot.coe_injective firstOffset))
    have secondSame := add_left_cancel (WithTop.coe_injective (WithBot.coe_injective secondOffset))
    have same := firstSame.trans secondSame.symm
    by_cases firstNegative : exactOutput words first < 0
    · by_cases secondNegative : exactOutput words second < 0
      · exact iff_of_true firstNegative secondNegative
      · rw [if_pos firstNegative, if_neg secondNegative] at same
        norm_num at same
    · by_cases secondNegative : exactOutput words second < 0
      · rw [if_neg firstNegative, if_pos secondNegative] at same
        norm_num at same
      · exact iff_of_false firstNegative secondNegative
  · intro sides
    have same := if_congr sides (rfl : (32768 : Rat) = 32768) (rfl : (-32768 : Rat) = -32768)
    refine ⟨fun le => ?_, _, rfl, ?_⟩
    · rw [same]
      exact add_le_add_left (Int.cast_le.mpr le) _
    · rw [same]

theorem faithfulImage_iff_rising :
    FaithfulImage [0xffff, 0] (fun _ => Float32.Model.ofInt 0) 0 1 ↔
      (weight true [0xffff, 0] 0 < weight false [0xffff, 0] 0 ↔
        weight true [0xffff, 0] 1 < weight false [0xffff, 0] 1) :=
  faithfulImage_iff _ (by decide) (by decide) (by decide +kernel) (by decide +kernel)

theorem not_faithfulImage_around_silence :
    exactOutput [0xffff, 0, 0xffff] 2 = -2244 ∧ exactOutput [0xffff, 0, 0xffff] 0 = 3876 ∧
      storedSample [0xffff, 0, 0xffff] (fun _ => Float32.Model.ofInt 0) 2 =
        Float32.Model.ofInt 30524 ∧
      storedSample [0xffff, 0, 0xffff] (fun _ => Float32.Model.ofInt 0) 0 =
        Float32.Model.ofInt (-28892) ∧
      ¬FaithfulImage [0xffff, 0, 0xffff] (fun _ => Float32.Model.ofInt 0) 2 0 := by
  have negative : exactOutput [0xffff, 0, 0xffff] 2 = -2244 := by decide +kernel
  have positive : exactOutput [0xffff, 0, 0xffff] 0 = 3876 := by decide +kernel
  have high : storedSample [0xffff, 0, 0xffff] (fun _ => Float32.Model.ofInt 0) 2 =
      Float32.Model.ofInt 30524 := by
    rw [storedSample_eq]
    decide +kernel
  have low : storedSample [0xffff, 0, 0xffff] (fun _ => Float32.Model.ofInt 0) 0 =
      Float32.Model.ofInt (-28892) := by
    rw [storedSample_eq]
    decide +kernel
  refine ⟨negative, positive, high, low, fun faithful => ?_⟩
  have ordered := faithful.1 (by rw [negative, positive]; decide)
  rw [high, low] at ordered
  exact absurd ordered (by decide)

end WhistleDrivenRobot
