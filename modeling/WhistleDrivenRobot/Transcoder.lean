/-
This file says what the transcoder computes. Called once for every word of a
stream, the filter is a decimator with four integrators and four combs over the
words of sixteen bits. Sums of bits do not overflow there, they wrap around, and
wrapping around is a ring homomorphism: what the filter returns is the exact
output of the same decimator over the integers, wrapped around once at the end.
-/

import Mathlib.Data.BitVec
import Mathlib.Data.Int.ModEq
import WhistleDrivenRobot.Cic
import WhistleDrivenRobot.Filter

namespace WhistleDrivenRobot

/-! ### The filter on a stream of words -/

/-- The values that the filter returns on the words of a stream, one call for each of them. -/
def transcode : FilterRegs → List Word → List Word
  | _, [] => []
  | regs, word :: rest => (PDMFilter regs word).1 :: transcode (PDMFilter regs word).2 rest

/-- The bit of a stream of words at a time, the most significant bit of each word first. -/
def pdmBit (words : List Word) (time : Nat) : Bool :=
  (words.getD (time / 16) 0).getLsbD (15 - time % 16)

/-- A stream of words as a stream of samples. -/
def pdmSample (words : List Word) (time : Nat) : Int := if pdmBit words time then 1 else -1

/-- The output of the decimator over the integers, from empty registers. -/
def exactOutput (words : List Word) (index : Nat) : Int :=
  Cic.output 16 (List.replicate filterOrder 0) (List.replicate filterOrder 0) (pdmSample words)
    index

theorem length_transcode (regs : FilterRegs) (words : List Word) :
    (transcode regs words).length = words.length := by
  induction words generalizing regs with
  | nil => rfl
  | cons word rest inductionHypothesis =>
    rw [transcode, List.length_cons, inductionHypothesis, List.length_cons]

theorem pdmBit_cons_of_lt (word : Word) (rest : List Word) {time : Nat} (early : time < 16) :
    pdmBit (word :: rest) time = word.getLsbD (15 - time) := by
  rw [pdmBit, Nat.div_eq_of_lt early, Nat.mod_eq_of_lt early, List.getD_cons_zero]

theorem pdmBit_cons_add (word : Word) (rest : List Word) (time : Nat) :
    pdmBit (word :: rest) (16 + time) = pdmBit rest time := by
  rw [pdmBit, Nat.add_div_left _ (by decide), Nat.add_mod_left, List.getD_cons_succ, pdmBit]

/-! ### The filter is the decimator over the words -/

theorem integrate_eq (input : Word) (regs : List Word) :
    integrate input regs = Cic.integrate input regs := by
  induction regs generalizing input with
  | nil => rfl
  | cons reg rest inductionHypothesis =>
    rw [integrate, Cic.integrate, inductionHypothesis]

theorem comb_eq (combInput : Word) (regs : List Word) :
    comb combInput regs = Cic.comb combInput regs := by
  induction regs generalizing combInput with
  | nil => rfl
  | cons reg rest inductionHypothesis => rw [comb, Cic.comb, inductionHypothesis]

theorem foldl_range_integrate (samples : Nat → Word) (intReg : List Word) (time : Nat) :
    (List.range time).foldl (fun regs i => integrate (samples i) regs) intReg =
      Cic.sums intReg samples time := by
  induction time with
  | zero => rfl
  | succ time inductionHypothesis =>
    rw [List.range_succ, List.foldl_append, inductionHypothesis, List.foldl_cons, List.foldl_nil,
      integrate_eq, Cic.sums]

/-- The first word of a stream drives the integrators through its first sixteen samples. -/
theorem integrateBits_eq (word : Word) (rest : List Word) (intReg : List Word) :
    integrateBits (bits word) intReg =
      Cic.sums intReg (fun time => pdmLUT (pdmBit (word :: rest) time)) 16 := by
  rw [integrateBits, bits, List.foldl_map,
    foldl_range_integrate fun i => pdmLUT (word.getLsbD (15 - i))]
  exact Cic.sums_congr fun time early => congrArg pdmLUT (pdmBit_cons_of_lt word rest early).symm

theorem getLastD_integrateBits (word : Word) (regs : FilterRegs) :
    (integrateBits (bits word) regs.intReg).getLastD 0 =
      (integrateBits (bits word) regs.intReg).getD (filterOrder - 1) 0 := by
  rw [List.getLastD_eq_getLast?, List.getLast?_eq_getElem?, length_integrateBits,
    regs.intReg_length, List.getD_eq_getElem?_getD]

/-- What the integrators hold after the first word enters the combs. -/
theorem decimated_cons_zero (regs : FilterRegs) (word : Word) (rest : List Word) :
    Cic.decimated 16 regs.intReg (fun time => pdmLUT (pdmBit (word :: rest) time)) 0 =
      (integrateBits (bits word) regs.intReg).getD (filterOrder - 1) 0 := by
  rw [Cic.decimated, ← getLastD_integrateBits, integrateBits_eq word rest]

/-- The n-th call returns the n-th output of the decimator, whatever the registers held. -/
theorem getElem?_transcode (regs : FilterRegs) (words : List Word) (index : Nat) :
    (transcode regs words)[index]? = words[index]?.map fun _ =>
      Cic.output 16 regs.intReg regs.combReg (fun time => pdmLUT (pdmBit words time)) index := by
  induction words generalizing regs index with
  | nil => rfl
  | cons word rest inductionHypothesis =>
    cases index with
    | zero =>
      refine congrArg some ?_
      rw [Cic.output, Cic.combed, decimated_cons_zero, ← comb_eq]
      rfl
    | succ index =>
      rw [transcode, List.getElem?_cons_succ, List.getElem?_cons_succ, inductionHypothesis]
      refine congrArg (fun value => rest[index]?.map fun _ => value) ?_
      have delays : Cic.delays regs.combReg (Cic.decimated 16 regs.intReg
          fun time => pdmLUT (pdmBit (word :: rest) time)) 1 = (PDMFilter regs word).2.combReg := by
        rw [Cic.delays, decimated_cons_zero, ← comb_eq]
        rfl
      have sums : (PDMFilter regs word).2.intReg = integrateBits (bits word) regs.intReg := by
        rw [PDMFilter]
      rw [Nat.add_comm index 1, Cic.output_add, delays, Nat.mul_one, ← integrateBits_eq]
      simp only [pdmBit_cons_add]
      rw [sums]

/-! ### Exact outputs -/

/-- The filter returns the exact output, wrapped around. -/
theorem getElem?_transcode_zero (words : List Word) (index : Nat) :
    (transcode FilterRegs.zero words)[index]? =
      words[index]?.map fun _ => BitVec.ofInt 16 (exactOutput words index) := by
  have wrap : ∀ value : Int, (Int.castRingHom Word) value = BitVec.ofInt 16 value := fun _ => rfl
  have sample : ∀ time, (Int.castRingHom Word) (pdmSample words time) =
      pdmLUT (pdmBit words time) := by
    intro time
    rw [pdmSample, pdmLUT]
    split
    · exact map_one _
    · exact (map_neg _ _).trans (congrArg _ (map_one _))
  have empty : FilterRegs.zero.intReg = List.replicate filterOrder 0 := rfl
  have bare : FilterRegs.zero.combReg = List.replicate filterOrder 0 := rfl
  rw [getElem?_transcode, ← wrap, exactOutput, Cic.map_output, empty, bare]
  simp only [List.map_replicate, map_zero, sample]

/-- The exact output weighs the latest bits by the response of the decimator. -/
theorem exactOutput_eq (words : List Word) (index : Nat) :
    exactOutput words index = ∑ k ∈ Finset.range 61,
      (Cic.response Int 16 filterOrder).coeff k *
        Cic.extended (pdmSample words) (16 * index + 15 - k) :=
  Cic.output_eq (by decide) (pdmSample words) index

theorem eq_ofInt_of_transcode {words : List Word} {index : Nat} {value : Word}
    (returned : (transcode FilterRegs.zero words)[index]? = some value) :
    value = BitVec.ofInt 16 (exactOutput words index) := by
  rw [getElem?_transcode_zero] at returned
  obtain ⟨_, _, same⟩ := Option.map_eq_some_iff.mp returned
  exact same.symm

theorem transcode_modEq {words : List Word} {index : Nat} {value : Word}
    (returned : (transcode FilterRegs.zero words)[index]? = some value) :
    (value.toNat : Int) ≡ ∑ k ∈ Finset.range 61,
      ((∑ i ∈ Finset.range 16, Polynomial.X ^ i : Polynomial Int) ^ 4).coeff k *
        Cic.extended (pdmSample words) (16 * index + 15 - k) [ZMOD 2 ^ 16] := by
  have nonnegative : 0 ≤ exactOutput words index % 2 ^ 16 := Int.emod_nonneg _ (by decide)
  have exact : exactOutput words index = ∑ k ∈ Finset.range 61,
      ((∑ i ∈ Finset.range 16, Polynomial.X ^ i : Polynomial Int) ^ 4).coeff k *
        Cic.extended (pdmSample words) (16 * index + 15 - k) := exactOutput_eq words index
  rw [← exact, eq_ofInt_of_transcode returned, BitVec.toNat_ofInt]
  show ((exactOutput words index % 2 ^ 16).toNat : Int) ≡ exactOutput words index [ZMOD 2 ^ 16]
  rw [Int.toNat_of_nonneg nonnegative]
  exact Int.mod_modEq _ _

/-- The sum for the fifth word is -59822, and 5714 is left of it in sixteen bits. -/
theorem transcode_modEq_loud :
    ((5714#16).toNat : Int) ≡ ∑ k ∈ Finset.range 61,
      ((∑ i ∈ Finset.range 16, Polynomial.X ^ i : Polynomial Int) ^ 4).coeff k *
        Cic.extended (pdmSample [0x0000, 0x1234, 0x0000, 0x0100, 0x0000])
          (16 * (4 : Nat) + 15 - k) [ZMOD 2 ^ 16] :=
  transcode_modEq (by decide +kernel)

/-! ### Registers that hold anything -/

/-- Whatever the registers held in the beginning, it is forgotten four words later. -/
theorem transcode_forgets (regs other : FilterRegs) (words : List Word) :
    (transcode regs words).drop 4 = (transcode other words).drop 4 := by
  refine List.ext_getElem? fun index => ?_
  rw [List.getElem?_drop, List.getElem?_drop, getElem?_transcode, getElem?_transcode,
    Nat.add_comm 4 index, Cic.output_settled regs.intReg_length regs.combReg_length,
    Cic.output_settled other.intReg_length other.combReg_length]

/-! ### The range of the words -/

/-- The weight of the bits of one kind among those that enter an output. -/
noncomputable def weight (bit : Bool) (words : List Word) (index : Nat) : Int :=
  ∑ k ∈ Finset.range 61, (Cic.response Int 16 filterOrder).coeff k *
    Cic.extended (fun time => if pdmBit words time = bit then 1 else 0) (16 * index + 15 - k)

/-- Neither of the two kinds of bits outweighs the other by more than a word can hold. -/
def Moderate (words : List Word) (index : Nat) : Prop :=
  weight true words index ≤ weight false words index + 32767 ∧
    weight false words index ≤ weight true words index + 32768

theorem exactOutput_eq_weight (words : List Word) (index : Nat) :
    exactOutput words index = weight true words index - weight false words index := by
  rw [exactOutput_eq, weight, weight, ← Finset.sum_sub_distrib]
  refine Finset.sum_congr rfl fun k _ => ?_
  rw [← mul_sub]
  refine congrArg (_ * ·) ?_
  simp only [Cic.extended, pdmSample]
  cases pdmBit words (16 * index + 15 - k : Int).toNat <;> split <;> rfl

/-- A value that a `short` can hold. -/
def FitsShort (value : Int) : Prop := -32768 ≤ value ∧ value ≤ 32767

instance (value : Int) : Decidable (FitsShort value) := inferInstanceAs (Decidable (_ ∧ _))

theorem fitsShort_iff_moderate (words : List Word) (index : Nat) :
    FitsShort (exactOutput words index) ↔ Moderate words index := by
  rw [exactOutput_eq_weight, FitsShort, Moderate]
  omega

theorem toInt_ofInt_of_fits {value : Int} (fits : FitsShort value) :
    (BitVec.ofInt 16 value).toInt = value := by
  obtain ⟨low, high⟩ := fits
  rw [BitVec.toInt_ofInt]
  exact Int.bmod_eq_of_le_mul_two (by omega) (by omega)

/-- The stream is transcoded without overflow: every exact output fits the word that is returned
for it. -/
def Exact (words : List Word) : Prop :=
  ∀ index value, (transcode FilterRegs.zero words)[index]? = some value →
    FitsShort (exactOutput words index) ∧ value.toInt = exactOutput words index

/-- Both streams are transcoded without overflow, and where their exact outputs differ the words
returned for them do. -/
def Undistorted (first second : List Word) : Prop :=
  Exact first ∧ Exact second ∧
    ∀ index value other, (transcode FilterRegs.zero first)[index]? = some value →
      (transcode FilterRegs.zero second)[index]? = some other →
      exactOutput first index ≠ exactOutput second index → value ≠ other

theorem exact_iff_moderate (words : List Word) :
    Exact words ↔ ∀ index < words.length, Moderate words index := by
  constructor
  · intro exact index inside
    have returned := List.getElem?_eq_getElem
      ((length_transcode FilterRegs.zero words).symm ▸ inside)
    exact (fitsShort_iff_moderate words index).mp (exact index _ returned).1
  · intro moderate index value returned
    obtain ⟨inside, _⟩ := List.getElem?_eq_some_iff.mp returned
    rw [length_transcode] at inside
    have fits := (fitsShort_iff_moderate words index).mpr (moderate index inside)
    refine ⟨fits, ?_⟩
    rw [eq_ofInt_of_transcode returned, toInt_ofInt_of_fits fits]

/-- Neither stream overflows, and so the two are told apart, exactly when in both of them neither
kind of bits ever outweighs the other by more than a word can hold. -/
theorem undistorted_iff_moderate (first second : List Word) :
    Undistorted first second ↔
      (∀ index < first.length, Moderate first index) ∧
        ∀ index < second.length, Moderate second index := by
  rw [← exact_iff_moderate, ← exact_iff_moderate]
  constructor
  · rintro ⟨firstExact, secondExact, -⟩
    exact ⟨firstExact, secondExact⟩
  · rintro ⟨firstExact, secondExact⟩
    refine ⟨firstExact, secondExact, fun index value other returned otherReturned differ same => ?_⟩
    refine differ ?_
    rw [← (firstExact index value returned).2, same, (secondExact index other otherReturned).2]

theorem not_undistorted_loud :
    exactOutput (List.replicate 4 0xffff) 3 = 65536 ∧ exactOutput (List.replicate 4 0) 3 = -65536 ∧
      (transcode FilterRegs.zero (List.replicate 4 0xffff))[3]? = some 0 ∧
      (transcode FilterRegs.zero (List.replicate 4 0))[3]? = some 0 ∧
      ¬Undistorted (List.replicate 4 0xffff) (List.replicate 4 0) := by
  have loud : exactOutput (List.replicate 4 0xffff) 3 = 65536 := by decide +kernel
  have quiet : exactOutput (List.replicate 4 0) 3 = -65536 := by decide +kernel
  have loudWord : (transcode FilterRegs.zero (List.replicate 4 0xffff))[3]? = some 0 := by
    decide +kernel
  have quietWord : (transcode FilterRegs.zero (List.replicate 4 0))[3]? = some 0 := by
    decide +kernel
  refine ⟨loud, quiet, loudWord, quietWord, fun undistorted => ?_⟩
  refine undistorted.2.2 3 0 0 loudWord quietWord ?_ rfl
  rw [loud, quiet]
  decide

/-- Once the response is full, moderate means that the ones weigh at least a quarter and less than
three quarters of all bits. -/
theorem moderate_iff_of_full (words : List Word) {index : Nat} (full : 3 ≤ index) :
    Moderate words index ↔ 16384 ≤ weight true words index ∧ weight true words index < 49152 := by
  have total : weight true words index + weight false words index = 65536 := by
    have gain : ∑ k ∈ Finset.range 61, (Cic.response Int 16 filterOrder).coeff k = 65536 :=
      Cic.sum_coeff_response 16 filterOrder
    rw [← gain, weight, weight, ← Finset.sum_add_distrib]
    refine Finset.sum_congr rfl fun k member => ?_
    have latest : ¬(16 * index + 15 - k : Int) < 0 := by
      have inside := Finset.mem_range.mp member
      omega
    rw [← mul_add, Cic.extended, Cic.extended, if_neg latest, if_neg latest]
    cases pdmBit words (16 * index + 15 - k : Int).toNat <;> exact mul_one _
  rw [Moderate]
  omega

end WhistleDrivenRobot
