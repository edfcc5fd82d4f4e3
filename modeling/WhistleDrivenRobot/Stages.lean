/-
This file turns the loops of the Fourier transform into stages: whatever the order
of the butterflies in a stage, every complex value becomes what its own butterfly
makes of the values before the stage. The rule for the whole transform then asks
for what a single stage does.
-/

import WhistleDrivenRobot.Radix4
import Mathlib.Data.List.Nodup

namespace WhistleDrivenRobot

open InPlace

variable {Value : Type}

/-! ### Butterflies on complex values -/

theorem load_store (pSrc : Nat → Value) (i : Nat) (point : Point Value) :
    load (store pSrc i point) = Function.update (load pSrc) i point := by
  funext place
  have realOther : 2 * place ≠ 2 * i + 1 := by omega
  have imaginaryOther : 2 * place + 1 ≠ 2 * i := by omega
  rw [load, store, Function.update_of_ne realOther]
  by_cases same : place = i
  · rw [same, Function.update_self, Function.update_self, Function.update_self]
  · have realPlace : 2 * place ≠ 2 * i := by omega
    have imaginaryPlace : 2 * place + 1 ≠ 2 * i + 1 := by omega
    rw [Function.update_of_ne realPlace, Function.update_of_ne imaginaryPlace,
      Function.update_of_ne imaginaryOther, Function.update_of_ne same, load]

/-- The part of a butterfly's output with a number below four. -/
def Quad.part (quad : Quad Value) : Nat → Point Value
  | 0 => quad.first
  | 1 => quad.second
  | 2 => quad.third
  | _ => quad.fourth

/-- The inputs of a butterfly. -/
def inputs (points : Nat → Point Value) (n2 i0 : Nat) : Quad Value :=
  ⟨points i0, points (i0 + n2), points (i0 + n2 + n2), points (i0 + n2 + n2 + n2)⟩

/-- A butterfly on an array of complex values. -/
def pointStep (kernel : Quad Value → Quad Value) (n2 i0 : Nat) (points : Nat → Point Value) :
    Nat → Point Value :=
  let output := kernel (inputs points n2 i0)
  Function.update (Function.update (Function.update (Function.update points i0 output.first)
    (i0 + n2) output.second) (i0 + n2 + n2) output.third) (i0 + n2 + n2 + n2) output.fourth

theorem load_butterflyAt (kernel : Quad Value → Quad Value) (n2 i0 : Nat) (pSrc : Nat → Value) :
    load (butterflyAt kernel n2 i0 pSrc) = pointStep kernel n2 i0 (load pSrc) := by
  simp only [butterflyAt, load_store]
  rfl

theorem pointStep_apply (kernel : Quad Value → Quad Value) {n2 : Nat} (positive : 0 < n2)
    (i0 : Nat) (points : Nat → Point Value) {digit : Nat} (single : digit < 4) :
    pointStep kernel n2 i0 points (i0 + digit * n2) =
      (kernel (inputs points n2 i0)).part digit := by
  match digit, single with
  | 0, _ =>
    rw [Nat.zero_mul, Nat.add_zero, pointStep, Function.update_of_ne (by omega),
      Function.update_of_ne (by omega), Function.update_of_ne (by omega), Function.update_self]
    rfl
  | 1, _ =>
    rw [Nat.one_mul, pointStep, Function.update_of_ne (by omega),
      Function.update_of_ne (by omega), Function.update_self]
    rfl
  | 2, _ =>
    have place : i0 + 2 * n2 = i0 + n2 + n2 := by omega
    rw [place, pointStep, Function.update_of_ne (by omega), Function.update_self]
    rfl
  | 3, _ =>
    have place : i0 + 3 * n2 = i0 + n2 + n2 + n2 := by omega
    rw [place, pointStep, Function.update_self]
    rfl

/-- The places of a butterfly. -/
def Touches (n2 i0 place : Nat) : Prop := ∃ digit < 4, place = i0 + digit * n2

theorem inputs_congr {points other : Nat → Point Value} {n2 i0 : Nat}
    (same : ∀ place, Touches n2 i0 place → points place = other place) :
    inputs points n2 i0 = inputs other n2 i0 := by
  have first := same i0 ⟨0, by decide, by omega⟩
  have second := same (i0 + n2) ⟨1, by decide, by omega⟩
  have third := same (i0 + n2 + n2) ⟨2, by decide, by omega⟩
  have fourth := same (i0 + n2 + n2 + n2) ⟨3, by decide, by omega⟩
  rw [inputs, first, second, third, fourth, inputs]

theorem local_pointStep (kernel : Quad Value → Quad Value) {n2 : Nat} (positive : 0 < n2)
    (i0 : Nat) : Local (Touches n2 i0) (pointStep kernel n2 i0) where
  frame := by
    intro points place outside
    have apart : ∀ digit < 4, place ≠ i0 + digit * n2 :=
      fun digit single there => outside ⟨digit, single, there⟩
    have first := apart 0 (by decide)
    have second := apart 1 (by decide)
    have third := apart 2 (by decide)
    have fourth := apart 3 (by decide)
    rw [pointStep, Function.update_of_ne (by omega), Function.update_of_ne (by omega),
      Function.update_of_ne (by omega), Function.update_of_ne (by omega)]
  reads := by
    rintro points other same _ ⟨digit, single, rfl⟩
    rw [pointStep_apply kernel positive i0 points single,
      pointStep_apply kernel positive i0 other single, inputs_congr same]

/-! ### One stage -/

/-- What a stage does: the four quarters of every block go through the butterflies together, and
nothing behind the blocks changes. -/
structure Passes (kernel : Nat → Quad Value → Quad Value) (blocks quarter modifier : Nat)
    (before after : Nat → Point Value) : Prop where
  parts : ∀ block < blocks, ∀ digit < 4, ∀ index < quarter,
    after ((4 * block + digit) * quarter + index) =
      (kernel (index * modifier) (inputs before quarter (block * (4 * quarter) + index))).part digit
  frame : ∀ place, blocks * (4 * quarter) ≤ place → after place = before place

/-- The butterfly with a number in its block, and the number of the block. -/
def stageStep (kernel : Nat → Quad Value → Quad Value) (quarter modifier : Nat)
    (index : Nat × Nat) : (Nat → Point Value) → Nat → Point Value :=
  pointStep (kernel (index.1 * modifier)) quarter (index.2 * (4 * quarter) + index.1)

theorem place_inj {length one other low lower : Nat} (inside : low < length)
    (otherInside : lower < length) (same : one * length + low = other * length + lower) :
    one = other ∧ low = lower := by
  have quotients := congrArg (· / length) same
  have remainders := congrArg (· % length) same
  have positive : 0 < length := Nat.zero_lt_of_lt inside
  simp only [Nat.mul_comm _ length, Nat.mul_add_div positive, Nat.div_eq_of_lt inside,
    Nat.div_eq_of_lt otherInside, Nat.add_zero] at quotients
  simp only [Nat.mul_comm _ length, Nat.mul_add_mod, Nat.mod_eq_of_lt inside,
    Nat.mod_eq_of_lt otherInside] at remainders
  exact ⟨quotients, remainders⟩

/-- Two butterflies of a stage have no place in common. -/
theorem touches_disjoint {quarter : Nat} {one other : Nat × Nat} (oneInside : one.1 < quarter)
    (otherInside : other.1 < quarter) {place : Nat}
    (oneTouches : Touches quarter (one.2 * (4 * quarter) + one.1) place)
    (otherTouches : Touches quarter (other.2 * (4 * quarter) + other.1) place) : one = other := by
  obtain ⟨digit, single, rfl⟩ := oneTouches
  obtain ⟨otherDigit, otherSingle, same⟩ := otherTouches
  have regrouped : (4 * one.2 + digit) * quarter + one.1 =
      (4 * other.2 + otherDigit) * quarter + other.1 := by
    rw [Nat.add_mul, Nat.add_mul]
    have oneBlock : 4 * one.2 * quarter = one.2 * (4 * quarter) := by ring
    have otherBlock : 4 * other.2 * quarter = other.2 * (4 * quarter) := by ring
    omega
  obtain ⟨blocks, indices⟩ := place_inj oneInside otherInside regrouped
  exact Prod.ext indices (by omega)

/-- Every part of a butterfly lies inside the blocks of its stage. -/
theorem part_inside {blocks quarter block digit index : Nat} (blockInside : block < blocks)
    (single : digit < 4) (inside : index < quarter) :
    (4 * block + digit) * quarter + index < blocks * (4 * quarter) := by
  have within : (4 * block + digit + 1) * quarter ≤ 4 * blocks * quarter :=
    Nat.mul_le_mul_right _ (by omega)
  have expanded : (4 * block + digit + 1) * quarter = (4 * block + digit) * quarter + quarter := by
    ring
  have total : 4 * blocks * quarter = blocks * (4 * quarter) := by ring
  omega

/-- Every place inside the blocks is a part of a butterfly. -/
theorem exists_part {blocks quarter place : Nat} (inside : place < blocks * (4 * quarter)) :
    ∃ block < blocks, ∃ digit < 4, ∃ index < quarter,
      place = (4 * block + digit) * quarter + index := by
  have positive : 0 < quarter := by
    by_contra empty
    obtain rfl : quarter = 0 := by omega
    omega
  have number : place / quarter < blocks * 4 :=
    (Nat.div_lt_iff_lt_mul positive).mpr (by rwa [Nat.mul_assoc])
  refine ⟨place / quarter / 4, by omega, place / quarter % 4, by omega, place % quarter,
    Nat.mod_lt _ positive, ?_⟩
  rw [Nat.div_add_mod, Nat.mul_comm]
  exact (Nat.div_add_mod place quarter).symm

/-- A run through all butterflies of a stage, in any order. -/
theorem passes_run {kernel : Nat → Quad Value → Quad Value} {blocks quarter modifier : Nat}
    {indices : List (Nat × Nat)} (once : indices.Nodup)
    (all : ∀ index, index ∈ indices ↔ index.1 < quarter ∧ index.2 < blocks)
    (points : Nat → Point Value) :
    Passes kernel blocks quarter modifier points
      (run (stageStep kernel quarter modifier) indices points) := by
  have isLocal : ∀ index ∈ indices, Local (Touches quarter (index.2 * (4 * quarter) + index.1))
      (stageStep kernel quarter modifier index) := by
    intro index member
    exact local_pointStep _ (Nat.zero_lt_of_lt ((all index).mp member).1) _
  refine ⟨fun block blockInside digit single index inside => ?_, fun place behind => ?_⟩
  · have member : (index, block) ∈ indices := (all _).mpr ⟨inside, blockInside⟩
    have disjoint : indices.Pairwise fun one other => ∀ place,
        Touches quarter (one.2 * (4 * quarter) + one.1) place →
          ¬Touches quarter (other.2 * (4 * quarter) + other.1) place :=
      once.pairwise_of_forall_ne fun one oneMember other otherMember different place here there =>
        different (touches_disjoint ((all one).mp oneMember).1 ((all other).mp otherMember).1 here
          there)
    have place : (4 * block + digit) * quarter + index =
        block * (4 * quarter) + index + digit * quarter := by ring
    rw [place, run_apply isLocal disjoint member ⟨digit, single, rfl⟩ points]
    exact pointStep_apply _ (Nat.zero_lt_of_lt inside) _ points single
  · refine run_frame isLocal (fun index member => ?_) points
    rintro ⟨digit, single, rfl⟩
    obtain ⟨inside, blockInside⟩ := (all index).mp member
    have before := part_inside blockInside single inside
    have expanded : (4 * index.2 + digit) * quarter + index.1 =
        index.2 * (4 * quarter) + index.1 + digit * quarter := by ring
    omega

/-! ### The loops are stages -/

theorem firstStage_eq_run (kernel : Nat → Quad Value → Quad Value) (n2 twidCoefModifier j i0 : Nat)
    (pSrc : Nat → Value) :
    load (firstStage kernel n2 twidCoefModifier j i0 (i0 * twidCoefModifier) pSrc) =
      run (stageStep kernel n2 twidCoefModifier) ((List.range' i0 j).map fun index => (index, 0))
        (load pSrc) := by
  induction j generalizing i0 pSrc with
  | zero => rfl
  | succ j inductionHypothesis =>
    have coefficient : i0 * twidCoefModifier + twidCoefModifier = (i0 + 1) * twidCoefModifier := by
      ring
    have place : 0 * (4 * n2) + i0 = i0 := by omega
    have step : load (butterflyAt (kernel (i0 * twidCoefModifier)) n2 i0 pSrc) =
        stageStep kernel n2 twidCoefModifier (i0, 0) (load pSrc) := by
      rw [load_butterflyAt, stageStep, place]
    rw [firstStage, coefficient, inductionHypothesis, step, List.range'_succ, List.map_cons]
    rfl

theorem lastStage_eq_run (kernel : Quad Value → Quad Value) (modifier j block : Nat)
    (pSrc : Nat → Value) :
    load (lastStage kernel j (4 * block) pSrc) =
      run (stageStep (fun _ => kernel) 1 modifier) ((List.range' block j).map fun block => (0, block))
        (load pSrc) := by
  induction j generalizing block pSrc with
  | zero => rfl
  | succ j inductionHypothesis =>
    have next : 4 * block + 4 = 4 * (block + 1) := by ring
    have place : block * (4 * 1) + 0 = 4 * block := by ring
    have step : load (butterflyAt kernel 1 (4 * block) pSrc) =
        stageStep (fun _ => kernel) 1 modifier (0, block) (load pSrc) := by
      rw [load_butterflyAt, stageStep, place]
    rw [lastStage, next, inductionHypothesis, step, List.range'_succ, List.map_cons]
    rfl

theorem blockLoop_eq_run (kernel : Nat → Quad Value → Quad Value) (modifier : Nat)
    {n2 blocks index : Nat} (inside : index < n2) (left : Nat) {block : Nat}
    (rounds : block + (left + 1) = blocks) (pSrc : Nat → Value) :
    load (blockLoop (kernel (index * modifier)) (4 * n2) n2 (blocks * (4 * n2))
        (block * (4 * n2) + index) pSrc) =
      run (stageStep kernel n2 modifier) ((List.range' block (left + 1)).map (Prod.mk index))
        (load pSrc) := by
  have step : load (butterflyAt (kernel (index * modifier)) n2 (block * (4 * n2) + index) pSrc) =
      stageStep kernel n2 modifier (index, block) (load pSrc) := load_butterflyAt ..
  have following : block * (4 * n2) + index + 4 * n2 = (block + 1) * (4 * n2) + index := by ring
  induction left generalizing block pSrc with
  | zero =>
    have stops : ¬(block * (4 * n2) + index + 4 * n2 < blocks * (4 * n2) ∧ 0 < 4 * n2) := by
      rw [following, ← rounds, Nat.zero_add]
      omega
    rw [blockLoop, if_neg stops, step]
    rfl
  | succ left inductionHypothesis =>
    have continues : block * (4 * n2) + index + 4 * n2 < blocks * (4 * n2) ∧ 0 < 4 * n2 := by
      have later : (block + 2) * (4 * n2) ≤ blocks * (4 * n2) :=
        Nat.mul_le_mul_right _ (by omega)
      have expanded : (block + 2) * (4 * n2) = (block + 1) * (4 * n2) + 4 * n2 := by ring
      rw [following]
      omega
    rw [blockLoop, if_pos continues, following, inductionHypothesis (by omega) _
      (load_butterflyAt ..) (by ring), step, List.range'_succ, List.map_cons]
    rfl

/-- The butterflies of a stage, in the order of the loops. -/
def stageOrder (index left blocks : Nat) : List (Nat × Nat) :=
  (List.range' index left).flatMap fun index => (List.range' 0 blocks).map (Prod.mk index)

theorem stageOrder_succ (index left blocks : Nat) :
    stageOrder index (left + 1) blocks =
      (List.range' 0 blocks).map (Prod.mk index) ++ stageOrder (index + 1) left blocks := by
  rw [stageOrder, List.range'_succ, List.flatMap_cons]
  rfl

theorem coefficientLoop_eq_run (kernel : Nat → Quad Value → Quad Value) (modifier : Nat)
    {n2 blocks : Nat} (nonempty : 0 < blocks) (left : Nat) {index : Nat}
    (rounds : index + (left + 1) = n2) (pSrc : Nat → Value) :
    load (coefficientLoop kernel (4 * n2) n2 (blocks * (4 * n2)) modifier index (index * modifier)
        pSrc) =
      run (stageStep kernel n2 modifier) (stageOrder index (left + 1) blocks) (load pSrc) := by
  have row : ∀ index < n2, ∀ pSrc : Nat → Value,
      load (blockLoop (kernel (index * modifier)) (4 * n2) n2 (blocks * (4 * n2)) index pSrc) =
        run (stageStep kernel n2 modifier) ((List.range' 0 blocks).map (Prod.mk index))
          (load pSrc) := by
    intro index inside pSrc
    obtain ⟨more, rfl⟩ : ∃ more, blocks = more + 1 := ⟨blocks - 1, by omega⟩
    have whole := blockLoop_eq_run kernel modifier inside more (Nat.zero_add _) pSrc
    rwa [Nat.zero_mul, Nat.zero_add] at whole
  have coefficient : index * modifier + modifier = (index + 1) * modifier := by ring
  induction left generalizing index pSrc with
  | zero =>
    rw [coefficientLoop, if_neg (by omega), row index (by omega), stageOrder, List.range'_one,
      List.flatMap_singleton]
  | succ left inductionHypothesis =>
    rw [coefficientLoop, if_pos (by omega), coefficient, inductionHypothesis (by omega) _ (by ring),
      row index (by omega), ← run_append, ← stageOrder_succ]

/-- The order of the loops meets every butterfly of the stage once. -/
theorem passes_stageOrder (kernel : Nat → Quad Value → Quad Value) (blocks quarter modifier : Nat)
    (points : Nat → Point Value) :
    Passes kernel blocks quarter modifier points
      (run (stageStep kernel quarter modifier) (stageOrder 0 quarter blocks) points) := by
  refine passes_run ?_ (fun index => ?_) points
  · have product : stageOrder 0 quarter blocks = List.range' 0 quarter ×ˢ List.range' 0 blocks := rfl
    rw [product]
    exact (List.nodup_range' ..).product (List.nodup_range' ..)
  · simp only [stageOrder, List.mem_flatMap, List.mem_map, List.mem_range'_1]
    constructor
    · rintro ⟨number, inside, block, blockInside, rfl⟩
      omega
    · intro ⟨inside, blockInside⟩
      exact ⟨index.1, by omega, index.2, by omega, rfl⟩

theorem passes_coefficientLoop (kernel : Nat → Quad Value → Quad Value) {n2 blocks : Nat}
    (modifier : Nat) (positive : 0 < n2) (nonempty : 0 < blocks) (pSrc : Nat → Value) :
    Passes kernel blocks n2 modifier (load pSrc)
      (load (coefficientLoop kernel (4 * n2) n2 (blocks * (4 * n2)) modifier 0 0 pSrc)) := by
  obtain ⟨left, rfl⟩ : ∃ left, n2 = left + 1 := ⟨n2 - 1, by omega⟩
  have whole := coefficientLoop_eq_run kernel modifier nonempty left (Nat.zero_add _) pSrc
  rw [Nat.zero_mul] at whole
  rw [whole]
  exact passes_stageOrder ..

theorem passes_firstStage (kernel : Nat → Quad Value → Quad Value) (n2 modifier : Nat)
    (pSrc : Nat → Value) :
    Passes kernel 1 n2 modifier (load pSrc) (load (firstStage kernel n2 modifier n2 0 0 pSrc)) := by
  have whole := firstStage_eq_run kernel n2 modifier n2 0 pSrc
  rw [Nat.zero_mul] at whole
  rw [whole]
  refine passes_run ?_ (fun index => ?_) _
  · exact (List.nodup_range' ..).map fun one other same => congrArg Prod.fst same
  · simp only [List.mem_map, List.mem_range'_1]
    constructor
    · rintro ⟨number, inside, rfl⟩
      exact ⟨by omega, Nat.one_pos⟩
    · intro ⟨inside, single⟩
      exact ⟨index.1, by omega, Prod.ext rfl (by omega)⟩

theorem passes_lastStage (kernel : Quad Value → Quad Value) (blocks modifier : Nat)
    (pSrc : Nat → Value) :
    Passes (fun _ => kernel) blocks 1 modifier (load pSrc)
      (load (lastStage kernel blocks 0 pSrc)) := by
  have whole := lastStage_eq_run kernel modifier blocks 0 pSrc
  rw [Nat.mul_zero] at whole
  rw [whole]
  refine passes_run ?_ (fun index => ?_) _
  · exact (List.nodup_range' ..).map fun one other same => congrArg Prod.snd same
  · simp only [List.mem_map, List.mem_range'_1]
    constructor
    · rintro ⟨number, inside, rfl⟩
      exact ⟨Nat.one_pos, by omega⟩
    · intro ⟨single, inside⟩
      exact ⟨index.2, by omega, Prod.ext (by omega) rfl⟩

/-! ### The whole transform -/

theorem shiftRight_four_pow (power : Nat) : 4 ^ (power + 1) >>> 2 = 4 ^ power := by
  rw [Nat.shiftRight_eq_div_pow, pow_succ]
  exact Nat.mul_div_cancel _ (by decide)

theorem modifier_next {modifier stage : Nat} (narrow : modifier * 4 ^ (stage + 1) < 2 ^ 16) :
    ((modifier * 4 ^ stage) <<< 2) % 2 ^ 16 = modifier * 4 ^ (stage + 1) := by
  have shifted : (modifier * 4 ^ stage) <<< 2 = modifier * 4 ^ (stage + 1) := by
    rw [Nat.shiftLeft_eq]
    ring
  rw [shifted, Nat.mod_eq_of_lt narrow]

/-- What every stage with coefficients keeps: the numbers of the blocks grow by four, as does the
modifier, and the quarters are what is left of the length. -/
def Keeps (kernel : Nat → Quad Value → Quad Value) (fftLen modifier : Nat)
    (Holds : Nat → (Nat → Point Value) → Prop) : Prop :=
  ∀ stage quarter before after, 4 ^ (stage + 1) * quarter = fftLen → Holds stage before →
    Passes kernel (4 ^ stage) quarter (modifier * 4 ^ stage) before after →
      Holds (stage + 1) after

theorem middleStages_rule {kernel : Nat → Quad Value → Quad Value} {fftLen modifier : Nat}
    {Holds : Nat → (Nat → Point Value) → Prop} (keeps : Keeps kernel fftLen modifier Holds)
    {left stage : Nat} (length : fftLen = 4 ^ (stage + left + 1))
    (narrow : modifier * 4 ^ (stage + left) < 2 ^ 16) {pSrc : Nat → Value}
    (holds : Holds stage (load pSrc)) :
    Holds (stage + left) (load (middleStages kernel fftLen (4 ^ (left + 1)) (4 ^ (left + 1))
      (modifier * 4 ^ stage) pSrc)) := by
  induction left generalizing stage pSrc with
  | zero =>
    rw [middleStages, if_neg (by decide)]
    exact holds
  | succ left inductionHypothesis =>
    have further : 4 < 4 ^ (left + 1 + 1) := by
      have power : 0 < 4 ^ left := Nat.pow_pos (by decide)
      rw [pow_succ, pow_succ]
      omega
    have blockLength : 4 ^ (left + 1 + 1) = 4 * 4 ^ (left + 1) := by ring
    have total : fftLen = 4 ^ stage * (4 * 4 ^ (left + 1)) := by
      rw [length]
      ring
    have reordered : stage + (left + 1) = stage + 1 + left := by ring
    have following : modifier * 4 ^ (stage + 1) < 2 ^ 16 :=
      (Nat.mul_le_mul_left _ (Nat.pow_le_pow_right (by decide) (by omega))).trans_lt narrow
    have passes := passes_coefficientLoop kernel (modifier * 4 ^ stage)
      (Nat.pow_pos (by decide) : 0 < 4 ^ (left + 1)) (Nat.pow_pos (by decide) : 0 < 4 ^ stage) pSrc
    rw [← total, ← blockLength] at passes
    have next := keeps stage (4 ^ (left + 1)) _ _ (by rw [total, pow_succ]; ring) holds passes
    rw [middleStages, if_pos further]
    simp only [shiftRight_four_pow, modifier_next following]
    rw [reordered] at narrow ⊢
    exact inductionHypothesis (by rw [length, reordered]) narrow next

/-- The rule for the whole transform: what holds at the start and is kept by every stage with
coefficients holds when the last stage begins. -/
theorem radix4_rule {kernel : Nat → Quad Value → Quad Value} (lastKernel : Quad Value → Quad Value)
    {fftLen modifier stages : Nat} {Holds : Nat → (Nat → Point Value) → Prop}
    (keeps : Keeps kernel fftLen modifier Holds) (length : fftLen = 4 ^ (stages + 2))
    (narrow : modifier * 4 ^ (stages + 1) < 2 ^ 16) {pSrc : Nat → Value}
    (start : Holds 0 (load pSrc)) :
    ∃ before, Holds (stages + 1) before ∧
      Passes (fun _ => lastKernel) (4 ^ (stages + 1)) 1 0 before
        (load (radix4 kernel lastKernel pSrc fftLen modifier)) := by
  have quarter : fftLen >>> 2 = 4 ^ (stages + 1) := by
    rw [length]
    exact shiftRight_four_pow (stages + 1)
  have following : modifier * 4 ^ (0 + 1) < 2 ^ 16 :=
    (Nat.mul_le_mul_left _ (Nat.pow_le_pow_right (by decide) (by omega))).trans_lt narrow
  have first := passes_firstStage kernel (4 ^ (stages + 1)) modifier pSrc
  have second := keeps 0 (4 ^ (stages + 1)) _ _ (by rw [length]; ring) start
    (by rw [pow_zero, Nat.mul_one]; exact first)
  have reordered : stages + 1 = 1 + stages := by ring
  have third := middleStages_rule keeps (by rw [length]; ring) (by rwa [← reordered]) second
  have next := modifier_next following
  rw [pow_zero, Nat.mul_one] at next
  rw [reordered] at third ⊢
  refine ⟨_, third, ?_⟩
  rw [radix4, quarter, next, ← reordered]
  exact passes_lastStage lastKernel (4 ^ (stages + 1)) 0 _

/-- The stages leave what stands behind the transform alone. -/
theorem radix4_frame (kernel : Nat → Quad Value → Quad Value) (lastKernel : Quad Value → Quad Value)
    {stages modifier : Nat} (narrow : modifier * 4 ^ (stages + 1) < 2 ^ 16) (pSrc : Nat → Value)
    {place : Nat} (behind : 4 ^ (stages + 2) ≤ place) :
    load (radix4 kernel lastKernel pSrc (4 ^ (stages + 2)) modifier) place = load pSrc place := by
  have keeps : Keeps kernel (4 ^ (stages + 2)) modifier fun _ points =>
      points place = load pSrc place := by
    intro stage quarter before after total holds passes
    refine (passes.frame place ?_).trans holds
    rw [← Nat.mul_assoc, ← pow_succ, total]
    exact behind
  obtain ⟨before, holds, passes⟩ := radix4_rule lastKernel keeps rfl narrow rfl
  refine (passes.frame place ?_).trans holds
  rw [Nat.mul_one, ← pow_succ]
  exact behind

/-- Arrays with the same complex values are the same. -/
theorem load_injective {one other : Nat → Value} (same : load one = load other) : one = other := by
  funext place
  have point := congrFun same (place / 2)
  simp only [load, Point.mk.injEq] at point
  rcases Nat.mod_two_eq_zero_or_one place with even | odd
  · rw [show place = 2 * (place / 2) by omega]
    exact point.1
  · rw [show place = 2 * (place / 2) + 1 by omega]
    exact point.2

end WhistleDrivenRobot
