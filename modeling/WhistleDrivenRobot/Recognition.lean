/-
This file models how the transmitter finds the strongest frequency among the
magnitudes that come out of the Fourier transform. The search is unrolled by
four; it finds the smallest index of a largest value. The magnitude at index 0
is overwritten before, through another name of the array that is searched.
-/

import WhistleDrivenRobot.Display

namespace WhistleDrivenRobot

/-! ### The search for a maximum -/

section Search

variable {Value : Type} [LT Value] [DecidableLT Value]

/-- The variables of the search; `pSrc` counts the values that were read. -/
structure MaxSearch (Value : Type) where
  pSrc : Nat
  out : Value
  outIndex : Nat
  count : Nat

/-- The statement that both loops repeat. -/
def MaxSearch.update (search : MaxSearch Value) (maxVal : Value) (index : Nat) : MaxSearch Value :=
  if search.out < maxVal then { search with out := maxVal, outIndex := index } else search

/-- One round of the unrolled loop. Two values are read ahead of their comparisons. -/
def unrolledRound (vector : Nat → Value) (search : MaxSearch Value) : MaxSearch Value :=
  let maxVal1 := vector search.pSrc
  let maxVal2 := vector (search.pSrc + 1)
  let first := search.update maxVal1 (search.count + 1)
  let maxVal1 := vector (search.pSrc + 2)
  let second := first.update maxVal2 (search.count + 2)
  let maxVal2 := vector (search.pSrc + 3)
  let third := second.update maxVal1 (search.count + 3)
  let fourth := third.update maxVal2 (search.count + 4)
  { fourth with pSrc := search.pSrc + 4, count := search.count + 4 }

/-- The loop over the values that are left. -/
def restLoop (vector : Nat → Value) (blockSize : Nat) : Nat → MaxSearch Value → MaxSearch Value
  | 0, search => search
  | blkCnt + 1, search =>
    let search := search.update (vector search.pSrc) (blockSize - (blkCnt + 1))
    restLoop vector blockSize blkCnt { search with pSrc := search.pSrc + 1 }

def armMaxF32 (vector : Nat → Value) (blockSize : Nat) : Value × Nat :=
  let search : MaxSearch Value := { pSrc := 1, out := vector 0, outIndex := 0, count := 0 }
  let search := (unrolledRound vector)^[(blockSize - 1) / 4] search
  let search := restLoop vector blockSize ((blockSize - 1) % 4) search
  (search.out, search.outIndex)

/-! ### The first largest value -/

variable {Key : Type} [LinearOrder Key] {key : Nat → Key}

/-- The smallest index of a largest key below a length. -/
structure Leads (key : Nat → Key) (length index : Nat) : Prop where
  inside : index < length
  largest : ∀ other < length, key other ≤ key index
  first : ∀ other < index, key other < key index

theorem Leads.single (key : Nat → Key) : Leads key 1 0 where
  inside := Nat.one_pos
  largest := fun _ inside => (Nat.lt_one_iff.mp inside ▸ le_refl _)
  first := fun _ before => absurd before (Nat.not_lt_zero _)

theorem Leads.unique {length index other : Nat} (leads : Leads key length index)
    (otherLeads : Leads key length other) : index = other := by
  rcases lt_trichotomy index other with before | same | after
  · exact absurd (otherLeads.first index before) (leads.largest other otherLeads.inside).not_gt
  · exact same
  · exact absurd (leads.first other after) (otherLeads.largest index leads.inside).not_gt

/-- One more key leads when it is larger than all keys before. -/
theorem Leads.next {length index : Nat} (leads : Leads key length index) :
    Leads key (length + 1) (if key index < key length then length else index) := by
  split
  · rename_i larger
    have above : ∀ other < length, key other < key length := fun other inside =>
      lt_of_le_of_lt (leads.largest other inside) larger
    refine ⟨Nat.lt_succ_self length, fun other inside => ?_, above⟩
    rcases Nat.lt_succ_iff_lt_or_eq.mp inside with before | rfl
    · exact (above other before).le
    · exact le_refl _
  · rename_i smaller
    refine ⟨Nat.lt_succ_of_lt leads.inside, fun other inside => ?_, leads.first⟩
    rcases Nat.lt_succ_iff_lt_or_eq.mp inside with before | rfl
    · exact leads.largest other before
    · exact not_lt.mp smaller

theorem Leads.exists (key : Nat → Key) {length : Nat} (nonempty : 0 < length) :
    ∃ index, Leads key length index := by
  induction length with
  | zero => exact absurd nonempty (Nat.lt_irrefl 0)
  | succ length inductionHypothesis =>
    rcases Nat.eq_zero_or_pos length with rfl | more
    · exact ⟨0, Leads.single key⟩
    · obtain ⟨index, leads⟩ := inductionHypothesis more
      exact ⟨_, leads.next⟩

variable {vector : Nat → Value} {blockSize : Nat}

/-- The search is right about the values before a place. -/
structure MaxSearch.Right (key : Nat → Key) (vector : Nat → Value) (length : Nat)
    (search : MaxSearch Value) : Prop where
  out : search.out = vector search.outIndex
  leads : Leads key length search.outIndex

/-- The values below the bound are ordered like their keys. -/
def OrderedBy (key : Nat → Key) (vector : Nat → Value) (blockSize : Nat) : Prop :=
  ∀ index < blockSize, ∀ other < blockSize, vector index < vector other ↔ key index < key other

theorem MaxSearch.Right.update {length : Nat} {search : MaxSearch Value}
    (right : search.Right key vector length) (ordered : OrderedBy key vector blockSize)
    (inside : length < blockSize) :
    (search.update (vector length) length).Right key vector (length + 1) := by
  have next := right.leads.next
  have same := ordered search.outIndex (lt_trans right.leads.inside inside) length inside
  unfold MaxSearch.update
  rw [right.out]
  by_cases larger : vector search.outIndex < vector length
  · rw [if_pos (same.mp larger)] at next
    rw [if_pos larger]
    exact ⟨rfl, next⟩
  · rw [if_neg fun above => larger (same.mpr above)] at next
    rw [if_neg larger]
    exact ⟨right.out, next⟩

theorem pSrc_update (search : MaxSearch Value) (maxVal : Value) (index : Nat) :
    (search.update maxVal index).pSrc = search.pSrc := by
  unfold MaxSearch.update
  split <;> rfl

theorem right_unrolledRound {search : MaxSearch Value} (ordered : OrderedBy key vector blockSize)
    (right : search.Right key vector (search.count + 1)) (read : search.pSrc = search.count + 1)
    (inside : search.count + 4 < blockSize) :
    (unrolledRound vector search).Right key vector (search.count + 5) := by
  have first := right.update ordered (by omega)
  have second := first.update ordered (by omega)
  have third := second.update ordered (by omega)
  have fourth := third.update ordered (by omega)
  rw [unrolledRound, read]
  exact ⟨fourth.out, fourth.leads⟩

/-- The unrolled loop has read four values a round, and one before. -/
theorem right_unrolledLoop (ordered : OrderedBy key vector blockSize) {rounds : Nat}
    (inside : 4 * rounds < blockSize) :
    ((unrolledRound vector)^[rounds] ⟨1, vector 0, 0, 0⟩).Right key vector (4 * rounds + 1) ∧
      ((unrolledRound vector)^[rounds] ⟨1, vector 0, 0, 0⟩).pSrc = 4 * rounds + 1 ∧
      ((unrolledRound vector)^[rounds] ⟨1, vector 0, 0, 0⟩).count = 4 * rounds := by
  induction rounds with
  | zero => exact ⟨⟨rfl, Leads.single key⟩, rfl, rfl⟩
  | succ rounds inductionHypothesis =>
    obtain ⟨right, read, count⟩ := inductionHypothesis (by omega)
    rw [Function.iterate_succ_apply']
    rw [← count] at right read
    have next := right_unrolledRound ordered right read (by omega)
    rw [count] at next
    exact ⟨next, congrArg (· + 4) (read.trans (congrArg (· + 1) count)), congrArg (· + 4) count⟩

theorem right_restLoop (ordered : OrderedBy key vector blockSize) {blkCnt : Nat}
    {search : MaxSearch Value} (right : search.Right key vector search.pSrc)
    (left : search.pSrc + blkCnt = blockSize) :
    (restLoop vector blockSize blkCnt search).Right key vector blockSize := by
  induction blkCnt generalizing search with
  | zero => exact left ▸ right
  | succ blkCnt inductionHypothesis =>
    have place : blockSize - (blkCnt + 1) = search.pSrc := by omega
    have next := right.update ordered (by omega : search.pSrc < blockSize)
    rw [restLoop, place]
    refine inductionHypothesis ?_ ?_
    · show MaxSearch.Right key vector ((search.update (vector search.pSrc) search.pSrc).pSrc + 1) _
      rw [pSrc_update]
      exact ⟨next.out, next.leads⟩
    · show (search.update (vector search.pSrc) search.pSrc).pSrc + 1 + blkCnt = blockSize
      rw [pSrc_update]
      omega

/-- The search returns the first largest value and its index. -/
theorem armMaxF32_leads (ordered : OrderedBy key vector blockSize) (nonempty : 0 < blockSize) :
    (armMaxF32 vector blockSize).1 = vector (armMaxF32 vector blockSize).2 ∧
      Leads key blockSize (armMaxF32 vector blockSize).2 := by
  obtain ⟨right, read, -⟩ := right_unrolledLoop ordered
    (show 4 * ((blockSize - 1) / 4) < blockSize by omega)
  rw [← read] at right
  have all : (restLoop vector blockSize ((blockSize - 1) % 4) _).Right key vector blockSize :=
    right_restLoop ordered right (by omega)
  exact ⟨all.out, all.leads⟩

end Search

/-! ### The strongest frequency -/

def FFT_SIZE : UInt32 := 8192 / 2

def SAMPLING_FREQ : UInt32 := 44000

/-- Only the first quarter of the magnitudes is searched. -/
def LP_DIV : UInt32 := 4

/-- What `maxFreq` writes: the array and the variables behind the two pointers. -/
structure Analysis where
  output : Nat → Float32T
  amplitude : Float32T
  freq : Float32T

/-- The function is called on the array `output`, which is also the one that is searched. -/
def maxFreq (output : Nat → Float32T) (size : UInt32) : Analysis :=
  let output := Function.update output 0 (Float32.Model.ofInt 0)
  let found := armMaxF32 output (size / LP_DIV).toNat
  { output := output
    amplitude := found.1
    freq := Float32.Model.ofUInt32 (UInt32.ofNat found.2 * SAMPLING_FREQ / size) }

/-- A magnitude: a float from zero on. -/
def Nonnegative (magnitude : Float32T) : Prop := Float32.Model.ofInt 0 ≤ magnitude

/-- The first of the strongest among the bins that are searched, the one at index 0 left out. -/
structure Strongest (output : Nat → Float32T) (k : Nat) : Prop where
  low : 1 ≤ k
  high : k ≤ 1023
  largest : ∀ other, 1 ≤ other → other ≤ 1023 → output other ≤ output k
  first : ∀ other, 1 ≤ other → other < k → output other < output k

theorem Strongest.congr {output other : Nat → Float32T} {k : Nat} (strongest : Strongest output k)
    (same : ∀ index, 1 ≤ index → index ≤ 1023 → other index = output index) :
    Strongest other k := by
  have high := strongest.high
  refine ⟨strongest.low, high, fun index low inside => ?_, fun index low before => ?_⟩
  · rw [same index low inside, same k strongest.low high]
    exact strongest.largest index low inside
  · rw [same index low (by omega), same k strongest.low high]
    exact strongest.first index low before

/-- The magnitudes that are searched. -/
def cleared (output : Nat → Float32T) : Nat → Float32T :=
  Function.update output 0 (Float32.Model.ofInt 0)

theorem cleared_zero (output : Nat → Float32T) : cleared output 0 = Float32.Model.ofInt 0 :=
  Function.update_self _ _ _

theorem cleared_of_pos (output : Nat → Float32T) {index : Nat} (later : 1 ≤ index) :
    cleared output index = output index :=
  Function.update_of_ne (Nat.one_le_iff_ne_zero.mp later) _ _

/-- `maxFreq` on any search in the place of `arm_max_f32`. -/
def maxFreqBy (search : (Nat → Float32T) → Nat → Float32T × Nat) (output : Nat → Float32T)
    (size : UInt32) : Analysis :=
  let output := Function.update output 0 (Float32.Model.ofInt 0)
  let found := search output (size / LP_DIV).toNat
  { output := output
    amplitude := found.1
    freq := Float32.Model.ofUInt32 (UInt32.ofNat found.2 * SAMPLING_FREQ / size) }

theorem maxFreq_eq_maxFreqBy : maxFreq = maxFreqBy armMaxF32 := rfl

theorem maxFreqBy_eq {search : (Nat → Float32T) → Nat → Float32T × Nat} (output : Nat → Float32T)
    {found : Float32T × Nat} (searched : search (cleared output) 1024 = found) :
    (maxFreqBy search output FFT_SIZE).amplitude = found.1 ∧
      (maxFreqBy search output FFT_SIZE).freq =
        Float32.Model.ofUInt32 (UInt32.ofNat found.2 * SAMPLING_FREQ / FFT_SIZE) := by
  have bound : (FFT_SIZE / LP_DIV).toNat = 1024 := by decide
  rw [maxFreqBy, bound, ← cleared, searched]
  exact ⟨rfl, rfl⟩

theorem maxFreq_eq (output : Nat → Float32T) {found : Float32T × Nat}
    (searched : armMaxF32 (cleared output) 1024 = found) :
    (maxFreq output FFT_SIZE).amplitude = found.1 ∧ (maxFreq output FFT_SIZE).freq =
      Float32.Model.ofUInt32 (UInt32.ofNat found.2 * SAMPLING_FREQ / FFT_SIZE) := by
  rw [maxFreq_eq_maxFreqBy]
  exact maxFreqBy_eq output searched

/-- No frequency of the searched bins overflows on the way. -/
theorem ofUInt32_frequency {k : Nat} (inside : k ≤ 1023) :
    Float32.Model.ofUInt32 (UInt32.ofNat k * SAMPLING_FREQ / FFT_SIZE) =
      Float32.Model.ofInt (44000 * k / 4096 : Nat) := by
  have exact : (UInt32.ofNat k * SAMPLING_FREQ / FFT_SIZE).toNat = 44000 * k / 4096 := by
    rw [UInt32.toNat_div, UInt32.toNat_mul, UInt32.toNat_ofNat']
    show k % 2 ^ 32 * 44000 % 2 ^ 32 / 4096 = 44000 * k / 4096
    omega
  rw [← exact]
  rfl

section Magnitudes

open Binary32

variable {output : Nat → Float32T}
variable (nonnegative : ∀ index, 1 ≤ index → index ≤ 1023 → Nonnegative (output index))
include nonnegative

theorem isNumber_of_nonnegative {index : Nat} (low : 1 ≤ index) (high : index ≤ 1023) :
    (output index).isNaN = false :=
  (isNumber_of_le (nonnegative index low high)).2

theorem exists_strongest : ∃ k, Strongest output k := by
  obtain ⟨index, leads⟩ := Leads.exists (fun index => worth (output (index + 1)))
    (show 0 < 1023 by decide)
  have number : ∀ {index}, index < 1023 → (output (index + 1)).isNaN = false := fun inside =>
    isNumber_of_nonnegative nonnegative (by omega) (by omega)
  have inside := leads.inside
  refine ⟨index + 1, by omega, by omega, fun other low high => ?_, fun other low before => ?_⟩
  · obtain ⟨other, rfl⟩ := Nat.exists_eq_add_of_le' low
    exact (le_iff (number (by omega)) (number inside)).mpr (leads.largest other (by omega))
  · obtain ⟨other, rfl⟩ := Nat.exists_eq_add_of_le' low
    exact (lt_iff (number (by omega)) (number inside)).mpr (leads.first other (by omega))

/-- Setting the first magnitude to zero leaves all of them magnitudes. -/
theorem nonnegative_cleared {index : Nat} (inside : index < 1024) :
    Nonnegative (cleared output index) := by
  rcases Nat.eq_zero_or_pos index with rfl | later
  · rw [cleared_zero]
    unfold Nonnegative
    decide
  · rw [cleared_of_pos output later]
    exact nonnegative index later (by omega)

theorem isNumber_cleared {index : Nat} (inside : index < 1024) :
    (cleared output index).isNaN = false :=
  (isNumber_of_le (nonnegative_cleared nonnegative inside)).2

theorem ordered_cleared :
    OrderedBy (fun index => worth (cleared output index)) (cleared output) 1024 :=
  fun _ inside _ otherInside =>
    lt_iff (isNumber_cleared nonnegative inside) (isNumber_cleared nonnegative otherInside)

/-- When its magnitude is positive, the strongest bin is the first largest of what is searched. -/
theorem leads_cleared {k : Nat} (strongest : Strongest output k)
    (above : Float32.Model.ofInt 0 < output k) :
    Leads (fun index => worth (cleared output index)) 1024 k := by
  have positive := strongest.low
  have inside := strongest.high
  have number := isNumber_of_nonnegative nonnegative positive inside
  have strict := (lt_iff rfl number).mp above
  refine ⟨by omega, fun other below => ?_, fun other before => ?_⟩
  · simp only [cleared_of_pos output positive]
    rcases Nat.eq_zero_or_pos other with rfl | later
    · rw [cleared_zero]
      exact strict.le
    · rw [cleared_of_pos output later]
      exact (le_iff (isNumber_of_nonnegative nonnegative later (by omega)) number).mp
        (strongest.largest other later (by omega))
  · simp only [cleared_of_pos output positive]
    rcases Nat.eq_zero_or_pos other with rfl | later
    · rw [cleared_zero]
      exact strict
    · rw [cleared_of_pos output later]
      exact (lt_iff (isNumber_of_nonnegative nonnegative later (by omega)) number).mp
        (strongest.first other later before)

/-- Otherwise it is the magnitude that was set to zero. -/
theorem leads_cleared_zero {k : Nat} (strongest : Strongest output k)
    (silent : ¬Float32.Model.ofInt 0 < output k) :
    Leads (fun index => worth (cleared output index)) 1024 0 := by
  have number := isNumber_of_nonnegative nonnegative strongest.low strongest.high
  have strongestLeast : worth (output k) ≤ worth (Float32.Model.ofInt 0) :=
    not_lt.mp fun above => silent ((lt_iff rfl number).mpr above)
  refine ⟨by decide, fun other below => ?_, fun other before => absurd before (Nat.not_lt_zero _)⟩
  simp only [cleared_zero]
  rcases Nat.eq_zero_or_pos other with rfl | later
  · rw [cleared_zero]
  · rw [cleared_of_pos output later]
    refine le_trans ?_ strongestLeast
    exact (le_iff (isNumber_of_nonnegative nonnegative later (by omega)) number).mp
      (strongest.largest other later (by omega))

/-- What the search finds is the strongest bin, or the magnitude that was set to zero. -/
theorem eq_of_leads {k : Nat} (strongest : Strongest output k) {found : Float32T × Nat}
    (value : found.1 = cleared output found.2)
    (leads : Leads (fun index => worth (cleared output index)) 1024 found.2) :
    (Float32.Model.ofInt 0 < output k → found = (output k, k)) ∧
      (¬Float32.Model.ofInt 0 < output k → found = (Float32.Model.ofInt 0, 0)) := by
  constructor
  · intro above
    have index := leads.unique (leads_cleared nonnegative strongest above)
    rw [index, cleared_of_pos output strongest.low] at value
    exact Prod.ext value index
  · intro silent
    have index := leads.unique (leads_cleared_zero nonnegative strongest silent)
    rw [index, cleared_zero] at value
    exact Prod.ext value index

/-- The amplitude and the frequency are those of the strongest bin when its magnitude is positive,
and zero otherwise. -/
theorem maxFreq_strongest {k : Nat} (strongest : Strongest output k) :
    (Float32.Model.ofInt 0 < output k → (maxFreq output FFT_SIZE).amplitude = output k ∧
        (maxFreq output FFT_SIZE).freq = Float32.Model.ofInt (44000 * k / 4096 : Nat)) ∧
      (¬Float32.Model.ofInt 0 < output k →
        (maxFreq output FFT_SIZE).amplitude = Float32.Model.ofInt 0 ∧
          (maxFreq output FFT_SIZE).freq = Float32.Model.ofInt 0) := by
  obtain ⟨value, leads⟩ := armMaxF32_leads (ordered_cleared nonnegative) (by decide)
  obtain ⟨above, below⟩ := eq_of_leads nonnegative strongest value leads
  obtain ⟨amplitude, freq⟩ := maxFreq_eq output rfl
  constructor
  · intro positive
    rw [amplitude, freq, above positive, ofUInt32_frequency strongest.high]
    exact ⟨rfl, rfl⟩
  · intro silent
    rw [amplitude, freq, below silent, ofUInt32_frequency (Nat.zero_le _)]
    exact ⟨rfl, rfl⟩

/-- Nothing but the bins that are searched has an influence. -/
theorem maxFreq_congr {other : Nat → Float32T}
    (same : ∀ index, 1 ≤ index → index ≤ 1023 → other index = output index) :
    (maxFreq other FFT_SIZE).amplitude = (maxFreq output FFT_SIZE).amplitude ∧
      (maxFreq other FFT_SIZE).freq = (maxFreq output FFT_SIZE).freq := by
  obtain ⟨k, strongest⟩ := exists_strongest nonnegative
  have otherNonnegative : ∀ index, 1 ≤ index → index ≤ 1023 → Nonnegative (other index) :=
    fun index low high => same index low high ▸ nonnegative index low high
  have result := maxFreq_strongest nonnegative strongest
  have otherResult := maxFreq_strongest otherNonnegative (strongest.congr same)
  rw [same k strongest.low strongest.high] at otherResult
  by_cases above : Float32.Model.ofInt 0 < output k
  · obtain ⟨amplitude, freq⟩ := result.1 above
    obtain ⟨otherAmplitude, otherFreq⟩ := otherResult.1 above
    exact ⟨otherAmplitude.trans amplitude.symm, otherFreq.trans freq.symm⟩
  · obtain ⟨amplitude, freq⟩ := result.2 above
    obtain ⟨otherAmplitude, otherFreq⟩ := otherResult.2 above
    exact ⟨otherAmplitude.trans amplitude.symm, otherFreq.trans freq.symm⟩

end Magnitudes

/-! ### Any search for a maximum -/

/-- A largest value below a bound and an index at which it occurs. -/
structure Maximum (vector : Nat → Float32T) (blockSize : Nat) (found : Float32T × Nat) : Prop where
  inside : found.2 < blockSize
  value : found.1 = vector found.2
  largest : ∀ index < blockSize, vector index ≤ found.1

/-- The search finds a maximum among magnitudes. -/
def Searches (search : (Nat → Float32T) → Nat → Float32T × Nat) : Prop :=
  ∀ vector blockSize, 0 < blockSize → (∀ index < blockSize, Nonnegative (vector index)) →
    Maximum vector blockSize (search vector blockSize)

theorem searches_armMaxF32 : Searches armMaxF32 := by
  intro vector blockSize nonempty nonnegative
  have number : ∀ index < blockSize, (vector index).isNaN = false := fun index inside =>
    (Binary32.isNumber_of_le (nonnegative index inside)).2
  have ordered : OrderedBy (fun index => Binary32.worth (vector index)) vector blockSize :=
    fun index inside other otherInside =>
      Binary32.lt_iff (number index inside) (number other otherInside)
  obtain ⟨value, leads⟩ := armMaxF32_leads ordered nonempty
  refine ⟨leads.inside, value, fun index inside => ?_⟩
  rw [value, Binary32.le_iff (number index inside) (number _ leads.inside)]
  exact leads.largest index inside

end WhistleDrivenRobot
