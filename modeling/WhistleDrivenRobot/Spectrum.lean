/-
This file models what the transmitter does with a chunk of samples: it spreads them
over an array of complex values, transforms the array, takes the magnitudes and
looks for the strongest frequency. The magnitudes are computed four at a time; the
loops give every place the magnitude of its own value.
-/

import WhistleDrivenRobot.Callback
import WhistleDrivenRobot.Stages

namespace WhistleDrivenRobot

/-! ### Magnitudes -/

/-- A number that is not above zero has no root here; the result is zero. -/
def armSqrtF32 (number : Float32T) : ArmStatus × Float32T :=
  if number > Float32.Model.ofInt 0 then (.success, number.sqrt)
  else (.argumentError, Float32.Model.ofInt 0)

/-- The variables of the computation; `pSrc` and `pDst` count what was read and written. -/
structure MagnitudeLoop where
  pSrc : Nat
  pDst : Nat
  output : Nat → Float32T

/-- The statements that both loops repeat. -/
def MagnitudeLoop.next (input : Nat → Float32T) (loop : MagnitudeLoop) : MagnitudeLoop :=
  let realIn := input loop.pSrc
  let imagIn := input (loop.pSrc + 1)
  { pSrc := loop.pSrc + 2
    pDst := loop.pDst + 1
    output := Function.update loop.output loop.pDst
      (armSqrtF32 (realIn * realIn + imagIn * imagIn)).2 }

/-- One round of the unrolled loop. -/
def MagnitudeLoop.fourTimes (input : Nat → Float32T) (loop : MagnitudeLoop) : MagnitudeLoop :=
  (((loop.next input).next input).next input).next input

def armCmplxMagF32 (input output : Nat → Float32T) (numSamples : Nat) : Nat → Float32T :=
  let loop : MagnitudeLoop := { pSrc := 0, pDst := 0, output := output }
  let loop := (MagnitudeLoop.fourTimes input)^[numSamples >>> 2] loop
  let loop := (MagnitudeLoop.next input)^[numSamples % 4] loop
  loop.output

/-- The magnitude of one complex value. -/
def magnitude (point : Point Float32T) : Float32T :=
  (armSqrtF32 (point.re * point.re + point.im * point.im)).2

theorem fourTimes_eq (input : Nat → Float32T) :
    MagnitudeLoop.fourTimes input = (MagnitudeLoop.next input)^[4] := rfl

/-- After some values, the places before are written and the places behind are not. -/
theorem iterate_next (input output : Nat → Float32T) (count : Nat) :
    (MagnitudeLoop.next input)^[count] { pSrc := 0, pDst := 0, output := output } =
      { pSrc := 2 * count, pDst := count
        output := fun place =>
          if place < count then magnitude (load input place) else output place } := by
  induction count with
  | zero => rfl
  | succ count inductionHypothesis =>
    rw [Function.iterate_succ_apply', inductionHypothesis]
    refine congrArg (MagnitudeLoop.mk (2 * count + 2) (count + 1)) (funext fun place => ?_)
    by_cases here : place = count
    · rw [here, Function.update_self, if_pos (Nat.lt_succ_self count)]
      rfl
    · rw [Function.update_of_ne here]
      exact if_congr (by omega) rfl rfl

/-- The unrolled loop and the loop over the rest take the magnitude of every value. -/
theorem armCmplxMagF32_apply (input output : Nat → Float32T) (numSamples place : Nat) :
    armCmplxMagF32 input output numSamples place =
      if place < numSamples then magnitude (load input place) else output place := by
  have count : numSamples % 4 + 4 * (numSamples >>> 2) = numSamples := by
    rw [Nat.shiftRight_eq_div_pow]
    omega
  rw [armCmplxMagF32, fourTimes_eq, ← Function.iterate_mul, ← Function.iterate_add_apply, count,
    iterate_next]

/-! ### The analysis of a chunk -/

instance : OfScientific Float32T where
  ofScientific mantissa negative exponent :=
    Float32.Model.ofScientific mantissa (if negative then -exponent else exponent)

/-- The static arrays of the analysis, and the program that hears the result. -/
structure Analyser where
  input : Nat → Float32T
  output : Nat → Float32T
  transmitter : Transmitter

/-- The loop that spreads the samples; both places are computed in 16 bits. -/
def spreadLoop (PCMvector : Nat → UInt16) : Nat → Nat → (Nat → Float32T) → Nat → Float32T
  | 0, _, input => input
  | left + 1, i, input =>
    let input := Function.update input (i * 2)
      (Float32.Model.ofUInt16 (PCMvector i) - Float32.Model.ofInt 32768)
    let input := Function.update input ((i * 2 + 1) % 2 ^ 16) (Float32.Model.ofInt 0)
    spreadLoop PCMvector left (i + 1) input

/-- The complex value of a sample: the middle of the range is taken off the real part. -/
def spread (word : UInt16) : Point Float32T :=
  ⟨Float32.Model.ofUInt16 word - Float32.Model.ofInt 32768, Float32.Model.ofInt 0⟩

theorem load_spreadLoop (PCMvector : Nat → UInt16) {left i : Nat} (short : i + left ≤ 2 ^ 15)
    (input : Nat → Float32T) (place : Nat) :
    load (spreadLoop PCMvector left i input) place =
      if i ≤ place ∧ place < i + left then spread (PCMvector place) else load input place := by
  induction left generalizing i input with
  | zero => rw [if_neg (by omega), spreadLoop]
  | succ left inductionHypothesis =>
    have real : i * 2 = 2 * i := Nat.mul_comm i 2
    have imaginary : (i * 2 + 1) % 2 ^ 16 = 2 * i + 1 := by omega
    have written : Function.update (Function.update input (i * 2)
          (Float32.Model.ofUInt16 (PCMvector i) - Float32.Model.ofInt 32768))
        ((i * 2 + 1) % 2 ^ 16) (Float32.Model.ofInt 0) = store input i (spread (PCMvector i)) := by
      rw [imaginary, real]
      rfl
    rw [spreadLoop, written, inductionHypothesis (by omega), load_store]
    by_cases here : place = i
    · rw [here, if_neg (by omega), if_pos (by omega), Function.update_self]
    · rw [Function.update_of_ne here]
      exact if_congr (by omega) rfl rfl

namespace Analyser

/-- The transform and the magnitudes of a chunk. The instance `S` is a local variable without a
value. -/
def transform (pTwiddle : Nat → Float32T) (S : CfftRadix4 Float32T) (PCMvector : Nat → UInt16)
    (size : UInt16) (analyser : Analyser) : Analyser :=
  let input := spreadLoop PCMvector size.toNat 0 analyser.input
  let S := (armCfftRadix4InitF32 pTwiddle S FFT_SIZE.toUInt16 0 1).2
  let input := armCfftRadix4F32 S input
  { analyser with input, output := armCmplxMagF32 input analyser.output FFT_SIZE.toNat }

theorem output_transform (pTwiddle : Nat → Float32T) (S : CfftRadix4 Float32T)
    (PCMvector : Nat → UInt16) (size : UInt16) (analyser : Analyser) (place : Nat) :
    (analyser.transform pTwiddle S PCMvector size).output place =
      if place < FFT_SIZE.toNat then
        magnitude (load (armCfftRadix4F32 (armCfftRadix4InitF32 pTwiddle S FFT_SIZE.toUInt16 0 1).2
          (spreadLoop PCMvector size.toNat 0 analyser.input)) place)
      else analyser.output place := by
  simp only [transform]
  rw [armCmplxMagF32_apply]

/-- The strongest frequency and the callback; `none` where the callback divides by zero or converts
to `int` what is none. -/
def findAndCall (analyser : Analyser) : Option Analyser :=
  let analysis := maxFreq analyser.output FFT_SIZE
  (analyser.transmitter.acquire (analysis.freq, analysis.amplitude)).map fun transmitter =>
    { analyser with output := analysis.output, transmitter }

def fftAndCallback (pTwiddle : Nat → Float32T) (S : CfftRadix4 Float32T)
    (PCMvector : Nat → UInt16) (size : UInt16) (analyser : Analyser) : Option Analyser :=
  (analyser.transform pTwiddle S PCMvector size).findAndCall

theorem transmitter_transform (pTwiddle : Nat → Float32T) (S : CfftRadix4 Float32T)
    (PCMvector : Nat → UInt16) (size : UInt16) (analyser : Analyser) :
    (analyser.transform pTwiddle S PCMvector size).transmitter = analyser.transmitter := rfl

/-- When the analysis of the magnitudes returns, so does the callback. -/
theorem findAndCall_of_analyse {analyser : Analyser} {transmitter : Transmitter}
    (analysed : analyser.transmitter.analyse analyser.output = some transmitter) :
    ∃ next, analyser.findAndCall = some next ∧ next.transmitter = transmitter := by
  rw [Transmitter.analyse] at analysed
  rw [findAndCall, analysed]
  exact ⟨_, rfl, rfl⟩

end Analyser

end WhistleDrivenRobot
