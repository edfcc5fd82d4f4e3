/-
This file follows a whistle from its samples to what the transmitter does about it.
Of any chunk, the bin that is found is one of the strongest of its discrete Fourier
transform, up to the rounding; and a whistle stands out in one bin. After any run,
the last whistle is on the display and its command has been sent.
-/

import WhistleDrivenRobot.Outputs
import WhistleDrivenRobot.Precision

namespace WhistleDrivenRobot

open Binary32 Fourier Rounded Transmitter

noncomputable section

/-! ### The bin that is found -/

/-- A bin whose magnitude is the largest that was computed, and what was computed for it. -/
structure Hears (PCMvector : Nat → UInt16) (k : Nat) (magnitude : Float32T) : Prop where
  low : 1 ≤ k
  high : k ≤ 1023
  strongest : ∀ other, 1 ≤ other → other ≤ 1023 →
    level PCMvector other ≤ level PCMvector k + 3200
  close : ∃ size, Worth magnitude size ∧ |size - level PCMvector k| ≤ 1600

theorem worth_threshold : Worth AMPLITUDE_THRESHOLD 20000000 := by
  have same : ((20000000 : Int) : Rat) * 2 ^ (0 : Int) = ((78125 : Int) : Rat) * 2 ^ (8 : Int) := by
    norm_num
  have exact := represents_normalize_of_eq same (by decide) (by decide) (by decide) (by decide)
    .positive
  refine ⟨(78125 : Int) * 2 ^ (8 : Int), ?_, by norm_num⟩
  rw [AMPLITUDE_THRESHOLD, Float32.Model.ofInt, unpack_float]
  · exact exact
  · exact exact.stored

/-- The command of the band that a bin lies in. -/
def band (k : Nat) : Command :=
  let frequency : Rat := 44000 * k / 4096
  if 500 < frequency ∧ frequency < 1000 then .forward
  else if 1100 < frequency ∧ frequency < 1800 then .left
  else if 2000 < frequency ∧ frequency < 2800 then .right
  else if 3000 < frequency ∧ frequency < 4000 then .back
  else .stop

section Reading

variable {PCMvector : Nat → UInt16} {k : Nat} {magnitude : Float32T}
  (hears : Hears PCMvector k magnitude)
include hears

/-- What is read of a bin far above the threshold. -/
theorem Hears.reading_loud (above : 20001600 < level PCMvector k) :
    reading k magnitude = ⟨some (44000 * k / 4096), band k⟩ := by
  obtain ⟨size, isWorth, close⟩ := hears.close
  have bounds := abs_le.mp close
  have loud : magnitude > AMPLITUDE_THRESHOLD :=
    (lt_iff_of_worth worth_threshold isWorth).mpr (by linarith)
  have notQuiet : ¬magnitude ≤ AMPLITUDE_THRESHOLD := fun quiet => by
    have less := (le_iff_of_worth isWorth worth_threshold).mp quiet
    linarith
  rw [reading, if_pos loud, intended, if_neg notQuiet]
  rfl

/-- What is read of a bin far below. -/
theorem Hears.reading_quiet (below : level PCMvector k ≤ 19998400) :
    reading k magnitude = ⟨none, .stop⟩ := by
  obtain ⟨size, isWorth, close⟩ := hears.close
  have bounds := abs_le.mp close
  have quiet : magnitude ≤ AMPLITUDE_THRESHOLD :=
    (le_iff_of_worth isWorth worth_threshold).mpr (by linarith)
  have notLoud : ¬magnitude > AMPLITUDE_THRESHOLD := fun loud => by
    have more := (lt_iff_of_worth worth_threshold isWorth).mp loud
    linarith
  rw [reading, if_neg notLoud, intended, if_pos quiet]

end Reading

section Found

variable {pTwiddle : Nat → Float32T} (table : Table Worth (1 / 2 ^ 24) pTwiddle)
  (S : CfftRadix4 Float32T) (PCMvector : Nat → UInt16) (analyser : Analyser)
include table

theorem nonnegative_output {k : Nat} (inside : k < 4096) :
    Nonnegative ((analyser.transform pTwiddle S PCMvector 4096).output k) := by
  obtain ⟨size, isWorth, nonnegative, -⟩ := output_near table S PCMvector analyser inside
  exact (le_iff_of_worth worth_zero isWorth).mpr nonnegative

theorem hears_strongest {k : Nat}
    (strongest : Strongest (analyser.transform pTwiddle S PCMvector 4096).output k) :
    Hears PCMvector k ((analyser.transform pTwiddle S PCMvector 4096).output k) := by
  have high := strongest.high
  obtain ⟨size, isWorth, -, close⟩ := output_near table S PCMvector analyser (by omega : k < 4096)
  refine ⟨strongest.low, high, fun other low inside => ?_, size, isWorth, close⟩
  obtain ⟨otherSize, otherWorth, -, otherClose⟩ :=
    output_near table S PCMvector analyser (by omega : other < 4096)
  have larger := (le_iff_of_worth otherWorth isWorth).mp (strongest.largest other low inside)
  have bounds := abs_le.mp close
  have otherBounds := abs_le.mp otherClose
  linarith

/-- What the program does about a chunk, from a state in which the display shows what it stores and
the last line is that of the command. -/
theorem fftAndCallback_hears {shown : Display.Shown Nat}
    (drawn : Display.Drawn shown analyser.transmitter.display)
    (sent : analyser.transmitter.Sent) :
    ∃ next k magnitude,
      analyser.fftAndCallback pTwiddle S PCMvector 4096 = some next ∧
      Hears PCMvector k magnitude ∧ next.transmitter.state.actualCommand = intended k magnitude ∧
      Display.Drawn (reading k magnitude) next.transmitter.display ∧
      next.transmitter.Agrees := by
  have nonnegative : ∀ index < 4096,
      Nonnegative ((analyser.transform pTwiddle S PCMvector 4096).output index) :=
    fun index inside => nonnegative_output table S PCMvector analyser inside
  have magnitudes : ∀ index, 1 ≤ index → index ≤ 1023 →
      Nonnegative ((analyser.transform pTwiddle S PCMvector 4096).output index) :=
    fun index _ high => nonnegative index (by omega)
  obtain ⟨k, strongest⟩ := exists_strongest magnitudes
  rw [← Analyser.transmitter_transform pTwiddle S PCMvector 4096] at drawn sent
  obtain ⟨transmitter, analysed, robot, -⟩ := commands_of_bin
    (analyser.transform pTwiddle S PCMvector 4096).transmitter
    (heard_strongest magnitudes strongest)
    (isNumber_of_nonnegative magnitudes strongest.low strongest.high) strongest.low strongest.high
  have drawnNext := drawn_analyse drawn nonnegative strongest analysed
  have agrees := (agrees_acquire sent analysed).1
  obtain ⟨next, called, rfl⟩ := Analyser.findAndCall_of_analyse analysed
  exact ⟨next, k, _, called, hears_strongest table S PCMvector analyser strongest, robot, drawnNext,
    agrees⟩

end Found

/-! ### Runs -/

/-- A chunk of samples with what the local instance of the transform holds before. -/
abbrev Chunk := CfftRadix4 Float32T × (Nat → UInt16)

def Analyser.take (pTwiddle : Nat → Float32T) (analyser : Analyser) (chunk : Chunk) :
    Option Analyser :=
  analyser.fftAndCallback pTwiddle chunk.1 chunk.2 4096

/-- Before a chunk the display shows what it stores, and the last line is that of the command. -/
def Live (analyser : Analyser) : Prop :=
  (∃ shown, Display.Drawn shown analyser.transmitter.display) ∧ analyser.transmitter.Sent

/-- What the program tells after a chunk in which it hears a bin. -/
structure Tells (k : Nat) (magnitude : Float32T) (transmitter : Transmitter) : Prop where
  command : transmitter.state.actualCommand = intended k magnitude
  displays : Display.Displays (reading k magnitude) transmitter.display.display
  agrees : transmitter.Agrees

section Run

variable {pTwiddle : Nat → Float32T} (table : Table Worth (1 / 2 ^ 24) pTwiddle)
include table

theorem live_take (analyser : Analyser) (chunk : Chunk) (live : Live analyser) :
    ∃ next, (analyser.take pTwiddle chunk = some next ∧ ∃ k magnitude,
      Hears chunk.2 k magnitude ∧ Tells k magnitude next.transmitter) ∧ Live next := by
  obtain ⟨⟨shown, drawn⟩, sent⟩ := live
  obtain ⟨next, k, magnitude, called, hears, robot, drawnNext, agrees⟩ :=
    fftAndCallback_hears table chunk.1 chunk.2 analyser drawn sent
  exact ⟨next, ⟨called, k, magnitude, hears, robot, drawnNext.displays, agrees⟩,
    ⟨_, drawnNext⟩, agrees.sent⟩

theorem heard_run (input output : Nat → Float32T) (command : Command) (led : Bool)
    (before : List Chunk) (chunk : Chunk) :
    ∃ final, Runs.run (Analyser.take pTwiddle) ⟨input, output, setup command led⟩
        (before ++ [chunk]) = some final ∧
      ∃ k magnitude, Hears chunk.2 k magnitude ∧ Tells k magnitude final.transmitter := by
  have total : ∀ (analyser : Analyser) (chunk : Chunk), Live analyser →
      ∃ next, analyser.take pTwiddle chunk = some next ∧ Live next := by
    intro analyser chunk live
    obtain ⟨next, ⟨taken, -⟩, liveNext⟩ := live_take table analyser chunk live
    exact ⟨next, taken, liveNext⟩
  have start : Live ⟨input, output, setup command led⟩ :=
    ⟨⟨_, Display.Drawn.create command⟩, (agrees_setup command led).1.sent⟩
  obtain ⟨last, ran, live⟩ := Runs.run_total total start before
  obtain ⟨final, ⟨taken, k, magnitude, hears, tells⟩, -⟩ := live_take table last chunk live
  refine ⟨final, ?_, k, magnitude, hears, tells⟩
  rw [Runs.run_concat, ran, Option.bind_some]
  exact taken

/-- Every sequence of chunks goes through, and after each of its chunks the program tells one of the
strongest bins of that chunk, on the display, by the light and on the serial port. -/
theorem hears_run (input output : Nat → Float32T) (command : Command) (led : Bool)
    (chunks : List Chunk) :
    (∃ final, Runs.run (Analyser.take pTwiddle) ⟨input, output, setup command led⟩ chunks =
        some final) ∧
      ∀ before chunk, before ++ [chunk] <+: chunks → ∀ after,
        Runs.run (Analyser.take pTwiddle) ⟨input, output, setup command led⟩ (before ++ [chunk]) =
            some after →
          ∃ k magnitude, Hears chunk.2 k magnitude ∧ Tells k magnitude after.transmitter := by
  constructor
  · rcases List.eq_nil_or_concat chunks with rfl | ⟨before, chunk, rfl⟩
    · exact ⟨_, rfl⟩
    · rw [List.concat_eq_append]
      obtain ⟨final, ran, -⟩ := heard_run table input output command led before chunk
      exact ⟨final, ran⟩
  · intro before chunk _ after ran
    obtain ⟨final, ranFinal, heard⟩ := heard_run table input output command led before chunk
    obtain rfl : final = after := Option.some.inj (ranFinal.symm.trans ran)
    exact heard

end Run

/-! ### A whistle -/

/-- A cosine of a frequency that a bin stands for. -/
def cosine (amplitude phase : ℝ) (k i : Nat) : ℝ :=
  amplitude * Real.cos ((2 : Nat) * Real.pi * k * i / (4096 : Nat) + phase)

theorem cosine_def (amplitude phase : ℝ) (k i : Nat) :
    cosine amplitude phase k i = amplitude * Real.cos (2 * Real.pi * k * i / 4096 + phase) := by
  rw [cosine, Nat.cast_ofNat, Nat.cast_ofNat]

/-- The words of a whistle: a cosine around the middle of the range, rounded. They are offset
binary, as `FFTandCallback` decodes them, and not two's complement, as `PDMFilter` returns them. -/
def Whistle (amplitude phase : ℝ) (k : Nat) (PCMvector : Nat → UInt16) : Prop :=
  ∀ i < 4096, |((PCMvector i).toNat - 32768 : Int) - cosine amplitude phase k i| ≤ (1 / 2 : Rat)

/-- A cosine is the sum of a sequence that turns and one that turns back. -/
theorem cosine_eq (amplitude phase : ℝ) (k i : Nat) :
    (cosine amplitude phase k i : ℂ) =
      amplitude / 2 * Complex.exp (phase * Complex.I) * rootBack 4096 ^ (i * k) +
        amplitude / 2 * Complex.exp (-(phase * Complex.I)) * rootOf 4096 ^ (i * k) := by
  have forward : Complex.exp (phase * Complex.I) * rootBack 4096 ^ (i * k) =
      Complex.exp ((2 * Real.pi * k * i / 4096 + phase : ℝ) * Complex.I) := by
    rw [rootBack_eq, ← Complex.exp_nat_mul, ← Complex.exp_add]
    congr 1
    push_cast
    ring
  have back : Complex.exp (-(phase * Complex.I)) * rootOf 4096 ^ (i * k) =
      Complex.exp (-((2 * Real.pi * k * i / 4096 + phase : ℝ) * Complex.I)) := by
    rw [rootOf_eq, ← Complex.exp_nat_mul, ← Complex.exp_add]
    congr 1
    push_cast
    ring
  rw [mul_assoc, mul_assoc, forward, back, cosine_def, Complex.ofReal_mul, Complex.ofReal_cos,
    Complex.cos, neg_mul]
  ring

/-- The transform of a cosine stands at its own bin. -/
theorem dft_cosine (amplitude phase : ℝ) {k bin : Nat} (low : 1 ≤ k) (high : k < 2048)
    (searched : bin ≤ 1023) :
    dft 4096 (rootOf 4096) (fun i => (cosine amplitude phase k i : ℂ)) bin =
      if bin = k then 2048 * amplitude * Complex.exp (phase * Complex.I) else 0 := by
  have primitive := isPrimitiveRoot_rootOf (show 4096 ≠ 0 by decide)
  have apart : ¬4096 ∣ k + bin := by omega
  have turning := dft_turning primitive (rootOf_mul_rootBack 4096) (by omega : bin < 4096)
    (by omega : k < 4096)
  simp only [cosine_eq]
  rw [dft_add, dft_smul, dft_smul, turning, dft_turningBack primitive apart, mul_zero, add_zero]
  split
  · push_cast
    ring
  · rw [mul_zero]

/-- The bins of a whistle: its own one is far above the others, which hold the rounding. -/
theorem level_whistle {amplitude phase : ℝ} (loudness : 0 ≤ amplitude) {k bin : Nat}
    {PCMvector : Nat → UInt16} (whistle : Whistle amplitude phase k PCMvector) (low : 1 ≤ k)
    (high : k < 2048) (searched : bin ≤ 1023) :
    |level PCMvector bin - if bin = k then 2048 * amplitude else 0| ≤ 2048 := by
  have near : ∀ i < 4096, ‖samples PCMvector i - (cosine amplitude phase k i : ℂ)‖ ≤ 1 / 2 := by
    intro i inside
    rw [samples, ← Complex.ofReal_sub, Complex.norm_real]
    have close := whistle i inside
    push_cast at close
    exact close
  have moved := norm_dft_sub_le (norm_rootOf 4096) near bin
  have exact := dft_cosine amplitude phase low high searched
  have size : ‖dft 4096 (rootOf 4096) (fun i => (cosine amplitude phase k i : ℂ)) bin‖ =
      if bin = k then 2048 * amplitude else 0 := by
    rw [exact]
    split
    · rw [norm_mul, Complex.norm_exp_ofReal_mul_I, mul_one, norm_mul, Complex.norm_real,
        Real.norm_of_nonneg loudness, Complex.norm_ofNat]
    · exact norm_zero
  rw [← size]
  refine (abs_norm_sub_norm_le _ _).trans (moved.trans_eq ?_)
  norm_num

/-- The words of a whistle that fits into the range, offset binary like those of `Whistle`. -/
def sampled (amplitude phase : ℝ) (k i : Nat) : UInt16 :=
  UInt16.ofNat (32768 + round (cosine amplitude phase k i)).toNat

theorem whistle_sampled {amplitude : ℝ} (loudness : 0 ≤ amplitude) (fits : amplitude ≤ 32767)
    (phase : ℝ) (k : Nat) : Whistle amplitude phase k (sampled amplitude phase k) := by
  intro i _
  have unit := Real.abs_cos_le_one (2 * Real.pi * k * i / 4096 + phase)
  have range : |cosine amplitude phase k i| ≤ 32767 := by
    rw [cosine_def, abs_mul, abs_of_nonneg loudness]
    exact (mul_le_of_le_one_right loudness unit).trans fits
  have bounds := abs_le.mp range
  have close := abs_sub_round (cosine amplitude phase k i)
  have closeBounds := abs_le.mp close
  have low : -32768 ≤ round (cosine amplitude phase k i) := by
    have real : (-32768 : ℝ) < round (cosine amplitude phase k i) := by linarith
    have whole : -32768 < round (cosine amplitude phase k i) := by exact_mod_cast real
    omega
  have high : round (cosine amplitude phase k i) < 32768 := by
    have real : (round (cosine amplitude phase k i) : ℝ) < 32768 := by linarith
    exact_mod_cast real
  have stored : ((sampled amplitude phase k i).toNat - 32768 : Int) =
      round (cosine amplitude phase k i) := by
    have word : (sampled amplitude phase k i).toNat =
        (32768 + round (cosine amplitude phase k i)).toNat :=
      UInt16.toNat_ofNat_of_lt' (by
        show _ < 65536
        omega)
    omega
  have half : ((1 / 2 : Rat) : ℝ) = 1 / 2 := by norm_num
  rw [stored, abs_sub_comm, half]
  exact close

/-! ### What is done about a whistle -/

section Heard

variable {amplitude phase : ℝ} (loudness : 0 ≤ amplitude) {k bin : Nat}
  {PCMvector : Nat → UInt16} {magnitude : Float32T} {transmitter : Transmitter}
  (whistle : Whistle amplitude phase k PCMvector) (low : 1 ≤ k) (high : k < 2048)
  (hears : Hears PCMvector bin magnitude)
include loudness whistle low high hears

/-- A whistle that is loud enough is the bin that is found. -/
theorem reads_loud (loud : 9768 ≤ amplitude) (searched : k ≤ 1023) :
    reading bin magnitude = ⟨some (44000 * k / 4096), band k⟩ := by
  have own := level_whistle loudness whistle low high searched
  rw [if_pos rfl] at own
  have ownBounds := abs_le.mp own
  have same : bin = k := by
    by_contra different
    have other := level_whistle loudness whistle low high hears.high
    rw [if_neg different] at other
    have otherBounds := abs_le.mp other
    have strongest := hears.strongest k low searched
    linarith
  subst same
  exact hears.reading_loud (by linarith)

/-- A whistle that is quiet, or too high to be searched, is not heard. -/
theorem reads_quiet (quiet : amplitude ≤ 9763 ∨ 1024 ≤ k) :
    reading bin magnitude = ⟨none, .stop⟩ := by
  have found := abs_le.mp (level_whistle loudness whistle low high hears.high)
  refine hears.reading_quiet ?_
  rcases quiet with small | above
  · have share : (if bin = k then 2048 * amplitude else 0) ≤ 2048 * 9763 := by
      split <;> linarith
    linarith
  · have apart : bin ≠ k := by
      have searched := hears.high
      omega
    rw [if_neg apart] at found
    linarith

end Heard

/-- After every run that ends in a whistle, the display shows its frequency and the command of its
band, which was sent last, when it is loud enough; and it says stop when it is quiet or too high. -/
theorem whistle_run {pTwiddle : Nat → Float32T} (table : Table Worth (1 / 2 ^ 24) pTwiddle)
    (input output : Nat → Float32T) (command : Command) (led : Bool) (before : List Chunk)
    (S : CfftRadix4 Float32T) {amplitude phase : ℝ} (loudness : 0 ≤ amplitude) {k : Nat}
    (low : 1 ≤ k) (high : k < 2048) {PCMvector : Nat → UInt16}
    (whistle : Whistle amplitude phase k PCMvector) :
    ∃ final, Runs.run (Analyser.take pTwiddle) ⟨input, output, setup command led⟩
        (before ++ [(S, PCMvector)]) = some final ∧
      final.transmitter.Agrees ∧
      (9768 ≤ amplitude → k ≤ 1023 →
        final.transmitter.state.actualCommand = band k ∧
          Display.Displays ⟨some (44000 * k / 4096), band k⟩ final.transmitter.display.display) ∧
      (amplitude ≤ 9763 ∨ 1024 ≤ k →
        final.transmitter.state.actualCommand = .stop ∧
          Display.Displays ⟨none, .stop⟩ final.transmitter.display.display) := by
  obtain ⟨final, ran, bin, magnitude, hears, tells⟩ :=
    heard_run table input output command led before (S, PCMvector)
  have command := tells.command
  have displays := tells.displays
  refine ⟨final, ran, tells.agrees, fun loud searched => ?_, fun quiet => ?_⟩
  · have reads := reads_loud loudness whistle low high hears loud searched
    rw [reads] at displays
    exact ⟨command.trans (congrArg Display.Shown.command reads), displays⟩
  · have reads := reads_quiet loudness whistle low high hears quiet
    rw [reads] at displays
    exact ⟨command.trans (congrArg Display.Shown.command reads), displays⟩

/-- Silence, and then a whistle that is too high to be searched. -/
theorem hears_run_high :
    (∃ final, Runs.run (Analyser.take fixedCoef)
        ⟨fun _ => Float32.Model.ofInt 0, fun _ => Float32.Model.ofInt 0, setup .none true⟩
        [(⟨0, 0, 0, fixedCoef, 0, 0, 0, Float32.Model.ofInt 0⟩, fun _ => 32768),
          (⟨0, 0, 0, fixedCoef, 0, 0, 0, Float32.Model.ofInt 0⟩, sampled 10000 0 2000)] =
        some final) ∧
      ∀ before chunk, before ++ [chunk] <+:
          [(⟨0, 0, 0, fixedCoef, 0, 0, 0, Float32.Model.ofInt 0⟩, fun _ => 32768),
            (⟨0, 0, 0, fixedCoef, 0, 0, 0, Float32.Model.ofInt 0⟩, sampled 10000 0 2000)] →
        ∀ after, Runs.run (Analyser.take fixedCoef)
            ⟨fun _ => Float32.Model.ofInt 0, fun _ => Float32.Model.ofInt 0, setup .none true⟩
            (before ++ [chunk]) = some after →
          ∃ k magnitude, Hears chunk.2 k magnitude ∧ Tells k magnitude after.transmitter :=
  hears_run table_fixedCoef _ _ _ _ _

/-- A whistle of 644 hertz, the first sound after the start. -/
theorem whistle_run_forward :
    ∃ final, Runs.run (Analyser.take fixedCoef)
        ⟨fun _ => Float32.Model.ofInt 0, fun _ => Float32.Model.ofInt 0, setup .none true⟩
        ([] ++ [(⟨0, 0, 0, fixedCoef, 0, 0, 0, Float32.Model.ofInt 0⟩, sampled 10000 0 60)]) =
          some final ∧
      final.transmitter.state.actualCommand = .forward ∧
      Display.Displays ⟨some 644, .forward⟩ final.transmitter.display.display := by
  have inside : band 60 = .forward := by decide +kernel
  obtain ⟨final, ran, -, heard, -⟩ := whistle_run table_fixedCoef
    (fun _ => Float32.Model.ofInt 0) (fun _ => Float32.Model.ofInt 0) .none true []
    ⟨0, 0, 0, fixedCoef, 0, 0, 0, Float32.Model.ofInt 0⟩ (by norm_num) (by decide) (by decide)
    (whistle_sampled (by norm_num) (by norm_num) 0 60 : Whistle 10000 0 60 (sampled 10000 0 60))
  obtain ⟨command, displays⟩ := heard (by norm_num) (by decide)
  rw [inside] at command displays
  exact ⟨final, ran, command, displays⟩

end

end WhistleDrivenRobot
