/-
This file models the callback that the transmitter runs on every analysed sound:
it decides on a command and passes it on to the display, to the robot and to a
light. Each of the three is told in every branch and two of them ignore what
they were told before. They agree after every callback.
-/

import WhistleDrivenRobot.Recognition
import WhistleDrivenRobot.Runs

namespace WhistleDrivenRobot

open Binary32

/-! ### The constants -/

def AMPLITUDE_THRESHOLD : Float32T := Float32.Model.ofInt 20000000

def FORWARD_MIN_FREQ : Float32T := Float32.Model.ofInt 500

def FORWARD_MAX_FREQ : Float32T := Float32.Model.ofInt 1000

def TURNLEFT_MIN_FREQ : Float32T := Float32.Model.ofInt 1100

def TURNLEFT_MAX_FREQ : Float32T := Float32.Model.ofInt 1800

def TURNRIGHT_MIN_FREQ : Float32T := Float32.Model.ofInt 2000

def TURNRIGHT_MAX_FREQ : Float32T := Float32.Model.ofInt 2800

def BACKWARD_MIN_FREQ : Float32T := Float32.Model.ofInt 3000

def BACKWARD_MAX_FREQ : Float32T := Float32.Model.ofInt 4000

/-! ### The callback -/

/-- The globals of the program and the light; `serial` is the history of what each `printf` wrote
on the serial port. -/
structure Transmitter where
  fundamentalFreqAmplitude : Float32T
  freq : Float32T
  display : Display
  state : ReceiverState
  greenLed : Bool
  serial : List (List UInt8)

/-- The conversion to `int`, undefined for what has no `int` before the point. -/
def toInt (number : Float32T) : Option Int :=
  match truncated number.unpack with
  | some whole => if -2 ^ 31 ≤ whole ∧ whole < 2 ^ 31 then some whole else none
  | none => none

theorem worth_ne_zero_of_toInt {number : Float32T} {whole : Int}
    (converted : toInt number = some whole) (nonzero : whole ≠ 0) :
    worth number ≠ ((0 : Rat) : WithTop Rat) := by
  unfold toInt at converted
  split at converted
  · rename_i size here
    split at converted
    · obtain rfl := Option.some.inj converted
      exact value_ne_zero_of_truncated here nonzero
    · exact absurd converted nofun
  · exact absurd converted nofun

namespace Transmitter

def setState (transmitter : Transmitter) (command : Command) : Transmitter :=
  let (state, written) := transmitter.state.setState command
  { transmitter with
    state := state
    serial := if written = [] then transmitter.serial else transmitter.serial ++ [written] }

/-- The three statements of every branch of the decision. -/
def react (transmitter : Transmitter) (led : Bool) (command : Command) : Transmitter :=
  { transmitter with
    greenLed := led
    display := transmitter.display.setCommand command }.setState command

/-- `none` where the code divides by zero or converts to `int` what is none. -/
def callback (transmitter : Transmitter) : Option Transmitter :=
  if ¬transmitter.fundamentalFreqAmplitude > AMPLITUDE_THRESHOLD then
    let transmitter : Transmitter :=
      { transmitter with
        display := transmitter.display.setFrequencyTooLow.setCommand .stop }.setState .stop
    some { transmitter with greenLed := false }
  else
    match toInt transmitter.freq with
    | none => none
    | some divisor =>
      if divisor = 0 then none
      else
        let freq := transmitter.freq
        let transmitter : Transmitter :=
          { transmitter with
            fundamentalFreqAmplitude := transmitter.fundamentalFreqAmplitude *
              Float32.Model.ofInt (Int.tdiv 500 divisor) }
        let transmitter :=
          if freq < FORWARD_MAX_FREQ ∧ freq > FORWARD_MIN_FREQ then
            transmitter.react true .forward
          else if freq > TURNLEFT_MIN_FREQ ∧ freq < TURNLEFT_MAX_FREQ then
            transmitter.react true .left
          else if freq > TURNRIGHT_MIN_FREQ ∧ freq < TURNRIGHT_MAX_FREQ then
            transmitter.react true .right
          else if freq > BACKWARD_MIN_FREQ ∧ freq < BACKWARD_MAX_FREQ then
            transmitter.react true .back
          else transmitter.react false .stop
        some { transmitter with display := transmitter.display.setFrequency freq }

/-- The program before `main`: the fields of the display and the light hold anything. -/
def boot (command : Command) (led : Bool) : Transmitter where
  fundamentalFreqAmplitude := Float32.Model.ofInt 0
  freq := Float32.Model.ofInt 0
  display := Display.create command
  state := ReceiverState.create
  greenLed := led
  serial := []

/-- `main` until the acquisition starts. -/
def setup (command : Command) (led : Bool) : Transmitter :=
  { boot command led with greenLed := false }.setState .stop

/-- The frequency and the amplitude of a sound are stored. -/
def hear (transmitter : Transmitter) (sound : Float32T × Float32T) : Transmitter :=
  { transmitter with freq := sound.1, fundamentalFreqAmplitude := sound.2 }

/-- One sound: it is stored and the callback runs. -/
def acquire (transmitter : Transmitter) (sound : Float32T × Float32T) : Option Transmitter :=
  (transmitter.hear sound).callback

/-- One round of the analysis on the magnitudes of a chunk. -/
def analyse (transmitter : Transmitter) (output : Nat → Float32T) : Option Transmitter :=
  transmitter.acquire ((maxFreq output FFT_SIZE).freq, (maxFreq output FFT_SIZE).amplitude)

end Transmitter

/-! ### One command everywhere -/

namespace Transmitter

/-- The last line on the serial port is that of the current command. -/
def Sent (transmitter : Transmitter) : Prop :=
  transmitter.serial.getLast? = some [transmitter.state.actualCommand.letter, '\n'.toUInt8]

/-- The display, the light and the serial port all say the current command. -/
structure Agrees (transmitter : Transmitter) : Prop where
  display : transmitter.display.command = transmitter.state.actualCommand
  sent : transmitter.Sent
  greenLed : transmitter.greenLed = true ↔ transmitter.state.actualCommand ≠ .stop

/-- What the display says about the sound that was analysed last. -/
def Shows (transmitter : Transmitter) : Option (Float32T × Float32T) → Prop
  | none => transmitter.display.isFrequencyTooLow = true
  | some (freq, amplitude) =>
    if amplitude > AMPLITUDE_THRESHOLD then
      transmitter.display.isFrequencyTooLow = false ∧ transmitter.display.frequency = freq
    else transmitter.display.isFrequencyTooLow = true

variable {transmitter next : Transmitter}

theorem shows_some {freq amplitude : Float32T} :
    transmitter.Shows (some (freq, amplitude)) ↔
      if amplitude > AMPLITUDE_THRESHOLD then
        transmitter.display.isFrequencyTooLow = false ∧ transmitter.display.frequency = freq
      else transmitter.display.isFrequencyTooLow = true := Iff.rfl

theorem actualCommand_setState (transmitter : Transmitter) (command : Command) :
    (transmitter.setState command).state.actualCommand = command := by
  unfold setState ReceiverState.setState
  by_cases same : transmitter.state.actualCommand = command
  · rw [if_pos same]
    exact same
  · rw [if_neg same]

/-- A repeated command is not sent again: it is the one that was sent last. -/
theorem sent_setState (command : Command)
    (sent : transmitter.state.actualCommand = command → transmitter.Sent) :
    (transmitter.setState command).Sent := by
  rw [Sent, actualCommand_setState]
  unfold setState ReceiverState.setState
  by_cases same : transmitter.state.actualCommand = command
  · rw [if_pos same]
    exact same ▸ sent same
  · rw [if_neg same]
    show (if ReceiverState.sendCommand ⟨command⟩ = [] then transmitter.serial
      else transmitter.serial ++ [ReceiverState.sendCommand ⟨command⟩]).getLast? = _
    rw [sendCommand_eq]
    exact List.getLast?_concat

theorem agrees_react (sent : transmitter.Sent) {led : Bool} {command : Command}
    (lit : led = true ↔ command ≠ .stop) : (transmitter.react led command).Agrees := by
  have actual : (transmitter.react led command).state.actualCommand = command :=
    actualCommand_setState _ command
  refine ⟨?_, sent_setState command fun _ => sent, ?_⟩
  · rw [actual]
    exact congrArg Prod.fst (Display.fields_setCommand transmitter.display command)
  · rw [actual]
    exact lit

/-! ### What the callback does -/

/-- The command that the branches of the callback name. -/
def decided (freq : Float32T) : Command :=
  if freq < FORWARD_MAX_FREQ ∧ freq > FORWARD_MIN_FREQ then .forward
  else if freq > TURNLEFT_MIN_FREQ ∧ freq < TURNLEFT_MAX_FREQ then .left
  else if freq > TURNRIGHT_MIN_FREQ ∧ freq < TURNRIGHT_MAX_FREQ then .right
  else if freq > BACKWARD_MIN_FREQ ∧ freq < BACKWARD_MAX_FREQ then .back
  else .stop

/-- The callback on a sound that is too quiet. -/
def silenced (transmitter : Transmitter) : Transmitter :=
  let transmitter : Transmitter :=
    { transmitter with
      display := transmitter.display.setFrequencyTooLow.setCommand .stop }.setState .stop
  { transmitter with greenLed := false }

/-- The callback on a sound that is loud enough, from the decision on. -/
def commanded (transmitter : Transmitter) : Transmitter :=
  let reacted := transmitter.react (decide (decided transmitter.freq ≠ .stop))
    (decided transmitter.freq)
  { reacted with display := reacted.display.setFrequency transmitter.freq }

theorem callback_of_quiet
    (quiet : ¬transmitter.fundamentalFreqAmplitude > AMPLITUDE_THRESHOLD) :
    transmitter.callback = some transmitter.silenced := if_pos quiet

theorem callback_of_loud (loud : transmitter.fundamentalFreqAmplitude > AMPLITUDE_THRESHOLD) :
    transmitter.callback = match toInt transmitter.freq with
      | none => none
      | some divisor => if divisor = 0 then none else
        some (commanded { transmitter with
          fundamentalFreqAmplitude := transmitter.fundamentalFreqAmplitude *
            Float32.Model.ofInt (Int.tdiv 500 divisor) }) := by
  unfold callback
  rw [if_neg (not_not.mpr loud)]
  cases toInt transmitter.freq with
  | none => rfl
  | some divisor =>
    refine if_congr Iff.rfl rfl (congrArg some ?_)
    simp only [commanded, decided]
    split_ifs <;> rfl

/-- A callback that returns was on a quiet sound, or on a loud one that it could divide by. -/
theorem callback_cases (called : transmitter.callback = some next) :
    (¬transmitter.fundamentalFreqAmplitude > AMPLITUDE_THRESHOLD ∧ next = transmitter.silenced) ∨
      transmitter.fundamentalFreqAmplitude > AMPLITUDE_THRESHOLD ∧
        ∃ divisor amplitude, toInt transmitter.freq = some divisor ∧ divisor ≠ 0 ∧
          next = commanded { transmitter with fundamentalFreqAmplitude := amplitude } := by
  by_cases loud : transmitter.fundamentalFreqAmplitude > AMPLITUDE_THRESHOLD
  · rw [callback_of_loud loud] at called
    cases converted : toInt transmitter.freq with
    | none =>
      simp only [converted] at called
      exact absurd called nofun
    | some divisor =>
      simp only [converted] at called
      by_cases zero : divisor = 0
      · rw [if_pos zero] at called
        exact absurd called nofun
      · rw [if_neg zero] at called
        exact .inr ⟨loud, divisor, _, rfl, zero, (Option.some.inj called).symm⟩
  · rw [callback_of_quiet loud] at called
    exact .inl ⟨loud, (Option.some.inj called).symm⟩

theorem agrees_silenced (sent : transmitter.Sent) :
    transmitter.silenced.Agrees ∧ transmitter.silenced.display.isFrequencyTooLow = true := by
  have actual : transmitter.silenced.state.actualCommand = .stop := actualCommand_setState _ .stop
  have shown : transmitter.silenced.display.fields = (.stop, true, transmitter.display.frequency) :=
    Display.fields_setCommand transmitter.display.setFrequencyTooLow .stop
  refine ⟨⟨?_, sent_setState .stop fun _ => sent, ?_⟩, congrArg (fun fields => fields.2.1) shown⟩
  · rw [actual]
    exact congrArg Prod.fst shown
  · rw [actual]
    exact iff_of_false Bool.false_ne_true (not_not.mpr rfl)

theorem agrees_commanded (sent : transmitter.Sent)
    (nonzero : worth transmitter.freq ≠ ((0 : Rat) : WithTop Rat)) :
    transmitter.commanded.Agrees ∧ transmitter.commanded.display.isFrequencyTooLow = false ∧
      transmitter.commanded.display.frequency = transmitter.freq := by
  have reacted : (transmitter.react (decide (decided transmitter.freq ≠ .stop))
      (decided transmitter.freq)).Agrees := agrees_react sent decide_eq_true_iff
  obtain ⟨display, line, greenLed⟩ := reacted
  have shown : transmitter.commanded.display.fields = (_, false, transmitter.freq) :=
    Display.fields_setFrequency _ nonzero
  refine ⟨⟨?_, line, greenLed⟩, congrArg (fun fields => fields.2.1) shown,
    congrArg (fun fields => fields.2.2) shown⟩
  exact (congrArg Prod.fst shown).trans display

/-- After a callback everything agrees, if the last line was that of the command before. -/
theorem agrees_callback (sent : transmitter.Sent) (called : transmitter.callback = some next) :
    next.Agrees ∧
      next.Shows (some (transmitter.freq, transmitter.fundamentalFreqAmplitude)) := by
  rw [shows_some]
  rcases callback_cases called with
    ⟨quiet, rfl⟩ | ⟨loud, divisor, amplitude, converted, nonzero, rfl⟩
  · rw [if_neg quiet]
    exact agrees_silenced sent
  · rw [if_pos loud]
    exact agrees_commanded sent (worth_ne_zero_of_toInt converted nonzero)

theorem agrees_acquire {sound : Float32T × Float32T} (sent : transmitter.Sent)
    (acquired : transmitter.acquire sound = some next) : next.Agrees ∧ next.Shows (some sound) :=
  @agrees_callback (transmitter.hear sound) next sent acquired

theorem agrees_setup (command : Command) (led : Bool) :
    (setup command led).Agrees ∧ (setup command led).Shows none :=
  ⟨⟨rfl, rfl, iff_of_false Bool.false_ne_true (not_not.mpr rfl)⟩, rfl⟩

/-- After every run of the transmitter the display, the light and the last line agree on the current
command, and the display shows the sound that was analysed last. -/
theorem agrees_run {command : Command} {led : Bool} {sounds : List (Float32T × Float32T)}
    (ran : Runs.run acquire (setup command led) sounds = some transmitter) :
    (transmitter.display.command = transmitter.state.actualCommand ∧
        transmitter.serial.getLast? =
          some [transmitter.state.actualCommand.letter, '\n'.toUInt8] ∧
        (transmitter.greenLed = true ↔ transmitter.state.actualCommand ≠ .stop)) ∧
      transmitter.Shows sounds.getLast? := by
  have keeps : ∀ (before : List (Float32T × Float32T)) (state : Transmitter) sound next,
      (state.Agrees ∧ state.Shows before.getLast?) → state.acquire sound = some next →
        next.Agrees ∧ next.Shows (before ++ [sound]).getLast? := by
    intro before state sound next carried acquired
    rw [List.getLast?_concat]
    exact agrees_acquire carried.1.sent acquired
  have all := Runs.run_history keeps (agrees_setup command led) ran
  exact ⟨⟨all.1.display, all.1.sent, all.1.greenLed⟩, all.2⟩

theorem agrees_run_three : ∃ transmitter : Transmitter,
    Runs.run acquire (setup .none true) [(Float32.Model.ofInt 600, Float32.Model.ofInt 30000000),
      (Float32.Model.ofInt 600, Float32.Model.ofInt 0),
      (Float32.Model.ofInt 1500, Float32.Model.ofInt 30000000)] = some transmitter ∧
    (transmitter.display.command = transmitter.state.actualCommand ∧
        transmitter.serial.getLast? =
          some [transmitter.state.actualCommand.letter, '\n'.toUInt8] ∧
        (transmitter.greenLed = true ↔ transmitter.state.actualCommand ≠ .stop)) ∧
      transmitter.Shows (some (Float32.Model.ofInt 1500, Float32.Model.ofInt 30000000)) := by
  have defined : (Runs.run acquire (setup .none true)
      [(Float32.Model.ofInt 600, Float32.Model.ofInt 30000000),
        (Float32.Model.ofInt 600, Float32.Model.ofInt 0),
        (Float32.Model.ofInt 1500, Float32.Model.ofInt 30000000)]).isSome = true := by
    decide +kernel
  obtain ⟨transmitter, ran⟩ := Option.isSome_iff_exists.mp defined
  exact ⟨transmitter, ran, agrees_run ran⟩

/-! ### The decision on the spectrum -/

/-- What is meant to be done about the strongest bin of a spectrum. -/
def intended (k : Nat) (magnitude : Float32T) : Command :=
  let frequency : Rat := 44000 * k / 4096
  if magnitude ≤ AMPLITUDE_THRESHOLD then .stop
  else if 500 < frequency ∧ frequency < 1000 then .forward
  else if 1100 < frequency ∧ frequency < 1800 then .left
  else if 2000 < frequency ∧ frequency < 2800 then .right
  else if 3000 < frequency ∧ frequency < 4000 then .back
  else .stop

theorem lt_frequency_iff (bound k : Nat) :
    (bound : Rat) < 44000 * k / 4096 ↔ 4096 * bound < 44000 * k := by
  have casts : ((4096 * bound : Nat) : Rat) < ((44000 * k : Nat) : Rat) ↔
      4096 * bound < 44000 * k :=
    Nat.cast_lt
  rw [← casts, lt_div_iff₀ (by decide), mul_comm, Nat.cast_mul, Nat.cast_mul]
  rfl

theorem frequency_lt_iff (bound k : Nat) :
    (44000 * k / 4096 : Rat) < bound ↔ 44000 * k < 4096 * bound := by
  have casts : ((44000 * k : Nat) : Rat) < ((4096 * bound : Nat) : Rat) ↔
      44000 * k < 4096 * bound :=
    Nat.cast_lt
  rw [← casts, div_lt_iff₀ (by decide), mul_comm (bound : Rat), Nat.cast_mul, Nat.cast_mul]
  rfl

/-- Truncation does not move a frequency across a bound that no bin exceeds by less than one. -/
theorem inside_band {k : Nat} (inside : k ≤ 1023) (low high : Nat) (order : low < high)
    (short : high < 2 ^ 24) (gap : 44000 * k ≤ 4096 * low ∨ 4096 * (low + 1) ≤ 44000 * k) :
    Float32.Model.ofInt (44000 * k / 4096 : Nat) > Float32.Model.ofInt low ∧
        Float32.Model.ofInt (44000 * k / 4096 : Nat) < Float32.Model.ofInt high ↔
      (low : Rat) < 44000 * k / 4096 ∧ (44000 * k / 4096 : Rat) < high := by
  have small : ∀ {number : Nat}, number < 2 ^ 24 → |(number : Int)| < 2 ^ 24 := by
    intro number less
    rw [Nat.abs_cast]
    exact_mod_cast less
  have frequency : 44000 * k / 4096 < 2 ^ 24 := by omega
  rw [gt_iff_lt, ofInt_lt_ofInt (small (order.trans short)) (small frequency),
    ofInt_lt_ofInt (small frequency) (small short), lt_frequency_iff, frequency_lt_iff]
  omega

theorem decided_frequency {k : Nat} (inside : k ≤ 1023) {magnitude : Float32T}
    (loud : ¬magnitude ≤ AMPLITUDE_THRESHOLD) :
    decided (Float32.Model.ofInt (44000 * k / 4096 : Nat)) = intended k magnitude := by
  have forward := inside_band inside 500 1000 (by decide) (by decide) (by omega)
  have left := inside_band inside 1100 1800 (by decide) (by decide) (by omega)
  have right := inside_band inside 2000 2800 (by decide) (by decide) (by omega)
  have back := inside_band inside 3000 4000 (by decide) (by decide) (by omega)
  unfold decided intended
  rw [if_neg loud]
  exact if_congr (and_comm.trans forward) rfl
    (if_congr left rfl (if_congr right rfl (if_congr back rfl rfl)))

theorem toInt_frequency {k : Nat} (inside : k ≤ 1023) :
    toInt (Float32.Model.ofInt (44000 * k / 4096 : Nat)) =
      some ((44000 * k / 4096 : Nat) : Int) := by
  have small : |((44000 * k / 4096 : Nat) : Int)| < 2 ^ 24 := by
    rw [abs_of_nonneg (Int.natCast_nonneg _)]
    omega
  have whole := truncated_of_represents (represents_float_ofInt small)
  unfold toInt
  simp only [whole]
  exact if_pos (by omega)

/-- The commands of the robot and of the display after a callback on a quiet sound. -/
theorem commands_of_quiet (quiet : ¬transmitter.fundamentalFreqAmplitude > AMPLITUDE_THRESHOLD) :
    ∃ next, transmitter.callback = some next ∧ next.state.actualCommand = .stop ∧
      next.display.command = .stop :=
  ⟨_, callback_of_quiet quiet, actualCommand_setState _ .stop,
    congrArg Prod.fst (Display.fields_setCommand transmitter.display.setFrequencyTooLow .stop)⟩

/-- The same on a loud one, whose frequency must have a part before the point. -/
theorem commands_of_loud (loud : transmitter.fundamentalFreqAmplitude > AMPLITUDE_THRESHOLD)
    {divisor : Int} (converted : toInt transmitter.freq = some divisor) (nonzero : divisor ≠ 0) :
    ∃ next, transmitter.callback = some next ∧
      next.state.actualCommand = decided transmitter.freq ∧
      next.display.command = decided transmitter.freq := by
  have shown : ∀ heard : Transmitter, heard.freq = transmitter.freq →
      heard.commanded.state.actualCommand = decided transmitter.freq ∧
        heard.commanded.display.command = decided transmitter.freq := by
    intro heard same
    have fields : heard.commanded.display.fields = (_, false, heard.freq) :=
      Display.fields_setFrequency _ (same ▸ worth_ne_zero_of_toInt converted nonzero)
    rw [← same]
    exact ⟨actualCommand_setState _ _, (congrArg Prod.fst fields).trans
      (congrArg Prod.fst (Display.fields_setCommand heard.display _))⟩
  rw [callback_of_loud loud]
  simp only [converted]
  rw [if_neg nonzero]
  exact ⟨_, rfl, shown _ rfl⟩

/-- What is heard of a bin: the bin when its magnitude is positive, and silence otherwise. -/
structure Heard (k : Nat) (magnitude freq amplitude : Float32T) : Prop where
  positive : Float32.Model.ofInt 0 < magnitude →
    amplitude = magnitude ∧ freq = Float32.Model.ofInt (44000 * k / 4096 : Nat)
  silent : ¬Float32.Model.ofInt 0 < magnitude → amplitude = Float32.Model.ofInt 0

theorem heard_strongest {output : Nat → Float32T}
    (magnitudes : ∀ index, 1 ≤ index → index ≤ 1023 → Nonnegative (output index)) {k : Nat}
    (strongest : Strongest output k) :
    Heard k (output k) (maxFreq output FFT_SIZE).freq (maxFreq output FFT_SIZE).amplitude := by
  obtain ⟨positive, silent⟩ := maxFreq_strongest magnitudes strongest
  exact ⟨positive, fun below => (silent below).1⟩

section Bins

variable {k : Nat} {magnitude freq amplitude : Float32T}

theorem Heard.of_loud (heard : Heard k magnitude freq amplitude)
    (number : magnitude.isNaN = false) (loud : magnitude > AMPLITUDE_THRESHOLD) :
    ¬magnitude ≤ AMPLITUDE_THRESHOLD ∧ amplitude = magnitude ∧
      freq = Float32.Model.ofInt (44000 * k / 4096 : Nat) := by
  have zero : Float32.Model.ofInt 0 < AMPLITUDE_THRESHOLD := by decide
  have above : Float32.Model.ofInt 0 < magnitude := by
    rw [lt_iff rfl number]
    exact lt_trans ((lt_iff rfl rfl).mp zero) ((lt_iff rfl number).mp loud)
  refine ⟨fun quiet => ?_, heard.positive above⟩
  exact ((lt_iff rfl number).mp loud).not_ge ((le_iff number rfl).mp quiet)

theorem Heard.of_quiet (heard : Heard k magnitude freq amplitude)
    (number : magnitude.isNaN = false) (quiet : ¬magnitude > AMPLITUDE_THRESHOLD) :
    magnitude ≤ AMPLITUDE_THRESHOLD ∧ ¬amplitude > AMPLITUDE_THRESHOLD := by
  constructor
  · rw [le_iff number rfl]
    exact not_lt.mp fun above => quiet ((lt_iff rfl number).mpr above)
  · by_cases above : Float32.Model.ofInt 0 < magnitude
    · rw [(heard.positive above).1]
      exact quiet
    · rw [heard.silent above]
      decide

/-- The callback does what is intended about a bin that is heard. -/
theorem commands_of_bin (transmitter : Transmitter) (heard : Heard k magnitude freq amplitude)
    (number : magnitude.isNaN = false) (low : 1 ≤ k) (high : k ≤ 1023) :
    ∃ next, transmitter.acquire (freq, amplitude) = some next ∧
      next.state.actualCommand = intended k magnitude ∧
      next.display.command = intended k magnitude := by
  by_cases loud : magnitude > AMPLITUDE_THRESHOLD
  · obtain ⟨notQuiet, rfl, freq_eq⟩ := heard.of_loud number loud
    have nonzero : ((44000 * k / 4096 : Nat) : Int) ≠ 0 := by omega
    rw [← decided_frequency high notQuiet, ← freq_eq]
    exact @commands_of_loud (transmitter.hear (freq, amplitude)) loud _
      (freq_eq ▸ toInt_frequency high) nonzero
  · obtain ⟨quiet, notLoud⟩ := heard.of_quiet number loud
    have stop : intended k magnitude = .stop := if_pos quiet
    rw [stop]
    exact @commands_of_quiet (transmitter.hear (freq, amplitude)) notLoud

end Bins

/-- The command is the intended one about the strongest bin, whatever the transmitter did before,
and nothing but the bins that are searched has an influence. -/
theorem analyse_intended (transmitter : Transmitter) {output : Nat → Float32T}
    (nonnegative : ∀ index < 4096, Nonnegative (output index)) :
    ∃ k, Strongest output k ∧ ∃ next, transmitter.analyse output = some next ∧
      next.state.actualCommand = intended k (output k) ∧
      next.display.command = intended k (output k) ∧
      ∀ other : Nat → Float32T, (∀ index, 1 ≤ index → index ≤ 1023 → other index = output index) →
        transmitter.analyse other = some next := by
  have magnitudes : ∀ index, 1 ≤ index → index ≤ 1023 → Nonnegative (output index) :=
    fun index _ high => nonnegative index (by omega)
  obtain ⟨k, strongest⟩ := exists_strongest magnitudes
  obtain ⟨next, analysed, robot, display⟩ := commands_of_bin transmitter
    (heard_strongest magnitudes strongest)
    (isNumber_of_nonnegative magnitudes strongest.low strongest.high) strongest.low strongest.high
  refine ⟨k, strongest, next, analysed, robot, display, fun other same => ?_⟩
  obtain ⟨amplitude, freq⟩ := maxFreq_congr magnitudes same
  rw [analyse, amplitude, freq]
  exact analysed

/-- A spectrum with a single tone. -/
def tone (index : Nat) : Float32T :=
  if index = 60 then Float32.Model.ofInt 30000000 else Float32.Model.ofInt 0

theorem analyse_intended_tone : ∃ k, Strongest tone k ∧
    ∃ next, (setup .none true).analyse tone = some next ∧
      next.state.actualCommand = intended k (tone k) ∧
      next.display.command = intended k (tone k) ∧
      ∀ other : Nat → Float32T, (∀ index, 1 ≤ index → index ≤ 1023 → other index = tone index) →
        (setup .none true).analyse other = some next := by
  have nonnegative : ∀ index < 4096, Nonnegative (tone index) := by
    intro index _
    unfold Nonnegative tone
    split <;> decide
  exact analyse_intended (setup .none true) nonnegative

/-! ### The division -/

/-- One round of the analysis with any search for the maximum. -/
def analyseBy (search : (Nat → Float32T) → Nat → Float32T × Nat) (transmitter : Transmitter)
    (output : Nat → Float32T) : Option Transmitter :=
  transmitter.acquire ((maxFreqBy search output FFT_SIZE).freq,
    (maxFreqBy search output FFT_SIZE).amplitude)

theorem analyse_eq_analyseBy : analyse = analyseBy armMaxF32 := rfl

/-- The callback divides on a sound that is loud enough, and then by a number from one on. -/
def DividesByPositive (transmitter : Transmitter) : Prop :=
  transmitter.fundamentalFreqAmplitude > AMPLITUDE_THRESHOLD →
    ∃ divisor, toInt transmitter.freq = some divisor ∧ 1 ≤ divisor

theorem callback_of_divides (divides : transmitter.DividesByPositive) :
    ∃ next, transmitter.callback = some next := by
  by_cases loud : transmitter.fundamentalFreqAmplitude > AMPLITUDE_THRESHOLD
  · obtain ⟨divisor, converted, positive⟩ := divides loud
    rw [callback_of_loud loud]
    simp only [converted]
    exact ⟨_, if_neg (by omega)⟩
  · exact ⟨_, callback_of_quiet loud⟩

/-- What is loud is not the magnitude that was set to zero. -/
theorem divides_of_maximum {output : Nat → Float32T} {found : Float32T × Nat}
    (maximum : Maximum (cleared output) 1024 found) (loud : found.1 > AMPLITUDE_THRESHOLD) :
    ∃ divisor,
      toInt (Float32.Model.ofUInt32 (UInt32.ofNat found.2 * SAMPLING_FREQ / FFT_SIZE)) =
          some divisor ∧ 1 ≤ divisor := by
  have inside := maximum.inside
  have later : found.2 ≠ 0 := by
    intro zero
    rw [maximum.value, zero, cleared_zero] at loud
    exact absurd loud (by decide)
  rw [ofUInt32_frequency (by omega)]
  exact ⟨_, toInt_frequency (by omega), by omega⟩

theorem divides_round {search : (Nat → Float32T) → Nat → Float32T × Nat}
    (searches : Searches search) (transmitter : Transmitter) {output : Nat → Float32T}
    (nonnegative : ∀ index < 4096, Nonnegative (output index)) :
    (transmitter.hear ((maxFreqBy search output FFT_SIZE).freq,
      (maxFreqBy search output FFT_SIZE).amplitude)).DividesByPositive := by
  have magnitudes : ∀ index, 1 ≤ index → index ≤ 1023 → Nonnegative (output index) :=
    fun index _ high => nonnegative index (by omega)
  have maximum := searches (cleared output) 1024 (by decide) fun index inside =>
    nonnegative_cleared magnitudes inside
  obtain ⟨amplitude, freq⟩ := @maxFreqBy_eq search output _ rfl
  intro loud
  show ∃ divisor, toInt (maxFreqBy search output FFT_SIZE).freq = some divisor ∧ 1 ≤ divisor
  rw [freq]
  exact divides_of_maximum maximum (amplitude ▸ loud)

/-- Every sequence of rounds goes through, and in each of them the callback divides by a number from
one on, if at all. -/
theorem divides_run {search : (Nat → Float32T) → Nat → Float32T × Nat}
    (searches : Searches search) (command : Command) (led : Bool)
    {outputs : List (Nat → Float32T)}
    (nonnegative : ∀ output ∈ outputs, ∀ index < 4096, Nonnegative (output index)) :
    (∃ transmitter,
        Runs.run (analyseBy search) (setup command led) outputs = some transmitter) ∧
      Runs.EachStep (analyseBy search) (fun transmitter output =>
        (transmitter.hear ((maxFreqBy search output FFT_SIZE).freq,
          (maxFreqBy search output FFT_SIZE).amplitude)).DividesByPositive)
        (setup command led) outputs := by
  constructor
  · induction outputs using List.reverseRecOn with
    | nil => exact ⟨_, rfl⟩
    | append_singleton before output inductionHypothesis =>
      obtain ⟨transmitter, ran⟩ := inductionHypothesis fun other member =>
        nonnegative other (List.mem_append_left [output] member)
      have divides := divides_round searches transmitter
        (nonnegative output (List.mem_append_right before (List.mem_singleton_self output)))
      obtain ⟨next, called⟩ := callback_of_divides divides
      rw [Runs.run_concat, ran]
      exact ⟨next, called⟩
  · intro before output early transmitter _
    refine divides_round searches transmitter (nonnegative output (early.subset ?_))
    exact List.mem_append_right before (List.mem_singleton_self output)

theorem divides_run_silence :
    (∃ transmitter, Runs.run (analyseBy armMaxF32) (setup .none true)
        [fun _ => Float32.Model.ofInt 0, tone] = some transmitter) ∧
      Runs.EachStep (analyseBy armMaxF32) (fun transmitter output =>
        (transmitter.hear ((maxFreqBy armMaxF32 output FFT_SIZE).freq,
          (maxFreqBy armMaxF32 output FFT_SIZE).amplitude)).DividesByPositive)
        (setup .none true) [fun _ => Float32.Model.ofInt 0, tone] := by
  refine divides_run searches_armMaxF32 .none true fun output member index _ => ?_
  unfold Nonnegative
  rcases List.mem_cons.mp member with rfl | member
  · show Float32.Model.ofInt 0 ≤ Float32.Model.ofInt 0
    decide
  · rw [List.mem_singleton.mp member]
    unfold tone
    split <;> decide

end Transmitter

end WhistleDrivenRobot
