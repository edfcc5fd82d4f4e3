/-
This file follows whole runs of the transmitter to its outputs. A sound makes
two calls on the display and sets one command, whatever came before; so what is
proved about any calls of either class holds of the program. The screen shows
the strongest bin of the last spectrum. No line is sent twice in a row: of the
commands that share a letter the callback decides on one only.
-/

import WhistleDrivenRobot.Broadcast
import WhistleDrivenRobot.Callback
import WhistleDrivenRobot.Screen

namespace WhistleDrivenRobot

namespace Transmitter

variable {transmitter next : Transmitter}

/-! ### What a sound does -/

/-- The command that is set on a sound, a frequency and an amplitude. -/
def commandOf (sound : Float32T × Float32T) : Command :=
  if sound.2 > AMPLITUDE_THRESHOLD then decided sound.1 else .stop

/-- The calls on the display that are made on a sound. -/
def displayCalls (sound : Float32T × Float32T) : List (Display.Call Float32T) :=
  if sound.2 > AMPLITUDE_THRESHOLD then [.setCommand (decided sound.1), .setFrequency sound.1]
  else [.setFrequencyTooLow, .setCommand .stop]

/-- The rest of the commands is counted in, since what is sent depends on the ones before. -/
theorem outputs_setState (transmitter : Transmitter) (command : Command) :
    (transmitter.setState command).display = transmitter.display ∧
      ∀ rest, (transmitter.setState command).serial ++
          (transmitter.setState command).state.setStates rest =
        transmitter.serial ++ transmitter.state.setStates (command :: rest) := by
  refine ⟨rfl, fun rest => ?_⟩
  rw [ReceiverState.setStates, setState]
  cases called : transmitter.state.setState command with
  | mk state written =>
    show (if written = [] then transmitter.serial else transmitter.serial ++ [written]) ++
      state.setStates rest = transmitter.serial ++ if written = [] then state.setStates rest
        else written :: state.setStates rest
    split
    · rfl
    · rw [List.append_assoc, List.singleton_append]

/-- One sound makes its calls on the display and sets its command. -/
theorem acquire_outputs {sound : Float32T × Float32T}
    (acquired : transmitter.acquire sound = some next) :
    next.display = transmitter.display.calls (displayCalls sound) ∧
      ∀ rest, next.serial ++ next.state.setStates rest =
        transmitter.serial ++ transmitter.state.setStates (commandOf sound :: rest) := by
  rw [displayCalls, commandOf]
  rcases @callback_cases (transmitter.hear sound) next acquired with
    ⟨quiet, rfl⟩ | ⟨loud, divisor, amplitude, converted, nonzero, rfl⟩
  · have silent : ¬sound.2 > AMPLITUDE_THRESHOLD := quiet
    rw [if_neg silent, if_neg silent]
    exact ⟨rfl, (outputs_setState _ .stop).2⟩
  · have audible : sound.2 > AMPLITUDE_THRESHOLD := loud
    rw [if_pos audible, if_pos audible]
    exact ⟨rfl, (outputs_setState _ (decided sound.1)).2⟩

/-! ### Runs -/

theorem outputs_run {sounds : List (Float32T × Float32T)}
    (ran : Runs.run acquire transmitter sounds = some next) :
    next.display = transmitter.display.calls (sounds.flatMap displayCalls) ∧
      ∀ rest, next.serial ++ next.state.setStates rest =
        transmitter.serial ++ transmitter.state.setStates (sounds.map commandOf ++ rest) := by
  let outputs : List (Float32T × Float32T) → Transmitter → Prop := fun before reached =>
    reached.display = transmitter.display.calls (before.flatMap displayCalls) ∧
      ∀ rest, reached.serial ++ reached.state.setStates rest =
        transmitter.serial ++ transmitter.state.setStates (before.map commandOf ++ rest)
  have keeps : ∀ before reached sound next, outputs before reached →
      acquire reached sound = some next → outputs (before ++ [sound]) next := by
    rintro before reached sound next ⟨display, serial⟩ acquired
    obtain ⟨displayNow, serialNow⟩ := acquire_outputs acquired
    refine ⟨?_, fun rest => ?_⟩
    · rw [displayNow, display, List.flatMap_append, List.flatMap_singleton, Display.calls_append]
    · rw [serialNow, serial, List.map_append, List.append_assoc]
      rfl
  exact Runs.run_history keeps ⟨rfl, fun _ => rfl⟩ ran

/-- The program writes the lines of the commands that it sets, from `main` on. -/
theorem serial_run {command : Command} {led : Bool} {sounds : List (Float32T × Float32T)}
    (ran : Runs.run acquire (setup command led) sounds = some transmitter) :
    transmitter.serial = ReceiverState.broadcast (.stop :: sounds.map commandOf) := by
  have written := (outputs_run ran).2 []
  have started := (outputs_setState { boot command led with greenLed := false } .stop).2
    (sounds.map commandOf)
  rw [ReceiverState.setStates, List.append_nil, List.append_nil] at written
  exact written.trans started

/-- The callback never decides on one of the commands that share the letter of `STOP`. -/
theorem commandOf_ne (sound : Float32T × Float32T) :
    commandOf sound ≠ .none ∧ commandOf sound ≠ .undefined := by
  unfold commandOf decided
  split_ifs <;> exact ⟨nofun, nofun⟩

theorem letter_injOn {one other : Command} (usual : one ≠ .none ∧ one ≠ .undefined)
    (otherUsual : other ≠ .none ∧ other ≠ .undefined) (same : one.letter = other.letter) :
    one = other := by
  cases one <;> cases other <;> first
    | rfl
    | exact absurd same (by decide)
    | exact absurd rfl usual.1
    | exact absurd rfl usual.2
    | exact absurd rfl otherUsual.1
    | exact absurd rfl otherUsual.2

/-- No line of the program is repeated, and the last one is that of the last sound. -/
theorem broadcasts_run (sounds : List (Float32T × Float32T)) :
    ReceiverState.Broadcasts (.stop :: sounds.map commandOf) := by
  have usual : ∀ command ∈ Command.stop :: sounds.map commandOf,
      command ≠ .none ∧ command ≠ .undefined := by
    intro command member
    rcases List.mem_cons.mp member with rfl | member
    · exact ⟨nofun, nofun⟩
    · obtain ⟨sound, -, rfl⟩ := List.mem_map.mp member
      exact commandOf_ne sound
  have different : Command.undefined ≠ .stop := nofun
  rw [ReceiverState.broadcasts_iff, Changes.map_changes_eq_destutter_iff,
    Changes.dropWhile_cons_of_ne different]
  refine ⟨List.Pairwise.isChain ?_, fun first => absurd (Option.some.inj first) nofun⟩
  refine List.pairwise_of_forall_mem_list fun one member other otherMember same => ?_
  exact letter_injOn (usual one member) (usual other otherMember) same

/-! ### The screen -/

/-- What is to be read on the screen about the strongest bin of a spectrum. -/
def reading (k : Nat) (magnitude : Float32T) : Display.Shown Nat where
  frequency := if magnitude > AMPLITUDE_THRESHOLD then some (44000 * k / 4096) else none
  command := intended k magnitude

theorem drawn_of_bin {shown : Display.Shown Nat} (drawn : Display.Drawn shown transmitter.display)
    {k : Nat} {magnitude freq amplitude : Float32T} (heard : Heard k magnitude freq amplitude)
    (number : magnitude.isNaN = false) (high : k ≤ 1023)
    (acquired : transmitter.acquire (freq, amplitude) = some next) :
    Display.Drawn (reading k magnitude) next.display := by
  rw [(acquire_outputs acquired).1, displayCalls, reading]
  by_cases loud : magnitude > AMPLITUDE_THRESHOLD
  · obtain ⟨notQuiet, rfl, freq_eq⟩ := heard.of_loud number loud
    have inside : 44000 * k / 4096 ≤ Display.maxFrequency := by
      rw [Display.maxFrequency]
      omega
    rw [if_pos loud, if_pos loud, freq_eq, decided_frequency high notQuiet]
    exact (drawn.setCommand _).setFrequency inside
  · obtain ⟨quiet, notLoud⟩ := heard.of_quiet number loud
    have stop : intended k magnitude = .stop := if_pos quiet
    rw [if_neg loud, if_neg notLoud, stop]
    exact drawn.setFrequencyTooLow.setCommand .stop

theorem drawn_analyse {shown : Display.Shown Nat} (drawn : Display.Drawn shown transmitter.display)
    {output : Nat → Float32T} (nonnegative : ∀ index < 4096, Nonnegative (output index))
    {k : Nat} (strongest : Strongest output k) (analysed : transmitter.analyse output = some next) :
    Display.Drawn (reading k (output k)) next.display := by
  have magnitudes : ∀ index, 1 ≤ index → index ≤ 1023 → Nonnegative (output index) :=
    fun index _ high => nonnegative index (by omega)
  exact drawn_of_bin drawn (heard_strongest magnitudes strongest)
    (isNumber_of_nonnegative magnitudes strongest.low strongest.high) strongest.high analysed

/-- After every run the screen shows the strongest bin of the last spectrum. -/
theorem displays_run {command : Command} {led : Bool} {outputs : List (Nat → Float32T)}
    {output : Nat → Float32T}
    (nonnegative : ∀ magnitudes ∈ outputs ++ [output],
      ∀ index < 4096, Nonnegative (magnitudes index))
    (ran : Runs.run analyse (setup command led) (outputs ++ [output]) = some transmitter) :
    ∃ k, Strongest output k ∧
      Display.Displays (reading k (output k)) transmitter.display.display := by
  rw [Runs.run_concat] at ran
  obtain ⟨before, ranBefore, analysed⟩ := Option.bind_eq_some_iff.mp ran
  have strongest_of : ∀ magnitudes : Nat → Float32T,
      (∀ index < 4096, Nonnegative (magnitudes index)) → ∃ k, Strongest magnitudes k :=
    fun _ magnitudes => exists_strongest fun index _ high => magnitudes index (by omega)
  let screen : Transmitter → Prop := fun reached => ∃ shown, Display.Drawn shown reached.display
  have started : screen (setup command led) := ⟨_, Display.Drawn.create command⟩
  have keeps : ∀ reached magnitudes next, (∀ index < 4096, Nonnegative (magnitudes index)) →
      screen reached → analyse reached magnitudes = some next → screen next := by
    rintro reached magnitudes next range ⟨shown, drawn⟩ analysed
    obtain ⟨k, strongest⟩ := strongest_of magnitudes range
    exact ⟨_, drawn_analyse drawn range strongest analysed⟩
  obtain ⟨shown, drawn⟩ := Runs.run_invariant_of_mem _ keeps
    (fun magnitudes member => nonnegative magnitudes (List.mem_append_left _ member))
    started ranBefore
  have range := nonnegative output (List.mem_append_right _ (List.mem_singleton_self output))
  obtain ⟨k, strongest⟩ := strongest_of output range
  exact ⟨k, strongest, (drawn_analyse drawn range strongest analysed).displays⟩

/-- In silence the row is written again and again: every quiet sound sends as many characters as the
row has cells. -/
theorem quiet_sends {sound : Float32T × Float32T} (quiet : ¬sound.2 > AMPLITUDE_THRESHOLD)
    (acquired : transmitter.acquire sound = some next) :
    transmitter.display.display.sent.length + Display.LENGTH ≤
      next.display.display.sent.length := by
  rw [(acquire_outputs acquired).1, displayCalls, if_neg quiet]
  refine Nat.le_trans ?_ (Display.length_sent_setCommand transmitter.display.setFrequencyTooLow _)
  rw [Display.setFrequencyTooLow_eq]
  exact Display.length_sent_draw _ _ _

end Transmitter

end WhistleDrivenRobot
