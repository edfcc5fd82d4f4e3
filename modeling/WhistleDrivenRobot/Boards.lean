/-
This file joins the whole transmitter, from the samples on, and the receiver by the
serial channel. The two boards and the channel take their steps in any order: a chunk
is analysed, a byte of noise gets in, a byte arrives, the receiver loops. Whatever the
order, no motor is ever shorted, and the robot ends up driving as the last whistle
says once the channel is quiet.
-/

import WhistleDrivenRobot.Link
import WhistleDrivenRobot.Whistle

namespace WhistleDrivenRobot

open Transmitter Rounded Binary32

/-! ### What a chunk writes -/

theorem setState_fst (state : ReceiverState) (command : Command) :
    (state.setState command).1 = ⟨command⟩ := by
  unfold ReceiverState.setState
  split
  · rename_i same
    exact congrArg ReceiverState.mk same
  · rfl

theorem flatten_setStates_singleton (state : ReceiverState) (command : Command) :
    (state.setStates [command]).flatten = (state.setState command).2 := by
  rw [ReceiverState.setStates]
  show (if (state.setState command).2 = [] then [] else [(state.setState command).2]).flatten = _
  split
  · rename_i nothing
    rw [nothing]
    rfl
  · exact List.append_nil _

namespace Transmitter

variable {transmitter next : Transmitter}

theorem acquire_command {sound : Float32T × Float32T}
    (acquired : transmitter.acquire sound = some next) :
    next.state.actualCommand = commandOf sound := by
  rcases @callback_cases (transmitter.hear sound) next acquired with
    ⟨quiet, rfl⟩ | ⟨loud, divisor, amplitude, converted, nonzero, rfl⟩
  · exact (actualCommand_setState _ .stop).trans (if_neg quiet).symm
  · exact (actualCommand_setState _ _).trans (if_pos loud).symm

/-- A sound sets one command, and its line is what is written. -/
theorem acquire_sets {sound : Float32T × Float32T}
    (acquired : transmitter.acquire sound = some next) :
    next.state = (transmitter.state.setState (commandOf sound)).1 ∧
      (next.serial.drop transmitter.serial.length).flatten =
        (transmitter.state.setState (commandOf sound)).2 := by
  constructor
  · rw [setState_fst, ← acquire_command acquired]
  · have written := (acquire_outputs acquired).2 []
    rw [ReceiverState.setStates, List.append_nil] at written
    rw [written, List.drop_left, flatten_setStates_singleton]

end Transmitter

theorem take_acquires {pTwiddle : Nat → Float32T} {analyser next : Analyser} {chunk : Chunk}
    (taken : analyser.take pTwiddle chunk = some next) :
    ∃ sound, analyser.transmitter.acquire sound = some next.transmitter := by
  rw [Analyser.take, Analyser.fftAndCallback, Analyser.findAndCall,
    Analyser.transmitter_transform, Option.map_eq_some_iff] at taken
  obtain ⟨transmitter, acquired, rfl⟩ := taken
  exact ⟨_, acquired⟩

/-! ### The two boards and the channel -/

/-- `air` holds the bytes on the way to the receiver's serial port. -/
structure Boards where
  analyser : Analyser
  air : List UInt8
  receiver : OptimizedReceiver

inductive BoardsEvent
  | chunk (chunk : Chunk)
  | noise (position : Nat) (byte : UInt8)
  | deliver
  | loop

namespace Boards

def initial (input output : Nat → Float32T) (command : Command) (led : Bool)
    (memory : Int → Option Handler) : Boards where
  analyser := ⟨input, output, setup command led⟩
  air := (setup command led).serial.flatten
  receiver := OptimizedReceiver.setup memory

/-- What the transmitter writes while it analyses a chunk goes on the air. -/
def step (pTwiddle : Nat → Float32T) (boards : Boards) : BoardsEvent → Option Boards
  | .chunk chunk =>
    (boards.analyser.take pTwiddle chunk).map fun analyser =>
      { boards with
        analyser := analyser
        air := boards.air ++ (analyser.transmitter.serial.drop
          boards.analyser.transmitter.serial.length).flatten }
  | .noise position byte =>
    if isLetter byte then none
    else some { boards with air := boards.air.insertIdx position byte }
  | .deliver =>
    match boards.air with
    | [] => none
    | byte :: rest =>
      some
        { boards with
          air := rest
          receiver := { boards.receiver with port := boards.receiver.port ++ [byte] } }
  | .loop => some { boards with receiver := boards.receiver.loop }

/-- No byte is on its way or waiting in the receiver's serial port. -/
def Quiet (boards : Boards) : Prop := boards.air = [] ∧ boards.receiver.port = []

/-! ### Every run is a run of the link -/

/-- The boards as a link, with the commands whose lines were sent. -/
def link (boards : Boards) (lines : List Command) : Link where
  transmitter := boards.analyser.transmitter.state
  lines := lines
  air := boards.air
  receiver := boards.receiver

variable {pTwiddle : Nat → Float32T} {memory : Int → Option Handler} {boards next : Boards}

theorem initial_link (input output : Nat → Float32T) (command : Command) (led : Bool)
    (memory : Int → Option Handler) :
    ((initial input output command led memory).link [.stop]).Agrees memory :=
  Link.setState_agrees (Link.initial_agrees memory)
    (rfl : (Link.initial memory).step (.setState .stop) = some _)

/-- When no byte is in flight, the motors drive as the transmitter's command says. -/
theorem holds_of_quiet {link : Link} (agrees : link.Agrees memory) (quiet : link.Quiet) :
    MotorsHold link.receiver.robot.board link.transmitter.actualCommand.drives := by
  have pending := agrees.pending
  rw [quiet.1, quiet.2, List.append_nil, show named [] = [] from rfl, List.append_nil] at pending
  rw [← agrees.current, ← pending]
  exact agrees.sound.holds

theorem step_setState (link : Link) (command : Command) :
    link.step (.setState command) = some
      { link with
        transmitter := (link.transmitter.setState command).1
        lines := if (link.transmitter.setState command).2 = [] then link.lines
          else link.lines ++ [command]
        air := link.air ++ (link.transmitter.setState command).2 } := rfl

/-- The steps of the boards keep what the link carries. -/
theorem step_link {lines : List Command} (agrees : (boards.link lines).Agrees memory)
    {event : BoardsEvent} (taken : boards.step pTwiddle event = some next) :
    ∃ lines, (next.link lines).Agrees memory := by
  cases event with
  | chunk chunk =>
    rw [step, Option.map_eq_some_iff] at taken
    obtain ⟨analyser, analysed, rfl⟩ := taken
    obtain ⟨sound, acquired⟩ := take_acquires analysed
    obtain ⟨state, written⟩ := acquire_sets acquired
    have sent := Link.setState_agrees agrees (step_setState (boards.link lines) (commandOf sound))
    refine ⟨if (boards.analyser.transmitter.state.setState (commandOf sound)).2 = [] then lines
      else lines ++ [commandOf sound], ?_⟩
    rw [link, state, written]
    exact sent
  | noise position byte =>
    by_cases letter : isLetter byte = true
    · simp only [step, if_pos letter, reduceCtorEq] at taken
    · simp only [step, if_neg letter, Option.some.injEq] at taken
      subst taken
      exact ⟨lines, Link.noise_agrees agrees (if_neg letter)⟩
  | deliver =>
    cases air : boards.air with
    | nil => simp only [step, air, reduceCtorEq] at taken
    | cons byte rest =>
      simp only [step, air, Option.some.injEq] at taken
      subst taken
      refine ⟨lines, Link.deliver_agrees agrees ?_⟩
      simp only [Link.step, link, air]
  | loop =>
    cases taken
    exact ⟨lines, Link.loop_agrees agrees rfl⟩

/-! ### The last chunk -/

def samplesOf : BoardsEvent → Option (Nat → UInt16)
  | .chunk chunk => some chunk.2
  | _ => none

/-- The samples of the last chunk that was analysed. -/
def lastChunk (events : List BoardsEvent) : Option (Nat → UInt16) :=
  (events.filterMap samplesOf).getLast?

theorem lastChunk_concat (events : List BoardsEvent) (event : BoardsEvent) :
    lastChunk (events ++ [event]) = (samplesOf event).or (lastChunk events) := by
  rw [lastChunk, List.filterMap_append]
  cases sampled : samplesOf event with
  | none => rw [List.filterMap_cons_none sampled, List.filterMap_nil, List.append_nil]; rfl
  | some samples =>
    rw [List.filterMap_cons_some sampled, List.filterMap_nil, List.getLast?_concat]
    rfl

/-- What is carried along a run: the link agrees, the transmitter is ready for a chunk, and what it
tells is a bin of the last chunk. -/
structure Carried (memory : Int → Option Handler) (events : List BoardsEvent) (boards : Boards) :
    Prop where
  link : ∃ lines, (boards.link lines).Agrees memory
  live : Live boards.analyser
  tells : ∀ PCMvector, lastChunk events = some PCMvector →
    ∃ k magnitude, Hears PCMvector k magnitude ∧ Tells k magnitude boards.analyser.transmitter

section Runs

variable (table : Table Worth (1 / 2 ^ 24) pTwiddle)
include table

theorem step_carried {events : List BoardsEvent} (carried : Carried memory events boards)
    {event : BoardsEvent} (taken : boards.step pTwiddle event = some next) :
    Carried memory (events ++ [event]) next := by
  obtain ⟨lines, agrees⟩ := carried.link
  have agreesNext := step_link agrees taken
  have same : samplesOf event = none → next.analyser = boards.analyser →
      Carried memory (events ++ [event]) next := by
    intro silent unchanged
    refine ⟨agreesNext, unchanged ▸ carried.live, fun PCMvector last => ?_⟩
    rw [lastChunk_concat, silent, Option.none_or] at last
    rw [unchanged]
    exact carried.tells PCMvector last
  cases event with
  | chunk chunk =>
    obtain ⟨analyser, ⟨analysed, tells⟩, live⟩ := live_take table boards.analyser chunk carried.live
    rw [step, analysed, Option.map_some, Option.some.injEq] at taken
    subst taken
    refine ⟨agreesNext, live, fun PCMvector last => ?_⟩
    rw [lastChunk_concat] at last
    obtain rfl : chunk.2 = PCMvector := Option.some.inj last
    exact tells
  | noise position byte =>
    refine same rfl ?_
    by_cases letter : isLetter byte = true
    · simp only [step, if_pos letter, reduceCtorEq] at taken
    · simp only [step, if_neg letter, Option.some.injEq] at taken
      exact taken ▸ rfl
  | deliver =>
    refine same rfl ?_
    cases air : boards.air with
    | nil => simp only [step, air, reduceCtorEq] at taken
    | cons byte rest =>
      simp only [step, air, Option.some.injEq] at taken
      exact taken ▸ rfl
  | loop =>
    cases taken
    exact same rfl rfl

theorem run_carried (input output : Nat → Float32T) (command : Command) (led : Bool)
    (memory : Int → Option Handler) {events : List BoardsEvent}
    (ran : Runs.run (step pTwiddle) (initial input output command led memory) events =
      some boards) : Carried memory events boards := by
  have start : Carried memory [] (initial input output command led memory) :=
    ⟨⟨_, initial_link input output command led memory⟩,
      ⟨⟨_, Display.Drawn.create command⟩, (agrees_setup command led).1.sent⟩, nofun⟩
  have keeps : ∀ before state event next, Carried memory before state →
      step pTwiddle state event = some next → Carried memory (before ++ [event]) next :=
    fun _ _ _ _ carried taken => step_carried table carried taken
  exact Runs.run_history keeps start ran

end Runs

section Whistles

variable {events : List BoardsEvent} {PCMvector : Nat → UInt16}
  (last : lastChunk events = some PCMvector) {amplitude phase : ℝ} (loudness : 0 ≤ amplitude)
  {k : Nat} (low : 1 ≤ k) (high : k < 2048) (whistle : Whistle amplitude phase k PCMvector)
include last loudness low high whistle

theorem Carried.drives_loud (carried : Carried memory events boards) (loud : 9768 ≤ amplitude)
    (searched : k ≤ 1023) (quiet : boards.Quiet) :
    MotorsHold boards.receiver.robot.board (band k).drives := by
  obtain ⟨lines, agrees⟩ := carried.link
  obtain ⟨bin, magnitude, hears, tells⟩ := carried.tells PCMvector last
  have command : boards.analyser.transmitter.state.actualCommand = band k :=
    tells.command.trans (congrArg Display.Shown.command
      (reads_loud loudness whistle low high hears loud searched))
  rw [← command]
  exact holds_of_quiet agrees quiet

theorem Carried.drives_quiet (carried : Carried memory events boards)
    (silent : amplitude ≤ 9763 ∨ 1024 ≤ k) (quiet : boards.Quiet) :
    MotorsHold boards.receiver.robot.board Command.stop.drives := by
  obtain ⟨lines, agrees⟩ := carried.link
  obtain ⟨bin, magnitude, hears, tells⟩ := carried.tells PCMvector last
  have command : boards.analyser.transmitter.state.actualCommand = .stop :=
    tells.command.trans (congrArg Display.Shown.command
      (reads_quiet loudness whistle low high hears silent))
  rw [← command]
  exact holds_of_quiet agrees quiet

end Whistles

/-! ### The channel can always be emptied -/

theorem run_deliver (boards : Boards) :
    Runs.run (step pTwiddle) boards (List.replicate boards.air.length .deliver) =
      some { boards with
        air := []
        receiver := { boards.receiver with port := boards.receiver.port ++ boards.air } } := by
  generalize bytes : boards.air = air
  induction air generalizing boards with
  | nil =>
    rw [List.append_nil]
    exact congrArg some (by rw [← bytes])
  | cons byte rest inductionHypothesis =>
    have delivered : step pTwiddle boards .deliver = some
        { boards with
          air := rest
          receiver := { boards.receiver with port := boards.receiver.port ++ [byte] } } := by
      simp only [step, bytes]
    rw [List.length_cons, List.replicate_succ, Runs.run, List.foldlM_cons, delivered]
    refine (inductionHypothesis _ rfl).trans ?_
    simp only [List.append_assoc, List.singleton_append]

theorem run_loop (boards : Boards) :
    ∃ receiver, receiver.port = [] ∧
      Runs.run (step pTwiddle) boards (List.replicate boards.receiver.port.length .loop) =
        some { boards with receiver } := by
  generalize bytes : boards.receiver.port = port
  induction port generalizing boards with
  | nil => exact ⟨boards.receiver, bytes, rfl⟩
  | cons byte rest inductionHypothesis =>
    have looped : boards.receiver.loop.port = rest := by
      rw [OptimizedReceiver.loop_cons bytes]
    obtain ⟨receiver, empty, ran⟩ :=
      inductionHypothesis { boards with receiver := boards.receiver.loop } looped
    exact ⟨receiver, empty, ran⟩

/-- Deliveries and iterations of `loop` make the channel quiet. -/
theorem exists_quiet (boards : Boards) :
    ∃ events final, (∀ event ∈ events, event = .deliver ∨ event = .loop) ∧
      Runs.run (step pTwiddle) boards events = some final ∧ final.Quiet := by
  obtain ⟨receiver, empty, ran⟩ := @run_loop pTwiddle { boards with
    air := []
    receiver := { boards.receiver with port := boards.receiver.port ++ boards.air } }
  refine ⟨List.replicate boards.air.length .deliver ++
    List.replicate (boards.receiver.port ++ boards.air).length .loop,
    { boards with air := [], receiver }, fun event member => ?_, ?_, rfl, empty⟩
  · rcases List.mem_append.mp member with delivered | looped
    · exact .inl (List.eq_of_mem_replicate delivered)
    · exact .inr (List.eq_of_mem_replicate looped)
  · rw [Runs.run_append, run_deliver, Option.bind_some]
    exact ran

theorem lastChunk_append {events more : List BoardsEvent}
    (silent : ∀ event ∈ more, event = .deliver ∨ event = .loop) :
    lastChunk (events ++ more) = lastChunk events := by
  have nothing : more.filterMap samplesOf = [] := by
    refine List.filterMap_eq_nil_iff.mpr fun event member => ?_
    rcases silent event member with rfl | rfl <;> rfl
  rw [lastChunk, List.filterMap_append, nothing, List.append_nil, lastChunk]

/-! ### From the whistle to the motors -/

section Results

variable (input output : Nat → Float32T) (command : Command) (led : Bool)
  (memory : Int → Option Handler) {events : List BoardsEvent}
  (ran : Runs.run (step pTwiddle) (initial input output command led memory) events = some boards)
include ran

/-- Whatever the chunks hold, whatever the table of coefficients and whatever the order of the
steps, no motor is ever shorted. -/
theorem bridges_run : boards.receiver.robot.BridgesSafe := by
  have keeps : ∀ before event after, (∃ lines, (link before lines).Agrees memory) →
      step pTwiddle before event = some after → ∃ lines, (after.link lines).Agrees memory := by
    rintro before event after ⟨lines, agrees⟩ taken
    exact step_link agrees taken
  obtain ⟨lines, agrees⟩ :=
    Runs.run_invariant keeps ⟨_, initial_link input output command led memory⟩ ran
  exact agrees.sound.bridges

variable (table : Table Worth (1 / 2 ^ 24) pTwiddle) {PCMvector : Nat → UInt16}
  (last : lastChunk events = some PCMvector) {amplitude phase : ℝ} (loudness : 0 ≤ amplitude)
  {k : Nat} (low : 1 ≤ k) (high : k < 2048) (whistle : Whistle amplitude phase k PCMvector)
include table last loudness low high whistle

/-- Whatever the order of the steps, when the channel is quiet the motors drive as the last whistle
says: its band when it is loud enough, and not at all when it is quiet or too high. -/
theorem drives_whistle (quiet : boards.Quiet) :
    (9768 ≤ amplitude → k ≤ 1023 →
        MotorsHold boards.receiver.robot.board (band k).drives) ∧
      (amplitude ≤ 9763 ∨ 1024 ≤ k →
        MotorsHold boards.receiver.robot.board Command.stop.drives) := by
  have carried := run_carried table input output command led memory ran
  exact ⟨fun loud searched =>
      carried.drives_loud last loudness low high whistle loud searched quiet,
    fun silent => carried.drives_quiet last loudness low high whistle silent quiet⟩

/-- From there, deliveries and iterations of `loop` alone bring the motors to the band of a whistle
that is loud enough. -/
theorem settles_whistle (loud : 9768 ≤ amplitude) (searched : k ≤ 1023) :
    ∃ more final, (∀ event ∈ more, event = .deliver ∨ event = .loop) ∧
      Runs.run (step pTwiddle) boards more = some final ∧ final.Quiet ∧
      MotorsHold final.receiver.robot.board (band k).drives := by
  obtain ⟨more, final, silent, emptied, quiet⟩ := @exists_quiet pTwiddle boards
  have whole : Runs.run (step pTwiddle) (initial input output command led memory)
      (events ++ more) = some final := by
    rw [Runs.run_append, ran, Option.bind_some, emptied]
  have carried := run_carried table input output command led memory whole
  exact ⟨more, final, silent, emptied, quiet, carried.drives_loud
    ((lastChunk_append silent).trans last) loudness low high whistle loud searched quiet⟩

end Results

/-- The first chunk is analysed before anything arrives. -/
theorem exists_first (chunk : Chunk) : ∃ boards,
    Runs.run (step fixedCoef) (initial (fun _ => Float32.Model.ofInt 0)
      (fun _ => Float32.Model.ofInt 0) .none true fun _ => none) [.chunk chunk] = some boards := by
  generalize begin : initial (fun _ => Float32.Model.ofInt 0) (fun _ => Float32.Model.ofInt 0)
    .none true (fun _ => none) = start
  have carried : Carried (fun _ => none) [] start :=
    run_carried table_fixedCoef _ _ _ _ _ (congrArg some begin)
  obtain ⟨next, ⟨taken, -⟩, -⟩ := live_take table_fixedCoef start.analyser chunk carried.live
  have stepped : ∃ boards, step fixedCoef start (.chunk chunk) = some boards := by
    rw [step, taken]
    exact ⟨_, rfl⟩
  obtain ⟨boards, here⟩ := stepped
  have nothing : Runs.run (step fixedCoef) start [] = some start := rfl
  refine ⟨boards, ?_⟩
  rw [← List.nil_append [BoardsEvent.chunk chunk], Runs.run_concat, nothing, Option.bind_some]
  exact here

/-- The first chunk, and then the channel is emptied. -/
theorem exists_first_quiet (chunk : Chunk) : ∃ more boards,
    Runs.run (step fixedCoef) (initial (fun _ => Float32.Model.ofInt 0)
      (fun _ => Float32.Model.ofInt 0) .none true fun _ => none) ([.chunk chunk] ++ more) =
        some boards ∧
      boards.Quiet ∧ lastChunk ([.chunk chunk] ++ more) = some chunk.2 := by
  obtain ⟨first, ran⟩ := exists_first chunk
  obtain ⟨more, boards, silent, emptied, quiet⟩ := @exists_quiet fixedCoef first
  exact ⟨more, boards, Runs.run_join ran emptied, quiet, lastChunk_append silent⟩

theorem bridges_run_forward : ∃ more boards,
    Runs.run (step fixedCoef) (initial (fun _ => Float32.Model.ofInt 0)
      (fun _ => Float32.Model.ofInt 0) .none true fun _ => none)
      ([.chunk (⟨0, 0, 0, fixedCoef, 0, 0, 0, Float32.Model.ofInt 0⟩, sampled 10000 0 60)] ++
        more) = some boards ∧
      boards.Quiet ∧ boards.receiver.robot.BridgesSafe := by
  obtain ⟨more, boards, ran, quiet, -⟩ := exists_first_quiet
    (⟨0, 0, 0, fixedCoef, 0, 0, 0, Float32.Model.ofInt 0⟩, sampled 10000 0 60)
  exact ⟨more, boards, ran, quiet, bridges_run _ _ _ _ _ ran⟩

theorem drives_whistle_forward : ∃ more boards,
    Runs.run (step fixedCoef) (initial (fun _ => Float32.Model.ofInt 0)
      (fun _ => Float32.Model.ofInt 0) .none true fun _ => none)
      ([.chunk (⟨0, 0, 0, fixedCoef, 0, 0, 0, Float32.Model.ofInt 0⟩, sampled 10000 0 60)] ++
        more) = some boards ∧
      boards.Quiet ∧ MotorsHold boards.receiver.robot.board (.dir1, .dir1) := by
  have inside : band 60 = .forward := by decide +kernel
  obtain ⟨more, boards, ran, quiet, last⟩ := exists_first_quiet
    (⟨0, 0, 0, fixedCoef, 0, 0, 0, Float32.Model.ofInt 0⟩, sampled 10000 0 60)
  have drives := (drives_whistle _ _ _ _ _ ran table_fixedCoef last (by norm_num) (by decide)
    (by decide)
    (whistle_sampled (by norm_num) (by norm_num) 0 60 : Whistle 10000 0 60 (sampled 10000 0 60))
    quiet).1 (by norm_num) (by decide)
  rw [inside] at drives
  exact ⟨more, boards, ran, quiet, drives⟩

theorem settles_whistle_forward : ∃ boards,
    Runs.run (step fixedCoef) (initial (fun _ => Float32.Model.ofInt 0)
      (fun _ => Float32.Model.ofInt 0) .none true fun _ => none)
      [.chunk (⟨0, 0, 0, fixedCoef, 0, 0, 0, Float32.Model.ofInt 0⟩, sampled 10000 0 60)] =
        some boards ∧
      ∃ more final, (∀ event ∈ more, event = .deliver ∨ event = .loop) ∧
        Runs.run (step fixedCoef) boards more = some final ∧ final.Quiet ∧
        MotorsHold final.receiver.robot.board (.dir1, .dir1) := by
  have inside : band 60 = .forward := by decide +kernel
  obtain ⟨boards, ran⟩ := exists_first
    (⟨0, 0, 0, fixedCoef, 0, 0, 0, Float32.Model.ofInt 0⟩, sampled 10000 0 60)
  have settles := settles_whistle _ _ _ _ _ ran table_fixedCoef rfl (by norm_num) (by decide)
    (by decide)
    (whistle_sampled (by norm_num) (by norm_num) 0 60 : Whistle 10000 0 60 (sampled 10000 0 60))
    (by norm_num) (by decide)
  rw [inside] at settles
  exact ⟨boards, ran, settles⟩

end Boards

end WhistleDrivenRobot
