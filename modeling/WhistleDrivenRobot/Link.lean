/-
This file joins the transmitter and the optimized receiver by the serial channel
and proves that the two agree. The channel delivers the bytes in order and
without loss; it may insert bytes that are not lower-case letters. The
transmitter suppresses repeated commands, the receiver lags behind by as many
bytes as it likes. What is carried along every interleaving is that the handlers
run so far, followed by the handlers named by the letters still in flight, are
the handlers named by the lines sent.
-/

import WhistleDrivenRobot.MotorSafety
import WhistleDrivenRobot.Optimized
import WhistleDrivenRobot.Runs
import WhistleDrivenRobot.Streams
import WhistleDrivenRobot.Transmitter

namespace WhistleDrivenRobot

/-! ### The two boards and the channel -/

/-- `air` holds the bytes on the way to the receiver's serial port; `lines` is the history of
the commands whose line was sent. -/
structure Link where
  transmitter : ReceiverState
  lines : List Command
  air : List UInt8
  receiver : OptimizedReceiver

inductive LinkEvent
  | setState (command : Command)
  | noise (position : Nat) (byte : UInt8)
  | deliver
  | loop
  deriving DecidableEq, Repr

namespace Link

def initial (memory : Int → Option Handler) : Link where
  transmitter := ReceiverState.create
  lines := []
  air := []
  receiver := OptimizedReceiver.setup memory

def step (link : Link) : LinkEvent → Option Link
  | .setState command =>
    let (transmitter, written) := link.transmitter.setState command
    some
      { link with
        transmitter := transmitter
        lines := if written = [] then link.lines else link.lines ++ [command]
        air := link.air ++ written }
  | .noise position byte =>
    if isLetter byte then none else some { link with air := link.air.insertIdx position byte }
  | .deliver =>
    match link.air with
    | [] => none
    | byte :: rest =>
      some
        { link with
          air := rest
          receiver := { link.receiver with port := link.receiver.port ++ [byte] } }
  | .loop => some { link with receiver := link.receiver.loop }

/-- No byte is on its way or waiting in the receiver's serial port. -/
def Quiet (link : Link) : Prop := link.air = [] ∧ link.receiver.port = []

theorem named_sendCommand (state : ReceiverState) :
    named state.sendCommand = [state.actualCommand.handler] := by
  unfold ReceiverState.sendCommand
  cases state.actualCommand <;> decide

/-! ### The invariant -/

structure Agrees (memory : Int → Option Handler) (link : Link) : Prop where
  executer : link.receiver.robot.executer = Executer.create memory
  sound : link.receiver.robot.Sound
  /-- Handlers run, then handlers in flight, are the handlers of the lines sent. -/
  pending : link.receiver.robot.handlers ++ named (link.receiver.port ++ link.air) =
    link.lines.map Command.handler
  /-- The last line sent means the current command, also before the first line. -/
  current : lastDrives (link.lines.map Command.handler) = link.transmitter.actualCommand.drives

variable {memory : Int → Option Handler} {link next : Link}

theorem initial_agrees (memory : Int → Option Handler) : (initial memory).Agrees memory where
  executer := rfl
  sound := Robot.setup_sound memory
  pending := rfl
  current := rfl

theorem setState_agrees (agrees : link.Agrees memory) {command : Command}
    (taken : link.step (.setState command) = some next) : next.Agrees memory := by
  by_cases same : link.transmitter.actualCommand = command
  · simp only [step, ReceiverState.setState, if_pos same, if_true, List.append_nil,
      Option.some.injEq] at taken
    exact taken ▸ agrees
  · have written : ReceiverState.sendCommand ⟨command⟩ ≠ [] := by
      cases command <;> decide
    simp only [step, ReceiverState.setState, if_neg same, if_neg written,
      Option.some.injEq] at taken
    subst taken
    refine ⟨agrees.executer, agrees.sound, ?_, ?_⟩
    · show link.receiver.robot.handlers ++ named (link.receiver.port ++ (link.air ++
        ReceiverState.sendCommand ⟨command⟩)) = (link.lines ++ [command]).map Command.handler
      rw [← List.append_assoc, named_append, ← List.append_assoc, agrees.pending,
        named_sendCommand, List.map_append, List.map_singleton]
    · show lastDrives ((link.lines ++ [command]).map Command.handler) = command.drives
      rw [List.map_append, List.map_singleton, lastDrives_concat, Command.drives_handler]

theorem noise_agrees (agrees : link.Agrees memory) {position : Nat} {byte : UInt8}
    (taken : link.step (.noise position byte) = some next) : next.Agrees memory := by
  by_cases letter : isLetter byte = true
  · simp only [step, if_pos letter, reduceCtorEq] at taken
  · simp only [step, if_neg letter, Option.some.injEq] at taken
    subst taken
    have unseen : named (link.air.insertIdx position byte) = named link.air := by
      rw [named, Streams.filter_insertIdx _ _ (Bool.eq_false_iff.mpr letter), named]
    refine ⟨agrees.executer, agrees.sound, ?_, agrees.current⟩
    show link.receiver.robot.handlers ++ named (link.receiver.port ++
      link.air.insertIdx position byte) = _
    rw [named_append, unseen, ← named_append]
    exact agrees.pending

theorem deliver_agrees (agrees : link.Agrees memory) (taken : link.step .deliver = some next) :
    next.Agrees memory := by
  cases air : link.air with
  | nil => simp only [step, air, reduceCtorEq] at taken
  | cons byte rest =>
    simp only [step, air, Option.some.injEq] at taken
    subst taken
    refine ⟨agrees.executer, agrees.sound, ?_, agrees.current⟩
    show link.receiver.robot.handlers ++ named (link.receiver.port ++ [byte] ++ rest) = _
    rw [List.append_assoc, List.singleton_append, ← air]
    exact agrees.pending

theorem loop_agrees (agrees : link.Agrees memory) (taken : link.step .loop = some next) :
    next.Agrees memory := by
  cases taken
  refine ⟨?_, OptimizedReceiver.loop_sound _ agrees.sound, ?_, agrees.current⟩
  · show link.receiver.loop.robot.executer = _
    rw [OptimizedReceiver.loop_executer, agrees.executer]
  · have pending := agrees.pending
    rw [named_append, ← List.append_assoc,
      ← OptimizedReceiver.loop_named _ agrees.executer] at pending
    show link.receiver.loop.robot.handlers ++ named (link.receiver.loop.port ++ link.air) = _
    rw [named_append, ← List.append_assoc]
    exact pending

theorem step_agrees (link : Link) (event : LinkEvent) (next : Link)
    (agrees : link.Agrees memory) (taken : link.step event = some next) :
    next.Agrees memory := by
  cases event with
  | setState command => exact setState_agrees agrees taken
  | noise position byte => exact noise_agrees agrees taken
  | deliver => exact deliver_agrees agrees taken
  | loop => exact loop_agrees agrees taken

theorem reachable_agrees (reachable : Runs.Reachable step (initial memory) link) :
    link.Agrees memory :=
  reachable.invariant (initial_agrees memory) step_agrees

/-- Transmitter and receiver agree, over any interleaving of `setState` calls, noise, arrivals
and iterations of `loop`: the handlers run are at every moment a prefix of the handlers named
by the lines sent, and whenever no byte is in flight the eight motor pins hold the levels of
the drive mode of the transmitter's current command. -/
theorem transmitter_receiver_agree (memory : Int → Option Handler) (link : Link)
    (reachable : Runs.Reachable step (initial memory) link) :
    link.receiver.robot.handlers <+: link.lines.map Command.handler ∧
      (link.Quiet →
        MotorsHold link.receiver.robot.board link.transmitter.actualCommand.drives) := by
  have agrees := reachable_agrees reachable
  refine ⟨⟨_, agrees.pending⟩, fun quiet => ?_⟩
  have pending := agrees.pending
  rw [quiet.1, quiet.2, List.append_nil, show named [] = [] from rfl, List.append_nil] at pending
  rw [← agrees.current, ← pending]
  exact agrees.sound.holds

/-- A forward command, a byte of noise in front of its line, and three iterations later. -/
theorem transmitter_receiver_agree_forward :
    ∃ link : Link, Runs.run step (initial fun _ => none)
        [.setState .forward, .noise 0 13, .deliver, .deliver, .loop, .deliver, .loop, .loop] =
          some link ∧
      link.receiver.robot.handlers <+: link.lines.map Command.handler ∧
      MotorsHold link.receiver.robot.board (.dir1, .dir1) := by
  refine ⟨_, rfl, ?_⟩
  have agree := transmitter_receiver_agree (fun _ => none) _ ⟨[.setState .forward, .noise 0 13,
    .deliver, .deliver, .loop, .deliver, .loop, .loop], rfl⟩
  exact ⟨agree.1, agree.2 ⟨rfl, rfl⟩⟩

end Link

end WhistleDrivenRobot
