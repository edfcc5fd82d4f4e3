/-
This file proves that the DMA double buffering is free of races and of lost
wake-ups. The stream writes the buffer that the queue would fill next, which is
none of the filled ones, as long as the transfer in flight was programmed for
the current queue; a session that begins with `enobuf` set never has another.
That the sleeping acquisition thread has a wake-up coming needs no such
beginning.
-/

import WhistleDrivenRobot.Acquisition

namespace WhistleDrivenRobot

variable {platform : Platform} {state next : Microphone}

/-! ### The target of the stream -/

/-- The transfer in flight writes the buffer of the current queue that is filled next. -/
def Driver.OnTarget (driver : Driver) : Prop :=
  ∀ transfer, driver.dma = some transfer →
    transfer.queue = driver.queue ∧ transfer.buffer = driver.bq.put

theorem Driver.OnTarget.of_idle {driver : Driver} (idle : driver.dma = none) : driver.OnTarget :=
  fun _ flying => absurd (idle.symm.trans flying) nofun

theorem Driver.OnTarget.congr {driver after : Driver} (onTarget : driver.OnTarget)
    (dma : after.dma = driver.dma) (queue : after.queue = driver.queue)
    (put : after.bq.put = driver.bq.put) : after.OnTarget := by
  unfold Driver.OnTarget
  rw [dma, queue, put]
  exact onTarget

theorem Driver.OnTarget.IRQdmaRefill {driver : Driver} (onTarget : driver.OnTarget) :
    driver.IRQdmaRefill.OnTarget := by
  intro transfer flying
  rw [Driver.IRQdmaRefill_eq] at flying ⊢
  cases full : driver.bq.isFull with
  | true =>
    rw [full] at flying
    exact onTarget transfer flying
  | false =>
    rw [full] at flying
    obtain rfl := Option.some.inj flying
    exact ⟨rfl, rfl⟩

theorem Driver.OnTarget.receive {driver after : Driver} (onTarget : driver.OnTarget)
    {words : List Word} (arrived : driver.receive words = some after) : after.OnTarget := by
  obtain ⟨transfer, flying, -, moved, same⟩ := Driver.receive_eq arrived
  intro later stillFlying
  obtain rfl := Option.some.inj (moved.symm.trans stillFlying)
  rw [same]
  exact onTarget transfer flying

/-- Only the creation of a queue can leave a transfer without its target. -/
theorem onTarget_move {event : Event} (acquiring : Acquiring state)
    (onTarget : state.driver.OnTarget) (kept : state.main = .newQueue → state.driver.dma = none)
    (moved : Move platform state event next) : next.driver.OnTarget := by
  cases moved with
  | start => exact onTarget
  | stop => exact onTarget
  | control moved => cases moved <;> exact onTarget.congr rfl rfl rfl
  | dma arrived => exact onTarget.receive arrived
  | interrupt pending handled =>
    obtain rfl := Option.some.inj ((acquiring.interrupt pending).1.symm.trans handled)
    have refilled : state.driver.filled.IRQdmaRefill.OnTarget :=
      (Driver.OnTarget.of_idle rfl).IRQdmaRefill
    exact refilled.congr rfl rfl rfl
  | reboot => exact onTarget
  | callbackStart => exact onTarget
  | callbackEnd => exact onTarget
  | main moved =>
    cases moved with
    | newQueue here => exact .of_idle (kept here)
    | dmaRefill => exact onTarget.IRQdmaRefill
    | _ => exact onTarget.congr rfl rfl rfl

/-- The buffer that the stream writes is none of the filled ones. -/
theorem Driver.OnTarget.notMem_filled {driver : Driver} (sound : driver.Sound)
    (onTarget : driver.OnTarget) (room : driver.bq.cnt < bufNum) {transfer : Transfer}
    (flying : driver.dma = some transfer) : transfer.buffer ∉ driver.bq.filled :=
  (onTarget transfer flying).2 ▸ sound.wellFormed.put_notMem_filled room

/-! ### One session -/

/-- The controlling thread is inside `start`. -/
def ControlPc.starting : ControlPc → Bool
  | .startMallocReady | .startMallocProcessing | .startSpi | .startCreate => true
  | _ => false

/-- What a session that began with `enobuf` set keeps up to the next call of `start`. -/
structure Clean (state : Microphone) : Prop where
  acquiring : Acquiring state
  onTarget : state.driver.OnTarget
  created : state.main ≠ .newQueue
  inside : state.control.starting = false

theorem Clean.move {event : Event} (within : event ≠ .start) (clean : Clean state)
    (moved : Move platform state event next) : Clean next := by
  have onTarget := onTarget_move clean.acquiring clean.onTarget
    (fun here => absurd here clean.created) moved
  refine ⟨clean.acquiring.move moved, onTarget, ?_, ?_⟩
  · cases moved with
    | control moved =>
      cases moved with
      | createMain here => exact absurd (here ▸ clean.inside) nofun
      | _ => exact clean.created
    | main moved =>
      cases moved with
      | swapProcessing =>
        show (if state.first then MainPc.create else .join) ≠ .newQueue
        split <;> nofun
      | _ => exact nofun
    | _ => exact clean.created
  · cases moved with
    | start => exact absurd rfl within
    | stop => rfl
    | control moved =>
      cases moved with
      | mallocReady here => exact absurd (here ▸ clean.inside) nofun
      | mallocProcessing here => exact absurd (here ▸ clean.inside) nofun
      | spiOn here => exact absurd (here ▸ clean.inside) nofun
      | _ => rfl
    | main moved => cases moved <;> exact clean.inside
    | _ => exact clean.inside

/-- Where a session begins with `enobuf` set the stream stands still. -/
theorem Clean.of_opened (acquiring : Acquiring state) (here : state.main = .enableIrq)
    (set : state.driver.enobuf = true) : Clean state := by
  have idle := (acquiring.flagged (here ▸ nofun)).idle set
  refine ⟨acquiring, .of_idle idle, here ▸ nofun, ?_⟩
  rcases acquiring.active (here ▸ nofun) with started | stopping
  · exact started ▸ rfl
  · exact stopping ▸ rfl

/-- The double buffering is free of races: one transfer at most is in flight, into a buffer that is
neither handed to `processPDM` nor filled; the queue is not overfilled and not emptied when it is
empty; and `enobuf` tells whether the stream stands still. -/
structure RaceFree (state : Microphone) : Prop where
  single : state.driver.started ≤ state.driver.finished + 1
  unfilled : ∀ transfer, state.driver.dma = some transfer →
    transfer.queue = state.driver.queue ∧ transfer.buffer ∉ state.driver.bq.filled
  unread : ∀ transfer, state.driver.dma = some transfer → ∀ buffer i length,
    state.main = .processPDM buffer i length → transfer.buffer ≠ buffer
  bounded : state.driver.bq.cnt ≤ bufNum
  fills : state.driver.interrupted = true → state.driver.bq.cnt < bufNum
  empties : state.main = .bufferEmptied → 0 < state.driver.bq.cnt
  running : state.rebooted = false
  flagged : state.main ≠ .dmaRefill →
    (state.driver.dma.isSome = true ↔ state.driver.enobuf = false)

theorem Clean.raceFree (clean : Clean state) : RaceFree state := by
  have acquiring := clean.acquiring
  have sound := acquiring.sound
  have room {transfer : Transfer} (flying : state.driver.dma = some transfer) :
      state.driver.bq.cnt < bufNum :=
    sound.room (Option.isSome_iff_exists.mpr ⟨transfer, flying⟩)
  have unfilled {transfer : Transfer} (flying : state.driver.dma = some transfer) :
      transfer.buffer ∉ state.driver.bq.filled :=
    clean.onTarget.notMem_filled sound (room flying) flying
  refine ⟨?_, fun transfer flying => ⟨(clean.onTarget transfer flying).1, unfilled flying⟩,
    fun transfer flying buffer i length here same => ?_, sound.wellFormed.cnt_le, fun pending => ?_,
    fun here => (acquiring.asserted_at here).2, acquiring.running, acquiring.flagged⟩
  · rw [sound.counted]
    split
    · exact le_rfl
    · exact Nat.le_succ _
  · obtain ⟨-, some, isGet⟩ := acquiring.asserted_at here
    refine unfilled flying ?_
    rw [same, isGet]
    exact sound.wellFormed.get_mem_filled some
  · obtain ⟨-, transfer, flying, -⟩ := Driver.interrupted_iff.mp pending
    exact room flying

/-- Every session that begins with `enobuf` set is free of races from the creation of its empty
queue on, whatever happens up to the next call of `start`. -/
theorem double_buffering {opened : Microphone} {events : List Event}
    (reachable : Runs.Reachable (Microphone.step platform) (.boot platform) opened)
    (begins : opened.main = .enableIrq) (enobuf : opened.driver.enobuf = true)
    (within : Event.start ∉ events)
    (ran : Runs.run (Microphone.step platform) opened events = some state) : RaceFree state := by
  have clean : Clean state := by
    refine Runs.run_invariant_of_mem (· ≠ Event.start) ?_ ?_ ?_ ran
    · exact fun _ _ _ within clean taken => clean.move within (step_move taken)
    · exact fun event member same => within (same ▸ member)
    · exact .of_opened (.reachable reachable) begins enobuf
  exact clean.raceFree

/-! ### Sample runs -/

/-- One sample a chunk, on memory that holds zeros. -/
def singleSample : Platform where
  PCMsize := 1
  memory := fun _ _ => 0

def startEvents : List Event := .start :: List.replicate 4 .control

/-- The stream fills a buffer and the handler is run. -/
def fillEvents : List Event := [.dma (List.replicate bufferSize 0), .interrupt]

theorem double_buffering_second_transfer :
    ∃ opened state,
      Runs.run (Microphone.step singleSample) (.boot singleSample) (startEvents ++ [.main]) =
          some opened ∧
        Runs.run (Microphone.step singleSample) opened
            (List.replicate 6 .main ++ fillEvents) = some state ∧
        state.driver.dma = some { queue := 2, buffer := 1, written := 0 } ∧
        1 ∉ state.driver.bq.filled := by
  have opening : ((Runs.run (Microphone.step singleSample) (.boot singleSample)
      (startEvents ++ [.main])).map fun opened => (opened.main, opened.driver.enobuf)) =
        some (.enableIrq, true) := rfl
  obtain ⟨opened, ranOpened, atOpened⟩ := Option.map_eq_some_iff.mp opening
  have filling : ((Runs.run (Microphone.step singleSample) (.boot singleSample)
      ((startEvents ++ [.main]) ++ (List.replicate 6 .main ++ fillEvents))).map
        fun state => state.driver.dma) =
        some (some { queue := 2, buffer := 1, written := 0 }) := by decide +kernel
  rw [Runs.run_append, ranOpened, Option.bind_some] at filling
  obtain ⟨state, ran, flying⟩ := Option.map_eq_some_iff.mp filling
  have safe := double_buffering ⟨_, ranOpened⟩ (congrArg Prod.fst atOpened)
    (congrArg Prod.snd atOpened) (by decide) ran
  exact ⟨opened, state, ranOpened, ran, flying, (safe.unfilled _ flying).2⟩

/-! ### Sleep and wake-up -/

/-- Whenever the acquisition thread is marked waiting its queue is empty, and the transfer that will
wake it is in flight with its interrupt enabled and the SPI on. -/
theorem waiting_has_wakeup
    (reachable : Runs.Reachable (Microphone.step platform) (.boot platform) state)
    (waiting : state.driver.waiting = true) :
    state.main = .suspended ∧ state.driver.bq.cnt = 0 ∧ state.driver.dma.isSome = true ∧
      state.driver.irqEnabled = true ∧ state.driver.enobuf = false ∧
      state.driver.spiOn = true := by
  have acquiring := Acquiring.reachable reachable
  obtain ⟨here, empty⟩ := acquiring.asleep waiting
  obtain ⟨enabled, full⟩ := acquiring.asserted_at here
  have clear : state.driver.enobuf = false := by
    refine Bool.eq_false_iff.mpr fun set => ?_
    exact absurd (empty.symm.trans (full set)) (by decide)
  have flying := (acquiring.flagged (here ▸ nofun)).mpr clear
  exact ⟨here, empty, flying, enabled, clear, acquiring.spiOn (here ▸ nofun)⟩

theorem waiting_has_wakeup_first :
    ∃ state, Runs.run (Microphone.step singleSample) (.boot singleSample)
        (startEvents ++ List.replicate 7 .main) = some state ∧
      state.driver.waiting = true ∧ state.driver.dma.isSome = true := by
  have sleeping : ((Runs.run (Microphone.step singleSample) (.boot singleSample)
      (startEvents ++ List.replicate 7 .main)).map fun state => state.driver.waiting) =
        some true := rfl
  obtain ⟨state, ran, waiting⟩ := Option.map_eq_some_iff.mp sleeping
  exact ⟨state, ran, waiting, (waiting_has_wakeup ⟨_, ran⟩ waiting).2.2.1⟩

end WhistleDrivenRobot
