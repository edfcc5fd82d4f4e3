/-
This file finds the invariant of the acquisition: an assertion at every
statement of `mainLoop` about the driver it shares with the interrupt handler,
and one at every statement of `start` and `stop`. The acquisition thread
establishes its own assertions in order; the interrupt, the stream and the
controlling thread disturb none of them. It holds in every reachable state, over
any number of sessions.
-/

import WhistleDrivenRobot.Moves

namespace WhistleDrivenRobot

variable {platform : Platform} {state next : Microphone}

/-! ### The assertions -/

/-- What holds of the driver when the thread is about to execute the statement. -/
def MainPc.Asserts (driver : Driver) : MainPc → Prop
  | .ended => True
  | .newQueue => driver.live = false
  | .enableIrq => driver.live = true
  | .whileTest | .testEnobuf | .join | .create => driver.irqEnabled = true
  | .clearEnobuf => driver.irqEnabled = true ∧ driver.enobuf = true
  | .dmaRefill => driver.irqEnabled = true ∧ driver.dma = none ∧ driver.enobuf = false
  | .getReadable | .suspended =>
    driver.irqEnabled = true ∧ (driver.enobuf = true → driver.bq.cnt = bufNum)
  | .processPDM buffer _ _ =>
    driver.irqEnabled = true ∧ 0 < driver.bq.cnt ∧ buffer = driver.bq.get
  | .bufferEmptied | .swapTmp | .swapReady _ | .swapProcessing _ =>
    driver.irqEnabled = true ∧ 0 < driver.bq.cnt

def ControlPc.Asserts (driver : Driver) : ControlPc → Prop
  | .started | .stopJoin => driver.spiOn = true
  | .startCreate => driver.live = false ∧ driver.spiOn = true
  | .stopDisableIrq => True
  | .stopDelete => driver.irqEnabled = false
  | _ => driver.live = false

/-- What the interrupt and the stream do to the driver disturbs no assertion of a thread that is
not about to refill. -/
theorem MainPc.Asserts.undisturbed {main : MainPc} {driver after : Driver}
    (asserted : main.Asserts driver) (other : main ≠ .dmaRefill)
    (clear : driver.enobuf = false) (live : after.live = driver.live)
    (irqEnabled : after.irqEnabled = driver.irqEnabled) (get : after.bq.get = driver.bq.get)
    (grown : driver.bq.cnt ≤ after.bq.cnt)
    (full : after.enobuf = true → after.bq.cnt = bufNum) : main.Asserts after := by
  cases main with
  | ended => exact trivial
  | newQueue => exact live.trans asserted
  | enableIrq => exact live.trans asserted
  | whileTest => exact irqEnabled.trans asserted
  | testEnobuf => exact irqEnabled.trans asserted
  | clearEnobuf => exact absurd (asserted.2.symm.trans clear) nofun
  | dmaRefill => exact absurd rfl other
  | getReadable => exact ⟨irqEnabled.trans asserted.1, full⟩
  | suspended => exact ⟨irqEnabled.trans asserted.1, full⟩
  | processPDM =>
    exact ⟨irqEnabled.trans asserted.1, asserted.2.1.trans_le grown, asserted.2.2.trans get.symm⟩
  | bufferEmptied => exact ⟨irqEnabled.trans asserted.1, asserted.2.trans_le grown⟩
  | swapTmp => exact ⟨irqEnabled.trans asserted.1, asserted.2.trans_le grown⟩
  | swapReady => exact ⟨irqEnabled.trans asserted.1, asserted.2.trans_le grown⟩
  | swapProcessing => exact ⟨irqEnabled.trans asserted.1, asserted.2.trans_le grown⟩
  | join => exact irqEnabled.trans asserted
  | create => exact irqEnabled.trans asserted

theorem ControlPc.Asserts.undisturbed {control : ControlPc} {driver after : Driver}
    (asserted : control.Asserts driver) (live : after.live = driver.live)
    (irqEnabled : after.irqEnabled = driver.irqEnabled) (spiOn : after.spiOn = driver.spiOn) :
    control.Asserts after := by
  cases control with
  | started => exact spiOn.trans asserted
  | stopJoin => exact spiOn.trans asserted
  | startCreate => exact ⟨live.trans asserted.1, spiOn.trans asserted.2⟩
  | stopDisableIrq => exact trivial
  | stopDelete => exact irqEnabled.trans asserted
  | _ => exact live.trans asserted

/-- What the assertions read beside the statement that `mainLoop` executes next. -/
def Microphone.shared (state : Microphone) : Driver × ControlPc × Bool :=
  (state.driver, state.control, state.rebooted)

/-- The thread runs, is not suspended and is not about to refill. -/
def MainPc.plain : MainPc → Bool
  | .ended | .suspended | .dmaRefill => false
  | _ => true

/-- The invariant. While a thread is in the two statements that restart the stream the flag
`enobuf` is ahead of it; everywhere else it tells exactly that the stream stands still. -/
structure Acquiring (state : Microphone) : Prop where
  sound : state.driver.Sound
  flagged : state.main ≠ .dmaRefill → state.driver.Flagged
  asserted : state.main.Asserts state.driver
  asleep : state.driver.waiting = true → state.main = .suspended ∧ state.driver.bq.cnt = 0
  active : state.main ≠ .ended → state.control = .started ∨ state.control = .stopJoin
  phased : state.control.Asserts state.driver
  running : state.rebooted = false

namespace Acquiring

theorem boot (platform : Platform) : Acquiring (.boot platform) where
  sound := Driver.boot_sound
  flagged := fun _ => show false = true ↔ true = false by decide
  asserted := trivial
  asleep := nofun
  active := fun other => absurd rfl other
  phased := rfl
  running := rfl

theorem awake (acquiring : Acquiring state) (other : state.main ≠ .suspended) :
    state.driver.waiting = false :=
  Bool.eq_false_iff.mpr fun waiting => other (acquiring.asleep waiting).1

theorem asserted_at (acquiring : Acquiring state) {main : MainPc} (here : state.main = main) :
    main.Asserts state.driver := here ▸ acquiring.asserted

theorem phased_at (acquiring : Acquiring state) {control : ControlPc}
    (here : state.control = control) : control.Asserts state.driver := here ▸ acquiring.phased

theorem spiOn (acquiring : Acquiring state) (active : state.main ≠ .ended) :
    state.driver.spiOn = true := by
  rcases acquiring.active active with here | here
  · exact acquiring.phased_at here
  · exact acquiring.phased_at here

theorem ended_of (acquiring : Acquiring state) (idle : state.control ≠ .started)
    (other : state.control ≠ .stopJoin) : state.main = .ended := by
  by_contra active
  exact (acquiring.active active).elim idle other

/-! ### The acquisition thread -/

/-- A statement that leaves the driver alone only has to establish the next assertion. -/
theorem main_same (acquiring : Acquiring state) (active : state.main ≠ .ended)
    (flagged : state.driver.Flagged) (awake : state.driver.waiting = false)
    (same : next.shared = state.shared) (asserted : next.main.Asserts state.driver) :
    Acquiring next := by
  obtain ⟨driver, control, rebooted⟩ : next.driver = state.driver ∧
      next.control = state.control ∧ next.rebooted = state.rebooted := by
    simpa only [Microphone.shared, Prod.mk.injEq] using same
  refine ⟨driver ▸ acquiring.sound, fun _ => driver ▸ flagged, driver ▸ asserted, fun set => ?_,
    fun _ => control ▸ acquiring.active active, ?_, rebooted ▸ acquiring.running⟩
  · rw [driver, awake] at set
    exact absurd set Bool.false_ne_true
  · rw [control, driver]
    exact acquiring.phased

/-- A statement that changes the driver also has to keep it sound. -/
theorem main_driver (acquiring : Acquiring state) (active : state.main ≠ .ended)
    (sound : next.driver.Sound) (flagged : next.main ≠ .dmaRefill → next.driver.Flagged)
    (asserted : next.main.Asserts next.driver)
    (asleep : next.driver.waiting = true → next.main = .suspended ∧ next.driver.bq.cnt = 0)
    (same : (next.control, next.driver.spiOn, next.rebooted) =
      (state.control, state.driver.spiOn, state.rebooted)) : Acquiring next := by
  simp only [Prod.mk.injEq] at same
  obtain ⟨control, spiOn, rebooted⟩ := same
  have on : next.driver.spiOn = true := spiOn ▸ acquiring.spiOn active
  refine ⟨sound, flagged, asserted, asleep, fun _ => control ▸ acquiring.active active, ?_,
    rebooted ▸ acquiring.running⟩
  rcases acquiring.active active with here | here
  · rw [control, here]
    exact on
  · rw [control, here]
    exact on

/-- The same, where the thread was not marked waiting and is not now. -/
theorem main_awake (acquiring : Acquiring state) {main : MainPc} (here : state.main = main)
    (active : main ≠ .ended) (awake : main ≠ .suspended)
    (sound : next.driver.Sound) (flagged : next.main ≠ .dmaRefill → next.driver.Flagged)
    (asserted : next.main.Asserts next.driver)
    (waiting : next.driver.waiting = state.driver.waiting)
    (same : (next.control, next.driver.spiOn, next.rebooted) =
      (state.control, state.driver.spiOn, state.rebooted)) : Acquiring next := by
  have notWaiting : next.driver.waiting = false :=
    waiting.trans (acquiring.awake (here ▸ awake))
  exact acquiring.main_driver (here ▸ active) sound flagged asserted
    (fun set => absurd set (notWaiting ▸ Bool.false_ne_true)) same

theorem newQueue (acquiring : Acquiring state) (here : state.main = .newQueue) :
    Acquiring (state.newQueue platform) :=
  acquiring.main_driver (here ▸ nofun) (acquiring.sound.newQueue _ _)
    (fun _ => acquiring.flagged (here ▸ nofun)) rfl nofun rfl

theorem enableIrq (acquiring : Acquiring state) (here : state.main = .enableIrq) :
    Acquiring state.enableIrq := by
  have sound := acquiring.sound
  exact acquiring.main_awake here nofun nofun
    ⟨sound.wellFormed, sound.room, fun _ => acquiring.asserted_at here, sound.counted⟩
    (fun _ => acquiring.flagged (here ▸ nofun)) rfl rfl rfl

theorem clearEnobuf (acquiring : Acquiring state) (here : state.main = .clearEnobuf) :
    Acquiring state.clearEnobuf := by
  obtain ⟨enabled, set⟩ := acquiring.asserted_at here
  have idle := (acquiring.flagged (here ▸ nofun)).idle set
  exact acquiring.main_awake here nofun nofun (acquiring.sound.same rfl)
    (fun other => absurd rfl other) ⟨enabled, idle, rfl⟩ rfl rfl

theorem dmaRefill (acquiring : Acquiring state) (here : state.main = .dmaRefill) :
    Acquiring state.dmaRefill := by
  obtain ⟨enabled, idle, clear⟩ := acquiring.asserted_at here
  obtain ⟨sound, flagged, full⟩ := acquiring.sound.IRQdmaRefill idle clear
  have same := Driver.IRQdmaRefill_eq state.driver
  refine acquiring.main_awake here nofun nofun sound (fun _ => flagged) ⟨?_, fun set => ?_⟩ ?_ ?_
  · exact (congrArg Driver.irqEnabled same).trans enabled
  · exact (congrArg (fun driver => driver.bq.cnt) same).trans (full set)
  · exact (congrArg Driver.waiting same :)
  · exact (congrArg (fun driver => (state.control, driver.spiOn, state.rebooted)) same :)

theorem suspend (acquiring : Acquiring state) (here : state.main = .getReadable)
    (empty : state.driver.bq.cnt = 0) : Acquiring state.suspend :=
  acquiring.main_driver (here ▸ nofun) (acquiring.sound.same rfl)
    (fun _ => acquiring.flagged (here ▸ nofun)) (acquiring.asserted_at here)
    (fun _ => ⟨rfl, empty⟩) rfl

theorem bufferEmptied (acquiring : Acquiring state) (here : state.main = .bufferEmptied) :
    Acquiring state.bufferEmptied :=
  acquiring.main_awake here nofun nofun
    (acquiring.sound.bufferEmptied (acquiring.asserted_at here).2)
    (fun _ => acquiring.flagged (here ▸ nofun)) (acquiring.asserted_at here).1 rfl rfl

/-- The same for a thread that is neither suspended nor about to refill. -/
theorem main_control (acquiring : Acquiring state) {main : MainPc} (here : state.main = main)
    (plain : main.plain = true) (same : next.shared = state.shared)
    (asserted : main.Asserts state.driver → next.main.Asserts state.driver) : Acquiring next := by
  have other {excluded : MainPc} (not : excluded.plain = false) : state.main ≠ excluded := by
    intro there
    rw [← here, there, not] at plain
    exact absurd plain Bool.false_ne_true
  exact acquiring.main_same (other rfl) (acquiring.flagged (other rfl))
    (acquiring.awake (other rfl)) same (asserted (acquiring.asserted_at here))

theorem main (acquiring : Acquiring state) (moved : MainMove platform state next) :
    Acquiring next := by
  cases moved with
  | newQueue here => exact acquiring.newQueue here
  | enableIrq here => exact acquiring.enableIrq here
  | beginChunk here => exact acquiring.main_control here rfl rfl id
  | leave here => exact acquiring.main_control here rfl rfl fun _ => trivial
  | stopped here set =>
    exact acquiring.main_control here rfl rfl fun enabled => ⟨enabled, set⟩
  | flowing here clear =>
    refine acquiring.main_control here rfl rfl fun enabled => ⟨enabled, ?_⟩
    exact fun set => absurd (set.symm.trans clear) nofun
  | clearEnobuf here => exact acquiring.clearEnobuf here
  | dmaRefill here => exact acquiring.dmaRefill here
  | suspend here empty => exact acquiring.suspend here empty
  | handOver here some =>
    exact acquiring.main_control here rfl rfl fun asserted =>
      ⟨asserted.1, some, rfl⟩
  | wake here woken =>
    have asserted := acquiring.asserted_at here
    exact acquiring.main_same (here ▸ nofun) (acquiring.flagged (here ▸ nofun)) woken rfl asserted
  | transcode here => exact acquiring.main_control here rfl rfl id
  | consumed here =>
    exact acquiring.main_control here rfl rfl fun asserted =>
      ⟨asserted.1, asserted.2.1⟩
  | complete here =>
    exact acquiring.main_control here rfl rfl fun asserted =>
      ⟨asserted.1, asserted.2.1⟩
  | bufferEmptied here => exact acquiring.bufferEmptied here
  | swapTmp here => exact acquiring.main_control here rfl rfl id
  | swapReady here => exact acquiring.main_control here rfl rfl id
  | swapProcessing here =>
    refine acquiring.main_control here rfl rfl fun asserted => ?_
    show (if state.first then MainPc.create else .join).Asserts state.driver
    split
    · exact asserted.1
    · exact asserted.1
  | join here => exact acquiring.main_control here rfl rfl id
  | createCallback here => exact acquiring.main_control here rfl rfl id

/-! ### The interrupt and the stream -/

/-- While a transfer is in flight no thread is about to start one. -/
theorem other_of_flying (acquiring : Acquiring state) (flying : state.driver.dma.isSome) :
    state.main ≠ .dmaRefill := by
  intro here
  have idle := (acquiring.asserted_at here).2.1
  rw [idle] at flying
  exact absurd flying nofun

/-- When the interrupt comes no thread is in the statements that restart the stream, and the
assertion of every other statement is undisturbed. -/
theorem interrupt (acquiring : Acquiring state) (pending : state.driver.interrupted) :
    state.driver.I2SdmaHandlerImpl =
        some { state.driver.filled.IRQdmaRefill with waiting := false } ∧
      Acquiring { state with
        driver := { state.driver.filled.IRQdmaRefill with waiting := false } } := by
  obtain ⟨handled, filled, flying, room⟩ := acquiring.sound.I2SdmaHandlerImpl pending
  refine ⟨handled, ?_⟩
  have other := acquiring.other_of_flying flying
  have clear : state.driver.enobuf = false := (acquiring.flagged other).mp flying
  obtain ⟨sound, flagged, full⟩ := filled.IRQdmaRefill rfl clear
  have same := Driver.IRQdmaRefill_eq state.driver.filled
  rw [same] at sound flagged full ⊢
  refine ⟨sound.same rfl, fun _ => flagged, ?_, nofun, acquiring.active, ?_, acquiring.running⟩
  · exact acquiring.asserted.undisturbed other clear rfl rfl rfl (Nat.le_succ _) full
  · exact acquiring.phased.undisturbed rfl rfl rfl

theorem dma (acquiring : Acquiring state) {words : List Word} {driver : Driver}
    (arrived : state.driver.receive words = some driver) :
    Acquiring { state with driver := driver } := by
  obtain ⟨sound, stillFlying, flying⟩ := acquiring.sound.receive arrived
  obtain ⟨transfer, -, -, -, same⟩ := Driver.receive_eq arrived
  have other := acquiring.other_of_flying flying
  have clear := (acquiring.flagged other).mp flying
  rw [same] at sound stillFlying ⊢
  refine ⟨sound, fun _ => ⟨fun _ => clear, fun _ => stillFlying⟩, ?_, acquiring.asleep,
    acquiring.active, acquiring.phased.undisturbed rfl rfl rfl, acquiring.running⟩
  refine acquiring.asserted.undisturbed other clear rfl rfl rfl le_rfl fun set => ?_
  exact absurd (set.symm.trans clear) nofun

/-! ### The controlling thread -/

/-- A statement of another thread that leaves the driver and the acquisition thread alone. -/
theorem control_same (acquiring : Acquiring state)
    (same : (next.driver, next.main, next.rebooted) = (state.driver, state.main, state.rebooted))
    (active : next.main ≠ .ended → next.control = .started ∨ next.control = .stopJoin)
    (phased : next.control.Asserts state.driver) : Acquiring next := by
  obtain ⟨driver, main, rebooted⟩ : next.driver = state.driver ∧ next.main = state.main ∧
      next.rebooted = state.rebooted := by
    simpa only [Prod.mk.injEq] using same
  have flagged := acquiring.flagged
  have asserted := acquiring.asserted
  have asleep := acquiring.asleep
  rw [← driver] at flagged asserted asleep phased
  rw [← main] at flagged asserted asleep
  exact ⟨driver ▸ acquiring.sound, flagged, asserted, asleep, active, phased,
    rebooted ▸ acquiring.running⟩

/-- The same for a statement taken and left while no acquisition thread runs. -/
theorem control_idle (acquiring : Acquiring state) {control : ControlPc}
    (here : state.control = control) (idle : control ≠ .started) (other : control ≠ .stopJoin)
    (same : (next.driver, next.main, next.rebooted) = (state.driver, state.main, state.rebooted))
    (phased : control.Asserts state.driver → next.control.Asserts state.driver) :
    Acquiring next := by
  have ended : next.main = .ended :=
    (congrArg (fun shared => shared.2.1) same).trans
      (acquiring.ended_of (here ▸ idle) (here ▸ other))
  exact acquiring.control_same same (fun active => absurd ended active)
    (phased (acquiring.phased_at here))

/-- A statement that changes the driver while no acquisition thread runs. -/
theorem control_driver (acquiring : Acquiring state) {control : ControlPc}
    (here : state.control = control) (idle : control ≠ .started) (other : control ≠ .stopJoin)
    (sound : next.driver.Sound)
    (same : (next.driver.dma, next.driver.enobuf, next.driver.waiting, next.main, next.rebooted) =
      (state.driver.dma, state.driver.enobuf, state.driver.waiting, state.main, state.rebooted))
    (phased : next.control.Asserts next.driver) : Acquiring next := by
  simp only [Prod.mk.injEq] at same
  obtain ⟨dma, enobuf, waiting, main, rebooted⟩ := same
  have ended : state.main = .ended := acquiring.ended_of (here ▸ idle) (here ▸ other)
  have ended' : next.main = .ended := main.trans ended
  have awake : next.driver.waiting = false := waiting.trans (acquiring.awake (ended ▸ nofun))
  refine ⟨sound, fun _ => ?_, ?_, fun set => absurd set (awake ▸ Bool.false_ne_true),
    fun active => absurd ended' active, phased, rebooted ▸ acquiring.running⟩
  · rw [Driver.Flagged, dma, enobuf]
    exact acquiring.flagged (ended ▸ nofun)
  · rw [ended']
    exact trivial

theorem createMain (acquiring : Acquiring state) (here : state.control = .startCreate) :
    Acquiring state.createMain := by
  have ended : state.main = .ended := acquiring.ended_of (here ▸ nofun) (here ▸ nofun)
  have awake := acquiring.awake (ended ▸ nofun)
  obtain ⟨absent, on⟩ := acquiring.phased_at here
  exact ⟨acquiring.sound, fun _ => acquiring.flagged (ended ▸ nofun), absent,
    fun set => absurd set (awake ▸ Bool.false_ne_true), fun _ => Or.inl rfl, on, acquiring.running⟩

theorem control (acquiring : Acquiring state) (moved : ControlMove state next) :
    Acquiring next := by
  have sound := acquiring.sound
  cases moved with
  | mallocReady here => exact acquiring.control_idle here nofun nofun rfl id
  | mallocProcessing here => exact acquiring.control_idle here nofun nofun rfl id
  | spiOn here =>
    exact acquiring.control_driver here nofun nofun (sound.same rfl) rfl
      ⟨acquiring.phased_at here, rfl⟩
  | createMain here => exact acquiring.createMain here
  | joined here ended =>
    exact acquiring.control_same rfl (fun active => absurd ended active) trivial
  | disableIrq here =>
    exact acquiring.control_driver here nofun nofun
      ⟨sound.wellFormed, sound.room, nofun, sound.counted⟩ rfl rfl
  | deleteQueue here =>
    have disabled : state.driver.irqEnabled = false := acquiring.phased_at here
    refine acquiring.control_driver here nofun nofun ?_ rfl rfl
    refine ⟨sound.wellFormed, sound.room, ?_, sound.counted⟩
    exact fun enabled => absurd enabled (disabled ▸ Bool.false_ne_true)
  | spiOff here =>
    exact acquiring.control_driver here nofun nofun (sound.same rfl) rfl
      (acquiring.phased_at here : state.driver.live = false)
  | pllOff here => exact acquiring.control_idle here nofun nofun rfl id
  | freeReady here => exact acquiring.control_idle here nofun nofun rfl id
  | freeProcessing here => exact acquiring.control_idle here nofun nofun rfl id

/-! ### Every step and every run -/

theorem move {event : Event} (acquiring : Acquiring state)
    (moved : Move platform state event next) : Acquiring next := by
  cases moved with
  | start here => exact acquiring.control_idle here nofun nofun rfl id
  | stop here =>
    have phased := acquiring.phased_at here
    exact acquiring.control_same rfl (fun _ => Or.inr rfl) phased
  | control moved => exact acquiring.control moved
  | main moved => exact acquiring.main moved
  | dma arrived => exact acquiring.dma arrived
  | interrupt pending handled =>
    obtain ⟨same, kept⟩ := acquiring.interrupt pending
    exact Option.some.inj (same.symm.trans handled) ▸ kept
  | reboot pending failed =>
    exact absurd ((acquiring.interrupt pending).1.symm.trans failed) nofun
  | callbackStart => exact acquiring.control_same rfl acquiring.active acquiring.phased
  | callbackEnd => exact acquiring.control_same rfl acquiring.active acquiring.phased

theorem reachable (reachable : Runs.Reachable (Microphone.step platform) (.boot platform) state) :
    Acquiring state :=
  reachable.invariant (boot platform) fun _ _ _ acquiring taken => acquiring.move (step_move taken)

end Acquiring

end WhistleDrivenRobot
