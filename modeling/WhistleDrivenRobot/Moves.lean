/-
This file inverts the step function of the microphone: one constructor for each
statement of each thread, with the guard under which it is taken and the state
that it leaves. The proofs about runs are case analyses over these constructors
and never unfold the step function.
-/

import WhistleDrivenRobot.Microphone

namespace WhistleDrivenRobot

variable {platform : Platform} {state next : Microphone}

/-! ### What each statement does -/

/-- The statements of `mainLoop`. -/
inductive MainMove (platform : Platform) (state : Microphone) : Microphone → Prop
  | newQueue (here : state.main = .newQueue) : MainMove platform state (state.newQueue platform)
  | enableIrq (here : state.main = .enableIrq) : MainMove platform state state.enableIrq
  | beginChunk (here : state.main = .whileTest) (recording : state.recording = true) :
      MainMove platform state state.beginChunk
  | leave (here : state.main = .whileTest) (stopped : state.recording = false) :
      MainMove platform state (state.goto .ended)
  | stopped (here : state.main = .testEnobuf) (set : state.driver.enobuf = true) :
      MainMove platform state (state.goto .clearEnobuf)
  | flowing (here : state.main = .testEnobuf) (clear : state.driver.enobuf = false) :
      MainMove platform state (state.goto .getReadable)
  | clearEnobuf (here : state.main = .clearEnobuf) : MainMove platform state state.clearEnobuf
  | dmaRefill (here : state.main = .dmaRefill) : MainMove platform state state.dmaRefill
  | suspend (here : state.main = .getReadable) (empty : state.driver.bq.cnt = 0) :
      MainMove platform state state.suspend
  | handOver (here : state.main = .getReadable) (some : 0 < state.driver.bq.cnt) :
      MainMove platform state (state.handOver platform state.driver.bq.get)
  | wake (here : state.main = .suspended) (woken : state.driver.waiting = false) :
      MainMove platform state (state.goto .getReadable)
  | transcode {buffer i : Nat} {length : Int} (here : state.main = .processPDM buffer i length)
      (more : i < length) : MainMove platform state (state.transcode buffer i length)
  | consumed {buffer i : Nat} {length : Int} (here : state.main = .processPDM buffer i length)
      (past : ¬ i < length) (short : state.PCMindex < platform.PCMsize) :
      MainMove platform state (state.goto .bufferEmptied)
  | complete {buffer i : Nat} {length : Int} (here : state.main = .processPDM buffer i length)
      (past : ¬ i < length) (full : ¬ state.PCMindex < platform.PCMsize) :
      MainMove platform state state.complete
  | bufferEmptied (here : state.main = .bufferEmptied) :
      MainMove platform state state.bufferEmptied
  | swapTmp (here : state.main = .swapTmp) :
      MainMove platform state (state.goto (.swapReady state.readyBuffer))
  | swapReady {tmp : Nat} (here : state.main = .swapReady tmp) :
      MainMove platform state (state.swapReady tmp)
  | swapProcessing {tmp : Nat} (here : state.main = .swapProcessing tmp) :
      MainMove platform state (state.swapProcessing tmp)
  | join {callback : Callback} (here : state.main = .join)
      (found : state.callbacks[state.cback]? = some callback) (ended : callback.ended = true) :
      MainMove platform state (state.goto .create)
  | createCallback (here : state.main = .create) : MainMove platform state state.createCallback

/-- The statements of `start` and `stop` after the first one of each. -/
inductive ControlMove (state : Microphone) : Microphone → Prop
  | mallocReady (here : state.control = .startMallocReady) : ControlMove state state.mallocReady
  | mallocProcessing (here : state.control = .startMallocProcessing) :
      ControlMove state state.mallocProcessing
  | spiOn (here : state.control = .startSpi) : ControlMove state (state.setSpi true .startCreate)
  | createMain (here : state.control = .startCreate) : ControlMove state state.createMain
  | joined (here : state.control = .stopJoin) (ended : state.main = .ended) :
      ControlMove state (state.proceed .stopDisableIrq)
  | disableIrq (here : state.control = .stopDisableIrq) : ControlMove state state.disableIrq
  | deleteQueue (here : state.control = .stopDelete) : ControlMove state state.deleteQueue
  | spiOff (here : state.control = .stopSpi) : ControlMove state (state.setSpi false .stopPll)
  | pllOff (here : state.control = .stopPll) : ControlMove state (state.proceed .stopFreeReady)
  | freeReady (here : state.control = .stopFreeReady) :
      ControlMove state (state.free state.readyBuffer .stopFreeProcessing)
  | freeProcessing (here : state.control = .stopFreeProcessing) :
      ControlMove state (state.free state.processingBuffer .idle)

/-- The events of all the threads, the stream and the interrupt. -/
inductive Move (platform : Platform) (state : Microphone) : Event → Microphone → Prop
  | start (here : state.control = .idle) : Move platform state .start state.startCall
  | stop (here : state.control = .started) : Move platform state .stop state.stopCall
  | control {next : Microphone} (moved : ControlMove state next) :
      Move platform state .control next
  | main {next : Microphone} (moved : MainMove platform state next) :
      Move platform state .main next
  | dma {words : List Word} {driver : Driver} (arrived : state.driver.receive words = some driver) :
      Move platform state (.dma words) { state with driver := driver }
  | interrupt {driver : Driver} (pending : state.driver.interrupted = true)
      (handled : state.driver.I2SdmaHandlerImpl = some driver) :
      Move platform state .interrupt { state with driver := driver }
  | reboot (pending : state.driver.interrupted = true)
      (failed : state.driver.I2SdmaHandlerImpl = none) :
      Move platform state .interrupt { state with rebooted := true }
  | callbackStart {thread : Nat} {callback : Callback}
      (found : state.callbacks[thread]? = some callback) (created : callback.passed = none)
      (alive : callback.ended = false) :
      Move platform state (.callbackStart thread) (state.execCallback platform thread callback)
  | callbackEnd {thread : Nat} {callback : Callback} {passed : Passed}
      (found : state.callbacks[thread]? = some callback) (running : callback.passed = some passed)
      (alive : callback.ended = false) :
      Move platform state (.callbackEnd thread) (state.endCallback thread callback)

/-! ### The step function takes these moves only -/

theorem mainStep_move (taken : state.mainStep platform = some next) :
    MainMove platform state next := by
  cases here : state.main <;> simp only [Microphone.mainStep, here] at taken
  case ended => exact absurd taken nofun
  case newQueue => exact Option.some.inj taken ▸ .newQueue here
  case enableIrq => exact Option.some.inj taken ▸ .enableIrq here
  case whileTest =>
    split at taken
    · exact Option.some.inj taken ▸ .beginChunk here ‹_›
    · exact Option.some.inj taken ▸ .leave here (Bool.eq_false_iff.mpr ‹_›)
  case testEnobuf =>
    split at taken
    · exact Option.some.inj taken ▸ .stopped here ‹_›
    · exact Option.some.inj taken ▸ .flowing here (Bool.eq_false_iff.mpr ‹_›)
  case clearEnobuf => exact Option.some.inj taken ▸ .clearEnobuf here
  case dmaRefill => exact Option.some.inj taken ▸ .dmaRefill here
  case getReadable =>
    rcases Nat.eq_zero_or_pos state.driver.bq.cnt with empty | some
    · rw [BufferQueue.tryGetReadableBuffer_of_eq empty] at taken
      exact Option.some.inj taken ▸ .suspend here empty
    · rw [BufferQueue.tryGetReadableBuffer_of_pos some] at taken
      exact Option.some.inj taken ▸ .handOver here some
  case suspended =>
    split at taken
    · exact absurd taken nofun
    · exact Option.some.inj taken ▸ .wake here (Bool.eq_false_iff.mpr ‹_›)
  case processPDM buffer i length =>
    split at taken
    · exact Option.some.inj taken ▸ .transcode here ‹_›
    · split at taken
      · exact Option.some.inj taken ▸ .consumed here ‹_› ‹_›
      · exact Option.some.inj taken ▸ .complete here ‹_› ‹_›
  case bufferEmptied => exact Option.some.inj taken ▸ .bufferEmptied here
  case swapTmp => exact Option.some.inj taken ▸ .swapTmp here
  case swapReady tmp => exact Option.some.inj taken ▸ .swapReady here
  case swapProcessing tmp => exact Option.some.inj taken ▸ .swapProcessing here
  case join =>
    cases found : state.callbacks[state.cback]? with
    | none =>
      rw [found] at taken
      exact absurd taken nofun
    | some callback =>
      rw [found] at taken
      split at taken
      · rename_i ended
        exact Option.some.inj taken ▸ .join here found ended
      · exact absurd taken nofun
  case create => exact Option.some.inj taken ▸ .createCallback here

theorem controlStep_move (taken : state.controlStep = some next) : ControlMove state next := by
  cases here : state.control <;> simp only [Microphone.controlStep, here] at taken
  case idle => exact absurd taken nofun
  case started => exact absurd taken nofun
  case startMallocReady => exact Option.some.inj taken ▸ .mallocReady here
  case startMallocProcessing => exact Option.some.inj taken ▸ .mallocProcessing here
  case startSpi => exact Option.some.inj taken ▸ .spiOn here
  case startCreate => exact Option.some.inj taken ▸ .createMain here
  case stopJoin =>
    split at taken
    · exact Option.some.inj taken ▸ .joined here ‹_›
    · exact absurd taken nofun
  case stopDisableIrq => exact Option.some.inj taken ▸ .disableIrq here
  case stopDelete => exact Option.some.inj taken ▸ .deleteQueue here
  case stopSpi => exact Option.some.inj taken ▸ .spiOff here
  case stopPll => exact Option.some.inj taken ▸ .pllOff here
  case stopFreeReady => exact Option.some.inj taken ▸ .freeReady here
  case stopFreeProcessing => exact Option.some.inj taken ▸ .freeProcessing here

theorem step_move {event : Event} (taken : state.step platform event = some next) :
    Move platform state event next := by
  unfold Microphone.step at taken
  split at taken
  · exact absurd taken nofun
  cases event <;> simp only at taken
  case start =>
    split at taken
    · exact Option.some.inj taken ▸ .start ‹_›
    · exact absurd taken nofun
  case stop =>
    split at taken
    · exact Option.some.inj taken ▸ .stop ‹_›
    · exact absurd taken nofun
  case control => exact .control (controlStep_move taken)
  case main => exact .main (mainStep_move taken)
  case dma words =>
    obtain ⟨driver, arrived, rfl⟩ := Option.map_eq_some_iff.mp taken
    exact .dma arrived
  case interrupt =>
    split at taken
    · cases handled : state.driver.I2SdmaHandlerImpl with
      | none =>
        rw [handled] at taken
        exact Option.some.inj taken ▸ .reboot ‹_› handled
      | some driver =>
        rw [handled] at taken
        exact Option.some.inj taken ▸ .interrupt ‹_› handled
    · exact absurd taken nofun
  case callbackStart thread =>
    split at taken
    · exact absurd taken nofun
    · rename_i callback found
      split at taken
      · rename_i ready
        have fresh := Option.isNone_iff_eq_none.mp ready.1
        exact Option.some.inj taken ▸ .callbackStart found fresh ready.2
      · exact absurd taken nofun
  case callbackEnd thread =>
    split at taken
    · exact absurd taken nofun
    · rename_i callback found
      split at taken
      · rename_i ready
        obtain ⟨passed, running⟩ := Option.isSome_iff_exists.mp ready.1
        exact Option.some.inj taken ▸ .callbackEnd found running ready.2
      · exact absurd taken nofun

/-! ### Statements that are taken for certain -/

theorem step_main (running : state.rebooted = false) :
    state.step platform .main = state.mainStep platform := by
  unfold Microphone.step
  rw [running]
  rfl

theorem step_control (running : state.rebooted = false) :
    state.step platform .control = state.controlStep := by
  unfold Microphone.step
  rw [running]
  rfl

theorem mainStep_handOver (here : state.main = .getReadable) (some : 0 < state.driver.bq.cnt) :
    state.mainStep platform = .some (state.handOver platform state.driver.bq.get) := by
  simp only [Microphone.mainStep, here, BufferQueue.tryGetReadableBuffer_of_pos some]

end WhistleDrivenRobot
