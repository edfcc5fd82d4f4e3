/-
This file models the microphone driver as a system of threads: the thread that
calls `start` and `stop`, the acquisition thread that runs `mainLoop`, the
callback threads that it creates, and beside them the DMA stream and its
interrupt. Every thread has a program counter that names the statement it
executes next; an event is one atomic step of one of them. Code under an
interrupt lock is one step. Allocations are numbered and a number is never used
twice, so a stale pointer shows up as such.
-/

import WhistleDrivenRobot.Driver
import WhistleDrivenRobot.Runs

namespace WhistleDrivenRobot

/-! ### The state -/

/-- What the driver is given: the chunk size of `init`, and what the memory of the n-th allocation
holds when it is made. -/
structure Platform where
  PCMsize : BitVec 32
  memory : Nat → Nat → Word

/-- The statement that `mainLoop` executes next, with its local variables where it needs them.
`suspended` is the loop of `getReadableBuffer` after `IRQwait`, `ended` also stands for a thread
that was not created yet. -/
inductive MainPc where
  | ended
  | newQueue
  | enableIrq
  | whileTest
  | testEnobuf
  | clearEnobuf
  | dmaRefill
  | getReadable
  | suspended
  | processPDM (buffer i : Nat) (length : Int)
  | bufferEmptied
  | swapTmp
  | swapReady (tmp : Nat)
  | swapProcessing (tmp : Nat)
  | join
  | create
deriving DecidableEq

/-- The statement that the controlling thread executes next. -/
inductive ControlPc where
  | idle
  | startMallocReady
  | startMallocProcessing
  | startSpi
  | startCreate
  | started
  | stopJoin
  | stopDisableIrq
  | stopDelete
  | stopSpi
  | stopPll
  | stopFreeReady
  | stopFreeProcessing
deriving DecidableEq

/-- What a callback thread passed to the user callback: the buffer, the samples that it held then
and, as a history, the completed chunk that these were. -/
structure Passed where
  buffer : Nat
  samples : List Word
  chunk : Option Nat
deriving DecidableEq

/-- A callback thread; `passed` is set when it has read `readyBuffer`. -/
structure Callback where
  session : Nat
  passed : Option Passed
  ended : Bool
deriving DecidableEq

/-- The fields of the class, the threads and the memory. From `session` on the fields are a
history: the number of calls of `start`, the fill numbers of the buffers handed to `processPDM` in
this session, the samples of the chunk being filled, all completed chunks, and the completed chunk
that an allocated buffer holds. -/
structure Microphone where
  driver : Driver
  recording : Bool
  readyBuffer : Nat
  processingBuffer : Nat
  PCMindex : BitVec 32
  pcm : Nat → Nat → Word
  regs : FilterRegs
  main : MainPc
  first : Bool
  cback : Nat
  control : ControlPc
  callbacks : List Callback
  allocated : Nat
  rebooted : Bool
  session : Nat
  handed : List Nat
  produced : List Word
  chunks : List (List Word)
  chunkIn : Nat → Option Nat

/-- One atomic step of one of the threads, of the stream or of the interrupt. -/
inductive Event where
  | start
  | stop
  | control
  | main
  | dma (words : List Word)
  | interrupt
  | callbackStart (thread : Nat)
  | callbackEnd (thread : Nat)
deriving DecidableEq

namespace Microphone

def boot (platform : Platform) : Microphone where
  driver := .boot
  recording := false
  readyBuffer := 0
  processingBuffer := 0
  PCMindex := 0
  pcm := platform.memory
  regs := .zero
  main := .ended
  first := true
  cback := 0
  control := .idle
  callbacks := []
  allocated := 0
  rebooted := false
  session := 0
  handed := []
  produced := []
  chunks := []
  chunkIn := fun _ => none

/-! ### mainLoop -/

/-- The statements before the loop: `waiting`, `first` and `bq` are set. -/
def newQueue (platform : Platform) (state : Microphone) : Microphone :=
  { state with
    driver := state.driver.newQueue state.allocated (platform.memory state.allocated)
    allocated := state.allocated + 1
    first := true
    handed := []
    main := .enableIrq }

def enableIrq (state : Microphone) : Microphone :=
  { state with driver := { state.driver with irqEnabled := true }, main := .whileTest }

def beginChunk (state : Microphone) : Microphone :=
  { state with PCMindex := 0, produced := [], main := .testEnobuf }

def clearEnobuf (state : Microphone) : Microphone :=
  { state with driver := { state.driver with enobuf := false }, main := .dmaRefill }

def dmaRefill (state : Microphone) : Microphone :=
  { state with driver := state.driver.dmaRefill, main := .getReadable }

/-- No buffer is readable: the thread is marked waiting in the same critical section. -/
def suspend (state : Microphone) : Microphone :=
  { state with driver := { state.driver with waiting := true }, main := .suspended }

/-- The number of rounds of the loop of `processPDM`; both numbers are signed. -/
def processLength (platform : Platform) (state : Microphone) : Int :=
  min (platform.PCMsize - state.PCMindex).toInt bufferSize

/-- `processPDM` is called on a readable buffer. -/
def handOver (platform : Platform) (state : Microphone) (buffer : Nat) : Microphone :=
  { state with
    handed := state.handed ++ [state.driver.fillNumber buffer]
    main := .processPDM buffer 0 (processLength platform state) }

/-- One round of the loop of `processPDM`. -/
def transcode (state : Microphone) (buffer i : Nat) (length : Int) : Microphone :=
  let (sample, regs) := PDMFilter state.regs (state.driver.bq.buf buffer i)
  let block := Function.update (state.pcm state.processingBuffer) state.PCMindex.toNat sample
  { state with
    pcm := Function.update state.pcm state.processingBuffer block
    PCMindex := state.PCMindex + 1
    regs := regs
    produced := state.produced ++ [sample]
    chunkIn := Function.update state.chunkIn state.processingBuffer none
    main := .processPDM buffer (i + 1) length }

/-- `processPDM` returns true and the inner loop is left. -/
def complete (state : Microphone) : Microphone :=
  { state with
    chunks := state.chunks ++ [state.produced]
    chunkIn := Function.update state.chunkIn state.processingBuffer (some state.chunks.length)
    main := .swapTmp }

def bufferEmptied (state : Microphone) : Microphone :=
  { state with driver := state.driver.bufferEmptied, main := .testEnobuf }

def swapReady (state : Microphone) (tmp : Nat) : Microphone :=
  { state with readyBuffer := state.processingBuffer, main := .swapProcessing tmp }

/-- The last statement of the swap, and the test of `first` with its branch that sets it. -/
def swapProcessing (state : Microphone) (tmp : Nat) : Microphone :=
  { state with
    processingBuffer := tmp
    first := false
    main := if state.first then .create else .join }

def createCallback (state : Microphone) : Microphone :=
  { state with
    callbacks := state.callbacks ++ [{ session := state.session, passed := none, ended := false }]
    cback := state.callbacks.length
    main := .whileTest }

def goto (state : Microphone) (main : MainPc) : Microphone := { state with main := main }

/-- The next statement of `mainLoop`. -/
def mainStep (platform : Platform) (state : Microphone) : Option Microphone :=
  match state.main with
  | .ended => none
  | .newQueue => some (state.newQueue platform)
  | .enableIrq => some state.enableIrq
  | .whileTest => if state.recording then some state.beginChunk else some (state.goto .ended)
  | .testEnobuf =>
    if state.driver.enobuf then some (state.goto .clearEnobuf)
    else some (state.goto .getReadable)
  | .clearEnobuf => some state.clearEnobuf
  | .dmaRefill => some state.dmaRefill
  | .getReadable =>
    match state.driver.bq.tryGetReadableBuffer with
    | none => some state.suspend
    | some (result, _) => some (state.handOver platform result)
  | .suspended => if state.driver.waiting then none else some (state.goto .getReadable)
  | .processPDM buffer i length =>
    if i < length then some (state.transcode buffer i length)
    else if state.PCMindex < platform.PCMsize then some (state.goto .bufferEmptied)
    else some state.complete
  | .bufferEmptied => some state.bufferEmptied
  | .swapTmp => some (state.goto (.swapReady state.readyBuffer))
  | .swapReady tmp => some (state.swapReady tmp)
  | .swapProcessing tmp => some (state.swapProcessing tmp)
  | .join =>
    if (state.callbacks[state.cback]?).any Callback.ended then some (state.goto .create) else none
  | .create => some state.createCallback

/-! ### start and stop -/

def startCall (state : Microphone) : Microphone :=
  { state with recording := true, session := state.session + 1, control := .startMallocReady }

def stopCall (state : Microphone) : Microphone :=
  { state with recording := false, control := .stopJoin }

def mallocReady (state : Microphone) : Microphone :=
  { state with
    readyBuffer := state.allocated
    allocated := state.allocated + 1
    chunkIn := Function.update state.chunkIn state.allocated none
    control := .startMallocProcessing }

def mallocProcessing (state : Microphone) : Microphone :=
  { state with
    processingBuffer := state.allocated
    allocated := state.allocated + 1
    chunkIn := Function.update state.chunkIn state.allocated none
    control := .startSpi }

def setSpi (state : Microphone) (spiOn : Bool) (control : ControlPc) : Microphone :=
  { state with driver := { state.driver with spiOn := spiOn }, control := control }

def createMain (state : Microphone) : Microphone :=
  { state with main := .newQueue, control := .started }

def disableIrq (state : Microphone) : Microphone :=
  { state with driver := { state.driver with irqEnabled := false }, control := .stopDelete }

def deleteQueue (state : Microphone) : Microphone :=
  { state with driver := { state.driver with live := false }, control := .stopSpi }

/-- `free`: what the block held is gone. -/
def free (state : Microphone) (buffer : Nat) (control : ControlPc) : Microphone :=
  { state with chunkIn := Function.update state.chunkIn buffer none, control := control }

def proceed (state : Microphone) (control : ControlPc) : Microphone :=
  { state with control := control }

/-- The next statement of `start` or `stop`, after the first one of each. -/
def controlStep (state : Microphone) : Option Microphone :=
  match state.control with
  | .idle | .started => none
  | .startMallocReady => some state.mallocReady
  | .startMallocProcessing => some state.mallocProcessing
  | .startSpi => some (state.setSpi true .startCreate)
  | .startCreate => some state.createMain
  | .stopJoin => if state.main = .ended then some (state.proceed .stopDisableIrq) else none
  | .stopDisableIrq => some state.disableIrq
  | .stopDelete => some state.deleteQueue
  | .stopSpi => some (state.setSpi false .stopPll)
  | .stopPll => some (state.proceed .stopFreeReady)
  | .stopFreeReady => some (state.free state.readyBuffer .stopFreeProcessing)
  | .stopFreeProcessing => some (state.free state.processingBuffer .idle)

/-! ### The callback threads -/

/-- The `PCMsize` samples that a buffer holds. -/
def samples (platform : Platform) (state : Microphone) (buffer : Nat) : List Word :=
  (List.range platform.PCMsize.toNat).map (state.pcm buffer)

/-- `execCallback` reads `readyBuffer` and calls the user callback. -/
def execCallback (platform : Platform) (state : Microphone) (thread : Nat) (callback : Callback) :
    Microphone :=
  { state with
    callbacks := state.callbacks.set thread { callback with
      passed := some
        { buffer := state.readyBuffer
          samples := state.samples platform state.readyBuffer
          chunk := state.chunkIn state.readyBuffer } } }

def endCallback (state : Microphone) (thread : Nat) (callback : Callback) : Microphone :=
  { state with callbacks := state.callbacks.set thread { callback with ended := true } }

/-! ### The system -/

/-- One event; `none` when it is not enabled. Nothing happens any more after a reboot. -/
def step (platform : Platform) (state : Microphone) (event : Event) : Option Microphone :=
  if state.rebooted then none
  else match event with
  | .start => if state.control = .idle then some state.startCall else none
  | .stop => if state.control = .started then some state.stopCall else none
  | .control => state.controlStep
  | .main => state.mainStep platform
  | .dma words => (state.driver.receive words).map fun driver => { state with driver := driver }
  | .interrupt =>
    if state.driver.interrupted then
      match state.driver.I2SdmaHandlerImpl with
      | none => some { state with rebooted := true }
      | some driver => some { state with driver := driver }
    else none
  | .callbackStart thread =>
    match state.callbacks[thread]? with
    | none => none
    | some callback =>
      if callback.passed.isNone ∧ callback.ended = false then
        some (state.execCallback platform thread callback)
      else none
  | .callbackEnd thread =>
    match state.callbacks[thread]? with
    | none => none
    | some callback =>
      if callback.passed.isSome ∧ callback.ended = false then
        some (state.endCallback thread callback)
      else none

end Microphone

end WhistleDrivenRobot
