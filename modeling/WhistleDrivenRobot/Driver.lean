/-
This file models the part of the microphone driver that the interrupt handler
shares with the threads: the queue of DMA buffers, the flag `enobuf`, the single
DMA stream and the wait flag of the acquisition thread. A transfer remembers the
queue and the buffer it was programmed for, because the stream outlives the
queue. What was written and filled so far is kept as a history. The file ends
with what the handler and the refill do to a queue with room, as equations that
the proofs about runs use.
-/

import WhistleDrivenRobot.BufferQueue
import WhistleDrivenRobot.Filter

namespace WhistleDrivenRobot

def bufferSize : Nat := 512

def bufNum : Nat := 2

/-- A transfer programmed into the stream: the queue and the buffer whose address it was given, and
the words it has written so far. -/
structure Transfer where
  queue : Nat
  buffer : Nat
  written : Nat
deriving DecidableEq

/-- The static variables of the driver and the hardware they stand beside. A queue is named by the
number of its allocation; `bq` keeps its contents when it is deleted, `live` tells that it was not.
From `started` on the fields are a history: of all transfers, and of the fills and the last writes
of the current queue. -/
structure Driver where
  bq : BufferQueue Word bufNum
  queue : Nat
  live : Bool
  enobuf : Bool
  dma : Option Transfer
  irqEnabled : Bool
  spiOn : Bool
  waiting : Bool
  started : Nat
  finished : Nat
  fills : Nat
  fillNumber : Nat → Nat
  lastWrite : Nat → Option Transfer

namespace Driver

/-- The static initialisers, before any queue was created. -/
def boot : Driver where
  bq := .create fun _ _ => 0
  queue := 0
  live := false
  enobuf := true
  dma := none
  irqEnabled := false
  spiOn := false
  waiting := false
  started := 0
  finished := 0
  fills := 0
  fillNumber := fun _ => 0
  lastWrite := fun _ => none

/-- `waiting` is the running thread, which is not marked; `bq=new BufferQueue`, on whatever the
allocated memory holds. -/
def newQueue (driver : Driver) (allocation : Nat) (memory : Nat → Word) : Driver :=
  { driver with
    bq := .create fun buffer index => memory (buffer * bufferSize + index)
    queue := allocation
    live := true
    waiting := false
    fills := 0
    lastWrite := fun _ => none }

/-- Configure the DMA to do another transfer. -/
def IRQdmaRefill (driver : Driver) : Driver :=
  match driver.bq.tryGetWritableBuffer with
  | none => { driver with enobuf := true }
  | some buffer =>
    { driver with
      dma := some { queue := driver.queue, buffer := buffer, written := 0 }
      started := driver.started + 1 }

/-- The same with the interrupt disabled, so in one step. -/
def dmaRefill (driver : Driver) : Driver := driver.IRQdmaRefill

/-- DMA end of transfer interrupt; `none` stands for the error handler of the queue. -/
def I2SdmaHandlerImpl (driver : Driver) : Option Driver :=
  (driver.bq.bufferFilled bufferSize).map fun bq =>
    let driver := { driver with
      dma := none
      finished := driver.finished + 1
      bq := bq
      fillNumber := Function.update driver.fillNumber driver.bq.put driver.fills
      fills := driver.fills + 1 }
    { driver.IRQdmaRefill with waiting := false }

def bufferEmptied (driver : Driver) : Driver := { driver with bq := driver.bq.bufferEmptied }

/-- The interrupt is raised at the end of a transfer and stays pending while it is disabled. -/
def interrupted (driver : Driver) : Bool :=
  driver.irqEnabled && driver.dma.any fun transfer => transfer.written == bufferSize

/-- Some more words arrive at the SPI and the stream writes them where it was told to. A write to a
queue that is not there any more changes no buffer of the current one. -/
def receive (driver : Driver) (words : List Word) : Option Driver :=
  match driver.dma with
  | none => none
  | some transfer =>
    if driver.spiOn ∧ words ≠ [] ∧ transfer.written + words.length ≤ bufferSize then
      let moved := { transfer with written := transfer.written + words.length }
      if driver.live ∧ transfer.queue = driver.queue then
        some { driver with
          dma := some moved
          bq := driver.bq.write transfer.buffer transfer.written words
          lastWrite := Function.update driver.lastWrite transfer.buffer (some moved) }
      else some { driver with dma := some moved }
    else none

/-! ### What one call does -/

theorem IRQdmaRefill_eq (driver : Driver) :
    driver.IRQdmaRefill =
      { driver with
        enobuf := driver.bq.isFull || driver.enobuf
        dma :=
          if driver.bq.isFull then driver.dma
          else some { queue := driver.queue, buffer := driver.bq.put, written := 0 }
        started := if driver.bq.isFull then driver.started else driver.started + 1 } := by
  unfold IRQdmaRefill BufferQueue.tryGetWritableBuffer
  cases full : driver.bq.isFull <;> rfl

/-- What every reachable driver satisfies, whatever the threads are doing. -/
structure Sound (driver : Driver) : Prop where
  wellFormed : driver.bq.WellFormed
  room : driver.dma.isSome → driver.bq.cnt < bufNum
  enabled : driver.irqEnabled → driver.live
  counted : driver.started = driver.finished + if driver.dma.isSome then 1 else 0

/-- The flag `enobuf` tells exactly that the stream stands still. -/
def Flagged (driver : Driver) : Prop := driver.dma.isSome ↔ driver.enobuf = false

theorem Flagged.idle {driver : Driver} (flagged : driver.Flagged) (set : driver.enobuf = true) :
    driver.dma = none := by
  refine Option.not_isSome_iff_eq_none.mp fun flying => ?_
  exact absurd (set.symm.trans (flagged.mp flying)) nofun

/-- Only the counters of the queue, the stream and the enabling of the interrupt matter. -/
theorem Sound.same {driver after : Driver} (sound : driver.Sound)
    (same : (after.bq, after.dma, after.live, after.irqEnabled, after.started, after.finished) =
      (driver.bq, driver.dma, driver.live, driver.irqEnabled, driver.started, driver.finished)) :
    after.Sound := by
  simp only [Prod.mk.injEq] at same
  obtain ⟨bq, dma, live, irqEnabled, started, finished⟩ := same
  refine ⟨bq ▸ sound.wellFormed, ?_, ?_, ?_⟩
  · rw [bq, dma]
    exact sound.room
  · rw [irqEnabled, live]
    exact sound.enabled
  · rw [started, finished, dma]
    exact sound.counted

theorem boot_sound : boot.Sound where
  wellFormed := BufferQueue.create_wellFormed (by decide) _
  room := nofun
  enabled := nofun
  counted := rfl

theorem Sound.newQueue {driver : Driver} (sound : driver.Sound) (allocation : Nat)
    (memory : Nat → Word) : (driver.newQueue allocation memory).Sound where
  wellFormed := BufferQueue.create_wellFormed (by decide) _
  room := fun _ => show 0 < bufNum by decide
  enabled := fun _ => rfl
  counted := sound.counted

theorem isFull_iff {driver : Driver} : driver.bq.isFull = true ↔ driver.bq.cnt = bufNum :=
  beq_iff_eq

/-- The refill starts a transfer or sets `enobuf`, when no transfer was in flight. -/
theorem Sound.IRQdmaRefill {driver : Driver} (sound : driver.Sound) (idle : driver.dma = none)
    (clear : driver.enobuf = false) :
    driver.IRQdmaRefill.Sound ∧ driver.IRQdmaRefill.Flagged ∧
      (driver.IRQdmaRefill.enobuf = true → driver.bq.cnt = bufNum) := by
  rw [IRQdmaRefill_eq]
  have counted : driver.started = driver.finished := by
    rw [sound.counted, idle]
    rfl
  cases full : driver.bq.isFull with
  | true =>
    refine ⟨⟨sound.wellFormed, ?_, sound.enabled, ?_⟩, ?_, fun _ => isFull_iff.mp full⟩
    · rintro (flying : driver.dma.isSome = true)
      rw [idle] at flying
      exact absurd flying Bool.false_ne_true
    · show driver.started = driver.finished + if driver.dma.isSome then 1 else 0
      rw [idle]
      exact counted
    · show driver.dma.isSome = true ↔ true = false
      rw [idle]
      decide
  | false =>
    have room : driver.bq.cnt < bufNum := by
      refine Nat.lt_of_le_of_ne sound.wellFormed.cnt_le fun same => ?_
      exact absurd (isFull_iff.mpr same) (full ▸ Bool.false_ne_true)
    refine ⟨⟨sound.wellFormed, fun _ => room, sound.enabled, ?_⟩, ?_, ?_⟩
    · exact congrArg (· + 1) counted
    · exact ⟨fun _ => clear, fun _ => rfl⟩
    · rintro (set : driver.enobuf = true)
      rw [clear] at set
      exact absurd set Bool.false_ne_true

/-- The driver between the two calls of the handler: the filled buffer is in the queue. -/
def filled (driver : Driver) : Driver :=
  { driver with
    dma := none
    finished := driver.finished + 1
    bq := { driver.bq with
      bufSize := Function.update driver.bq.bufSize driver.bq.put bufferSize
      put := Ring.next bufNum driver.bq.get (driver.bq.cnt + 1)
      cnt := driver.bq.cnt + 1 }
    fillNumber := Function.update driver.fillNumber driver.bq.put driver.fills
    fills := driver.fills + 1 }

/-- On a queue with room the handler files the buffer, refills and wakes the thread. -/
theorem Sound.I2SdmaHandlerImpl_eq {driver : Driver} (sound : driver.Sound)
    (room : driver.bq.cnt < bufNum) :
    driver.I2SdmaHandlerImpl = some { driver.filled.IRQdmaRefill with waiting := false } := by
  unfold I2SdmaHandlerImpl
  rw [sound.wellFormed.bufferFilled_eq (by decide) room]
  rfl

theorem Sound.filled {driver : Driver} (sound : driver.Sound) (flying : driver.dma.isSome)
    (room : driver.bq.cnt < bufNum) : driver.filled.Sound where
  wellFormed := sound.wellFormed.bufferFilled (by decide) room
    (sound.wellFormed.bufferFilled_eq (by decide) room bufferSize)
  room := nofun
  enabled := sound.enabled
  counted := by
    have counted := sound.counted
    rw [if_pos flying] at counted
    exact counted

theorem interrupted_iff {driver : Driver} :
    driver.interrupted = true ↔ driver.irqEnabled = true ∧
      ∃ transfer, driver.dma = some transfer ∧ transfer.written = bufferSize := by
  unfold interrupted
  cases driver.dma with
  | none => simp
  | some transfer => simp

/-- An enabled interrupt finds a queue with room, so its handler returns. -/
theorem Sound.I2SdmaHandlerImpl {driver : Driver} (sound : driver.Sound)
    (interrupted : driver.interrupted) :
    driver.I2SdmaHandlerImpl = some { driver.filled.IRQdmaRefill with waiting := false } ∧
      driver.filled.Sound ∧ driver.dma.isSome ∧ driver.bq.cnt < bufNum := by
  obtain ⟨-, transfer, flying, -⟩ := interrupted_iff.mp interrupted
  have isSome : driver.dma.isSome := Option.isSome_iff_exists.mpr ⟨transfer, flying⟩
  have room := sound.room isSome
  exact ⟨sound.I2SdmaHandlerImpl_eq room, sound.filled isSome room, isSome, room⟩

/-- Emptying a filled buffer makes room and touches nothing but the queue. -/
theorem Sound.bufferEmptied {driver : Driver} (sound : driver.Sound) (some : 0 < driver.bq.cnt) :
    driver.bufferEmptied.Sound where
  wellFormed := sound.wellFormed.bufferEmptied (by decide) some
  room := by
    intro flying
    show driver.bq.bufferEmptied.cnt < bufNum
    rw [sound.wellFormed.bufferEmptied_eq (by decide) some]
    exact (Nat.sub_le _ _).trans_lt (sound.room flying)
  enabled := sound.enabled
  counted := sound.counted

/-- Arriving words change the contents of a buffer and how far the transfer is, nothing else. -/
theorem receive_eq {driver next : Driver} {words : List Word}
    (taken : driver.receive words = some next) :
    ∃ transfer, driver.dma = some transfer ∧ words ≠ [] ∧
      next.dma = some { transfer with written := transfer.written + words.length } ∧
      next = { driver with
        dma := next.dma
        bq := { driver.bq with buf := next.bq.buf }
        lastWrite :=
          if driver.live ∧ transfer.queue = driver.queue then
            Function.update driver.lastWrite transfer.buffer next.dma
          else driver.lastWrite } := by
  unfold receive at taken
  cases flying : driver.dma with
  | none =>
    rw [flying] at taken
    exact absurd taken nofun
  | some transfer =>
    rw [flying] at taken
    dsimp only at taken
    split at taken
    · rename_i arrives
      refine ⟨transfer, rfl, arrives.2.1, ?_⟩
      split at taken
      · rename_i hits
        obtain rfl := Option.some.inj taken
        exact ⟨rfl, by rw [if_pos hits]; rfl⟩
      · rename_i misses
        obtain rfl := Option.some.inj taken
        exact ⟨rfl, by rw [if_neg misses]⟩
    · exact absurd taken nofun

theorem Sound.receive {driver next : Driver} (sound : driver.Sound) {words : List Word}
    (taken : driver.receive words = some next) :
    next.Sound ∧ next.dma.isSome ∧ driver.dma.isSome := by
  obtain ⟨transfer, flying, -, moved, same⟩ := receive_eq taken
  have isSome : driver.dma.isSome := Option.isSome_iff_exists.mpr ⟨transfer, flying⟩
  have stillSome : next.dma.isSome := Option.isSome_iff_exists.mpr ⟨_, moved⟩
  refine ⟨?_, stillSome, isSome⟩
  have counted := sound.counted
  rw [if_pos isSome] at counted
  rw [same]
  refine ⟨⟨sound.wellFormed.get_lt, sound.wellFormed.cnt_le, sound.wellFormed.put_eq⟩,
    fun _ => sound.room isSome, sound.enabled, ?_⟩
  show driver.started = driver.finished + if next.dma.isSome then 1 else 0
  rw [if_pos stillSome]
  exact counted

end Driver

end WhistleDrivenRobot
