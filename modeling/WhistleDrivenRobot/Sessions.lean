/-
This file follows the driver from one session to the next. `stop` waits for the
acquisition thread, which has joined every callback thread but the last one that
it created; and it deletes the queue whether or not a transfer is in flight,
while the flag `enobuf` and the stream survive it. Both leave something behind
in some orders of steps: the theorems say in exactly which.
-/

import WhistleDrivenRobot.Ownership

namespace WhistleDrivenRobot

variable {platform : Platform} {state next : Microphone}

/-! ### Callback threads that outlive their session -/

/-- `stop` has reached its calls of `free`, or returned. -/
def ControlPc.freeing : ControlPc → Bool
  | .stopFreeReady | .stopFreeProcessing | .idle => true
  | _ => false

/-- When `stop` frees the sample buffers all callback threads have ended. -/
def FreedAfterAll (state : Microphone) : Prop :=
  state.control.freeing = true → ∀ callback ∈ state.callbacks, callback.ended = true

/-- `stop` proceeds to its calls of `free` only after the callback thread created last has ended. -/
def FreesAfterLast (state : Microphone) (event : Event) : Prop :=
  event = .control → state.control = .stopPll →
    ∀ callback, state.callbacks.getLast? = some callback → callback.ended = true

instance (state : Microphone) (event : Event) : Decidable (FreesAfterLast state event) :=
  inferInstanceAs
    (Decidable (_ → _ → ∀ callback ∈ state.callbacks.getLast?, callback.ended = true))

/-- What the steps under that condition keep: no callback thread outlives its session. -/
structure Settled (platform : Platform) (state : Microphone) : Prop where
  owned : Owned platform state
  older : ∀ (thread : Nat) (callback : Callback), state.callbacks[thread]? = some callback →
    callback.session ≠ state.session → callback.ended = true
  freed : FreedAfterAll state

namespace Settled

theorem boot (platform : Platform) : Settled platform (.boot platform) where
  owned := .boot platform
  older := nofun
  freed := nofun

/-- A step that leaves the callback threads and the session alone, and does not reach `free`. -/
theorem same (settled : Settled platform state) (owned : Owned platform next)
    (callbacks : next.callbacks = state.callbacks) (session : next.session = state.session)
    (freeing : next.control.freeing = true → state.control.freeing = true) :
    Settled platform next where
  owned := owned
  older := by
    rw [callbacks, session]
    exact settled.older
  freed := by
    unfold FreedAfterAll
    rw [callbacks]
    exact fun there => settled.freed (freeing there)

/-- The threads of earlier sessions have ended, and of this one all but the last. -/
theorem pllOff (settled : Settled platform state)
    (last : ∀ callback, state.callbacks.getLast? = some callback → callback.ended = true)
    (owned : Owned platform (state.proceed .stopFreeReady)) :
    Settled platform (state.proceed .stopFreeReady) := by
  refine ⟨owned, settled.older, fun _ callback member => ?_⟩
  obtain ⟨thread, found⟩ := List.mem_iff_getElem?.mp member
  by_cases mine : callback.session = state.session
  · by_cases latest : thread + 1 = state.callbacks.length
    · refine last callback ?_
      rw [List.getLast?_eq_getElem?, ← latest]
      exact found
    · exact settled.owned.past thread callback ⟨found, mine⟩ latest
  · exact settled.older thread callback found mine

theorem createCallback (settled : Settled platform state) (here : state.main = .create)
    (owned : Owned platform state.createCallback) : Settled platform state.createCallback := by
  refine ⟨owned, fun thread callback found other => ?_, fun freeing => ?_⟩
  · rcases getElem?_concat_cases found with old | ⟨-, rfl⟩
    · exact settled.older thread callback old other
    · exact absurd rfl other
  · rcases settled.owned.acquiring.active (here ▸ nofun) with started | stopping
    · exact absurd ((congrArg ControlPc.freeing started).symm.trans freeing) nofun
    · exact absurd ((congrArg ControlPc.freeing stopping).symm.trans freeing) nofun

theorem callback_set (settled : Settled platform state) {thread : Nat} {callback after : Callback}
    (found : state.callbacks[thread]? = some callback) (session : after.session = callback.session)
    (ended : callback.ended = true → after.ended = true)
    (owned : Owned platform { state with callbacks := state.callbacks.set thread after }) :
    Settled platform { state with callbacks := state.callbacks.set thread after } := by
  refine ⟨owned, fun other entry foundOther older => ?_, fun freeing entry member => ?_⟩
  · rcases getElem?_set_cases foundOther with ⟨old, -⟩ | ⟨-, rfl⟩
    · exact settled.older other entry old older
    · exact ended (settled.older thread callback found (session ▸ older))
  · rcases List.mem_or_eq_of_mem_set member with old | rfl
    · exact settled.freed freeing entry old
    · exact ended (settled.freed freeing callback (List.mem_of_getElem? found))

theorem move {event : Event} (settled : Settled platform state)
    (waits : FreesAfterLast state event) (moved : Move platform state event next) :
    Settled platform next := by
  have owned := settled.owned.move moved
  cases moved with
  | start here =>
    have ended := settled.freed (here ▸ rfl)
    exact ⟨owned, fun _ callback found _ => ended callback (List.mem_of_getElem? found), nofun⟩
  | stop => exact settled.same owned rfl rfl nofun
  | control moved =>
    cases moved with
    | pllOff here => exact settled.pllOff (waits rfl here) owned
    | freeReady here => exact settled.same owned rfl rfl fun _ => here ▸ rfl
    | freeProcessing here => exact settled.same owned rfl rfl fun _ => here ▸ rfl
    | _ => exact settled.same owned rfl rfl nofun
  | main moved =>
    cases moved with
    | createCallback here => exact settled.createCallback here owned
    | _ => exact settled.same owned rfl rfl id
  | callbackStart found => exact settled.callback_set found rfl id owned
  | callbackEnd found => exact settled.callback_set found rfl (fun _ => rfl) owned
  | _ => exact settled.same owned rfl rfl id

/-- Nothing else waits for the last callback thread. -/
theorem early {event : Event} (settled : Settled platform state)
    (broken : ¬ FreesAfterLast state event)
    (taken : state.step platform event = some next) : ¬ FreedAfterAll next := by
  simp only [FreesAfterLast, Classical.not_imp, Classical.not_forall] at broken
  obtain ⟨rfl, here, callback, last, alive⟩ := broken
  rw [step_control settled.owned.acquiring.running] at taken
  unfold Microphone.controlStep at taken
  rw [here] at taken
  obtain rfl := Option.some.inj taken
  exact fun ended => alive (ended rfl callback (List.mem_of_getLast? last))

end Settled

/-- All callback threads have ended whenever `stop` is at its calls of `free` or has returned, all
along a run, exactly when each time the last one has ended before `stop` proceeds to them. -/
theorem freed_after_all_iff {events : List Event}
    (ran : Runs.run (Microphone.step platform) (.boot platform) events = some state) :
    Runs.Always (Microphone.step platform) FreedAfterAll (.boot platform) events ↔
      Runs.EachStep (Microphone.step platform) FreesAfterLast (.boot platform) events :=
  Runs.always_iff_eachStep (Settled platform)
    (fun _ _ _ settled waits taken => settled.move waits (step_move taken))
    (fun _ settled => settled.freed)
    (fun _ _ _ settled broken taken => settled.early broken taken) (.boot platform) ran

/-- One chunk is recorded, then the session is stopped up to the given statement; the callback
thread of the chunk has not even started. -/
def stopEvents (statements : Nat) : List Event :=
  startEvents ++ List.replicate 7 .main ++ fillEvents ++ [.stop] ++ List.replicate 9 .main ++
    List.replicate statements .control

theorem stop_shown :
    ((Runs.run (Microphone.step singleSample) (.boot singleSample) (stopEvents 5)).map
        fun state => (state.control, state.callbacks)) =
      some (.stopFreeReady, [{ session := 1, passed := none, ended := false }]) := by
  decide +kernel

/-- `stop` is about to free the sample buffers and the last callback thread has not started. -/
theorem freed_after_all_early :
    ∃ state, Runs.run (Microphone.step singleSample) (.boot singleSample) (stopEvents 5) =
        some state ∧
      state.control = .stopFreeReady ∧
      state.callbacks = [{ session := 1, passed := none, ended := false }] ∧
      ¬ FreedAfterAll state := by
  obtain ⟨state, ran, shown⟩ := Option.map_eq_some_iff.mp stop_shown
  obtain ⟨here, callbacks⟩ := Prod.mk.inj shown
  refine ⟨state, ran, here, callbacks, fun ended => ?_⟩
  have isOver := ended (here ▸ rfl) _ (callbacks ▸ List.mem_cons_self)
  exact absurd isOver nofun

/-- The same, where the callback thread has ended in time. -/
def patientStopEvents : List Event :=
  startEvents ++ List.replicate 7 .main ++ fillEvents ++ [.stop] ++ List.replicate 9 .main ++
    [.callbackStart 0, .callbackEnd 0] ++ List.replicate 5 .control

/-- A `stop` that does not wait breaks it; it holds when the callback thread has ended. -/
theorem freed_after_all_iff_early :
    (∃ state, Runs.run (Microphone.step singleSample) (.boot singleSample) (stopEvents 5) =
        some state ∧
      ¬ Runs.EachStep (Microphone.step singleSample) FreesAfterLast (.boot singleSample)
        (stopEvents 5)) ∧
      ∃ state, Runs.run (Microphone.step singleSample) (.boot singleSample) patientStopEvents =
          some state ∧
        state.control = .stopFreeReady ∧ state.callbacks.map Callback.ended = [true] ∧
        Runs.Always (Microphone.step singleSample) FreedAfterAll (.boot singleSample)
          patientStopEvents := by
  have patient : ((Runs.run (Microphone.step singleSample) (.boot singleSample)
      patientStopEvents).map fun state => (state.control, state.callbacks.map Callback.ended)) =
        some (.stopFreeReady, [true]) := by decide +kernel
  have afterLast : Runs.EachStep (Microphone.step singleSample) FreesAfterLast
      (.boot singleSample) patientStopEvents := by decide +kernel
  constructor
  · obtain ⟨state, ran, shown⟩ := Option.map_eq_some_iff.mp stop_shown
    obtain ⟨here, callbacks⟩ := Prod.mk.inj shown
    refine ⟨state, ran, fun each => ?_⟩
    have ended := ((freed_after_all_iff ran).mpr each).final ran
    have isOver := ended (here ▸ rfl) _ (callbacks ▸ List.mem_cons_self)
    exact absurd isOver nofun
  · obtain ⟨state, ran, shown⟩ := Option.map_eq_some_iff.mp patient
    obtain ⟨here, ended⟩ := Prod.mk.inj shown
    exact ⟨state, ran, here, ended, (freed_after_all_iff ran).mpr afterLast⟩

/-! ### Transfers that outlive their queue -/

/-- A transfer that has written all words of its buffer. -/
def Driver.complete (driver : Driver) (buffer : Nat) : Transfer where
  queue := driver.queue
  buffer := buffer
  written := bufferSize

/-- No transfer targets a deleted queue, and the buffer handed to `processPDM` was last written, and
completely, by a transfer programmed for it in the current queue. A transfer is in flight until its
interrupt is served, also when all its words are written. -/
def Restarted (state : Microphone) : Prop :=
  (∀ transfer, state.driver.dma = some transfer →
      state.driver.live = true ∧ transfer.queue = state.driver.queue) ∧
    ∀ buffer i length, state.main = .processPDM buffer i length →
      state.driver.lastWrite buffer = some (state.driver.complete buffer)

/-- `stop` deletes the queue only while the stream stands still. -/
def DeletesIdle (state : Microphone) (event : Event) : Prop :=
  event = .control → state.control = .stopDelete → state.driver.enobuf = true

instance (state : Microphone) (event : Event) : Decidable (DeletesIdle state event) :=
  inferInstanceAs (Decidable (_ → _ → _))

/-- The filled buffers were written completely for the current queue, and the one being filled as
far as the transfer is. -/
structure Driver.Written (driver : Driver) : Prop where
  onTarget : driver.OnTarget
  live : driver.dma.isSome = true → driver.live = true
  filled : ∀ buffer ∈ driver.bq.filled, driver.lastWrite buffer = some (driver.complete buffer)
  writing : ∀ transfer, driver.dma = some transfer → 0 < transfer.written →
    driver.lastWrite transfer.buffer = some transfer

namespace Driver.Written

theorem congr {driver after : Driver} (written : driver.Written) (dma : after.dma = driver.dma)
    (queue : after.queue = driver.queue) (live : after.live = driver.live)
    (put : after.bq.put = driver.bq.put) (filled : after.bq.filled = driver.bq.filled)
    (lastWrite : after.lastWrite = driver.lastWrite) : after.Written where
  onTarget := written.onTarget.congr dma queue put
  live := by
    rw [dma, live]
    exact written.live
  filled := by
    unfold Driver.complete
    rw [filled, lastWrite, queue]
    exact written.filled
  writing := by
    rw [dma, lastWrite]
    exact written.writing

theorem IRQdmaRefill {driver : Driver} (written : driver.Written) (live : driver.live = true) :
    driver.IRQdmaRefill.Written := by
  have onTarget := written.onTarget.IRQdmaRefill
  rw [Driver.IRQdmaRefill_eq] at onTarget ⊢
  refine ⟨onTarget, fun _ => live, written.filled, fun transfer flying begun => ?_⟩
  cases full : driver.bq.isFull with
  | true =>
    rw [full] at flying
    exact written.writing transfer flying begun
  | false =>
    rw [full] at flying
    obtain rfl := Option.some.inj flying
    exact absurd begun (Nat.lt_irrefl 0)

/-- The completed transfer was for the buffer that the handler files. -/
theorem afterFill {driver : Driver} (written : driver.Written) (sound : driver.Sound)
    {transfer : Transfer} (flying : driver.dma = some transfer)
    (full : transfer.written = bufferSize) : Driver.Written driver.filled := by
  have room := sound.room (Option.isSome_iff_exists.mpr ⟨transfer, flying⟩)
  obtain ⟨queue, buffer⟩ := written.onTarget transfer flying
  refine ⟨.of_idle rfl, nofun, fun other member => ?_, nofun⟩
  have appended : driver.filled.bq.filled = driver.bq.filled ++ [driver.bq.put] :=
    sound.wellFormed.filled_bufferFilled (by decide) room
      (sound.wellFormed.bufferFilled_eq (by decide) room bufferSize)
  rw [appended, List.mem_append, List.mem_singleton] at member
  rcases member with old | rfl
  · exact written.filled other old
  · have last := written.writing transfer flying (full ▸ by decide)
    rw [buffer] at last
    refine last.trans (congrArg some ?_)
    show transfer = { queue := driver.queue, buffer := driver.bq.put, written := bufferSize }
    rw [← queue, ← buffer, ← full]

theorem bufferEmptied {driver : Driver} (written : driver.Written) (sound : driver.Sound)
    (some : 0 < driver.bq.cnt) : driver.bufferEmptied.Written := by
  have dropped : driver.bq.filled = driver.bq.get :: driver.bq.bufferEmptied.filled :=
    sound.wellFormed.filled_bufferEmptied (by decide) some
  have put : driver.bufferEmptied.bq.put = driver.bq.put := rfl
  refine ⟨written.onTarget.congr rfl rfl put, written.live, fun other member => ?_,
    written.writing⟩
  exact written.filled other (dropped ▸ List.mem_cons_of_mem _ member)

/-- The words go to the buffer being filled, which is none of the filled ones. -/
theorem receive {driver after : Driver} (written : driver.Written) (sound : driver.Sound)
    {words : List Word} (arrived : driver.receive words = some after) : after.Written := by
  have onTarget := written.onTarget.receive arrived
  obtain ⟨transfer, flying, -, moved, same⟩ := Driver.receive_eq arrived
  have isSome : driver.dma.isSome = true := Option.isSome_iff_exists.mpr ⟨transfer, flying⟩
  have hits : driver.live = true ∧ transfer.queue = driver.queue :=
    ⟨written.live isSome, (written.onTarget transfer flying).1⟩
  rw [if_pos hits, moved] at same
  rw [same] at onTarget ⊢
  refine ⟨onTarget, fun _ => hits.1, fun other member => ?_, fun later stillFlying _ => ?_⟩
  · have apart : other ≠ transfer.buffer := by
      rintro rfl
      exact written.onTarget.notMem_filled sound (sound.room isSome) flying member
    exact (Function.update_of_ne apart _ _).trans (written.filled other member)
  · obtain rfl := Option.some.inj stillFlying
    exact Function.update_self _ _ _

end Driver.Written

/-- What the steps that delete the queue of a standing stream keep. -/
structure Restarting (state : Microphone) : Prop where
  acquiring : Acquiring state
  written : state.driver.Written

namespace Restarting

theorem boot (platform : Platform) : Restarting (.boot platform) where
  acquiring := .boot platform
  written := ⟨.of_idle rfl, nofun, nofun, nofun⟩

theorem restarted (restarting : Restarting state) : Restarted state := by
  have written := restarting.written
  refine ⟨fun transfer flying => ?_, fun buffer i length here => ?_⟩
  · have isSome : state.driver.dma.isSome = true := Option.isSome_iff_exists.mpr ⟨transfer, flying⟩
    exact ⟨written.live isSome, (written.onTarget transfer flying).1⟩
  · obtain ⟨-, some, isGet⟩ := restarting.acquiring.asserted_at here
    refine written.filled buffer ?_
    rw [isGet]
    exact restarting.acquiring.sound.wellFormed.get_mem_filled some

/-- Where no transfer can be in flight none is. -/
theorem idle_of_dead (restarting : Restarting state) (dead : state.driver.live = false) :
    state.driver.dma = none := by
  refine Option.not_isSome_iff_eq_none.mp fun flying => ?_
  exact absurd (dead.symm.trans (restarting.written.live flying)) nofun

theorem main (restarting : Restarting state) (acquiring : Acquiring next)
    (moved : MainMove platform state next) : Restarting next := by
  have sound := restarting.acquiring.sound
  have written := restarting.written
  refine ⟨acquiring, ?_⟩
  cases moved with
  | newQueue here =>
    have idle := restarting.idle_of_dead (restarting.acquiring.asserted_at here)
    have still : (state.newQueue platform).driver.dma = none := idle
    refine ⟨.of_idle still, fun _ => rfl, nofun, fun transfer flying => ?_⟩
    exact absurd (still.symm.trans flying) nofun
  | dmaRefill here =>
    exact written.IRQdmaRefill (sound.enabled (restarting.acquiring.asserted_at here).1)
  | bufferEmptied here =>
    exact written.bufferEmptied sound (restarting.acquiring.asserted_at here).2
  | _ => exact written.congr rfl rfl rfl rfl rfl rfl

theorem deleteQueue (restarting : Restarting state) (here : state.control = .stopDelete)
    (set : state.driver.enobuf = true) (acquiring : Acquiring state.deleteQueue) :
    Restarting state.deleteQueue := by
  have ended : state.main = .ended :=
    restarting.acquiring.ended_of (here ▸ nofun) (here ▸ nofun)
  have idle : state.deleteQueue.driver.dma = none :=
    (restarting.acquiring.flagged (ended ▸ nofun)).idle set
  refine ⟨acquiring, .of_idle idle, fun flying => ?_, restarting.written.filled, fun _ flying => ?_⟩
  · exact absurd (idle ▸ flying) nofun
  · exact absurd (idle.symm.trans flying) nofun

theorem interrupt (restarting : Restarting state) (pending : state.driver.interrupted = true)
    (acquiring : Acquiring { state with
      driver := { state.driver.filled.IRQdmaRefill with waiting := false } }) :
    Restarting { state with
      driver := { state.driver.filled.IRQdmaRefill with waiting := false } } := by
  have sound := restarting.acquiring.sound
  obtain ⟨enabled, transfer, flying, full⟩ := Driver.interrupted_iff.mp pending
  have filled := restarting.written.afterFill sound flying full
  have refilled : state.driver.filled.IRQdmaRefill.Written :=
    filled.IRQdmaRefill (sound.enabled enabled)
  exact ⟨acquiring, refilled.congr rfl rfl rfl rfl rfl rfl⟩

theorem move {event : Event} (restarting : Restarting state) (idle : DeletesIdle state event)
    (moved : Move platform state event next) : Restarting next := by
  have acquiring := restarting.acquiring.move moved
  have written := restarting.written
  cases moved with
  | control moved =>
    cases moved with
    | deleteQueue here => exact restarting.deleteQueue here (idle rfl here) acquiring
    | _ => exact ⟨acquiring, written.congr rfl rfl rfl rfl rfl rfl⟩
  | main moved => exact restarting.main acquiring moved
  | dma arrived => exact ⟨acquiring, written.receive restarting.acquiring.sound arrived⟩
  | interrupt pending handled =>
    obtain rfl := Option.some.inj ((restarting.acquiring.interrupt pending).1.symm.trans handled)
    exact restarting.interrupt pending acquiring
  | _ => exact ⟨acquiring, written⟩

/-- A transfer in flight is left without its queue. -/
theorem dangles {event : Event} (restarting : Restarting state)
    (broken : ¬ DeletesIdle state event) (taken : state.step platform event = some next) :
    ¬ Restarted next := by
  simp only [DeletesIdle, Classical.not_imp] at broken
  obtain ⟨rfl, here, clear⟩ := broken
  have acquiring := restarting.acquiring
  have ended : state.main = .ended := acquiring.ended_of (here ▸ nofun) (here ▸ nofun)
  rw [step_control acquiring.running] at taken
  unfold Microphone.controlStep at taken
  rw [here] at taken
  obtain rfl := Option.some.inj taken
  have flying := (acquiring.flagged (ended ▸ nofun)).mpr (Bool.eq_false_iff.mpr clear)
  obtain ⟨transfer, inFlight⟩ := Option.isSome_iff_exists.mp flying
  exact fun restarted => absurd (restarted.1 transfer inFlight).1 nofun

end Restarting

/-- No transfer targets a deleted queue and every buffer handed over was written for the current
one, all along a run of any number of sessions, exactly when each `stop` deletes the queue while
the stream stands still. -/
theorem restarted_iff {events : List Event}
    (ran : Runs.run (Microphone.step platform) (.boot platform) events = some state) :
    Runs.Always (Microphone.step platform) Restarted (.boot platform) events ↔
      Runs.EachStep (Microphone.step platform) DeletesIdle (.boot platform) events :=
  Runs.always_iff_eachStep Restarting
    (fun _ _ _ restarting idle taken => restarting.move idle (step_move taken))
    (fun _ restarting => restarting.restarted)
    (fun _ _ _ restarting broken taken => restarting.dangles broken taken) (.boot platform) ran

/-- A second session after one that was stopped with a transfer in flight: the transfer goes on into
the deleted queue, and its interrupt files a buffer of the new one. -/
def restartEvents : List Event :=
  stopEvents 7 ++ startEvents ++ [.dma (List.replicate bufferSize 0)] ++ List.replicate 2 .main ++
    [.interrupt] ++ List.replicate 3 .main

theorem restart_shown :
    ((Runs.run (Microphone.step singleSample) (.boot singleSample) restartEvents).map
        fun state => (state.main, state.driver.lastWrite 0)) =
      some (.processPDM 0 0 1, none) := by decide +kernel

/-- `processPDM` is handed a buffer that no transfer has ever written. -/
theorem restarted_unwritten :
    ∃ state, Runs.run (Microphone.step singleSample) (.boot singleSample) restartEvents =
        some state ∧
      state.main = .processPDM 0 0 1 ∧ state.driver.lastWrite 0 = none ∧ ¬ Restarted state := by
  obtain ⟨state, ran, shown⟩ := Option.map_eq_some_iff.mp restart_shown
  obtain ⟨here, unwritten⟩ := Prod.mk.inj shown
  refine ⟨state, ran, here, unwritten, fun restarted => ?_⟩
  exact absurd (unwritten.symm.trans (restarted.2 0 0 1 here)) nofun

/-- The same, where the first session fills both of its buffers, so that the stream stands still
when it is stopped. -/
def idleRestartEvents : List Event :=
  startEvents ++ List.replicate 7 .main ++ fillEvents ++ fillEvents ++ [.stop] ++
    List.replicate 9 .main ++ List.replicate 7 .control ++ startEvents ++ List.replicate 7 .main ++
    fillEvents ++ List.replicate 2 .main

/-- A queue deleted under a transfer breaks it; it holds when the stream stands still. -/
theorem restarted_iff_unwritten :
    (∃ state, Runs.run (Microphone.step singleSample) (.boot singleSample) restartEvents =
        some state ∧
      ¬ Runs.EachStep (Microphone.step singleSample) DeletesIdle (.boot singleSample)
        restartEvents) ∧
      ∃ state, Runs.run (Microphone.step singleSample) (.boot singleSample) idleRestartEvents =
          some state ∧
        state.main = .processPDM 0 0 1 ∧
        state.driver.lastWrite 0 = some (state.driver.complete 0) ∧
        Runs.Always (Microphone.step singleSample) Restarted (.boot singleSample)
          idleRestartEvents := by
  have written : ((Runs.run (Microphone.step singleSample) (.boot singleSample)
      idleRestartEvents).map fun state => state.main) = some (.processPDM 0 0 1) := by
    decide +kernel
  have idle : Runs.EachStep (Microphone.step singleSample) DeletesIdle (.boot singleSample)
      idleRestartEvents := by decide +kernel
  constructor
  · obtain ⟨state, ran, shown⟩ := Option.map_eq_some_iff.mp restart_shown
    obtain ⟨here, unwritten⟩ := Prod.mk.inj shown
    refine ⟨state, ran, fun each => ?_⟩
    have restarted := ((restarted_iff ran).mpr each).final ran
    exact absurd (unwritten.symm.trans (restarted.2 0 0 1 here)) nofun
  · obtain ⟨state, ran, here⟩ := Option.map_eq_some_iff.mp written
    have restarted := (restarted_iff ran).mpr idle
    exact ⟨state, ran, here, (restarted.final ran).2 0 0 1 here, restarted⟩

end WhistleDrivenRobot
