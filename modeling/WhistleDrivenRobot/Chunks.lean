/-
This file follows the completed chunks to the callback threads. A chunk is
complete when the buffer that `processPDM` writes holds exactly the samples that
it produced; the swap makes that buffer the ready one, and the thread that is
created next is meant to pass it on. It does when it takes its first step in
time: while the next chunk has not been swapped in and the session has not freed
the buffer. A thread that is later passes on another chunk than its own.
-/

import WhistleDrivenRobot.Cells
import WhistleDrivenRobot.Ownership

namespace WhistleDrivenRobot

variable {platform : Platform} {state next : Microphone}

/-! ### The chunk being filled -/

/-- The statements of the inner loop, which fills a chunk. -/
def MainPc.filling : MainPc → Bool
  | .testEnobuf | .clearEnobuf | .dmaRefill | .getReadable | .suspended | .processPDM _ _ _
  | .bufferEmptied => true
  | _ => false

/-- The samples of the chunk being filled stand in `processingBuffer`, those of a completed chunk in
the buffer that is known to hold it. -/
structure Filled (platform : Platform) (state : Microphone) : Prop where
  produced : state.main.filling = true →
    state.produced =
        (List.range state.PCMindex.toNat).map (state.pcm state.processingBuffer) ∧
      state.PCMindex.toNat ≤ platform.PCMsize.toNat
  rounds : ∀ buffer i length, state.main = .processPDM buffer i length →
    state.PCMindex.toNat + length ≤ platform.PCMsize.toNat + i
  holds : ∀ buffer chunk, state.chunkIn buffer = some chunk →
    state.chunks[chunk]? = some (state.samples platform buffer)

theorem Filled.boot (platform : Platform) : Filled platform (.boot platform) where
  produced := nofun
  rounds := nofun
  holds := nofun

namespace Filled

/-- A step that touches no samples and stays inside the inner loop or out of it. -/
theorem same (filled : Filled platform state) (filling : next.main.filling = state.main.filling)
    (rounds : ∀ buffer i length, next.main = .processPDM buffer i length →
      next.PCMindex.toNat + length ≤ platform.PCMsize.toNat + i)
    (same : (next.PCMindex, next.produced, next.processingBuffer, next.pcm, next.chunks,
        next.chunkIn) =
      (state.PCMindex, state.produced, state.processingBuffer, state.pcm, state.chunks,
        state.chunkIn)) : Filled platform next := by
  simp only [Prod.mk.injEq] at same
  obtain ⟨index, produced, processing, pcm, chunks, chunkIn⟩ := same
  refine ⟨?_, rounds, ?_⟩
  · rw [filling, index, produced, processing, pcm]
    exact filled.produced
  · unfold Microphone.samples
    rw [chunkIn, chunks, pcm]
    exact filled.holds

/-- A step out of the inner loop, which may forget what a buffer holds. -/
theorem outside (filled : Filled platform state) (out : next.main.filling = false)
    (same : (next.pcm, next.chunks) = (state.pcm, state.chunks))
    (chunkIn : ∀ buffer chunk, next.chunkIn buffer = some chunk →
      state.chunkIn buffer = some chunk) : Filled platform next := by
  simp only [Prod.mk.injEq] at same
  obtain ⟨pcm, chunks⟩ := same
  refine ⟨fun inside => ?_, fun _ _ _ there => ?_, fun buffer chunk known => ?_⟩
  · exact absurd (out.symm.trans inside) nofun
  · exact absurd (out.symm.trans (congrArg MainPc.filling there)) nofun
  · rw [chunks, Microphone.samples, pcm]
    exact filled.holds buffer chunk (chunkIn buffer chunk known)

/-- What the rest of the chunk and the length of the buffer bound, bounds the rounds. -/
theorem processLength_le (filled : Filled platform state) (inside : state.main.filling = true) :
    state.PCMindex.toNat + state.processLength platform ≤ platform.PCMsize.toNat := by
  have bound := (filled.produced inside).2
  have remaining : (platform.PCMsize - state.PCMindex).toNat =
      platform.PCMsize.toNat - state.PCMindex.toNat := BitVec.toNat_sub_of_le bound
  have signed : (platform.PCMsize - state.PCMindex).toInt ≤
      (platform.PCMsize - state.PCMindex).toNat := by
    rw [BitVec.toInt_eq_toNat_cond]
    split <;> omega
  have shorter : state.processLength platform ≤ (platform.PCMsize - state.PCMindex).toInt :=
    min_le_left _ _
  omega

theorem transcode (filled : Filled platform state) {buffer i : Nat} {length : Int}
    (here : state.main = .processPDM buffer i length) (more : i < length) :
    Filled platform (state.transcode buffer i length) := by
  obtain ⟨produced, -⟩ := filled.produced (here ▸ rfl)
  have rounds := filled.rounds buffer i length here
  have below := platform.PCMsize.isLt
  have index : (state.PCMindex + 1).toNat = state.PCMindex.toNat + 1 := by
    rw [BitVec.toNat_add]
    exact Nat.mod_eq_of_lt (show state.PCMindex.toNat + 1 < 2 ^ 32 by omega)
  have block : (state.transcode buffer i length).pcm state.processingBuffer =
      Function.update (state.pcm state.processingBuffer) state.PCMindex.toNat
        (PDMFilter state.regs (state.driver.bq.buf buffer i)).1 := Function.update_self _ _ _
  refine ⟨fun _ => ⟨?_, ?_⟩, ?_, ?_⟩
  · show state.produced ++ [(PDMFilter state.regs (state.driver.bq.buf buffer i)).1] =
      (List.range (state.PCMindex + 1).toNat).map
        ((state.transcode buffer i length).pcm state.processingBuffer)
    rw [index, block, Cells.map_range_update, produced]
  · show (state.PCMindex + 1).toNat ≤ platform.PCMsize.toNat
    omega
  · rintro _ _ _ ⟨⟩
    show ((state.PCMindex + 1).toNat : Int) + length ≤ platform.PCMsize.toNat + (i + 1 : Nat)
    omega
  · intro other chunk known
    have apart : other ≠ state.processingBuffer := by
      rintro rfl
      have forgotten : (state.transcode buffer i length).chunkIn state.processingBuffer = none :=
        Function.update_self _ _ _
      exact absurd (forgotten.symm.trans known) nofun
    have before : state.chunkIn other = some chunk :=
      (Function.update_of_ne apart _ _).symm.trans known
    have pcm : (state.transcode buffer i length).pcm other = state.pcm other :=
      Function.update_of_ne apart _ _
    rw [Microphone.samples, pcm]
    exact filled.holds other chunk before

theorem complete (filled : Filled platform state) (inside : state.main.filling = true)
    (full : ¬ state.PCMindex < platform.PCMsize) : Filled platform state.complete := by
  obtain ⟨produced, bound⟩ := filled.produced inside
  have index : state.PCMindex.toNat = platform.PCMsize.toNat :=
    le_antisymm bound (Nat.not_lt.mp full)
  refine ⟨nofun, nofun, fun other chunk known => ?_⟩
  by_cases same : other = state.processingBuffer
  · subst same
    have here : state.complete.chunkIn state.processingBuffer = some state.chunks.length :=
      Function.update_self _ _ _
    obtain rfl := Option.some.inj (here.symm.trans known)
    show (state.chunks ++ [state.produced])[state.chunks.length]? = _
    rw [List.getElem?_concat_length, produced, index]
    rfl
  · have before : state.chunkIn other = some chunk :=
      (Function.update_of_ne same _ _).symm.trans known
    have old := filled.holds other chunk before
    show (state.chunks ++ [state.produced])[chunk]? = _
    rw [List.getElem?_append_left (List.getElem?_eq_some_iff.mp old).1]
    exact old

theorem main (filled : Filled platform state) (moved : MainMove platform state next) :
    Filled platform next := by
  cases moved with
  | transcode here more => exact filled.transcode here more
  | complete here past full => exact filled.complete (here ▸ rfl) full
  | beginChunk => exact ⟨fun _ => ⟨rfl, Nat.zero_le _⟩, nofun, filled.holds⟩
  | handOver here some =>
    refine filled.same (here ▸ rfl) ?_ rfl
    rintro _ _ _ ⟨⟩
    exact (filled.processLength_le (here ▸ rfl)).trans (Int.le_of_eq (Int.add_zero _).symm)
  | swapProcessing =>
    have out : (if state.first then MainPc.create else .join).filling = false := by
      split <;> rfl
    exact filled.outside out rfl fun _ _ => id
  | _ =>
    have here := ‹state.main = _›
    exact filled.same (here ▸ rfl) nofun rfl

/-- Forgetting what a block holds, while `mainLoop` does not run. -/
theorem control_idle (filled : Filled platform state) (ended : state.main = .ended)
    (same : (next.main, next.pcm, next.chunks) = (state.main, state.pcm, state.chunks))
    {block : Nat} (chunkIn : next.chunkIn = Function.update state.chunkIn block none) :
    Filled platform next := by
  simp only [Prod.mk.injEq] at same
  obtain ⟨main, pcm, chunks⟩ := same
  refine filled.outside ?_ (by rw [pcm, chunks]) fun buffer chunk known => ?_
  · rw [main, ended]
    rfl
  · rw [chunkIn] at known
    by_cases same : buffer = block
    · rw [same, Function.update_self] at known
      exact absurd known nofun
    · rwa [Function.update_of_ne same] at known

theorem control (filled : Filled platform state) (acquiring : Acquiring state)
    (moved : ControlMove state next) : Filled platform next := by
  have ended {control : ControlPc} (here : state.control = control) (idle : control ≠ .started)
      (other : control ≠ .stopJoin) : state.main = .ended :=
    acquiring.ended_of (here ▸ idle) (here ▸ other)
  cases moved with
  | mallocReady here => exact filled.control_idle (ended here nofun nofun) rfl rfl
  | mallocProcessing here => exact filled.control_idle (ended here nofun nofun) rfl rfl
  | freeReady here => exact filled.control_idle (ended here nofun nofun) rfl rfl
  | freeProcessing here => exact filled.control_idle (ended here nofun nofun) rfl rfl
  | createMain => exact filled.outside rfl rfl fun _ _ => id
  | _ => exact filled.same rfl filled.rounds rfl

theorem move {event : Event} (filled : Filled platform state) (acquiring : Acquiring state)
    (moved : Move platform state event next) : Filled platform next := by
  cases moved with
  | control moved => exact filled.control acquiring moved
  | main moved => exact filled.main moved
  | _ => exact filled.same rfl filled.rounds rfl

end Filled

/-! ### The chunk that the ready buffer holds -/

/-- The ready buffer is the one of the latest completed chunk, whose thread is yet to be created. -/
def MainPc.swapped : MainPc → Bool
  | .swapProcessing _ | .join | .create => true
  | _ => false

/-- A chunk was completed whose thread is yet to be created. -/
def MainPc.completed : MainPc → Bool
  | .swapTmp | .swapReady _ | .swapProcessing _ | .join | .create => true
  | _ => false

/-- `stop` has freed `readyBuffer` and `start` has not been called again. -/
def ControlPc.freed : ControlPc → Bool
  | .stopFreeProcessing | .idle => true
  | _ => false

/-- The ready buffer holds the chunk of the latest thread of the session, unless the next chunk was
swapped in or the buffer was freed. -/
structure Chunked (platform : Platform) (state : Microphone) : Prop where
  owned : Owned platform state
  filled : Filled platform state
  counted : state.chunks.length =
    state.callbacks.length + if state.main.completed then 1 else 0
  processing : state.main.completed = true → state.main.swapped = false →
    state.chunkIn state.processingBuffer = some state.callbacks.length
  swapped : state.main.swapped = true →
    state.chunkIn state.readyBuffer = some state.callbacks.length
  latest : state.main.swapped = false → state.control.freed = false →
    ∀ thread callback, state.Mine thread callback → thread + 1 = state.callbacks.length →
      state.chunkIn state.readyBuffer = some thread
  only : state.main.swapped = false → ∀ chunk, state.chunkIn state.readyBuffer = some chunk →
    state.control.freed = false ∧ ∃ callback, state.Mine chunk callback

theorem Chunked.boot (platform : Platform) : Chunked platform (.boot platform) where
  owned := .boot platform
  filled := .boot platform
  counted := rfl
  processing := nofun
  swapped := nofun
  latest := nofun
  only := nofun

namespace Chunked

/-- A step that leaves alone the threads, the completed chunks and what the two buffers hold. -/
theorem same (chunked : Chunked platform state) (owned : Owned platform next)
    (filled : Filled platform next)
    (same : (next.callbacks, next.session, next.chunks) =
      (state.callbacks, state.session, state.chunks))
    (ready : next.chunkIn next.readyBuffer = state.chunkIn state.readyBuffer)
    (processing : state.main.completed = true → state.main.swapped = false →
      next.chunkIn next.processingBuffer = state.chunkIn state.processingBuffer)
    (main : (next.main.completed, next.main.swapped) =
      (state.main.completed, state.main.swapped))
    (freed : next.control.freed = state.control.freed) : Chunked platform next := by
  simp only [Prod.mk.injEq] at same main
  obtain ⟨callbacks, session, chunks⟩ := same
  obtain ⟨completed, swapped⟩ := main
  refine ⟨owned, filled, ?_, ?_, ?_, ?_, ?_⟩
  · rw [chunks, callbacks, completed]
    exact chunked.counted
  · rw [completed, swapped, callbacks]
    intro done before
    rw [processing done before]
    exact chunked.processing done before
  · rw [swapped, ready, callbacks]
    exact chunked.swapped
  · unfold Microphone.Mine
    rw [swapped, ready, callbacks, session, freed]
    exact chunked.latest
  · unfold Microphone.Mine
    rw [swapped, ready, callbacks, session, freed]
    exact chunked.only

/-! ### The acquisition thread -/

theorem transcode (chunked : Chunked platform state) {buffer i : Nat} {length : Int}
    (here : state.main = .processPDM buffer i length)
    (owned : Owned platform (state.transcode buffer i length))
    (filled : Filled platform (state.transcode buffer i length)) :
    Chunked platform (state.transcode buffer i length) := by
  obtain ⟨-, apart⟩ := chunked.owned.owns_at here
  refine chunked.same owned filled rfl ?_ ?_ (here ▸ rfl) rfl
  · exact Function.update_of_ne apart _ _
  · exact fun done => absurd (here ▸ done) nofun

theorem complete (chunked : Chunked platform state) {buffer i : Nat} {length : Int}
    (here : state.main = .processPDM buffer i length) (owned : Owned platform state.complete)
    (filled : Filled platform state.complete) : Chunked platform state.complete := by
  obtain ⟨-, apart⟩ := chunked.owned.owns_at here
  have counted : state.chunks.length = state.callbacks.length := by
    have counted := chunked.counted
    rw [here] at counted
    exact counted
  have ready : state.complete.chunkIn state.readyBuffer = state.chunkIn state.readyBuffer :=
    Function.update_of_ne apart _ _
  refine ⟨owned, filled, ?_, fun _ _ => ?_, nofun, fun _ => ?_, fun _ => ?_⟩
  · show (state.chunks ++ [state.produced]).length = state.callbacks.length + 1
    rw [List.length_append, counted, List.length_singleton]
  · show Function.update state.chunkIn state.processingBuffer (some state.chunks.length)
        state.processingBuffer = some state.callbacks.length
    rw [Function.update_self, counted]
  · intro freed thread callback mine last
    exact ready.trans (chunked.latest (here ▸ rfl) freed thread callback mine last)
  · intro chunk known
    exact chunked.only (here ▸ rfl) chunk (ready.symm.trans known)

theorem swapReady (chunked : Chunked platform state) {tmp : Nat}
    (here : state.main = .swapReady tmp) (owned : Owned platform (state.swapReady tmp))
    (filled : Filled platform (state.swapReady tmp)) : Chunked platform (state.swapReady tmp) := by
  have counted := chunked.counted
  rw [here] at counted
  exact ⟨owned, filled, counted, fun _ => nofun,
    fun _ => chunked.processing (here ▸ rfl) (here ▸ rfl), nofun, nofun⟩

theorem createCallback (chunked : Chunked platform state) (here : state.main = .create)
    (owned : Owned platform state.createCallback) (filled : Filled platform state.createCallback) :
    Chunked platform state.createCallback := by
  have counted := chunked.counted
  rw [here] at counted
  have length : state.createCallback.callbacks.length = state.callbacks.length + 1 :=
    List.length_append
  have ready : state.createCallback.chunkIn state.createCallback.readyBuffer =
      some state.callbacks.length := chunked.swapped (here ▸ rfl)
  refine ⟨owned, filled, counted.trans length.symm, nofun, nofun, ?_, ?_⟩
  · intro _ _ thread callback _ last
    rw [ready, Nat.succ_injective (last.trans length)]
  · intro _ chunk known
    obtain rfl := Option.some.inj (ready.symm.trans known)
    refine ⟨?_, { session := state.session, passed := none, ended := false },
      List.getElem?_concat_length, rfl⟩
    rcases chunked.owned.acquiring.active (here ▸ nofun) with started | stopping
    · exact (congrArg ControlPc.freed started).trans rfl
    · exact (congrArg ControlPc.freed stopping).trans rfl

theorem main (chunked : Chunked platform state) (owned : Owned platform next)
    (filled : Filled platform next) (moved : MainMove platform state next) :
    Chunked platform next := by
  cases moved with
  | transcode here => exact chunked.transcode here owned filled
  | complete here => exact chunked.complete here owned filled
  | swapReady here => exact chunked.swapReady here owned filled
  | createCallback here => exact chunked.createCallback here owned filled
  | swapProcessing here =>
    refine chunked.same owned filled rfl rfl (fun _ before => absurd (here ▸ before) nofun) ?_ rfl
    rw [here]
    show ((if state.first then MainPc.create else .join).completed,
      (if state.first then MainPc.create else .join).swapped) = (true, true)
    split <;> rfl
  | _ =>
    have here := ‹state.main = _›
    exact chunked.same owned filled rfl rfl (fun _ _ => rfl) (here ▸ rfl) rfl

/-! ### The controlling thread -/

theorem forgotten (chunked : Chunked platform state) (before : state.main.swapped = false)
    (freed : state.control.freed = true) : state.chunkIn state.readyBuffer = none := by
  refine Option.eq_none_iff_forall_ne_some.mpr fun chunk known => ?_
  exact absurd (freed.symm.trans (chunked.only before chunk known).1) nofun

theorem start (chunked : Chunked platform state) (here : state.control = .idle)
    (owned : Owned platform state.startCall) (filled : Filled platform state.startCall) :
    Chunked platform state.startCall := by
  have ended : state.main = .ended :=
    chunked.owned.acquiring.ended_of (here ▸ nofun) (here ▸ nofun)
  have before : state.main.swapped = false := ended ▸ rfl
  refine ⟨owned, filled, chunked.counted, chunked.processing, chunked.swapped, ?_, ?_⟩
  · exact fun _ _ thread callback mine => absurd mine (owned.phased thread callback)
  · intro _ chunk known
    exact absurd ((chunked.forgotten before (here ▸ rfl)).symm.trans known) nofun

/-- After this statement the ready buffer holds no chunk, and no thread of the session is left that
it could hold one for. -/
theorem control_forgets (chunked : Chunked platform state) (owned : Owned platform next)
    (filled : Filled platform next) (ended : state.main = .ended)
    (same : (next.main, next.callbacks, next.chunks) = (state.main, state.callbacks, state.chunks))
    (forgotten : next.chunkIn next.readyBuffer = none)
    (done : next.control.freed = false → next.Fresh) : Chunked platform next := by
  simp only [Prod.mk.injEq] at same
  obtain ⟨main, callbacks, chunks⟩ := same
  refine ⟨owned, filled, ?_, ?_, ?_,
    fun _ freed thread callback mine => absurd mine (done freed thread callback),
    fun _ _ known => absurd (forgotten.symm.trans known) nofun⟩
  · rw [chunks, callbacks, main]
    exact chunked.counted
  · rw [main, ended]
    exact nofun
  · rw [main, ended]
    exact nofun

theorem control (chunked : Chunked platform state) (owned : Owned platform next)
    (filled : Filled platform next) (moved : ControlMove state next) :
    Chunked platform next := by
  have ended {control : ControlPc} (here : state.control = control) (idle : control ≠ .started)
      (other : control ≠ .stopJoin) : state.main = .ended :=
    chunked.owned.acquiring.ended_of (here ▸ idle) (here ▸ other)
  cases moved with
  | mallocReady here =>
    exact chunked.control_forgets owned filled (ended here nofun nofun) rfl
      (Function.update_self _ _ _) fun _ => chunked.owned.phased_at here
  | mallocProcessing here =>
    obtain ⟨fresh, below⟩ := chunked.owned.phased_at here
    refine chunked.same owned filled rfl (Function.update_of_ne below.ne _ _) ?_ rfl (here ▸ rfl)
    exact fun done => absurd ((ended here nofun nofun) ▸ done) nofun
  | createMain here =>
    have before := ended here nofun nofun
    exact chunked.same owned filled rfl rfl (fun _ _ => rfl) (before ▸ rfl) (here ▸ rfl)
  | freeReady here =>
    exact chunked.control_forgets owned filled (ended here nofun nofun) rfl
      (Function.update_self _ _ _) nofun
  | freeProcessing here =>
    have before := ended here nofun nofun
    refine chunked.control_forgets owned filled before rfl ?_ nofun
    show Function.update state.chunkIn state.processingBuffer none state.readyBuffer = none
    by_cases same : state.readyBuffer = state.processingBuffer
    · rw [same, Function.update_self]
    · rw [Function.update_of_ne same]
      exact chunked.forgotten (before ▸ rfl) (here ▸ rfl)
  | _ =>
    have here := ‹state.control = _›
    exact chunked.same owned filled rfl rfl (fun _ _ => rfl) rfl (here ▸ rfl)

/-! ### The callback threads -/

/-- A callback thread goes on in its session. -/
theorem callback_set (chunked : Chunked platform state) {thread : Nat} {callback after : Callback}
    (found : state.callbacks[thread]? = some callback) (session : after.session = callback.session)
    (owned : Owned platform { state with callbacks := state.callbacks.set thread after })
    (filled : Filled platform { state with callbacks := state.callbacks.set thread after }) :
    Chunked platform { state with callbacks := state.callbacks.set thread after } := by
  have length : (state.callbacks.set thread after).length = state.callbacks.length :=
    List.length_set
  refine ⟨owned, filled, ?_, ?_, ?_, ?_, ?_⟩
  · rw [length]
    exact chunked.counted
  · rw [length]
    exact chunked.processing
  · rw [length]
    exact chunked.swapped
  · intro before freed other entry mine last
    rw [length] at last
    rcases getElem?_set_cases mine.1 with ⟨old, -⟩ | ⟨rfl, rfl⟩
    · exact chunked.latest before freed other entry ⟨old, mine.2⟩ last
    · exact chunked.latest before freed other callback ⟨found, session.symm.trans mine.2⟩ last
  · intro before chunk known
    obtain ⟨freed, entry, old, current⟩ := chunked.only before chunk known
    refine ⟨freed, ?_⟩
    by_cases same : thread = chunk
    · subst same
      obtain rfl := Option.some.inj (found.symm.trans old)
      refine ⟨after, ?_, session.trans current⟩
      exact List.getElem?_set_self (List.getElem?_eq_some_iff.mp found).1
    · exact ⟨entry, (List.getElem?_set_ne same).trans old, current⟩

theorem move {event : Event} (chunked : Chunked platform state)
    (moved : Move platform state event next) : Chunked platform next := by
  have owned := chunked.owned.move moved
  have filled := chunked.filled.move chunked.owned.acquiring moved
  cases moved with
  | start here => exact chunked.start here owned filled
  | stop here =>
    exact chunked.same owned filled rfl rfl (fun _ _ => rfl) rfl (here ▸ rfl)
  | control moved => exact chunked.control owned filled moved
  | main moved => exact chunked.main owned filled moved
  | callbackStart found => exact chunked.callback_set found rfl owned filled
  | callbackEnd found => exact chunked.callback_set found rfl owned filled
  | _ => exact chunked.same owned filled rfl rfl (fun _ _ => rfl) rfl rfl

end Chunked

/-! ### Every chunk is analysed once -/

/-- Every callback thread that has started passed on its own chunk. -/
def PassOwnChunks (state : Microphone) : Prop :=
  ∀ (thread : Nat) (callback : Callback) (passed : Passed),
    state.callbacks[thread]? = some callback → callback.passed = some passed →
      passed.chunk = some thread ∧ state.chunks[thread]? = some passed.samples

/-- In addition at most the latest chunk still waits for its thread to be created. -/
def EachChunkOnce (state : Microphone) : Prop :=
  PassOwnChunks state ∧ state.callbacks.length ≤ state.chunks.length ∧
    state.chunks.length ≤ state.callbacks.length + 1

/-- A callback thread takes its first step in the session that created it, while the next chunk is
not swapped in and the ready buffer is not freed. -/
def StartsInTime (state : Microphone) (event : Event) : Prop :=
  ∀ (thread : Nat) (callback : Callback), event = .callbackStart thread →
    state.callbacks[thread]? = some callback →
      callback.session = state.session ∧ state.main.swapped = false ∧ state.control.freed = false

theorem startsInTime_iff {state : Microphone} {event : Event} :
    StartsInTime state event ↔ ∀ entry ∈ state.callbacks.zipIdx, event = .callbackStart entry.2 →
      entry.1.session = state.session ∧ state.main.swapped = false ∧
        state.control.freed = false := by
  constructor
  · rintro inTime ⟨callback, thread⟩ member same
    exact inTime thread callback same (List.mem_zipIdx_iff_getElem?.mp member)
  · intro inTime thread callback same found
    exact inTime (callback, thread) (List.mem_zipIdx_iff_getElem?.mpr found) same

instance (state : Microphone) (event : Event) : Decidable (StartsInTime state event) :=
  decidable_of_iff _ startsInTime_iff.symm

/-- What the steps under that condition keep. -/
structure Delivered (platform : Platform) (state : Microphone) : Prop where
  chunked : Chunked platform state
  own : PassOwnChunks state

namespace Delivered

theorem boot (platform : Platform) : Delivered platform (.boot platform) where
  chunked := .boot platform
  own := nofun

theorem once (delivered : Delivered platform state) : EachChunkOnce state := by
  refine ⟨delivered.own, ?_⟩
  rw [delivered.chunked.counted]
  split <;> omega

/-- A step in which no thread starts and no chunk is forgotten. -/
theorem own_mono (delivered : Delivered platform state)
    (callbacks : ∀ (thread : Nat) (callback : Callback) (passed : Passed),
      next.callbacks[thread]? = some callback → callback.passed = some passed →
        ∃ before, state.callbacks[thread]? = some before ∧ before.passed = some passed)
    (chunks : ∀ (thread : Nat) (samples : List Word), state.chunks[thread]? = some samples →
      next.chunks[thread]? = some samples) : PassOwnChunks next := by
  intro thread callback passed found running
  obtain ⟨before, old, same⟩ := callbacks thread callback passed found running
  obtain ⟨chunk, samples⟩ := delivered.own thread before passed old same
  exact ⟨chunk, chunks thread _ samples⟩

/-- A thread that starts in time is the latest, and the ready buffer holds its chunk. -/
theorem ready (delivered : Delivered platform state) {thread : Nat} {callback : Callback}
    (found : state.callbacks[thread]? = some callback) (alive : callback.ended = false)
    (inTime : StartsInTime state (.callbackStart thread)) :
    state.chunkIn state.readyBuffer = some thread ∧
      state.chunks[thread]? = some (state.samples platform state.readyBuffer) := by
  have chunked := delivered.chunked
  obtain ⟨session, before, freed⟩ := inTime thread callback rfl found
  have last : thread + 1 = state.callbacks.length := by
    by_contra early
    have isOver := chunked.owned.past thread callback ⟨found, session⟩ early
    exact absurd (isOver.symm.trans alive) nofun
  have ready := chunked.latest before freed thread callback ⟨found, session⟩ last
  exact ⟨ready, chunked.filled.holds _ _ ready⟩

theorem move {event : Event} (delivered : Delivered platform state)
    (inTime : StartsInTime state event) (moved : Move platform state event next) :
    Delivered platform next := by
  have chunked := delivered.chunked.move moved
  have kept (callbacks : next.callbacks = state.callbacks) (chunks : next.chunks = state.chunks) :
      PassOwnChunks next :=
    delivered.own_mono (fun _ callback _ found running => ⟨callback, callbacks ▸ found, running⟩)
      fun _ _ old => chunks ▸ old
  refine ⟨chunked, ?_⟩
  cases moved with
  | control moved => cases moved <;> exact kept rfl rfl
  | callbackStart found _ alive =>
    intro other entry passed foundOther running
    rcases getElem?_set_cases foundOther with ⟨old, -⟩ | ⟨rfl, rfl⟩
    · exact delivered.own other entry passed old running
    · obtain rfl := Option.some.inj running
      exact delivered.ready found alive inTime
  | callbackEnd found running alive =>
    refine delivered.own_mono (fun other entry passed foundOther runningOther => ?_) fun _ _ => id
    rcases getElem?_set_cases foundOther with ⟨old, -⟩ | ⟨rfl, rfl⟩
    · exact ⟨entry, old, runningOther⟩
    · exact ⟨_, found, runningOther⟩
  | main moved =>
    cases moved with
    | complete =>
      refine delivered.own_mono (fun _ callback _ found running => ⟨callback, found, running⟩) ?_
      intro thread samples old
      exact (List.getElem?_append_left (List.getElem?_eq_some_iff.mp old).1).trans old
    | createCallback =>
      refine delivered.own_mono (fun thread callback passed found running => ?_) fun _ _ => id
      rcases getElem?_concat_cases found with old | ⟨-, rfl⟩
      · exact ⟨callback, old, running⟩
      · exact absurd running nofun
    | _ => exact kept rfl rfl
  | _ => exact kept rfl rfl

/-- A thread that starts too late passes on another chunk, or none. -/
theorem late {event : Event} (delivered : Delivered platform state)
    (broken : ¬ StartsInTime state event) (moved : Move platform state event next) :
    ¬ EachChunkOnce next := by
  simp only [StartsInTime, Classical.not_forall] at broken
  obtain ⟨thread, callback, rfl, found, late⟩ := broken
  rintro ⟨own, -⟩
  cases moved with
  | callbackStart foundAgain =>
    obtain rfl := Option.some.inj (found.symm.trans foundAgain)
    have inside := (List.getElem?_eq_some_iff.mp found).1
    have known : state.chunkIn state.readyBuffer = some thread :=
      (own thread _ _ (List.getElem?_set_self inside) rfl).1
    have chunked := delivered.chunked
    cases before : state.main.swapped with
    | true =>
      have other := (chunked.swapped before).symm.trans known
      exact absurd (Option.some.inj other) inside.ne'
    | false =>
      obtain ⟨freed, entry, old, session⟩ := chunked.only before thread known
      obtain rfl := Option.some.inj (found.symm.trans old)
      exact late ⟨session, before, freed⟩

end Delivered

/-- Every callback thread passes on its own chunk all along a run exactly when every callback thread
takes its first step in time. -/
theorem each_chunk_once_iff {events : List Event}
    (ran : Runs.run (Microphone.step platform) (.boot platform) events = some state) :
    Runs.Always (Microphone.step platform) EachChunkOnce (.boot platform) events ↔
      Runs.EachStep (Microphone.step platform) StartsInTime (.boot platform) events :=
  Runs.always_iff_eachStep (Delivered platform)
    (fun _ _ _ delivered inTime taken => delivered.move inTime (step_move taken))
    (fun _ delivered => delivered.once)
    (fun _ _ _ delivered broken taken => delivered.late broken (step_move taken))
    (.boot platform) ran

/-- The first callback thread takes its first step after the second chunk was swapped in. -/
def lateCallbackEvents : List Event :=
  startEvents ++ List.replicate 7 .main ++ fillEvents ++ List.replicate 15 .main ++
    [.callbackStart 0]

theorem late_callback_shown :
    ((Runs.run (Microphone.step singleSample) (.boot singleSample) lateCallbackEvents).map
        fun state => (state.chunks, state.callbacks)) =
      some ([[0xf0dc], [0x7008]],
        [{ session := 1
           passed := some { buffer := 0, samples := [0x7008], chunk := some 1 }
           ended := false }]) := by decide +kernel

/-- The callback thread of the first chunk passes on the second one. -/
theorem each_chunk_once_late :
    ∃ state, Runs.run (Microphone.step singleSample) (.boot singleSample) lateCallbackEvents =
        some state ∧
      state.chunks = [[0xf0dc], [0x7008]] ∧
      state.callbacks.map Callback.passed =
        [some { buffer := 0, samples := [0x7008], chunk := some 1 }] ∧
      ¬ EachChunkOnce state := by
  obtain ⟨state, ran, shown⟩ := Option.map_eq_some_iff.mp late_callback_shown
  obtain ⟨chunks, callbacks⟩ := Prod.mk.inj shown
  refine ⟨state, ran, chunks, by rw [callbacks]; rfl, fun once => ?_⟩
  have own := once.1 0 _ _ (by rw [callbacks]; rfl) rfl
  exact absurd own.1 (by decide)

/-- Two chunks, each of which is passed on before the next one is swapped in. -/
def timelyCallbackEvents : List Event :=
  startEvents ++ List.replicate 7 .main ++ fillEvents ++ List.replicate 8 .main ++
    [.callbackStart 0, .callbackEnd 0] ++ List.replicate 10 .main ++ [.callbackStart 1]

/-- A callback thread that is late breaks it; over two chunks with threads in time it holds. -/
theorem each_chunk_once_iff_late :
    (∃ state, Runs.run (Microphone.step singleSample) (.boot singleSample) lateCallbackEvents =
        some state ∧
      ¬ Runs.EachStep (Microphone.step singleSample) StartsInTime (.boot singleSample)
        lateCallbackEvents) ∧
      ∃ state, Runs.run (Microphone.step singleSample) (.boot singleSample) timelyCallbackEvents =
          some state ∧
        state.callbacks.map Callback.passed =
          [some { buffer := 1, samples := [0xf0dc], chunk := some 0 },
            some { buffer := 0, samples := [0x7008], chunk := some 1 }] ∧
        Runs.Always (Microphone.step singleSample) EachChunkOnce (.boot singleSample)
          timelyCallbackEvents := by
  have timely : ((Runs.run (Microphone.step singleSample) (.boot singleSample)
      timelyCallbackEvents).map fun state => state.callbacks.map Callback.passed) =
        some [some { buffer := 1, samples := [0xf0dc], chunk := some 0 },
          some { buffer := 0, samples := [0x7008], chunk := some 1 }] := by decide +kernel
  have inTime : Runs.EachStep (Microphone.step singleSample) StartsInTime (.boot singleSample)
      timelyCallbackEvents := by decide +kernel
  constructor
  · obtain ⟨state, ran, shown⟩ := Option.map_eq_some_iff.mp late_callback_shown
    obtain ⟨-, callbacks⟩ := Prod.mk.inj shown
    refine ⟨state, ran, fun each => ?_⟩
    have once := ((each_chunk_once_iff ran).mpr each).final ran
    have own := once.1 0 _ _ (by rw [callbacks]; rfl) rfl
    exact absurd own.1 (by decide)
  · obtain ⟨state, ran, passed⟩ := Option.map_eq_some_iff.mp timely
    exact ⟨state, ran, passed, (each_chunk_once_iff ran).mpr inTime⟩

end WhistleDrivenRobot
