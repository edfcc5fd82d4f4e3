/-
This file follows the two sample buffers of a session through every order of
swap, read, join and create. A callback thread that has read `readyBuffer` holds
the buffer that `mainLoop` does not write: the swap takes it away only between
the last write of one chunk and the join, and after the join nobody holds it.
All callback threads of a session have ended but the latest, so at most one is
live when a new one is created.
-/

import WhistleDrivenRobot.DoubleBuffering

namespace WhistleDrivenRobot

variable {platform : Platform} {state next : Microphone}

/-! ### The assertions -/

namespace Microphone

/-- The callback thread was created in the current session. -/
def Mine (state : Microphone) (thread : Nat) (callback : Callback) : Prop :=
  state.callbacks[thread]? = some callback ∧ callback.session = state.session

/-- The current session has created no callback thread. -/
def Fresh (state : Microphone) : Prop := ∀ thread callback, ¬ state.Mine thread callback

/-- All callback threads of the current session have ended. -/
def Joined (state : Microphone) : Prop :=
  ∀ thread callback, state.Mine thread callback → callback.ended = true

/-- The thread `cback` is the latest, unless there is none yet. -/
def Turn (state : Microphone) : Prop :=
  (state.first = true → state.Fresh) ∧
    (state.first = false → state.cback + 1 = state.callbacks.length)

def Apart (state : Microphone) : Prop := state.readyBuffer ≠ state.processingBuffer

end Microphone

/-- What holds of the callback threads and the two buffers at each statement of `mainLoop`. -/
def MainPc.Owns (state : Microphone) : MainPc → Prop
  | .ended => True
  | .newQueue => state.Fresh ∧ state.Apart
  | .enableIrq => state.first = true ∧ state.Fresh ∧ state.Apart
  | .swapReady tmp => state.Turn ∧ state.Apart ∧ tmp = state.readyBuffer
  | .swapProcessing tmp => state.Turn ∧ tmp ≠ state.readyBuffer
  | .join => state.first = false ∧ state.cback + 1 = state.callbacks.length ∧ state.Apart
  | .create => state.first = false ∧ state.Joined ∧ state.Apart
  | _ => state.Turn ∧ state.Apart

def ControlPc.Owns (state : Microphone) : ControlPc → Prop
  | .startMallocReady => state.Fresh
  | .startMallocProcessing => state.Fresh ∧ state.readyBuffer < state.allocated
  | .startSpi | .startCreate => state.Fresh ∧ state.Apart
  | _ => True

/-- The buffers that a live callback thread of the session may have read: the ready one and, while
it is swapped away before the join, the one that was ready before. -/
def MainPc.MayRead (state : Microphone) (buffer : Nat) : MainPc → Prop
  | .swapProcessing tmp => buffer = tmp ∨ buffer = state.readyBuffer
  | .join => buffer = state.processingBuffer ∨ buffer = state.readyBuffer
  | _ => buffer = state.readyBuffer

/-- The invariant of the callback side. -/
structure Owned (platform : Platform) (state : Microphone) : Prop where
  acquiring : Acquiring state
  session_le : ∀ (thread : Nat) (callback : Callback),
    state.callbacks[thread]? = some callback → callback.session ≤ state.session
  past : ∀ thread callback, state.Mine thread callback → thread + 1 ≠ state.callbacks.length →
    callback.ended = true
  owns : state.main.Owns state
  phased : state.control.Owns state
  reads : ∀ thread callback passed, state.Mine thread callback → callback.ended = false →
    callback.passed = some passed → state.main.MayRead state passed.buffer ∧
      state.samples platform passed.buffer = passed.samples

theorem Owned.boot (platform : Platform) : Owned platform (.boot platform) where
  acquiring := .boot platform
  session_le := nofun
  past := nofun
  owns := trivial
  phased := trivial
  reads := nofun

/-! ### Entries of the list of threads -/

section Entries

variable {Entry : Type} {entries : List Entry} {index : Nat} {entry : Entry}

theorem getElem?_concat_cases {last : Entry} (found : (entries ++ [last])[index]? = some entry) :
    entries[index]? = some entry ∨ index = entries.length ∧ entry = last := by
  rcases Nat.lt_trichotomy index entries.length with inside | rfl | outside
  · rw [List.getElem?_append_left inside] at found
    exact Or.inl found
  · rw [List.getElem?_concat_length] at found
    exact Or.inr ⟨rfl, (Option.some.inj found).symm⟩
  · rw [List.getElem?_eq_none] at found
    · exact absurd found nofun
    · rw [List.length_append, List.length_singleton]
      exact outside

theorem getElem?_set_cases {position : Nat} {value : Entry}
    (found : (entries.set position value)[index]? = some entry) :
    entries[index]? = some entry ∧ index ≠ position ∨ index = position ∧ entry = value := by
  rw [List.getElem?_set] at found
  by_cases same : position = index
  · rw [if_pos same] at found
    split at found
    · exact Or.inr ⟨same.symm, (Option.some.inj found).symm⟩
    · exact absurd found nofun
  · rw [if_neg same] at found
    exact Or.inl ⟨found, Ne.symm same⟩

end Entries

namespace Owned

theorem owns_at (owned : Owned platform state) {main : MainPc} (here : state.main = main) :
    main.Owns state := here ▸ owned.owns

theorem phased_at (owned : Owned platform state) {control : ControlPc}
    (here : state.control = control) : control.Owns state := here ▸ owned.phased

/-- While `mainLoop` runs the controlling thread asserts nothing about the callback side. -/
theorem phased_of_active (acquiring : Acquiring state) (active : state.main ≠ .ended)
    (control : next.control = state.control) : next.control.Owns next := by
  rw [control]
  rcases acquiring.active active with here | here
  · rw [here]
    exact trivial
  · rw [here]
    exact trivial

/-- A step that leaves the callback threads alone, and the samples that live ones may have read. -/
theorem same (owned : Owned platform state) (acquiring : Acquiring next)
    (same : (next.callbacks, next.session) = (state.callbacks, state.session))
    (owns : next.main.Owns next) (phased : next.control.Owns next)
    (reads : ∀ thread callback, state.Mine thread callback → callback.ended = false →
      ∀ buffer, state.main.MayRead state buffer →
        next.main.MayRead next buffer ∧ next.pcm buffer = state.pcm buffer) :
    Owned platform next := by
  simp only [Prod.mk.injEq] at same
  obtain ⟨callbacks, session⟩ := same
  have mineOf {thread : Nat} {callback : Callback} (mine : next.Mine thread callback) :
      state.Mine thread callback := by
    rwa [Microphone.Mine, callbacks, session] at mine
  refine ⟨acquiring, ?_, fun thread callback mine => ?_, owns, phased, ?_⟩
  · rw [callbacks, session]
    exact owned.session_le
  · rw [callbacks]
    exact owned.past thread callback (mineOf mine)
  · intro thread callback passed mine alive running
    obtain ⟨may, samples⟩ := owned.reads thread callback passed (mineOf mine) alive running
    obtain ⟨mayNext, pcm⟩ := reads thread callback (mineOf mine) alive _ may
    refine ⟨mayNext, ?_⟩
    rw [← samples, Microphone.samples, pcm, Microphone.samples]

/-! ### The acquisition thread -/

/-- A statement that writes no sample. -/
theorem main_at (owned : Owned platform state) (acquiring : Acquiring next) {main : MainPc}
    (here : state.main = main) (active : main ≠ .ended)
    (same : (next.callbacks, next.session, next.control, next.pcm) =
      (state.callbacks, state.session, state.control, state.pcm))
    (owns : main.Owns state → next.main.Owns next)
    (reads : ∀ buffer, main.MayRead state buffer → next.main.MayRead next buffer) :
    Owned platform next := by
  simp only [Prod.mk.injEq] at same
  obtain ⟨callbacks, session, control, pcm⟩ := same
  refine owned.same acquiring (by rw [callbacks, session]) (owns (owned.owns_at here))
    (phased_of_active owned.acquiring (here ▸ active) control) fun _ _ _ _ buffer may => ?_
  exact ⟨reads buffer (here ▸ may), congrFun pcm buffer⟩

/-- `processPDM` writes the buffer that no live callback thread has read. -/
theorem transcode (owned : Owned platform state) {buffer i : Nat} {length : Int}
    (here : state.main = .processPDM buffer i length)
    (acquiring : Acquiring (state.transcode buffer i length)) :
    Owned platform (state.transcode buffer i length) := by
  obtain ⟨turn, apart⟩ := owned.owns_at here
  refine owned.same acquiring rfl ⟨turn, apart⟩
    (phased_of_active owned.acquiring (here ▸ nofun) rfl) fun _ _ _ _ read may => ?_
  rw [here] at may
  exact ⟨may, Function.update_of_ne (fun same => apart (may.symm.trans same)) _ _⟩

theorem join (owned : Owned platform state) {callback : Callback} (here : state.main = .join)
    (found : state.callbacks[state.cback]? = some callback) (ended : callback.ended = true)
    (acquiring : Acquiring (state.goto .create)) : Owned platform (state.goto .create) := by
  obtain ⟨completed, latest, apart⟩ := owned.owns_at here
  have joined : state.Joined := by
    intro thread other mine
    by_cases last : thread + 1 = state.callbacks.length
    · have same : thread = state.cback := Nat.succ_injective (last.trans latest.symm)
      rw [Microphone.Mine, same, found] at mine
      exact Option.some.inj mine.1 ▸ ended
    · exact owned.past thread other mine last
  refine owned.same acquiring rfl ⟨completed, joined, apart⟩
    (phased_of_active owned.acquiring (here ▸ nofun) rfl) fun thread other mine alive => ?_
  exact absurd ((joined thread other mine).symm.trans alive) nofun

theorem swapProcessing (owned : Owned platform state) {tmp : Nat}
    (here : state.main = .swapProcessing tmp) (acquiring : Acquiring (state.swapProcessing tmp)) :
    Owned platform (state.swapProcessing tmp) := by
  obtain ⟨⟨fresh, latest⟩, apart⟩ := owned.owns_at here
  cases first : state.first with
  | true =>
    have create : (state.swapProcessing tmp).main = .create := if_pos first
    have none (thread : Nat) (callback : Callback) (mine : state.Mine thread callback) : False :=
      fresh first thread callback mine
    refine owned.same acquiring rfl ?_ (phased_of_active owned.acquiring (here ▸ nofun) rfl) ?_
    · rw [create]
      exact ⟨rfl, fun thread callback mine => (none thread callback mine).elim, apart.symm⟩
    · exact fun thread callback mine => (none thread callback mine).elim
  | false =>
    have join : (state.swapProcessing tmp).main = .join := if_neg (first ▸ Bool.false_ne_true)
    refine owned.main_at acquiring here nofun rfl (fun _ => ?_) fun buffer may => ?_
    · rw [join]
      exact ⟨rfl, latest first, apart.symm⟩
    · rw [join]
      exact may

theorem createCallback (owned : Owned platform state) (here : state.main = .create)
    (acquiring : Acquiring state.createCallback) : Owned platform state.createCallback := by
  obtain ⟨completed, joined, apart⟩ := owned.owns_at here
  have length : state.createCallback.callbacks.length = state.callbacks.length + 1 :=
    List.length_append
  refine ⟨acquiring, ?_, ?_, ⟨⟨?_, ?_⟩, apart⟩, ?_, ?_⟩
  · intro thread callback found
    rcases getElem?_concat_cases found with old | ⟨-, rfl⟩
    · exact owned.session_le thread callback old
    · exact le_rfl
  · intro thread callback mine short
    rcases getElem?_concat_cases mine.1 with old | ⟨rfl, -⟩
    · exact joined thread callback ⟨old, mine.2⟩
    · exact absurd length.symm short
  · exact fun first => absurd (first.symm.trans completed) nofun
  · exact fun _ => length.symm
  · exact phased_of_active owned.acquiring (here ▸ nofun) rfl
  · intro thread callback passed mine alive running
    rcases getElem?_concat_cases mine.1 with old | ⟨-, rfl⟩
    · exact absurd ((joined thread callback ⟨old, mine.2⟩).symm.trans alive) nofun
    · exact absurd running nofun

theorem main (owned : Owned platform state) (acquiring : Acquiring next)
    (moved : MainMove platform state next) : Owned platform next := by
  cases moved with
  | transcode here => exact owned.transcode here acquiring
  | swapProcessing here => exact owned.swapProcessing here acquiring
  | join here found ended => exact owned.join here found ended acquiring
  | createCallback here => exact owned.createCallback here acquiring
  | newQueue here =>
    exact owned.main_at acquiring here nofun rfl (fun owns => ⟨rfl, owns⟩) fun _ => id
  | enableIrq here =>
    refine owned.main_at acquiring here nofun rfl (fun owns => ?_) fun _ => id
    obtain ⟨first, fresh, apart⟩ := owns
    exact ⟨⟨fun _ => fresh, fun completed => absurd (first.symm.trans completed) nofun⟩, apart⟩
  | leave here =>
    exact owned.main_at acquiring here nofun rfl (fun _ => trivial) fun _ => id
  | swapTmp here =>
    exact owned.main_at acquiring here nofun rfl
      (fun owns => ⟨owns.1, owns.2, rfl⟩) fun _ => id
  | swapReady here =>
    obtain ⟨turn, apart, tmp⟩ := owned.owns_at here
    exact owned.main_at acquiring here nofun rfl
      (fun _ => ⟨turn, fun same => apart (tmp.symm.trans same)⟩)
      fun _ may => Or.inl (may.trans tmp.symm)
  | _ =>
    have here := ‹state.main = _›
    exact owned.main_at acquiring here nofun rfl id fun _ => id

/-! ### The controlling thread -/

/-- A statement of another thread that writes no sample. -/
theorem control_same (owned : Owned platform state) (acquiring : Acquiring next)
    (same : (next.callbacks, next.session, next.pcm) =
      (state.callbacks, state.session, state.pcm))
    (owns : next.main.Owns next) (phased : next.control.Owns next)
    (reads : ∀ thread callback, state.Mine thread callback → ∀ buffer,
      state.main.MayRead state buffer → next.main.MayRead next buffer) :
    Owned platform next := by
  simp only [Prod.mk.injEq] at same
  obtain ⟨callbacks, session, pcm⟩ := same
  refine owned.same acquiring (by rw [callbacks, session]) owns phased ?_
  exact fun thread callback mine _ buffer may =>
    ⟨reads thread callback mine buffer may, congrFun pcm buffer⟩

theorem control (owned : Owned platform state) (acquiring : Acquiring next)
    (moved : ControlMove state next) : Owned platform next := by
  have ended {control : ControlPc} (here : state.control = control) (idle : control ≠ .started)
      (other : control ≠ .stopJoin) : state.main = .ended :=
    owned.acquiring.ended_of (here ▸ idle) (here ▸ other)
  cases moved with
  | mallocReady here =>
    have fresh : state.Fresh := owned.phased_at here
    refine owned.control_same acquiring rfl ?_ ⟨fresh, Nat.lt_succ_self _⟩ ?_
    · exact (ended here nofun nofun).symm ▸ trivial
    · exact fun thread callback mine => absurd mine (fresh thread callback)
  | mallocProcessing here =>
    obtain ⟨fresh, below⟩ := owned.phased_at here
    refine owned.control_same acquiring rfl ?_ ⟨fresh, below.ne⟩ ?_
    · exact (ended here nofun nofun).symm ▸ trivial
    · exact fun thread callback mine => absurd mine (fresh thread callback)
  | spiOn here =>
    have phased := owned.phased_at here
    exact owned.control_same acquiring rfl owned.owns phased fun _ _ _ _ => id
  | createMain here =>
    obtain ⟨fresh, apart⟩ := owned.phased_at here
    refine owned.control_same acquiring rfl ⟨fresh, apart⟩ trivial ?_
    exact fun thread callback mine => absurd mine (fresh thread callback)
  | _ => exact owned.control_same acquiring rfl owned.owns trivial fun _ _ _ _ => id

theorem start (owned : Owned platform state) (here : state.control = .idle)
    (acquiring : Acquiring state.startCall) : Owned platform state.startCall := by
  have fresh : state.startCall.Fresh := by
    rintro thread callback ⟨found, session⟩
    have bound := owned.session_le thread callback found
    exact absurd (session ▸ bound) (Nat.not_succ_le_self _)
  have ended : state.main = .ended := owned.acquiring.ended_of (here ▸ nofun) (here ▸ nofun)
  refine ⟨acquiring, ?_, ?_, ?_, fresh, ?_⟩
  · intro thread callback found
    exact (owned.session_le thread callback found).trans (Nat.le_succ _)
  · exact fun thread callback mine => absurd mine (fresh thread callback)
  · exact ended.symm ▸ trivial
  · exact fun thread callback passed mine => absurd mine (fresh thread callback)

/-! ### The callback threads -/

/-- The assertions of `mainLoop` speak about the number of threads and about which have ended. -/
theorem owns_callbacks {main : MainPc} {callbacks : List Callback} (owns : main.Owns state)
    (length : callbacks.length = state.callbacks.length)
    (fresh : state.Fresh → Microphone.Fresh { state with callbacks := callbacks })
    (joined : state.Joined → Microphone.Joined { state with callbacks := callbacks }) :
    main.Owns { state with callbacks := callbacks } := by
  have turn (before : state.Turn) : Microphone.Turn { state with callbacks := callbacks } :=
    ⟨fun first => fresh (before.1 first), fun first => (before.2 first).trans length.symm⟩
  cases main with
  | ended => exact trivial
  | newQueue => exact ⟨fresh owns.1, owns.2⟩
  | enableIrq => exact ⟨owns.1, fresh owns.2.1, owns.2.2⟩
  | swapReady tmp => exact ⟨turn owns.1, owns.2⟩
  | swapProcessing tmp => exact ⟨turn owns.1, owns.2⟩
  | join => exact ⟨owns.1, owns.2.1.trans length.symm, owns.2.2⟩
  | create => exact ⟨owns.1, joined owns.2.1, owns.2.2⟩
  | _ => exact ⟨turn owns.1, owns.2⟩

theorem phased_callbacks {control : ControlPc} {callbacks : List Callback}
    (phased : control.Owns state)
    (fresh : state.Fresh → Microphone.Fresh { state with callbacks := callbacks }) :
    control.Owns { state with callbacks := callbacks } := by
  cases control with
  | startMallocReady => exact fresh phased
  | startMallocProcessing => exact ⟨fresh phased.1, phased.2⟩
  | startSpi => exact ⟨fresh phased.1, phased.2⟩
  | startCreate => exact ⟨fresh phased.1, phased.2⟩
  | _ => exact trivial

theorem mayRead_readyBuffer (main : MainPc) : main.MayRead state state.readyBuffer := by
  cases main with
  | swapProcessing => exact Or.inr rfl
  | join => exact Or.inr rfl
  | _ => rfl

/-- A callback thread goes on: it stays in its session, and when it had ended it still has. -/
theorem callback_set (owned : Owned platform state) {thread : Nat} {callback after : Callback}
    (found : state.callbacks[thread]? = some callback) (session : after.session = callback.session)
    (ended : callback.ended = true → after.ended = true)
    (reads : ∀ passed, callback.session = state.session → after.ended = false →
      after.passed = some passed → state.main.MayRead state passed.buffer ∧
        state.samples platform passed.buffer = passed.samples) :
    Owned platform { state with callbacks := state.callbacks.set thread after } := by
  have length : (state.callbacks.set thread after).length = state.callbacks.length :=
    List.length_set
  have cases {other : Nat} {entry : Callback}
      (mine : Microphone.Mine { state with callbacks := state.callbacks.set thread after } other
        entry) :
      state.Mine other entry ∨ other = thread ∧ entry = after ∧ state.Mine thread callback := by
    rcases getElem?_set_cases mine.1 with ⟨old, -⟩ | ⟨rfl, rfl⟩
    · exact Or.inl ⟨old, mine.2⟩
    · exact Or.inr ⟨rfl, rfl, found, session.symm.trans mine.2⟩
  have fresh (before : state.Fresh) :
      Microphone.Fresh { state with callbacks := state.callbacks.set thread after } := by
    intro other entry mine
    rcases cases mine with old | ⟨-, -, old⟩
    · exact before other entry old
    · exact before thread callback old
  have acquiring := owned.acquiring
  refine ⟨acquiring.control_same rfl acquiring.active acquiring.phased, ?_, ?_, ?_,
    phased_callbacks owned.phased fresh, ?_⟩
  · intro other entry foundOther
    rcases getElem?_set_cases foundOther with ⟨old, -⟩ | ⟨-, rfl⟩
    · exact owned.session_le other entry old
    · exact session ▸ owned.session_le thread callback found
  · intro other entry mine short
    have early : other + 1 ≠ state.callbacks.length := fun last => short (last.trans length.symm)
    rcases cases mine with old | ⟨rfl, rfl, before⟩
    · exact owned.past other entry old early
    · exact ended (owned.past other callback before early)
  · refine owns_callbacks owned.owns length fresh fun joined other entry mine => ?_
    rcases cases mine with old | ⟨-, rfl, before⟩
    · exact joined other entry old
    · exact ended (joined thread callback before)
  · intro other entry passed mine alive running
    rcases cases mine with old | ⟨-, rfl, before⟩
    · exact owned.reads other entry passed old alive running
    · exact reads passed before.2 alive running

theorem move {event : Event} (owned : Owned platform state)
    (moved : Move platform state event next) : Owned platform next := by
  have acquiring := owned.acquiring.move moved
  cases moved with
  | start here => exact owned.start here acquiring
  | stop here =>
    exact owned.control_same acquiring rfl owned.owns trivial fun _ _ _ _ => id
  | control moved => exact owned.control acquiring moved
  | main moved => exact owned.main acquiring moved
  | dma => exact owned.control_same acquiring rfl owned.owns owned.phased fun _ _ _ _ => id
  | interrupt =>
    exact owned.control_same acquiring rfl owned.owns owned.phased fun _ _ _ _ => id
  | reboot =>
    exact owned.control_same acquiring rfl owned.owns owned.phased fun _ _ _ _ => id
  | callbackStart found created alive =>
    refine owned.callback_set found rfl id fun passed session _ running => ?_
    obtain rfl := Option.some.inj running
    exact ⟨mayRead_readyBuffer state.main, rfl⟩
  | callbackEnd found running alive =>
    exact owned.callback_set found rfl (fun _ => rfl) fun _ _ stillAlive => absurd stillAlive nofun

theorem reachable (reachable : Runs.Reachable (Microphone.step platform) (.boot platform) state) :
    Owned platform state :=
  reachable.invariant (boot platform) fun _ _ _ owned taken => owned.move (step_move taken)

end Owned

/-! ### The samples under a live callback -/

/-- Samples are written by `processPDM` only, and only into `processingBuffer`. -/
theorem pcm_move {event : Event} (moved : Move platform state event next) {buffer : Nat}
    (other : ∀ taken i length, state.main = .processPDM taken i length →
      buffer ≠ state.processingBuffer) : next.pcm buffer = state.pcm buffer := by
  cases moved with
  | main moved =>
    cases moved with
    | transcode here => exact Function.update_of_ne (other _ _ _ here) _ _
    | _ => rfl
  | control moved => cases moved <;> rfl
  | _ => rfl

/-- From the moment a callback thread of the session has read `readyBuffer` until it ends the buffer
holds the samples that it found there and is not the one that `processPDM` writes; when a callback
thread is created all earlier ones of the session have ended. -/
theorem callback_samples_kept
    (reachable : Runs.Reachable (Microphone.step platform) (.boot platform) state) :
    (∀ callback ∈ state.callbacks, callback.session = state.session → callback.ended = false →
      ∀ passed, callback.passed = some passed →
        state.samples platform passed.buffer = passed.samples ∧
          (∀ taken i length, state.main = .processPDM taken i length →
            passed.buffer ≠ state.processingBuffer) ∧
          ∀ event next, state.step platform event = some next →
            next.pcm passed.buffer = state.pcm passed.buffer) ∧
      (state.main = .create → ∀ callback ∈ state.callbacks, callback.session = state.session →
        callback.ended = true) := by
  have owned := Owned.reachable reachable
  constructor
  · intro callback member session alive passed running
    obtain ⟨thread, found⟩ := List.mem_iff_getElem?.mp member
    obtain ⟨may, samples⟩ := owned.reads thread callback passed ⟨found, session⟩ alive running
    have apart : ∀ taken i length, state.main = .processPDM taken i length →
        passed.buffer ≠ state.processingBuffer := by
      intro taken i length here same
      rw [here] at may
      exact (owned.owns_at here).2 (may.symm.trans same)
    exact ⟨samples, apart, fun event next took => pcm_move (step_move took) apart⟩
  · intro here callback member session
    obtain ⟨thread, found⟩ := List.mem_iff_getElem?.mp member
    exact (owned.owns_at here).2.1 thread callback ⟨found, session⟩

/-- A chunk of one sample, and its callback thread at work while the next one is filtered. -/
def workingCallbackEvents : List Event :=
  startEvents ++ List.replicate 7 .main ++ fillEvents ++ List.replicate 8 .main ++
    [.callbackStart 0] ++ List.replicate 3 .main

def workingPassed : Passed where
  buffer := 1
  samples := [0xf0dc]
  chunk := some 0

theorem callback_samples_kept_working :
    ∃ state, Runs.run (Microphone.step singleSample) (.boot singleSample) workingCallbackEvents =
        some state ∧
      state.main = .processPDM 0 0 1 ∧
      state.callbacks = [{ session := state.session, passed := workingPassed, ended := false }] ∧
      state.samples singleSample workingPassed.buffer = workingPassed.samples ∧
      workingPassed.buffer ≠ state.processingBuffer := by
  have working : ((Runs.run (Microphone.step singleSample) (.boot singleSample)
      workingCallbackEvents).map fun state => (state.main, state.session, state.callbacks)) =
        some (.processPDM 0 0 1, 1,
          [{ session := 1, passed := workingPassed, ended := false }]) := by decide +kernel
  obtain ⟨state, ran, shown⟩ := Option.map_eq_some_iff.mp working
  obtain ⟨here, session, callbacks⟩ := by simpa only [Prod.mk.injEq] using shown
  have kept := (callback_samples_kept ⟨_, ran⟩).1
    { session := 1, passed := workingPassed, ended := false } (callbacks ▸ List.mem_cons_self)
    session.symm rfl workingPassed rfl
  exact ⟨state, ran, here, session ▸ callbacks, kept.1, kept.2.1 0 0 1 here⟩

end WhistleDrivenRobot
