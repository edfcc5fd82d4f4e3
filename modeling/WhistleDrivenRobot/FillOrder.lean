/-
This file follows the buffers of one session through the queue by the numbers of
their fills. The filled buffers carry consecutive numbers, oldest first, and the
oldest is the one that is handed to `processPDM`. A buffer is released after it
was consumed, except for the last one of a chunk: `mainLoop` leaves its inner
loop past `bufferEmptied`, so that the next chunk begins with the buffer that
ended this one. The buffers handed over are therefore in strictly increasing
order exactly as long as only the first chunk of a session is handed any.
-/

import WhistleDrivenRobot.DoubleBuffering

namespace WhistleDrivenRobot

variable {platform : Platform} {state next : Microphone}

/-! ### The numbers of the filled buffers -/

/-- The filled buffers carry consecutive fill numbers, up to the latest. -/
structure Driver.Numbered (driver : Driver) : Prop where
  contents : Ring.contents driver.fillNumber bufNum driver.bq.get driver.bq.cnt =
    List.range' (driver.fills - driver.bq.cnt) driver.bq.cnt
  cnt_le : driver.bq.cnt ≤ driver.fills

theorem Driver.Numbered.congr {driver after : Driver} (numbered : driver.Numbered)
    (fillNumber : after.fillNumber = driver.fillNumber) (fills : after.fills = driver.fills)
    (get : after.bq.get = driver.bq.get) (cnt : after.bq.cnt = driver.bq.cnt) :
    after.Numbered where
  contents := by
    rw [fillNumber, fills, get, cnt]
    exact numbered.contents
  cnt_le := by
    rw [fills, cnt]
    exact numbered.cnt_le

theorem Driver.Numbered.filled {driver : Driver} (numbered : driver.Numbered)
    (sound : driver.Sound) (room : driver.bq.cnt < bufNum) : driver.filled.Numbered where
  contents := by
    show Ring.contents (Function.update driver.fillNumber driver.bq.put driver.fills) bufNum
        driver.bq.get (driver.bq.cnt + 1) =
      List.range' (driver.fills + 1 - (driver.bq.cnt + 1)) (driver.bq.cnt + 1)
    have latest : driver.fills - driver.bq.cnt + driver.bq.cnt = driver.fills :=
      Nat.sub_add_cancel numbered.cnt_le
    rw [sound.wellFormed.put_eq, Ring.contents_fill _ room, numbered.contents,
      Nat.add_sub_add_right, List.range'_1_concat, latest]
  cnt_le := Nat.succ_le_succ numbered.cnt_le

/-- The oldest filled buffer carries the lowest number. -/
theorem Driver.Numbered.oldest {driver : Driver} (numbered : driver.Numbered)
    (sound : driver.Sound) (some : 0 < driver.bq.cnt) :
    driver.fillNumber driver.bq.get = driver.fills - driver.bq.cnt := by
  have contents := numbered.contents
  obtain ⟨rest, more⟩ := Nat.exists_eq_succ_of_ne_zero some.ne'
  rw [more, Nat.succ_eq_add_one, Ring.contents_empty, List.range'_succ,
    Nat.mod_eq_of_lt sound.wellFormed.get_lt] at contents
  rw [more]
  exact (List.cons.inj contents).1

theorem Driver.Numbered.bufferEmptied {driver : Driver} (numbered : driver.Numbered)
    (sound : driver.Sound) (some : 0 < driver.bq.cnt) : driver.bufferEmptied.Numbered := by
  have contents := numbered.contents
  have bound := numbered.cnt_le
  obtain ⟨rest, more⟩ := Nat.exists_eq_succ_of_ne_zero some.ne'
  rw [more, Nat.succ_eq_add_one, Ring.contents_empty, List.range'_succ] at contents
  have left : driver.fills - rest = driver.fills - (rest + 1) + 1 := by omega
  have emptied : driver.bq.bufferEmptied =
      { driver.bq with cnt := rest, get := (driver.bq.get + 1) % bufNum } := by
    rw [sound.wellFormed.bufferEmptied_eq (by decide) some, more, Nat.succ_sub_one]
  refine ⟨?_, ?_⟩
  · show Ring.contents driver.fillNumber bufNum driver.bq.bufferEmptied.get
        driver.bq.bufferEmptied.cnt =
      List.range' (driver.fills - driver.bq.bufferEmptied.cnt) driver.bq.bufferEmptied.cnt
    rw [emptied]
    show Ring.contents driver.fillNumber bufNum ((driver.bq.get + 1) % bufNum) rest =
      List.range' (driver.fills - rest) rest
    rw [Ring.contents, Ring.window_mod, left]
    exact (List.cons.inj contents).2
  · show driver.bq.bufferEmptied.cnt ≤ driver.fills
    rw [emptied]
    exact (Nat.le_of_succ_le (more ▸ bound) : rest ≤ driver.fills)

theorem numbered_move {event : Event} (acquiring : Acquiring state)
    (numbered : state.driver.Numbered) (moved : Move platform state event next) :
    next.driver.Numbered := by
  cases moved with
  | start => exact numbered
  | stop => exact numbered
  | control moved => cases moved <;> exact numbered.congr rfl rfl rfl rfl
  | dma arrived =>
    obtain ⟨transfer, -, -, -, same⟩ := Driver.receive_eq arrived
    rw [same]
    exact numbered.congr rfl rfl rfl rfl
  | interrupt pending handled =>
    obtain ⟨-, -, -, room⟩ := acquiring.sound.I2SdmaHandlerImpl pending
    obtain rfl := Option.some.inj ((acquiring.interrupt pending).1.symm.trans handled)
    have filled := numbered.filled acquiring.sound room
    rw [Driver.IRQdmaRefill_eq]
    exact filled.congr rfl rfl rfl rfl
  | reboot => exact numbered
  | callbackStart => exact numbered
  | callbackEnd => exact numbered
  | main moved =>
    cases moved with
    | newQueue => exact ⟨rfl, le_rfl⟩
    | dmaRefill =>
      show state.driver.IRQdmaRefill.Numbered
      rw [Driver.IRQdmaRefill_eq]
      exact numbered.congr rfl rfl rfl rfl
    | bufferEmptied here =>
      exact numbered.bufferEmptied acquiring.sound (acquiring.asserted_at here).2
    | _ => exact numbered.congr rfl rfl rfl rfl

/-! ### The buffers handed over -/

/-- The thread was handed a buffer that it may still release. -/
def MainPc.holding : MainPc → Bool
  | .processPDM _ _ _ | .bufferEmptied | .swapTmp | .swapReady _ | .swapProcessing _ => true
  | _ => false

/-- The oldest filled buffer was handed over already: it is in use, or a completed chunk ended with
it. -/
def Microphone.kept (state : Microphone) : Bool := state.main.holding || !state.first

/-- A buffer is handed over only while no chunk of the session was completed. -/
def HandsFirstChunkOnly (state : Microphone) (event : Event) : Prop :=
  event = .main → state.main = .getReadable → 0 < state.driver.bq.cnt → state.first = true

instance (state : Microphone) (event : Event) : Decidable (HandsFirstChunkOnly state event) :=
  inferInstanceAs (Decidable (_ → _ → _ → _))

/-- What the steps under that condition keep: the buffers handed over are all that were released
and, when it is kept, the oldest filled one. -/
structure Ordered (state : Microphone) : Prop where
  acquiring : Acquiring state
  numbered : state.driver.Numbered
  handed : state.handed =
    List.range (state.driver.fills - state.driver.bq.cnt + if state.kept then 1 else 0)
  stays : state.first = false → 0 < state.driver.bq.cnt ∧ state.main.holding = false

theorem Ordered.boot (platform : Platform) : Ordered (.boot platform) where
  acquiring := .boot platform
  numbered := ⟨rfl, le_rfl⟩
  handed := rfl
  stays := nofun

/-- A step that hands nothing over, releases nothing and completes nothing. -/
theorem Ordered.same (ordered : Ordered state) (acquiring : Acquiring next)
    (numbered : next.driver.Numbered) (handed : next.handed = state.handed)
    (released : next.driver.fills - next.driver.bq.cnt =
      state.driver.fills - state.driver.bq.cnt)
    (first : next.first = state.first) (holding : next.main.holding = state.main.holding)
    (grown : state.driver.bq.cnt ≤ next.driver.bq.cnt) : Ordered next := by
  refine ⟨acquiring, numbered, ?_, fun completed => ?_⟩
  · rw [handed, released, Microphone.kept, first, holding]
    exact ordered.handed
  · obtain ⟨some, left⟩ := ordered.stays (first ▸ completed)
    exact ⟨some.trans_le grown, holding.trans left⟩

/-- The last buffer of a chunk is kept past the end of the chunk. -/
theorem Ordered.swapProcessing (ordered : Ordered state) {tmp : Nat}
    (here : state.main = .swapProcessing tmp) (acquiring : Acquiring (state.swapProcessing tmp)) :
    Ordered (state.swapProcessing tmp) := by
  have some := (ordered.acquiring.asserted_at here).2
  have kept : state.kept = true := by
    rw [Microphone.kept, here]
    rfl
  have left : (if state.first then MainPc.create else .join).holding = false := by
    split <;> rfl
  refine ⟨acquiring, ordered.numbered.congr rfl rfl rfl rfl, ?_, fun _ => ⟨some, left⟩⟩
  have keeps : (state.swapProcessing tmp).kept = true := Bool.or_true _
  have handed := ordered.handed
  rw [kept] at handed
  rw [keeps]
  exact handed

theorem Ordered.handOver (ordered : Ordered state) (here : state.main = .getReadable)
    (some : 0 < state.driver.bq.cnt) (first : state.first = true)
    (acquiring : Acquiring (state.handOver platform state.driver.bq.get)) :
    Ordered (state.handOver platform state.driver.bq.get) := by
  have free : state.kept = false := by
    rw [Microphone.kept, here, first]
    rfl
  have handed := ordered.handed
  rw [free] at handed
  refine ⟨acquiring, ordered.numbered.congr rfl rfl rfl rfl, ?_, ?_⟩
  · show state.handed ++ [state.driver.fillNumber state.driver.bq.get] =
      List.range (state.driver.fills - state.driver.bq.cnt + 1)
    rw [List.range_succ, ordered.numbered.oldest ordered.acquiring.sound some, handed]
    rfl
  · exact fun completed => absurd (first.symm.trans completed) nofun

theorem Ordered.bufferEmptied (ordered : Ordered state) (here : state.main = .bufferEmptied)
    (acquiring : Acquiring state.bufferEmptied) (numbered : state.bufferEmptied.driver.Numbered) :
    Ordered state.bufferEmptied := by
  have sound := ordered.acquiring.sound
  have some := (ordered.acquiring.asserted_at here).2
  have first : state.first = true := by
    refine Bool.not_eq_false _ ▸ fun completed => ?_
    exact absurd (here ▸ (ordered.stays completed).2) nofun
  have kept : state.kept = true := by
    rw [Microphone.kept, here]
    rfl
  have free : state.bufferEmptied.kept = false := by
    show (false || !state.first) = false
    rw [first]
    rfl
  have handed := ordered.handed
  have bound := ordered.numbered.cnt_le
  rw [kept] at handed
  refine ⟨acquiring, numbered, ?_, fun completed => absurd (first.symm.trans completed) nofun⟩
  rw [free]
  show state.handed =
    List.range (state.driver.fills - state.driver.bq.bufferEmptied.cnt + 0)
  rw [sound.wellFormed.bufferEmptied_eq (by decide) some, handed]
  refine congrArg List.range ?_
  show state.driver.fills - state.driver.bq.cnt + 1 =
    state.driver.fills - (state.driver.bq.cnt - 1) + 0
  omega

theorem Ordered.move {event : Event} (ordered : Ordered state)
    (hands : HandsFirstChunkOnly state event) (moved : Move platform state event next) :
    Ordered next := by
  have acquiring := ordered.acquiring.move moved
  have numbered := numbered_move ordered.acquiring ordered.numbered moved
  cases moved with
  | start => exact ordered.same acquiring numbered rfl rfl rfl rfl le_rfl
  | stop => exact ordered.same acquiring numbered rfl rfl rfl rfl le_rfl
  | control moved =>
    cases moved with
    | createMain here =>
      have ended : state.main = .ended := ordered.acquiring.ended_of (here ▸ nofun) (here ▸ nofun)
      exact ordered.same acquiring numbered rfl rfl rfl (ended ▸ rfl) le_rfl
    | _ => exact ordered.same acquiring numbered rfl rfl rfl rfl le_rfl
  | dma arrived =>
    obtain ⟨transfer, -, -, -, same⟩ := Driver.receive_eq arrived
    rw [same] at acquiring numbered ⊢
    exact ordered.same acquiring numbered rfl rfl rfl rfl le_rfl
  | interrupt pending handled =>
    obtain rfl := Option.some.inj ((ordered.acquiring.interrupt pending).1.symm.trans handled)
    rw [Driver.IRQdmaRefill_eq] at acquiring numbered ⊢
    exact ordered.same acquiring numbered rfl (Nat.add_sub_add_right _ _ _) rfl rfl (Nat.le_succ _)
  | reboot => exact ordered.same acquiring numbered rfl rfl rfl rfl le_rfl
  | callbackStart => exact ordered.same acquiring numbered rfl rfl rfl rfl le_rfl
  | callbackEnd => exact ordered.same acquiring numbered rfl rfl rfl rfl le_rfl
  | main moved =>
    cases moved with
    | newQueue => exact ⟨acquiring, numbered, rfl, nofun⟩
    | handOver here some => exact ordered.handOver here some (hands rfl here some) acquiring
    | bufferEmptied here => exact ordered.bufferEmptied here acquiring numbered
    | swapProcessing here => exact ordered.swapProcessing here acquiring
    | dmaRefill here =>
      have same := Driver.IRQdmaRefill_eq state.driver
      refine ordered.same acquiring numbered rfl ?_ rfl (here ▸ rfl) ?_
      · exact (congrArg (fun driver : Driver => driver.fills - driver.bq.cnt) same :)
      · exact (congrArg (fun driver : Driver => driver.bq.cnt) same).ge
    | _ =>
      exact ordered.same acquiring numbered rfl rfl rfl (‹state.main = _› ▸ rfl) le_rfl

/-- The first buffer handed over after a completed chunk was handed over before. -/
theorem Ordered.repeats {event : Event} (ordered : Ordered state)
    (broken : ¬ HandsFirstChunkOnly state event)
    (taken : state.step platform event = some next) : ¬ next.handed.Pairwise (· < ·) := by
  simp only [HandsFirstChunkOnly, Classical.not_imp] at broken
  obtain ⟨rfl, here, some, completed⟩ := broken
  rw [step_main ordered.acquiring.running, mainStep_handOver here some] at taken
  obtain rfl := Option.some.inj taken
  have kept : state.kept = true := by
    rw [Microphone.kept, Bool.eq_false_iff.mpr completed]
    exact Bool.or_true _
  have handed := ordered.handed
  rw [kept] at handed
  show ¬ (state.handed ++ [state.driver.fillNumber state.driver.bq.get]).Pairwise (· < ·)
  rw [handed, ordered.numbered.oldest ordered.acquiring.sound some, List.pairwise_append]
  rintro ⟨-, -, increasing⟩
  exact Nat.lt_irrefl _ (increasing _ (List.mem_range.mpr (Nat.lt_succ_self _)) _
    List.mem_cons_self)

/-- The fill numbers of the buffers handed over in a session are strictly increasing all along a
run exactly when no buffer is handed over once a chunk of the session was completed. -/
theorem handed_increasing_iff {events : List Event}
    (ran : Runs.run (Microphone.step platform) (.boot platform) events = some state) :
    Runs.Always (Microphone.step platform) (fun state => state.handed.Pairwise (· < ·))
        (.boot platform) events ↔
      Runs.EachStep (Microphone.step platform) HandsFirstChunkOnly (.boot platform) events :=
  Runs.always_iff_eachStep Ordered
    (fun _ _ _ ordered hands taken => ordered.move hands (step_move taken))
    (fun _ ordered => ordered.handed ▸ List.pairwise_lt_range)
    (fun _ _ _ ordered broken taken => ordered.repeats broken taken) (.boot platform) ran

/-- Two chunks of one sample from one buffer. -/
def secondChunkEvents : List Event :=
  startEvents ++ List.replicate 7 .main ++ fillEvents ++ List.replicate 12 .main

theorem second_chunk_repeats :
    ∃ state, Runs.run (Microphone.step singleSample) (.boot singleSample) secondChunkEvents =
        some state ∧
      state.handed = [0, 0] ∧ ¬ state.handed.Pairwise (· < ·) := by
  have twice : ((Runs.run (Microphone.step singleSample) (.boot singleSample)
      secondChunkEvents).map fun state => state.handed) = some [0, 0] := by decide +kernel
  obtain ⟨state, ran, handed⟩ := Option.map_eq_some_iff.mp twice
  refine ⟨state, ran, handed, ?_⟩
  rw [handed]
  decide

/-- One sample more than a buffer gives, on memory that holds zeros. -/
def twoBuffers : Platform where
  PCMsize := 513
  memory := fun _ _ => 0

/-- A chunk that takes two buffers. -/
def twoBuffersEvents : List Event :=
  startEvents ++ List.replicate 7 .main ++ fillEvents ++ List.replicate 518 .main ++ fillEvents ++
    List.replicate 2 .main

/-- The order breaks in the second of two chunks; over the two buffers of one chunk it holds. -/
theorem handed_increasing_iff_second_chunk :
    (∃ state, Runs.run (Microphone.step singleSample) (.boot singleSample) secondChunkEvents =
        some state ∧
      ¬ Runs.EachStep (Microphone.step singleSample) HandsFirstChunkOnly (.boot singleSample)
        secondChunkEvents) ∧
      ∃ state, Runs.run (Microphone.step twoBuffers) (.boot twoBuffers) twoBuffersEvents =
          some state ∧
        state.handed = [0, 1] ∧
        Runs.Always (Microphone.step twoBuffers) (fun state => state.handed.Pairwise (· < ·))
          (.boot twoBuffers) twoBuffersEvents := by
  have twice : ((Runs.run (Microphone.step singleSample) (.boot singleSample)
      secondChunkEvents).map fun state => state.handed) = some [0, 0] := by decide +kernel
  have inOrder : ((Runs.run (Microphone.step twoBuffers) (.boot twoBuffers)
      twoBuffersEvents).map fun state => state.handed) = some [0, 1] := by decide +kernel
  have firstOnly : Runs.EachStep (Microphone.step twoBuffers) HandsFirstChunkOnly
      (.boot twoBuffers) twoBuffersEvents := by decide +kernel
  constructor
  · obtain ⟨state, ran, handed⟩ := Option.map_eq_some_iff.mp twice
    refine ⟨state, ran, fun each => ?_⟩
    have increasing := ((handed_increasing_iff ran).mpr each).final ran
    rw [handed] at increasing
    exact absurd increasing (by decide)
  · obtain ⟨state, ran, handed⟩ := Option.map_eq_some_iff.mp inOrder
    exact ⟨state, ran, handed, (handed_increasing_iff ran).mpr firstOnly⟩

end WhistleDrivenRobot
