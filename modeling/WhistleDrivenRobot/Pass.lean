/-
This file follows one pass of the inner loop of `mainLoop`, from the statement
that resets `PCMindex` to the call of `processPDM` that returns true. A pass
fills its chunk completely and writes every sample once, whether or not the size
of the chunk is a multiple of the size of a buffer. What is read as one function
here is what the acquisition thread does step by step.
-/

import Mathlib.Algebra.Order.Floor.Div
import WhistleDrivenRobot.Microphone
import WhistleDrivenRobot.Transcoder

namespace WhistleDrivenRobot

/-! ### The inner loop -/

/-- What a pass works on. The last two fields are histories: the values of `PCMindex`, and the
places of `processingBuffer` that were written, each in order. -/
structure Pass where
  PCMindex : BitVec 32
  processingBuffer : Nat → Word
  regs : FilterRegs
  indices : List (BitVec 32)
  written : List Nat

namespace Pass

/-- `PCMindex = 0`; the block and the registers hold anything. -/
def begin (memory : Nat → Word) (regs : FilterRegs) : Pass where
  PCMindex := 0
  processingBuffer := memory
  regs := regs
  indices := [0]
  written := []

/-- `processingBuffer[PCMindex++] = PDMFilter(pdmbuffer, i)` -/
def round (pdmbuffer : Nat → Word) (pass : Pass) (i : Nat) : Pass where
  PCMindex := pass.PCMindex + 1
  processingBuffer := Function.update pass.processingBuffer pass.PCMindex.toNat
    (PDMFilter pass.regs (pdmbuffer i)).1
  regs := (PDMFilter pass.regs (pdmbuffer i)).2
  indices := pass.indices ++ [pass.PCMindex + 1]
  written := pass.written ++ [pass.PCMindex.toNat]

/-- The number of rounds: the difference is unsigned, `remaining` and the minimum are signed. -/
def length (PCMsize : BitVec 32) (pass : Pass) (size : Int) : Int :=
  min (PCMsize - pass.PCMindex).toInt size

/-- The loop of `processPDM`. -/
def rounds (PCMsize : BitVec 32) (pass : Pass) (pdmbuffer : Nat → Word) (size : Int) : Pass :=
  (List.range (pass.length PCMsize size).toNat).foldl (round pdmbuffer) pass

def processPDM (PCMsize : BitVec 32) (pass : Pass) (pdmbuffer : Nat → Word) (size : Int) :
    Bool × Pass :=
  if (pass.rounds PCMsize pdmbuffer size).PCMindex < PCMsize then
    (false, pass.rounds PCMsize pdmbuffer size)
  else (true, pass.rounds PCMsize pdmbuffer size)

/-- The inner loop after some calls of `processPDM`, with the buffers that `getReadableBuffer`
returns one after the other: the number of calls in the end, and what they leave. `none` when the
fuel is used up. -/
def fill (PCMsize : BitVec 32) (buffers : Nat → Nat → Word) :
    (fuel calls : Nat) → Pass → Option (Nat × Pass)
  | 0, _, _ => none
  | fuel + 1, calls, pass =>
    match pass.processPDM PCMsize (buffers calls) bufferSize with
    | (true, next) => some (calls + 1, next)
    | (false, next) => fill PCMsize buffers fuel (calls + 1) next

/-! ### The calls of PDMFilter -/

/-- The words that the calls of `PDMFilter` of a pass are applied to, in order. -/
def stream (buffers : Nat → Nat → Word) (index : Nat) : Word :=
  buffers (index / bufferSize) (index % bufferSize)

/-- The filter registers before the call of `PDMFilter` on a word of a stream. -/
def registers (regs : FilterRegs) (words : Nat → Word) : Nat → FilterRegs
  | 0 => regs
  | index + 1 => (PDMFilter (registers regs words index) (words index)).2

/-- What the call on a word of a stream returns. -/
def sample (regs : FilterRegs) (words : Nat → Word) (index : Nat) : Word :=
  (PDMFilter (registers regs words index) (words index)).1

theorem stream_of_lt (buffers : Nat → Nat → Word) {calls i : Nat} (inside : i < bufferSize) :
    stream buffers (bufferSize * calls + i) = buffers calls i := by
  rw [stream, Nat.mul_add_div (by decide), Nat.div_eq_of_lt inside, Nat.add_zero, Nat.mul_add_mod,
    Nat.mod_eq_of_lt inside]

theorem registers_succ (regs : FilterRegs) (words : Nat → Word) (index : Nat) :
    registers regs words (index + 1) =
      registers (PDMFilter regs (words 0)).2 (fun later => words (later + 1)) index := by
  induction index with
  | zero => rfl
  | succ index inductionHypothesis => rw [registers, inductionHypothesis, registers]

/-- The samples are what the transcoder makes of the stream. -/
theorem map_sample (regs : FilterRegs) (words : Nat → Word) (count : Nat) :
    (List.range count).map (sample regs words) = transcode regs ((List.range count).map words) := by
  induction count generalizing regs words with
  | zero => rfl
  | succ count inductionHypothesis =>
    rw [List.range_succ_eq_map, List.map_cons, List.map_cons, List.map_map, List.map_map, transcode]
    refine congrArg₂ List.cons rfl ?_
    refine Eq.trans ?_ (inductionHypothesis _ fun later => words (later + 1))
    refine List.map_congr_left fun index _ => ?_
    show (PDMFilter (registers regs words (index + 1)) (words (index + 1))).1 = _
    rw [registers_succ, sample]

/-! ### What a pass has filled -/

/-- The pass has written the first samples of the stream, each of them once and in order, and
nothing behind them. -/
structure Filled (memory : Nat → Word) (regs : FilterRegs) (words : Nat → Word) (count : Nat)
    (pass : Pass) : Prop where
  index : pass.PCMindex.toNat = count
  indices : pass.indices.map BitVec.toNat = List.range (count + 1)
  written : pass.written = List.range count
  samples : ∀ index < count, pass.processingBuffer index = sample regs words index
  behind : ∀ index, count ≤ index → pass.processingBuffer index = memory index
  regs : pass.regs = registers regs words count

section Filling

variable {memory : Nat → Word} {regs : FilterRegs} {words : Nat → Word} {count : Nat} {pass : Pass}

theorem Filled.begin (memory : Nat → Word) (regs : FilterRegs) (words : Nat → Word) :
    Filled memory regs words 0 (begin memory regs) where
  index := rfl
  indices := rfl
  written := rfl
  samples := fun _ inside => absurd inside (Nat.not_lt_zero _)
  behind := fun _ _ => rfl
  regs := rfl

/-- One round writes the next sample. -/
theorem Filled.round (filled : Filled memory regs words count pass) {pdmbuffer : Nat → Word}
    {i : Nat} (word : pdmbuffer i = words count) (bound : count + 1 < 2 ^ 32) :
    Filled memory regs words (count + 1) (pass.round pdmbuffer i) := by
  have index : (pass.PCMindex + 1).toNat = count + 1 := by
    rw [BitVec.toNat_add, filled.index]
    exact Nat.mod_eq_of_lt bound
  have value : (PDMFilter pass.regs (pdmbuffer i)).1 = sample regs words count := by
    rw [filled.regs, word, sample]
  refine ⟨index, ?_, ?_, fun place inside => ?_, fun place late => ?_, ?_⟩
  · show (pass.indices ++ [pass.PCMindex + 1]).map BitVec.toNat = _
    rw [List.map_append, filled.indices, List.map_singleton, index, ← List.range_succ]
  · show pass.written ++ [pass.PCMindex.toNat] = _
    rw [filled.written, filled.index, ← List.range_succ]
  · show Function.update pass.processingBuffer pass.PCMindex.toNat _ place = _
    rw [filled.index, value]
    rcases Nat.lt_succ_iff_lt_or_eq.mp inside with early | rfl
    · rw [Function.update_of_ne early.ne]
      exact filled.samples place early
    · exact Function.update_self _ _ _
  · show Function.update pass.processingBuffer pass.PCMindex.toNat _ place = _
    rw [filled.index, Function.update_of_ne (Nat.ne_of_gt late)]
    exact filled.behind place (Nat.le_of_succ_le late)
  · show (PDMFilter pass.regs (pdmbuffer i)).2 = _
    rw [filled.regs, word, registers]

/-- The rounds of one call write the words of its buffer, from the first one on. -/
theorem Filled.foldl_round (filled : Filled memory regs words count pass)
    {pdmbuffer : Nat → Word} {rounds : Nat} (same : ∀ i < rounds, pdmbuffer i = words (count + i))
    (bound : count + rounds < 2 ^ 32) :
    Filled memory regs words (count + rounds)
      ((List.range rounds).foldl (Pass.round pdmbuffer) pass) := by
  induction rounds with
  | zero => exact filled
  | succ rounds inductionHypothesis =>
    rw [List.range_succ, List.foldl_append]
    have before := inductionHypothesis (fun i early => same i (Nat.lt_succ_of_lt early)) (by omega)
    exact before.round (same rounds (Nat.lt_succ_self rounds)) bound

end Filling

/-! ### One call of processPDM -/

section Calls

variable {PCMsize : BitVec 32} {buffers : Nat → Nat → Word} {memory : Nat → Word}
variable {regs : FilterRegs} {calls : Nat} {pass : Pass}

/-- A pass that has used up some buffers and still needs samples. -/
theorem toNat_length (filled : Filled memory regs (stream buffers) (bufferSize * calls) pass)
    (needs : bufferSize * calls < PCMsize.toNat) (small : PCMsize.toNat < 2 ^ 31) :
    (pass.length PCMsize bufferSize).toNat =
      min (PCMsize.toNat - bufferSize * calls) bufferSize := by
  have unsigned : (PCMsize - pass.PCMindex).toNat = PCMsize.toNat - bufferSize * calls := by
    rw [BitVec.toNat_sub_of_le (BitVec.le_def.mpr (filled.index ▸ needs.le)), filled.index]
  have signed : (PCMsize - pass.PCMindex).toInt = (PCMsize.toNat - bufferSize * calls : Nat) := by
    rw [BitVec.toInt_eq_toNat_of_lt, unsigned]
    omega
  rw [length, signed]
  omega

/-- A call fills up what its buffer has samples for, and returns true when that is enough. -/
theorem Filled.processPDM (filled : Filled memory regs (stream buffers) (bufferSize * calls) pass)
    (needs : bufferSize * calls < PCMsize.toNat) (small : PCMsize.toNat < 2 ^ 31) :
    Filled memory regs (stream buffers) (min PCMsize.toNat (bufferSize * (calls + 1)))
        (pass.processPDM PCMsize (buffers calls) bufferSize).2 ∧
      ((pass.processPDM PCMsize (buffers calls) bufferSize).1 = true ↔
        PCMsize.toNat ≤ bufferSize * (calls + 1)) := by
  have length := toNat_length filled needs small
  have total : bufferSize * calls + (pass.length PCMsize bufferSize).toNat =
      min PCMsize.toNat (bufferSize * (calls + 1)) := by
    rw [length, Nat.mul_succ]
    omega
  have words : ∀ i < (pass.length PCMsize bufferSize).toNat,
      buffers calls i = stream buffers (bufferSize * calls + i) := fun i inside =>
    (stream_of_lt buffers (by omega)).symm
  have done := filled.foldl_round words (by omega)
  rw [total] at done
  change Filled _ _ _ _ (pass.rounds PCMsize (buffers calls) bufferSize) at done
  have index := done.index
  unfold Pass.processPDM
  split
  · rename_i less
    have short := BitVec.lt_def.mp less
    exact ⟨done, iff_of_false Bool.false_ne_true (by omega)⟩
  · rename_i notLess
    have long := mt BitVec.lt_def.mpr notLess
    exact ⟨done, iff_of_true rfl (by omega)⟩

/-! ### A pass is complete -/

theorem fill_of_pos {fuel : Nat} (positive : 0 < fuel) :
    fill PCMsize buffers fuel calls pass =
      match pass.processPDM PCMsize (buffers calls) bufferSize with
      | (true, next) => some (calls + 1, next)
      | (false, next) => fill PCMsize buffers (fuel - 1) (calls + 1) next := by
  cases fuel with
  | zero => exact absurd positive (Nat.lt_irrefl 0)
  | succ fuel => rfl

/-- The calls that are left fill the rest of the chunk. -/
theorem Filled.fill (filled : Filled memory regs (stream buffers) (bufferSize * calls) pass)
    (needs : bufferSize * calls < PCMsize.toNat) (small : PCMsize.toNat < 2 ^ 31) :
    ∃ final, Filled memory regs (stream buffers) PCMsize.toNat final ∧
      ∀ fuel, PCMsize.toNat ⌈/⌉ bufferSize ≤ calls + fuel →
        fill PCMsize buffers fuel calls pass = some (PCMsize.toNat ⌈/⌉ bufferSize, final) := by
  have suffice : ∀ made, PCMsize.toNat ⌈/⌉ bufferSize ≤ made ↔
      PCMsize.toNat ≤ bufferSize * made := fun _ => ceilDiv_le_iff_le_mul (by decide)
  have more : calls < PCMsize.toNat ⌈/⌉ bufferSize :=
    Nat.not_le.mp (mt (suffice calls).mp (Nat.not_le.mpr needs))
  -- by induction on the number of calls that are left
  induction left : PCMsize.toNat ⌈/⌉ bufferSize - calls generalizing calls pass with
  | zero => exact absurd left (Nat.sub_ne_zero_of_lt more)
  | succ left inductionHypothesis =>
    obtain ⟨done, returned⟩ := filled.processPDM needs small
    cases called : pass.processPDM PCMsize (buffers calls) bufferSize with
    | mk enough next =>
      rw [called] at done returned
      cases enough with
      | true =>
        have last := returned.mp rfl
        have calls_eq := Nat.le_antisymm ((suffice (calls + 1)).mpr last) more
        rw [Nat.min_eq_left last] at done
        refine ⟨next, done, fun fuel bound => ?_⟩
        rw [fill_of_pos (by omega), called, calls_eq]
      | false =>
        have needsMore := Nat.not_le.mp (mt returned.mpr Bool.false_ne_true)
        have moreNow := Nat.not_le.mp (mt (suffice (calls + 1)).mp (Nat.not_le.mpr needsMore))
        rw [Nat.min_eq_right needsMore.le] at done
        obtain ⟨final, complete, filling⟩ :=
          inductionHypothesis done needsMore moreNow (by omega)
        refine ⟨final, complete, fun fuel bound => ?_⟩
        rw [fill_of_pos (by omega), called]
        exact filling (fuel - 1) (by omega)

/-- What a pass leaves when it ends. -/
structure Complete (PCMsize : BitVec 32) (buffers : Nat → Nat → Word) (memory : Nat → Word)
    (regs : FilterRegs) (pass : Pass) : Prop where
  bounded : ∀ index ∈ pass.indices, index ≤ PCMsize
  once : pass.written = List.range PCMsize.toNat
  samples : ∀ index < PCMsize.toNat,
    pass.processingBuffer index =
      (PDMFilter (registers regs (stream buffers) index) (stream buffers index)).1
  outside : ∀ index, PCMsize.toNat ≤ index → pass.processingBuffer index = memory index
  regs : pass.regs = registers regs (stream buffers) PCMsize.toNat

theorem Filled.complete (filled : Filled memory regs (stream buffers) PCMsize.toNat pass) :
    Complete PCMsize buffers memory regs pass where
  bounded := by
    intro index member
    have inside : index.toNat ∈ List.range (PCMsize.toNat + 1) :=
      filled.indices ▸ List.mem_map_of_mem member
    exact BitVec.le_def.mpr (Nat.lt_succ_iff.mp (List.mem_range.mp inside))
  once := filled.written
  samples := filled.samples
  outside := filled.behind
  regs := filled.regs

/-- The chunk is what the transcoder makes of the words of the pass. -/
theorem Complete.transcoded (complete : Complete PCMsize buffers memory regs pass) :
    (List.range PCMsize.toNat).map pass.processingBuffer =
      transcode regs ((List.range PCMsize.toNat).map (stream buffers)) := by
  rw [← map_sample]
  exact List.map_congr_left fun index member => complete.samples index (List.mem_range.mp member)

/-- A pass ends after as many calls as there are buffers needed, and its chunk is complete. -/
theorem fill_complete (PCMsize : BitVec 32) (positive : 1 ≤ PCMsize.toNat)
    (small : PCMsize.toNat < 2 ^ 31) (buffers : Nat → Nat → Word) (memory : Nat → Word)
    (regs : FilterRegs) :
    ∃ pass, Complete PCMsize buffers memory regs pass ∧
      ∀ fuel, PCMsize.toNat ⌈/⌉ bufferSize ≤ fuel →
        fill PCMsize buffers fuel 0 (begin memory regs) =
          some (PCMsize.toNat ⌈/⌉ bufferSize, pass) := by
  have none : Filled memory regs (stream buffers) (bufferSize * 0) (begin memory regs) :=
    .begin memory regs _
  obtain ⟨pass, filled, filling⟩ := none.fill positive small
  exact ⟨pass, filled.complete, fun fuel bound => filling fuel (bound.trans (Nat.zero_add _).ge)⟩

/-- A chunk of seven hundred samples uses its second buffer partially. -/
theorem fill_complete_partial :
    ∃ pass, Complete 700 (fun call i => BitVec.ofNat 16 (call + i)) (fun _ => 0) .zero pass ∧
      ∀ fuel, (700#32).toNat ⌈/⌉ bufferSize ≤ fuel →
        fill 700 (fun call i => BitVec.ofNat 16 (call + i)) fuel 0 (begin (fun _ => 0) .zero) =
          some ((700#32).toNat ⌈/⌉ bufferSize, pass) :=
  fill_complete 700 (by decide) (by decide) _ _ _

end Calls

/-! ### The acquisition thread -/

section Thread

open Microphone

variable {platform : Platform} {state : Microphone} {pass : Pass} {buffer i : Nat} {length : Int}

/-- The fields of the driver that a pass works on. -/
structure Views (state : Microphone) (pass : Pass) : Prop where
  index : state.PCMindex = pass.PCMindex
  block : state.pcm state.processingBuffer = pass.processingBuffer
  regs : state.regs = pass.regs

/-- One step of the thread inside `processPDM` is one round of its loop. -/
theorem Views.round (views : Views state pass) (running : state.rebooted = false)
    (here : state.main = .processPDM buffer i length) (inside : i < length) :
    ∃ next, step platform state .main = some next ∧ next.rebooted = false ∧
      next.main = .processPDM buffer (i + 1) length ∧ next.driver = state.driver ∧
      Views next (pass.round (state.driver.bq.buf buffer) i) := by
  refine ⟨state.transcode buffer i length, ?_, running, rfl, rfl, ?_, ?_, ?_⟩
  · rw [step, running, if_neg Bool.false_ne_true]
    simp only [mainStep, here, if_pos inside]
  · exact congrArg (· + 1) views.index
  · refine (Function.update_self state.processingBuffer _ state.pcm).trans ?_
    rw [views.block, views.index, views.regs]
    rfl
  · exact congrArg (fun regs => (PDMFilter regs (state.driver.bq.buf buffer i)).2) views.regs

theorem Views.foldl_round (views : Views state pass) (running : state.rebooted = false)
    (here : state.main = .processPDM buffer 0 length) {rounds : Nat}
    (inside : ∀ i < rounds, (i : Int) < length) :
    ∃ next, Runs.run (step platform) state (List.replicate rounds .main) = some next ∧
      next.rebooted = false ∧ next.main = .processPDM buffer rounds length ∧
      next.driver = state.driver ∧
      Views next ((List.range rounds).foldl (Pass.round (state.driver.bq.buf buffer)) pass) := by
  induction rounds with
  | zero => exact ⟨state, rfl, running, here, rfl, views⟩
  | succ rounds inductionHypothesis =>
    obtain ⟨middle, ran, runningThere, there, driver, viewsThere⟩ :=
      inductionHypothesis fun i early => inside i (Nat.lt_succ_of_lt early)
    obtain ⟨next, taken, runningNext, next_main, same, viewsNext⟩ :=
      viewsThere.round runningThere there (inside rounds (Nat.lt_succ_self rounds))
    rw [driver] at viewsNext
    refine ⟨next, ?_, runningNext, next_main, same.trans driver, ?_⟩
    · rw [List.replicate_succ', Runs.run_concat, ran, Option.bind_some]
      exact taken
    · rw [List.range_succ, List.foldl_append]
      exact viewsNext

/-- The steps from the call of `processPDM` on are its loop and the test of what it returns. -/
theorem Views.processPDM (views : Views state pass) (running : state.rebooted = false)
    (here : state.main = .processPDM buffer 0 (processLength platform state)) :
    ∃ next, Runs.run (step platform) state
        (List.replicate ((pass.length platform.PCMsize bufferSize).toNat + 1) .main) = some next ∧
      next.main = (if (pass.processPDM platform.PCMsize (state.driver.bq.buf buffer)
        bufferSize).1 then .swapTmp else .bufferEmptied) ∧
      Views next (pass.processPDM platform.PCMsize (state.driver.bq.buf buffer) bufferSize).2 := by
  have length : processLength platform state = pass.length platform.PCMsize bufferSize := by
    rw [processLength, Pass.length, views.index]
  rw [length] at here
  obtain ⟨last, ran, runningThere, there, -, viewsThere⟩ :=
    @Views.foldl_round platform _ _ _ _ views running here
      (pass.length platform.PCMsize bufferSize).toNat fun i inside => by omega
  change Views last (pass.rounds platform.PCMsize (state.driver.bq.buf buffer) bufferSize)
    at viewsThere
  have finished : ¬((pass.length platform.PCMsize bufferSize).toNat : Int) <
      pass.length platform.PCMsize bufferSize := by omega
  have step_last : step platform last .main =
      if last.PCMindex < platform.PCMsize then some (last.goto .bufferEmptied)
      else some last.complete := by
    rw [step, runningThere, if_neg Bool.false_ne_true]
    simp only [mainStep, there, if_neg finished]
  rw [List.replicate_succ', Runs.run_concat, ran, Option.bind_some, step_last, Pass.processPDM,
    viewsThere.index]
  split
  · exact ⟨_, rfl, rfl, viewsThere.index, viewsThere.block, viewsThere.regs⟩
  · exact ⟨_, rfl, rfl, viewsThere.index, viewsThere.block, viewsThere.regs⟩

end Thread

end Pass

end WhistleDrivenRobot
