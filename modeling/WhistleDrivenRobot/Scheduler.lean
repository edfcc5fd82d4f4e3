/-
This file proves which thread a search finds. The lists of the threads hold queues: to
find a thread is to take the first one that is ready and to put it and all before it at
the end, a new thread goes to the front, and threads that have ended go. No walk misses
a thread, so the one that runs has the highest priority of those that are ready.
-/

import Mathlib.Data.List.Perm.Subperm
import WhistleDrivenRobot.Runs
import WhistleDrivenRobot.Unlinking

namespace WhistleDrivenRobot

open Circles

namespace PriorityScheduler

/-! ### The queues of the priorities -/

/-- The lists hold the queues, and each of some threads is in the queue of its priority. -/
structure Lists (kernel : PriorityScheduler) (among : List Nat) (queues : Nat → List Nat) :
    Prop where
  queued : ∀ i, Queued kernel.next (kernel.thread_list i) (queues i)
  member : ∀ i thread, thread ∈ queues i ↔ thread ∈ among ∧ kernel.priority thread = i
  valid : ∀ thread ∈ among, kernel.priority thread < PRIORITY_MAX

/-- The lists hold all threads that were made. -/
abbrev Holds (kernel : PriorityScheduler) (queues : Nat → List Nat) : Prop :=
  Lists kernel kernel.threads queues

variable {kernel next : PriorityScheduler} {queues : Nat → List Nat}

theorem holds_boot (idle : Nat) : Holds (boot idle) fun _ => [] :=
  ⟨fun _ => rfl, fun _ _ => iff_of_false List.not_mem_nil fun both => List.not_mem_nil both.1,
    nofun⟩

theorem Holds.length_le (holds : Holds kernel queues) (i : Nat) :
    (queues i).length ≤ kernel.threads.countP (kernel.priority · = i) := by
  rw [List.countP_eq_length_filter]
  refine (List.subperm_of_subset (holds.queued i).nodup fun thread member => ?_).length_le
  obtain ⟨made, level⟩ := (holds.member i thread).mp member
  exact List.mem_filter.mpr ⟨made, decide_eq_true level⟩

theorem Holds.length_le_fuel (holds : Holds kernel queues) (i : Nat) :
    (queues i).length ≤ kernel.fuel :=
  Nat.le_succ_of_le ((holds.length_le i).trans List.countP_le_length)

/-- One round of the loop takes the first thread of a queue that is ready. -/
theorem Holds.findLoop_succ (holds : Holds kernel queues) (i : Nat) :
    kernel.findLoop (i + 1) = match (queues i).find? kernel.ready with
      | none => kernel.findLoop i
      | some temp => some (kernel.runThread i temp) := by
  have queued := holds.queued i
  have length := holds.length_le_fuel i
  rw [findLoop]
  cases list : kernel.thread_list i with
  | none =>
    rw [list] at queued
    have empty : queues i = [] := queued
    rw [empty]
    rfl
  | some first =>
    rw [list] at queued
    obtain ⟨rest, circle, same⟩ := queued
    rw [same, List.length_append] at length
    have walked := search_next circle kernel.ready length
    simp only [walked, same]
    cases (rest ++ [first]).find? kernel.ready <;> rfl

/-- What a search finds among the priorities below a number: no thread that is ready, or the first
one of the highest priority that has some. -/
theorem Holds.findLoop_cases (holds : Holds kernel queues) (count : Nat) :
    (kernel.findLoop count = some kernel.runIdle ∧
      ∀ i < count, ∀ thread ∈ queues i, kernel.ready thread = false) ∨
    ∃ i < count, ∃ before thread after, queues i = before ++ thread :: after ∧
      kernel.ready thread = true ∧ (∀ other ∈ before, kernel.ready other = false) ∧
      (∀ j < count, i < j → ∀ other ∈ queues j, kernel.ready other = false) ∧
      kernel.findLoop count = some (kernel.runThread i thread) := by
  induction count with
  | zero => exact .inl ⟨rfl, nofun⟩
  | succ count inductionHypothesis =>
    have round := holds.findLoop_succ count
    cases found : (queues count).find? kernel.ready with
    | some thread =>
      rw [found] at round
      obtain ⟨ready, before, after, split, passed⟩ := List.find?_eq_some_iff_append.mp found
      refine .inr ⟨count, Nat.lt_succ_self _, before, thread, after, split, ready,
        fun other member => ?_, fun j below above => ?_, round⟩
      · exact (Bool.not_eq_true' _).mp (passed other member)
      · exact absurd above (Nat.not_lt.mpr (Nat.lt_succ_iff.mp below))
    | none =>
      rw [found] at round
      have none : ∀ thread ∈ queues count, kernel.ready thread = false :=
        fun thread member => Bool.eq_false_iff.mpr (List.find?_eq_none.mp found thread member)
      rcases inductionHypothesis with
        ⟨loop, lower⟩ | ⟨i, below, before, thread, after, split, ready, passed, higher, loop⟩
      · refine .inl ⟨round.trans loop, fun i less => ?_⟩
        rcases Nat.lt_succ_iff_lt_or_eq.mp less with lowerLevel | rfl
        · exact lower i lowerLevel
        · exact none
      · refine .inr ⟨i, Nat.lt_succ_of_lt below, before, thread, after, split, ready, passed,
          fun j less above => ?_, round.trans loop⟩
        rcases Nat.lt_succ_iff_lt_or_eq.mp less with lowerLevel | rfl
        · exact higher j lowerLevel above
        · exact none

/-! ### What a step does to the queues -/

/-- A thread that is found goes to the end of its queue, and those before it go along. -/
theorem Holds.found (holds : Holds kernel queues) {i thread : Nat} {before after : List Nat}
    (split : queues i = before ++ thread :: after) :
    Holds (kernel.runThread i thread)
      (Function.update queues i (after ++ before ++ [thread])) := by
  have turned : (after ++ before ++ [thread]).Perm (queues i) := by
    rw [split, List.append_assoc]
    exact List.perm_append_comm.trans (by rw [List.append_assoc]; rfl)
  refine ⟨fun j => ?_, fun j other => ?_, holds.valid⟩
  · rw [runThread]
    dsimp only
    by_cases same : j = i
    · subst same
      rw [Function.update_self, Function.update_self]
      exact Queued.rotate (split ▸ holds.queued j)
    · rw [Function.update_of_ne same, Function.update_of_ne same]
      exact holds.queued j
  · by_cases same : j = i
    · subst same
      rw [Function.update_self, turned.mem_iff]
      exact holds.member j other
    · rw [Function.update_of_ne same]
      exact holds.member j other

/-- A thread that comes to a list is the next of its queue. -/
theorem Lists.add {among : List Nat} (lists : Lists kernel among queues) {thread priority : Nat}
    (valid : priority < PRIORITY_MAX) (new : thread ∉ among) :
    Lists (kernel.PKaddThread thread priority) (thread :: among)
      (Function.update queues priority (thread :: queues priority)) := by
  have absent : ∀ i, thread ∉ queues i := fun i inside => new ((lists.member i thread).mp inside).1
  have member : ∀ i other, other ∈ Function.update queues priority (thread :: queues priority) i ↔
      other ∈ thread :: among ∧
        Function.update kernel.priority thread priority other = i := by
    intro i other
    by_cases named : other = thread
    · subst named
      rw [Function.update_self, and_iff_right List.mem_cons_self]
      by_cases level : i = priority
      · subst level
        rw [Function.update_self]
        exact iff_of_true List.mem_cons_self rfl
      · rw [Function.update_of_ne level]
        exact iff_of_false (absent i) fun same => level same.symm
    · have older : other ∈ Function.update queues priority (thread :: queues priority) i ↔
          other ∈ queues i := by
        by_cases level : i = priority
        · subst level
          rw [Function.update_self, List.mem_cons, or_iff_right named]
        · rw [Function.update_of_ne level]
      rw [older, lists.member, List.mem_cons, or_iff_right named, Function.update_of_ne named]
  have valid : ∀ other ∈ thread :: among,
      Function.update kernel.priority thread priority other < PRIORITY_MAX := by
    intro other inside
    by_cases named : other = thread
    · rw [named, Function.update_self]
      exact valid
    · rw [Function.update_of_ne named]
      exact lists.valid other ((List.mem_cons.mp inside).resolve_left named)
  have here := lists.queued priority
  rw [PKaddThread]
  cases list : kernel.thread_list priority with
  | none =>
    rw [list] at here
    have empty : queues priority = [] := here
    refine ⟨fun i => ?_, member, valid⟩
    dsimp only
    by_cases level : i = priority
    · subst level
      rw [Function.update_self, Function.update_self, empty]
      exact ⟨[], circle_single _ _, rfl⟩
    · rw [Function.update_of_ne level, Function.update_of_ne level]
      refine (lists.queued i).congr fun other inside => Function.update_of_ne ?_ _ _
      exact fun same => absent i (same ▸ inside)
  | some first =>
    rw [list] at here
    obtain ⟨rest, circle, queue⟩ := here
    have inQueue : ∀ other ∈ first :: rest, other ∈ queues priority := fun other inside =>
      queue ▸ (List.perm_append_singleton first rest).mem_iff.mpr inside
    refine ⟨fun i => ?_, member, valid⟩
    dsimp only
    by_cases level : i = priority
    · subst level
      rw [Function.update_self, list, queue]
      exact ⟨thread :: rest, circle.insert fun inside => absent i (inQueue thread inside), rfl⟩
    · rw [Function.update_of_ne level]
      refine (lists.queued i).congr fun other inside => ?_
      -- a thread of another priority is not the first one of this list
      have apart : other ≠ first := by
        rintro rfl
        have level' := ((lists.member priority other).mp (inQueue other List.mem_cons_self)).2
        exact level (((lists.member i other).mp inside).2.symm.trans level')
      rw [Function.update_of_ne apart, Function.update_of_ne]
      exact fun same => absent i (same ▸ inside)

theorem PKaddThread_threads (kernel : PriorityScheduler) (thread priority : Nat) :
    (kernel.PKaddThread thread priority).threads = kernel.threads := by
  rw [PKaddThread]
  split <;> rfl

theorem Holds.create (holds : Holds kernel queues) {thread priority : Nat} (joinable : Bool)
    (valid : priority < PRIORITY_MAX) (new : thread ∉ kernel.threads) :
    Holds ((kernel.doCreate thread joinable).PKaddThread thread priority)
      (Function.update queues priority (thread :: queues priority)) := by
  have lists : Lists (kernel.doCreate thread joinable) kernel.threads queues :=
    ⟨holds.queued, holds.member, holds.valid⟩
  rw [Holds, PKaddThread_threads]
  exact lists.add valid new

/-- Threads of one priority are taken from their list, and the others stay in theirs. -/
theorem Lists.shrink {among : List Nat} (lists : Lists kernel among queues) {i : Nat}
    {left : List Nat} {keep : Nat → Bool} (priority : next.priority = kernel.priority)
    (queued : Queued next.next (next.thread_list i) left)
    (others : ∀ j ≠ i, next.thread_list j = kernel.thread_list j)
    (same : ∀ other ∉ queues i, next.next other = kernel.next other)
    (kept : ∀ thread, thread ∈ left ↔ thread ∈ queues i ∧ keep thread)
    (stays : ∀ thread, kernel.priority thread ≠ i → keep thread = true) :
    Lists next (among.filter keep) (Function.update queues i left) := by
  refine ⟨fun j => ?_, fun j thread => ?_, fun thread member => ?_⟩
  · by_cases level : j = i
    · subst level
      rwa [Function.update_self]
    · rw [Function.update_of_ne level, others j level]
      refine (lists.queued j).congr fun other member => same other fun here => level ?_
      exact ((lists.member j other).mp member).2.symm.trans ((lists.member i other).mp here).2
  · rw [List.mem_filter, priority, and_right_comm, ← lists.member]
    by_cases level : j = i
    · subst level
      rw [Function.update_self, kept]
    · rw [Function.update_of_ne level]
      refine (and_iff_left_of_imp fun member => stays thread fun here => level ?_).symm
      exact ((lists.member j thread).mp member).2.symm.trans here
  · rw [priority]
    exact lists.valid thread (List.mem_of_mem_filter member)

/-- A thread is taken from its list. -/
theorem Holds.remove (holds : Holds kernel queues) {thread : Nat}
    (made : thread ∈ kernel.threads) :
    ∃ removed later, kernel.remove thread = some removed ∧ removed.threads = kernel.threads ∧
      Lists removed (kernel.threads.filter (· ≠ thread)) later := by
  have inside := (holds.member _ thread).mpr ⟨made, rfl⟩
  have queued := holds.queued (kernel.priority thread)
  rw [PriorityScheduler.remove]
  cases list : kernel.thread_list (kernel.priority thread) with
  | none =>
    rw [list] at queued
    have empty : queues (kernel.priority thread) = [] := queued
    exact absurd (empty ▸ inside) List.not_mem_nil
  | some first =>
    rw [list] at queued
    obtain ⟨changed, left, rest, ran, queuedRest, parts, same⟩ :=
      queued.unlink inside (holds.length_le_fuel _)
    have single : (thread :: rest).Nodup :=
      parts.nodup_iff.mpr (holds.queued (kernel.priority thread)).nodup
    simp only [ran]
    refine ⟨_, Function.update queues (kernel.priority thread) rest, rfl, rfl,
      holds.shrink rfl ?_ (fun j level => Function.update_of_ne level _ _) same
        (fun other => ?_) fun other level => decide_eq_true fun named => level (named ▸ rfl)⟩
    · show Queued changed (Function.update kernel.thread_list _ left (kernel.priority thread)) rest
      rwa [Function.update_self]
    · rw [← parts.mem_iff, List.mem_cons, decide_eq_true_iff]
      constructor
      · exact fun member => ⟨.inr member, fun named =>
          (List.nodup_cons.mp single).1 (named ▸ member)⟩
      · exact fun both => both.1.resolve_left both.2

theorem Holds.setPriority (holds : Holds kernel queues) {thread newPriority : Nat}
    (made : thread ∈ kernel.threads) (valid : newPriority < PRIORITY_MAX) :
    ∃ next later, kernel.PKsetPriority thread newPriority = some next ∧ Holds next later := by
  obtain ⟨removed, left, ran, threads, lists⟩ := holds.remove made
  have added := lists.add valid fun kept => of_decide_eq_true (List.mem_filter.mp kept).2 rfl
  have all : ∀ other, other ∈ thread :: kernel.threads.filter (· ≠ thread) ↔
      other ∈ (removed.PKaddThread thread newPriority).threads := by
    intro other
    rw [PKaddThread_threads, threads, List.mem_cons, List.mem_filter, decide_eq_true_iff]
    by_cases named : other = thread
    · exact iff_of_true (.inl named) (named ▸ made)
    · rw [or_iff_right named, and_iff_left named]
  refine ⟨_, _, by rw [PKsetPriority, ran]; rfl, added.queued, fun i other => ?_,
    fun other member => added.valid other ((all other).mpr member)⟩
  rw [added.member, all]

/-- The dead threads of a priority go, and the others stay in their queues. -/
theorem Holds.release (holds : Holds kernel queues) {i first : Nat}
    (list : kernel.thread_list i = some first) :
    ∃ left, removeDead kernel.deleted kernel.fuel kernel.next first = some left ∧
      (∃ later, Holds (kernel.release i left) later) ∧
      (kernel.release i left).threads = kernel.threads.filter fun thread =>
        !(kernel.priority thread = i && kernel.deleted thread) := by
  have queued := holds.queued i
  rw [list] at queued
  obtain ⟨changed, head, freed, rest, ran, queuedRest, gone, kept, same⟩ :=
    @Queued.removeDead kernel.deleted kernel.next first (queues i) kernel.fuel queued
      (holds.length_le_fuel i)
  have freedOnly : ∀ thread ∈ kernel.threads, decide (thread ∉ freed) =
      !(kernel.priority thread = i && kernel.deleted thread) := by
    intro thread made
    rw [decide_not, Bool.not_inj_iff, Bool.eq_iff_iff, decide_eq_true_iff, gone, holds.member,
      and_iff_right made, Bool.and_eq_true, decide_eq_true_iff]
  refine ⟨_, ran, ⟨Function.update queues i rest, ?_⟩, List.filter_congr freedOnly⟩
  refine holds.shrink rfl ?_ (fun j level => Function.update_of_ne level _ _) same
    (fun thread => ?_) fun thread level => decide_eq_true fun here => level ?_
  · show Queued changed (Function.update kernel.thread_list i head i) rest
    rwa [Function.update_self]
  · rw [kept, decide_eq_true_iff, gone]
    exact and_congr_right fun inside => (not_congr (and_iff_right inside)).symm
  · exact ((holds.member i thread).mp ((gone thread).mp here).1).2

/-- The loop takes the dead threads of the priorities below a number. -/
theorem Holds.removeLoops (count : Nat) (holds : Holds kernel queues) :
    ∃ next, removeLoops count kernel = some next ∧ (∃ later, Holds next later) ∧
      next = { kernel with
        next := next.next
        thread_list := next.thread_list
        threads := kernel.threads.filter fun thread =>
          !(kernel.priority thread < count && kernel.deleted thread) } := by
  induction count generalizing kernel queues with
  | zero =>
    have all : kernel.threads.filter (fun thread =>
        !(kernel.priority thread < 0 && kernel.deleted thread)) = kernel.threads :=
      List.filter_eq_self.mpr fun _ _ => rfl
    exact ⟨kernel, rfl, ⟨queues, holds⟩, by rw [all]⟩
  | succ i inductionHypothesis =>
    rw [PriorityScheduler.removeLoops]
    cases list : kernel.thread_list i with
    | none =>
      have queued := holds.queued i
      rw [list] at queued
      have empty : queues i = [] := queued
      obtain ⟨next, ran, kept, shape⟩ := inductionHypothesis holds
      have same : kernel.threads.filter (fun thread =>
          !(kernel.priority thread < i && kernel.deleted thread)) =
          kernel.threads.filter fun thread =>
            !(kernel.priority thread < i + 1 && kernel.deleted thread) := by
        refine List.filter_congr fun thread made => ?_
        have other : kernel.priority thread ≠ i := fun here =>
          List.not_mem_nil (empty ▸ (holds.member i thread).mpr ⟨made, here⟩)
        have below : kernel.priority thread < i ↔ kernel.priority thread < i + 1 := by omega
        rw [decide_eq_decide.mpr below]
      exact ⟨next, ran, kept, same ▸ shape⟩
    | some first =>
      obtain ⟨left, ran, ⟨later, holdsLater⟩, threads⟩ := holds.release list
      obtain ⟨next, ranNext, kept, shape⟩ := inductionHypothesis holdsLater
      have both : (kernel.release i left).threads.filter (fun thread =>
          !(kernel.priority thread < i && kernel.deleted thread)) =
          kernel.threads.filter fun thread =>
            !(kernel.priority thread < i + 1 && kernel.deleted thread) := by
        rw [threads, List.filter_filter]
        refine List.filter_congr fun thread _ => ?_
        show (!(decide (kernel.priority thread < i) && kernel.deleted thread) &&
          !(decide (kernel.priority thread = i) && kernel.deleted thread)) =
            !(decide (kernel.priority thread < i + 1) && kernel.deleted thread)
        cases kernel.deleted thread with
        | false => simp only [Bool.and_false, Bool.not_false, Bool.and_self]
        | true =>
          simp only [Bool.and_true, ← decide_not, ← Bool.decide_and, decide_eq_decide]
          omega
      simp only [ran, Option.bind_some]
      refine ⟨next, ranNext, kept, shape.trans ?_⟩
      exact congrArg (fun threads => { kernel with
        next := next.next, thread_list := next.thread_list, threads }) both

/-- The threads that have ended go, and nothing but the lists changes. -/
theorem Holds.removeDeadThreads (holds : Holds kernel queues) :
    ∃ next, kernel.PKremoveDeadThreads = some next ∧ (∃ later, Holds next later) ∧
      next = { kernel with
        next := next.next
        thread_list := next.thread_list
        threads := kernel.threads.filter (!kernel.deleted ·) } := by
  obtain ⟨next, ran, kept, shape⟩ := holds.removeLoops PRIORITY_MAX
  have all : kernel.threads.filter (fun thread =>
      !(kernel.priority thread < PRIORITY_MAX && kernel.deleted thread)) =
        kernel.threads.filter (!kernel.deleted ·) := by
    refine List.filter_congr fun thread made => ?_
    rw [decide_eq_true (holds.valid thread made), Bool.true_and]
  exact ⟨next, ran, kept, all ▸ shape⟩

theorem Holds.step {event : ThreadEvent} (holds : Holds kernel queues)
    (taken : kernel.step event = some next) : ∃ later, Holds next later := by
  cases event with
  | create thread priority joinable =>
    rw [PriorityScheduler.step, threadCreate] at taken
    split at taken
    · exact ⟨queues, Option.some.inj taken ▸ holds⟩
    · rename_i valid
      rw [Option.ite_none_left_eq_some] at taken
      obtain ⟨new, taken⟩ := taken
      exact ⟨_, Option.some.inj taken ▸ holds.create joinable (Nat.not_le.mp valid)
        fun made => new (.inl made)⟩
  | setPriority thread newPriority =>
    rw [PriorityScheduler.step, Option.ite_none_left_eq_some, not_or, not_not, Nat.not_le] at taken
    obtain ⟨⟨made, valid⟩, taken⟩ := taken
    obtain ⟨changed, later, ran, kept⟩ := holds.setPriority made valid
    exact ⟨later, Option.some.inj (ran.symm.trans taken) ▸ kept⟩
  | setFlags thread flags => exact ⟨queues, Option.some.inj taken ▸ ⟨holds.1, holds.2, holds.3⟩⟩
  | removeDeadThreads =>
    obtain ⟨removed, ran, kept, -⟩ := holds.removeDeadThreads
    exact Option.some.inj (ran.symm.trans taken) ▸ kept
  | pauseKernel =>
    rw [PriorityScheduler.step, Option.ite_none_left_eq_some] at taken
    exact ⟨queues, Option.some.inj taken.2 ▸ ⟨holds.1, holds.2, holds.3⟩⟩
  | restartKernel =>
    rw [PriorityScheduler.step, Option.ite_none_left_eq_some] at taken
    exact ⟨queues, Option.some.inj taken.2 ▸ ⟨holds.1, holds.2, holds.3⟩⟩
  | preempt =>
    rw [PriorityScheduler.step, IRQfindNextThread] at taken
    split at taken
    · exact ⟨queues, Option.some.inj taken ▸ holds⟩
    · rcases holds.findLoop_cases PRIORITY_MAX with
        ⟨loop, -⟩ | ⟨i, -, before, thread, after, split, -, -, -, loop⟩
      · exact ⟨queues, Option.some.inj (loop.symm.trans taken) ▸ ⟨holds.1, holds.2, holds.3⟩⟩
      · exact ⟨_, Option.some.inj (loop.symm.trans taken) ▸ holds.found split⟩

theorem exists_holds {idle : Nat} {events : List ThreadEvent}
    (ran : Runs.run PriorityScheduler.step (boot idle) events = some kernel) :
    ∃ queues, Holds kernel queues := by
  have keeps : ∀ (state : PriorityScheduler) event next, (∃ queues, Holds state queues) →
      state.step event = some next → ∃ queues, Holds next queues := by
    rintro state event next ⟨queues, holds⟩ taken
    exact holds.step taken
  exact Runs.run_invariant keeps ⟨_, holds_boot idle⟩ ran

/-! ### Which thread runs -/

/-- In every state that a run comes to, a search finds a thread that is ready and has no lower
priority than any other ready one; only if none is ready, the idle thread runs. -/
theorem finds_highest {idle : Nat} {events : List ThreadEvent}
    (ran : Runs.run step (boot idle) events = some kernel) (running : kernel.kernel_running = 0) :
    ∃ next, kernel.IRQfindNextThread = some next ∧
      ((next.cur = kernel.idle ∧ ∀ thread ∈ kernel.threads, kernel.ready thread = false) ∨
        (next.cur ∈ kernel.threads ∧ kernel.ready next.cur = true ∧
          ∀ thread ∈ kernel.threads, kernel.ready thread = true →
            kernel.priority thread ≤ kernel.priority next.cur)) := by
  obtain ⟨queues, holds⟩ := exists_holds ran
  have queue : ∀ thread ∈ kernel.threads, thread ∈ queues (kernel.priority thread) :=
    fun thread made => (holds.member _ thread).mpr ⟨made, rfl⟩
  rw [IRQfindNextThread, if_neg (not_not.mpr running)]
  rcases holds.findLoop_cases PRIORITY_MAX with
    ⟨loop, none⟩ | ⟨i, -, before, found, after, split, ready, -, higher, loop⟩
  · exact ⟨_, loop, .inl ⟨rfl, fun thread made =>
      none _ (holds.valid thread made) thread (queue thread made)⟩⟩
  · have inside : found ∈ queues i := split ▸ List.mem_append_right _ List.mem_cons_self
    obtain ⟨made, level⟩ := (holds.member i found).mp inside
    refine ⟨_, loop, .inr ⟨made, ready, fun thread madeToo readyToo => ?_⟩⟩
    by_contra above
    have above : i < kernel.priority thread := level ▸ Nat.not_le.mp above
    have asleep := higher _ (holds.valid thread madeToo) above thread (queue thread madeToo)
    exact Bool.false_ne_true (asleep.symm.trans readyToo)

/-- The high thread has ended and is removed, and the low ones are left. -/
theorem finds_highest_three : ∃ kernel next,
    Runs.run step (boot 0) [.create 1 1 true, .create 2 3 false, .create 3 1 true,
      .setFlags 2 0x14, .removeDeadThreads] = some kernel ∧
      kernel.IRQfindNextThread = some next ∧
      ((next.cur = kernel.idle ∧ ∀ thread ∈ kernel.threads, kernel.ready thread = false) ∨
        (next.cur ∈ kernel.threads ∧ kernel.ready next.cur = true ∧
          ∀ thread ∈ kernel.threads, kernel.ready thread = true →
            kernel.priority thread ≤ kernel.priority next.cur)) := by
  obtain ⟨next, found⟩ := @finds_highest _ 0 [.create 1 1 true, .create 2 3 false,
    .create 3 1 true, .setFlags 2 0x14, .removeDeadThreads] rfl rfl
  exact ⟨_, next, rfl, found⟩

/-! ### Which threads exist -/

theorem and_lt_succ_iff {made : Prop} {level i : Nat} (other : made → level ≠ i) :
    made ∧ level < i ↔ made ∧ level < i + 1 :=
  and_congr_right fun here => ⟨Nat.lt_succ_of_lt, fun less =>
    Nat.lt_of_le_of_ne (Nat.lt_succ_iff.mp less) (other here)⟩

theorem Holds.existsLoop (holds : Holds kernel queues) (thread count : Nat) :
    kernel.existsLoop thread count =
      some (decide (thread ∈ kernel.threads ∧ kernel.priority thread < count) &&
        !kernel.deleted thread) := by
  induction count with
  | zero =>
    have none : ¬(thread ∈ kernel.threads ∧ kernel.priority thread < 0) := fun both =>
      Nat.not_lt_zero _ both.2
    rw [decide_eq_false none, Bool.false_and]
    rfl
  | succ i inductionHypothesis =>
    have queued := holds.queued i
    have length := holds.length_le_fuel i
    have member := holds.member i thread
    rw [PriorityScheduler.existsLoop]
    cases list : kernel.thread_list i with
    | none =>
      rw [list] at queued
      have empty : queues i = [] := queued
      rw [empty] at member
      have other : thread ∈ kernel.threads → kernel.priority thread ≠ i := fun made here =>
        List.not_mem_nil (member.mpr ⟨made, here⟩)
      rw [← decide_eq_decide.mpr (and_lt_succ_iff other)]
      exact inductionHypothesis
    | some first =>
      rw [list] at queued
      obtain ⟨rest, circle, same⟩ := queued
      rw [same, List.length_append] at length
      rw [same, (List.perm_append_singleton first rest).mem_iff] at member
      have walked := search_eq circle (fun temp => temp = thread && !kernel.deleted temp) length
      simp only [walked]
      cases found : (first :: rest).find? (fun temp => temp = thread && !kernel.deleted temp) with
      | some temp =>
        have accepted := List.find?_some found
        rw [Bool.and_eq_true, decide_eq_true_iff] at accepted
        obtain ⟨rfl, alive⟩ := accepted
        obtain ⟨made, here⟩ := member.mp (List.mem_of_find?_eq_some found)
        rw [decide_eq_true ⟨made, Nat.lt_succ_of_le here.le⟩, alive]
        rfl
      | none =>
        have nowhere : thread ∈ first :: rest → kernel.deleted thread = true := by
          intro inside
          by_contra alive
          have passed := List.find?_eq_none.mp found thread inside
          rw [Bool.eq_false_iff.mpr alive, decide_eq_true rfl] at passed
          exact passed rfl
        have same : (decide (thread ∈ kernel.threads ∧ kernel.priority thread < i) &&
            !kernel.deleted thread) = (decide (thread ∈ kernel.threads ∧
              kernel.priority thread < i + 1) && !kernel.deleted thread) := by
          cases dead : kernel.deleted thread with
          | true => rw [Bool.not_true, Bool.and_false, Bool.and_false]
          | false =>
            have other : thread ∈ kernel.threads → kernel.priority thread ≠ i := fun made here =>
              Bool.false_ne_true (dead.symm.trans (nowhere (member.mpr ⟨made, here⟩)))
            rw [decide_eq_decide.mpr (and_lt_succ_iff other)]
        exact same ▸ inductionHypothesis

/-- A thread is found to exist exactly when it has memory and has not ended. -/
theorem Holds.PKexists_eq (holds : Holds kernel queues) (thread : Nat) :
    kernel.PKexists thread =
      some (decide (thread ∈ kernel.threads) && !kernel.deleted thread) := by
  rw [PKexists, holds.existsLoop]
  have valid : (thread ∈ kernel.threads ∧ kernel.priority thread < PRIORITY_MAX) ↔
      thread ∈ kernel.threads := and_iff_left_of_imp (holds.valid thread)
  rw [decide_eq_decide.mpr valid]

/-- In every state that a run comes to, the removal gives back the memory of exactly the threads
that have ended, and every other thread exists before it and after it. -/
theorem removes_ended {idle : Nat} {events : List ThreadEvent}
    (ran : Runs.run step (boot idle) events = some kernel) :
    ∃ next, kernel.PKremoveDeadThreads = some next ∧
      next.threads = kernel.threads.filter (!kernel.deleted ·) ∧
      ∀ thread, next.PKexists thread = some (decide (thread ∈ next.threads)) ∧
        kernel.PKexists thread = some (decide (thread ∈ next.threads)) := by
  obtain ⟨queues, holds⟩ := exists_holds ran
  obtain ⟨next, removed, ⟨later, holdsNext⟩, shape⟩ := holds.removeDeadThreads
  have threads : next.threads = kernel.threads.filter (!kernel.deleted ·) := by rw [shape]
  have deleted : next.deleted = kernel.deleted := by rw [shape]; rfl
  refine ⟨next, removed, threads, fun thread => ?_⟩
  have alive : decide (thread ∈ next.threads) =
      (decide (thread ∈ kernel.threads) && !kernel.deleted thread) := by
    rw [threads, decide_eq_decide.mpr List.mem_filter, Bool.decide_and, Bool.decide_eq_true]
  rw [holdsNext.PKexists_eq, holds.PKexists_eq, deleted, alive, Bool.and_assoc, Bool.and_self]
  exact ⟨rfl, rfl⟩

/-- One of three threads has ended and another one is still to be joined. -/
theorem removes_ended_three : ∃ kernel next,
    Runs.run step (boot 0) [.create 1 1 true, .create 2 1 false, .create 3 1 true,
      .setFlags 2 0x14, .setFlags 3 0x4] = some kernel ∧
      kernel.PKremoveDeadThreads = some next ∧ next.threads = [3, 1] ∧
      kernel.PKexists 2 = some false ∧ next.PKexists 3 = some true := by
  obtain ⟨next, removed, threads, found⟩ := @removes_ended _ 0 [.create 1 1 true,
    .create 2 1 false, .create 3 1 true, .setFlags 2 0x14, .setFlags 3 0x4] rfl
  have left : next.threads = [3, 1] := threads.trans rfl
  have gone := (found 2).2
  have here := (found 3).1
  rw [left] at gone here
  exact ⟨_, next, rfl, removed, left, gone, here⟩

end PriorityScheduler

end WhistleDrivenRobot
