/-
This file proves that no thread starves within its priority. A search that passes a
ready thread by brings it nearer to the front of its queue, and a new thread of its
priority goes before it. When the thread that ran last is removed, the next one becomes
the first of the list, which a search comes to last; so a removal may cost a whole round.
That needs that no priority changes: a thread that leaves its list and comes back goes
before the others as well.
-/

import WhistleDrivenRobot.Scheduler

namespace WhistleDrivenRobot

namespace PriorityScheduler

variable {kernel next : PriorityScheduler} {queues : Nat → List Nat}

/-! ### A thread waits for its turn -/

theorem PKaddThread_flags (kernel : PriorityScheduler) (thread priority : Nat) :
    (kernel.PKaddThread thread priority).flags = kernel.flags := by
  rw [PKaddThread]
  split <;> rfl

theorem PKaddThread_kernel_running (kernel : PriorityScheduler) (thread priority : Nat) :
    (kernel.PKaddThread thread priority).kernel_running = kernel.kernel_running := by
  rw [PKaddThread]
  split <;> rfl

theorem PKaddThread_priority (kernel : PriorityScheduler) (thread priority : Nat) :
    (kernel.PKaddThread thread priority).priority =
      Function.update kernel.priority thread priority := by
  rw [PKaddThread]
  split <;> rfl

/-- A thread is ready, has no more than so many threads before it, and its priority has no more than
so many threads. -/
structure Waits (thread priority ahead size : Nat) (kernel : PriorityScheduler) : Prop where
  behind : ∃ queues, Holds kernel queues ∧ thread ∈ queues priority ∧
    (queues priority).idxOf thread ≤ ahead
  few : kernel.threads.countP (kernel.priority · = priority) ≤ size
  ready : kernel.ready thread = true

/-- An event that neither changes a priority nor touches the flags of a thread. -/
def Leaves (thread : Nat) : ThreadEvent → Prop
  | .setFlags other _ => other ≠ thread
  | .setPriority _ _ => False
  | _ => True

/-- A thread of this priority is made. -/
def joins (priority : Nat) : ThreadEvent → Bool
  | .create _ level _ => level = priority
  | _ => false

/-- How often the kernel is paused after an event. -/
def nesting (paused : Nat) : ThreadEvent → Nat
  | .pauseKernel => paused + 1
  | .restartKernel => paused - 1
  | _ => paused

/-- The searches among some events while the kernel is not paused; `paused` says how often it is
paused before. -/
def searches : Nat → List ThreadEvent → Nat
  | _, [] => 0
  | paused, event :: rest =>
    (if paused = 0 ∧ event = .preempt then 1 else 0) + searches (nesting paused event) rest

/-- A thread runs that is this one or has a higher priority. -/
def Served (thread priority : Nat) (kernel : PriorityScheduler) : Prop :=
  kernel.kernel_running = 0 ∧ (kernel.cur = thread ∨ priority < kernel.priority kernel.cur)

variable {thread priority ahead size : Nat}

/-- A search finds the thread, or one of a higher priority, or it brings the thread nearer. -/
theorem Waits.search (waits : Waits thread priority ahead size kernel)
    (running : kernel.kernel_running = 0) (taken : kernel.step .preempt = some next) :
    Served thread priority next ∨
      next.kernel_running = 0 ∧ ∃ fewer < ahead, Waits thread priority fewer size next := by
  obtain ⟨⟨queues, holds, here, few⟩, bound, ready⟩ := waits
  obtain ⟨made, level⟩ := (holds.member priority thread).mp here
  have valid : priority < PRIORITY_MAX := level ▸ holds.valid thread made
  have notPassed : ∀ {list : List Nat}, (∀ other ∈ list, kernel.ready other = false) →
      thread ∉ list := fun passed inside => Bool.false_ne_true ((passed _ inside).symm.trans ready)
  rw [step, IRQfindNextThread, if_neg (not_not.mpr running)] at taken
  rcases holds.findLoop_cases PRIORITY_MAX with
    ⟨-, none⟩ | ⟨i, below, before, other, after, split, isReady, passed, higher, loop⟩
  · exact absurd here (notPassed (none priority valid))
  · obtain rfl := Option.some.inj (loop.symm.trans taken)
    have found : other ∈ queues i := split ▸ List.mem_append_right _ List.mem_cons_self
    have itsLevel := ((holds.member i other).mp found).2
    rcases Nat.lt_trichotomy priority i with above | rfl | lower
    · exact .inl ⟨running, .inr (itsLevel.symm ▸ above)⟩
    · by_cases named : other = thread
      · exact .inl ⟨running, .inl named⟩
      · -- the thread stood behind the one that was found
        have skipped : thread ∉ before := notPassed passed
        rw [split] at here few
        have later : thread ∈ after := by
          rcases List.mem_append.mp here with inside | inside
          · exact absurd inside skipped
          · exact (List.mem_cons.mp inside).resolve_left fun same => named same.symm
        rw [List.idxOf_append_of_notMem skipped, List.idxOf_cons_ne _ named] at few
        refine .inr ⟨running, after.idxOf thread, by omega, ⟨_, holds.found split, ?_, ?_⟩, bound,
          ready⟩
        · rw [Function.update_self, List.append_assoc]
          exact List.mem_append_left _ later
        · rw [Function.update_self, List.append_assoc, List.idxOf_append_of_mem later]
    · exact absurd here (notPassed (higher priority valid lower))

/-- A new thread of its priority goes before it. -/
theorem Waits.create (waits : Waits thread priority ahead size kernel) {new level : Nat}
    {joinable : Bool} (taken : kernel.step (.create new level joinable) = some next) :
    next.kernel_running = kernel.kernel_running ∧
      Waits thread priority (ahead + if joins priority (.create new level joinable) then 1 else 0)
        (size + if joins priority (.create new level joinable) then 1 else 0) next := by
  obtain ⟨⟨queues, holds, here, few⟩, bound, ready⟩ := waits
  rw [PriorityScheduler.step, threadCreate] at taken
  split at taken
  · obtain rfl := Option.some.inj taken
    exact ⟨rfl, ⟨queues, holds, here, Nat.le_add_right_of_le few⟩, Nat.le_add_right_of_le bound,
      ready⟩
  · rename_i valid
    rw [Option.ite_none_left_eq_some] at taken
    obtain ⟨unused, taken⟩ := taken
    obtain rfl := Option.some.inj taken
    have absent : new ∉ kernel.threads := fun old => unused (.inl old)
    have made := ((holds.member priority thread).mp here).1
    have different : new ≠ thread := fun same => absent (same ▸ made)
    refine ⟨PKaddThread_kernel_running _ _ _,
      ⟨_, holds.create joinable (Nat.not_le.mp valid) absent, ?_, ?_⟩, ?_, ?_⟩
    · by_cases same : level = priority
      · subst same
        rw [Function.update_self]
        exact List.mem_cons_of_mem _ here
      · rwa [Function.update_of_ne (Ne.symm same)]
    · by_cases same : level = priority
      · subst same
        rw [Function.update_self, List.idxOf_cons_ne _ different,
          if_pos (show joins level (.create new level joinable) = true from decide_eq_true rfl)]
        exact Nat.succ_le_succ few
      · rw [Function.update_of_ne (Ne.symm same)]
        exact Nat.le_add_right_of_le few
    · have others : kernel.threads.countP
          (Function.update kernel.priority new level · = priority) =
            kernel.threads.countP (kernel.priority · = priority) := by
        refine List.countP_congr fun other old => ?_
        have apart : other ≠ new := fun same => absent (same ▸ old)
        rw [Function.update_of_ne apart]
      rw [PKaddThread_threads, PKaddThread_priority]
      show (new :: kernel.threads).countP (Function.update kernel.priority new level · = priority) ≤
        _
      rw [List.countP_cons, others, Function.update_self]
      exact Nat.add_le_add_right bound _
    · rw [PriorityScheduler.ready, PKaddThread_flags]
      show (Function.update kernel.flags new _ thread).isReady = true
      rw [Function.update_of_ne different.symm]
      exact ready

/-- A thread that is ready has not ended. -/
theorem alive_of_ready (flags : ThreadFlags) (ready : flags.isReady = true) :
    flags.isDeleted = false := by
  have clear : flags &&& 0x67 = 0 := of_decide_eq_true ready
  refine decide_eq_false fun dead => ?_
  -- the deleted flag is among those that keep a thread from running
  have inBoth : (0x14 : ThreadFlags).getLsbD 2 = true ∧ (0x67 : ThreadFlags).getLsbD 2 = true ∧
      (0 : ThreadFlags).getLsbD 2 = false := by decide
  obtain ⟨inDeleted, inReady, inNone⟩ := inBoth
  have set := congrArg (BitVec.getLsbD · 2) dead
  have unset := congrArg (BitVec.getLsbD · 2) clear
  simp only [BitVec.getLsbD_and, inDeleted, inReady, inNone, Bool.and_true] at set unset
  exact Bool.false_ne_true (unset.symm.trans set)

/-- When threads that have ended are removed, it may come to be the last one. -/
theorem Waits.removeDeadThreads (waits : Waits thread priority ahead size kernel)
    (taken : kernel.step .removeDeadThreads = some next) :
    next.kernel_running = kernel.kernel_running ∧
      0 < size ∧ Waits thread priority (size - 1) size next := by
  obtain ⟨⟨queues, holds, here, -⟩, bound, ready⟩ := waits
  obtain ⟨removed, ran, ⟨later, kept⟩, shape⟩ := holds.removeDeadThreads
  obtain rfl := Option.some.inj (ran.symm.trans taken)
  obtain ⟨made, level⟩ := (holds.member priority thread).mp here
  have flags : removed.flags = kernel.flags := by rw [shape]
  have levels : removed.priority = kernel.priority := by rw [shape]
  have threads : removed.threads = kernel.threads.filter (!kernel.deleted ·) := by rw [shape]
  have stays : thread ∈ later priority := by
    rw [kept.member, threads, levels, List.mem_filter]
    refine ⟨⟨made, ?_⟩, level⟩
    rw [PriorityScheduler.deleted, alive_of_ready _ ready]
    rfl
  have fewer : removed.threads.countP (removed.priority · = priority) ≤ size := by
    rw [threads, levels]
    exact List.filter_sublist.countP_le.trans bound
  have place := (List.idxOf_lt_length_of_mem stays).trans_le (kept.length_le priority)
  refine ⟨by rw [shape], by omega, ⟨later, kept, stays, by omega⟩, fewer, ?_⟩
  rw [PriorityScheduler.ready, flags]
  exact ready

/-- Another step does not pass it by, but for a removal. -/
theorem Waits.step {event : ThreadEvent} (waits : Waits thread priority ahead size kernel)
    (leaves : Leaves thread event) (other : ¬(kernel.kernel_running = 0 ∧ event = .preempt))
    (taken : kernel.step event = some next) :
    next.kernel_running = nesting kernel.kernel_running event ∧
      ∃ later, Waits thread priority later (size + if joins priority event then 1 else 0) next ∧
        (later ≤ ahead + (if joins priority event then 1 else 0) ∨
          event = .removeDeadThreads ∧ later < size) := by
  have same : (∀ {running : Nat} {flags : Nat → ThreadFlags}, flags thread = kernel.flags thread →
      Waits thread priority ahead size
        { kernel with flags := flags, kernel_running := running }) := by
    intro running flags unchanged
    obtain ⟨⟨queues, holds, here, few⟩, bound, ready⟩ := waits
    refine ⟨⟨queues, ⟨holds.1, holds.2, holds.3⟩, here, few⟩, bound, ?_⟩
    show (flags thread).isReady = true
    rw [unchanged]
    exact ready
  cases event with
  | create new level joinable =>
    obtain ⟨running, waits⟩ := waits.create taken
    exact ⟨running, _, waits, .inl le_rfl⟩
  | setPriority _ _ => exact leaves.elim
  | setFlags changed flags =>
    obtain rfl := Option.some.inj taken
    exact ⟨rfl, ahead, same (Function.update_of_ne (Ne.symm leaves) _ _), .inl le_rfl⟩
  | removeDeadThreads =>
    obtain ⟨running, positive, waits⟩ := waits.removeDeadThreads taken
    exact ⟨running, _, waits, .inr ⟨rfl, Nat.sub_lt positive Nat.one_pos⟩⟩
  | pauseKernel =>
    rw [PriorityScheduler.step, Option.ite_none_left_eq_some] at taken
    obtain rfl := Option.some.inj taken.2
    exact ⟨rfl, ahead, same rfl, .inl le_rfl⟩
  | restartKernel =>
    rw [PriorityScheduler.step, Option.ite_none_left_eq_some] at taken
    obtain rfl := Option.some.inj taken.2
    exact ⟨rfl, ahead, same rfl, .inl le_rfl⟩
  | preempt =>
    have paused : kernel.kernel_running ≠ 0 := fun running => other ⟨running, rfl⟩
    rw [PriorityScheduler.step, IRQfindNextThread, if_pos paused] at taken
    obtain rfl := Option.some.inj taken
    exact ⟨rfl, ahead, waits, .inl le_rfl⟩

/-- With more searches than threads before it, and a round more for every removal, one of them
serves the thread; `most` is a bound on the threads of its priority. -/
theorem Waits.served {events : List ThreadEvent} {final : PriorityScheduler} {most : Nat}
    (waits : Waits thread priority ahead size kernel)
    (ran : Runs.run PriorityScheduler.step kernel events = some final)
    (leaves : ∀ event ∈ events, Leaves thread event)
    (fits : size + events.countP (joins priority) ≤ most)
    (many : ahead + events.countP (joins priority) + events.count .removeDeadThreads * most <
      searches kernel.kernel_running events) :
    ∃ before after state, events = before ++ .preempt :: after ∧
      Runs.run PriorityScheduler.step kernel (before ++ [.preempt]) = some state ∧
      Served thread priority state := by
  induction events generalizing kernel ahead size with
  | nil => exact absurd many (Nat.not_lt_zero _)
  | cons event rest inductionHypothesis =>
    rw [Runs.run, List.foldlM_cons] at ran
    obtain ⟨next, taken, ranRest⟩ := Option.bind_eq_some_iff.mp ran
    have leavesRest : ∀ event ∈ rest, Leaves thread event :=
      fun other member => leaves other (List.mem_cons_of_mem _ member)
    have first : Runs.run PriorityScheduler.step kernel [event] = some next := by
      rw [Runs.run, List.foldlM_cons, taken]
      rfl
    have later : (∃ before after state, rest = before ++ .preempt :: after ∧
        Runs.run PriorityScheduler.step next (before ++ [.preempt]) = some state ∧
        Served thread priority state) → ∃ before after state,
          event :: rest = before ++ .preempt :: after ∧
          Runs.run PriorityScheduler.step kernel (before ++ [.preempt]) = some state ∧
          Served thread priority state := by
      rintro ⟨before, after, state, rfl, ranBefore, served⟩
      have joined : Runs.run PriorityScheduler.step kernel ([event] ++ (before ++ [.preempt])) =
          some state := Runs.run_join first ranBefore
      exact ⟨event :: before, after, state, rfl, joined, served⟩
    rw [List.countP_cons] at fits many
    rw [List.count_cons, searches] at many
    by_cases search : kernel.kernel_running = 0 ∧ event = .preempt
    · have found := search
      obtain ⟨running, rfl⟩ := search
      have noJoin : ¬joins priority .preempt = true := Bool.false_ne_true
      have noRemoval : ¬(ThreadEvent.preempt == .removeDeadThreads) = true := by decide
      have nested : nesting kernel.kernel_running .preempt = 0 := running
      rw [if_pos found, if_neg noJoin, if_neg noRemoval, Nat.add_zero, Nat.add_zero, nested] at many
      rcases waits.search running taken with served | ⟨runningNext, fewer, less, waits⟩
      · exact ⟨[], rest, next, rfl, first, served⟩
      · refine later (inductionHypothesis waits ranRest leavesRest (by omega) ?_)
        rw [runningNext]
        omega
    · rw [if_neg search] at many
      obtain ⟨running, nearer, waits, bound⟩ :=
        waits.step (leaves event List.mem_cons_self) search taken
      refine later (inductionHypothesis waits ranRest leavesRest (by omega) ?_)
      rw [running]
      rcases bound with near | ⟨rfl, inside⟩
      · have rounds := Nat.mul_le_mul_right most (Nat.le_add_right
          (rest.count .removeDeadThreads) (if (event == .removeDeadThreads) = true then 1 else 0))
        omega
      · have removal : (ThreadEvent.removeDeadThreads == .removeDeadThreads) = true := by decide
        rw [if_pos removal, Nat.succ_mul] at many
        omega

/-! ### No thread starves -/

/-- In every run, a ready thread runs at one of as many searches as there are threads of its
priority, those that are made meanwhile included, and as many again for every removal of threads
that have ended, unless a thread of a higher priority does. -/
theorem takes_turn {idle : Nat} {before after : List ThreadEvent} {thread : Nat}
    {final : PriorityScheduler} (ranBefore : Runs.run step (boot idle) before = some kernel)
    (made : thread ∈ kernel.threads) (ready : kernel.ready thread = true)
    (ran : Runs.run step kernel after = some final)
    (leaves : ∀ event ∈ after, Leaves thread event)
    (many : (after.count .removeDeadThreads + 1) *
      (kernel.threads.countP (kernel.priority · = kernel.priority thread) +
        after.countP (joins (kernel.priority thread))) ≤ searches kernel.kernel_running after) :
    ∃ earlier later state, after = earlier ++ .preempt :: later ∧
      Runs.run step kernel (earlier ++ [.preempt]) = some state ∧
      Served thread (kernel.priority thread) state := by
  obtain ⟨queues, holds⟩ := exists_holds ranBefore
  have here : thread ∈ queues (kernel.priority thread) :=
    (holds.member _ thread).mpr ⟨made, rfl⟩
  have place := (List.idxOf_lt_length_of_mem here).trans_le (holds.length_le _)
  have waits : Waits thread (kernel.priority thread)
      ((queues (kernel.priority thread)).idxOf thread)
      (kernel.threads.countP (kernel.priority · = kernel.priority thread)) kernel :=
    ⟨⟨queues, holds, here, le_rfl⟩, le_rfl, ready⟩
  rw [Nat.succ_mul] at many
  exact waits.served ran leaves le_rfl (by omega)

/-- Three threads of one priority; the one that runs first ends and is removed, and another one is
made. -/
theorem takes_turn_three : ∃ kernel final,
    Runs.run step (boot 0) [.create 1 1 true, .create 2 1 true, .create 3 1 false] = some kernel ∧
      Runs.run step kernel [.preempt, .setFlags 3 0x14, .pauseKernel, .preempt, .restartKernel,
        .removeDeadThreads, .create 4 1 true, .preempt, .preempt, .preempt, .preempt, .preempt,
        .preempt, .preempt] = some final ∧
      ∃ earlier later state, [ThreadEvent.preempt, .setFlags 3 0x14, .pauseKernel, .preempt,
          .restartKernel, .removeDeadThreads, .create 4 1 true, .preempt, .preempt, .preempt,
          .preempt, .preempt, .preempt, .preempt] = earlier ++ .preempt :: later ∧
        Runs.run step kernel (earlier ++ [.preempt]) = some state ∧
        Served 1 (kernel.priority 1) state := by
  refine ⟨_, _, rfl, rfl, @takes_turn _ 0 [.create 1 1 true, .create 2 1 true, .create 3 1 false]
    [.preempt, .setFlags 3 0x14, .pauseKernel, .preempt, .restartKernel, .removeDeadThreads,
      .create 4 1 true, .preempt, .preempt, .preempt, .preempt, .preempt, .preempt, .preempt] 1 _
    rfl ?_ ?_ rfl ?_ ?_⟩
  · decide
  · decide
  · intro event member
    simp only [List.mem_cons, List.not_mem_nil, or_false] at member
    rcases member with rfl | rfl | rfl | rfl | rfl | rfl | rfl | rfl | rfl | rfl | rfl | rfl | rfl |
      rfl <;> first | trivial | exact (show 3 ≠ 1 by decide)
  · decide

/-! ### Priorities that change -/

/-- Two threads of one priority, of which the second runs. -/
def overtaking : PriorityScheduler where
  threads := [2, 1]
  priority := Function.update (Function.update (fun _ => 0) 1 1) 2 1
  next := Function.update (Function.update (fun thread => thread) 1 2) 2 1
  flags := fun _ => 0
  thread_list := Function.update (fun _ => none) 1 (some 2)
  idle := 0
  cur := 2
  kernel_running := 0

/-- The bound needs that no priority changes. A thread that raises its priority and lowers it again
leaves its list, whose next thread becomes the first one, and comes back before that one: so it runs
again, however often, and the other one never does. -/
theorem starves (rounds : Nat) :
    Runs.run step (boot 0) ([.create 1 1 true, .create 2 1 true, .preempt] ++
      (List.replicate rounds [.setPriority 2 2, .setPriority 2 1, ThreadEvent.preempt]).flatten) =
        some overtaking := by
  have start : Runs.run step (boot 0) [.create 1 1 true, .create 2 1 true, .preempt] =
      some overtaking := by
    refine congrArg some ((PriorityScheduler.mk.injEq ..).mpr
      ⟨rfl, rfl, ?_, ?_, ?_, rfl, rfl, rfl⟩)
    · funext thread
      rcases thread with _ | _ | _ | thread <;> rfl
    · funext thread
      rcases thread with _ | _ | _ | thread <;> rfl
    · funext i
      rcases i with _ | _ | i <;> rfl
  have round : Runs.run step overtaking [.setPriority 2 2, .setPriority 2 1, .preempt] =
      some overtaking := by
    refine congrArg some ((PriorityScheduler.mk.injEq ..).mpr
      ⟨rfl, ?_, ?_, rfl, ?_, rfl, rfl, rfl⟩)
    · funext thread
      rcases thread with _ | _ | _ | thread <;> rfl
    · funext thread
      rcases thread with _ | _ | _ | thread <;> rfl
    · funext i
      rcases i with _ | _ | _ | i <;> rfl
  refine Runs.run_join start ?_
  induction rounds with
  | zero => rfl
  | succ rounds inductionHypothesis =>
    rw [List.replicate_succ, List.flatten_cons]
    exact Runs.run_join round inductionHypothesis

end PriorityScheduler

end WhistleDrivenRobot
