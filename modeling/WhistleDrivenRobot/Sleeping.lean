/-
This file models how the threads of the transmitter's kernel sleep. A thread that
sleeps is in a list that is kept in the order of the wake-up times, and every tick
wakes the threads at the head of the list whose time is that very tick. A time that
has passed would never be woken, and would keep all behind it asleep; that no time
in the list has passed is the invariant that rules this out. So every thread wakes at
its tick, neither before nor behind it, whatever the others do.
-/

import Mathlib.Algebra.Order.Ring.Int
import Mathlib.Data.List.Nodup
import Mathlib.Logic.Function.Basic
import WhistleDrivenRobot.Runs

namespace WhistleDrivenRobot

/-! ### The list of the sleeping threads -/

/-- The entry of a thread that sleeps. -/
structure SleepData where
  p : Nat
  wakeup_time : Int
  deriving DecidableEq, Repr

/-- `sleep` holds the flag of each thread that says that it sleeps. -/
structure Sleepers where
  tick : Int
  sleeping_list : List SleepData
  sleep : Nat → Bool

namespace Sleepers

/-- The entry goes before the first one that is not earlier. -/
def place (x : SleepData) : List SleepData → List SleepData
  | [] => [x]
  | cur :: next =>
    if x.wakeup_time ≤ cur.wakeup_time then x :: cur :: next else cur :: place x next

def IRQaddToSleepingList (kernel : Sleepers) (x : SleepData) : Sleepers :=
  { kernel with
    sleep := Function.update kernel.sleep x.p true
    sleeping_list := place x kernel.sleeping_list }

/-- The loop of `IRQwakeThreads`, which ends at the first entry that is not woken. -/
def wakeLoop (tick : Int) : List SleepData → (Nat → Bool) → Bool →
    List SleepData × (Nat → Bool) × Bool
  | [], sleep, result => ([], sleep, result)
  | first :: next, sleep, result =>
    if tick ≠ first.wakeup_time then (first :: next, sleep, result)
    else wakeLoop tick next (Function.update sleep first.p false) true

/-- The kernel after a tick, and whether some thread was woken. -/
def IRQwakeThreads (kernel : Sleepers) : Sleepers × Bool :=
  let woken := wakeLoop (kernel.tick + 1) kernel.sleeping_list kernel.sleep false
  (⟨kernel.tick + 1, woken.1, woken.2.1⟩, woken.2.2)

def TICK_FREQ : UInt32 := 1000

/-- The ticks that `sleep` waits for; the product of unsigned numbers wraps. -/
def sleepTicks (ms : UInt32) : Nat :=
  if ms * TICK_FREQ / 1000 > 0 then (ms * TICK_FREQ / 1000).toNat else 1

/-- `Thread::sleep`, called by a thread. -/
def threadSleep (kernel : Sleepers) (thread : Nat) (ms : UInt32) : Sleepers :=
  if ms = 0 then kernel
  else kernel.IRQaddToSleepingList ⟨thread, kernel.tick + sleepTicks ms⟩

/-- `Thread::sleepUntil`, called by a thread. -/
def threadSleepUntil (kernel : Sleepers) (thread : Nat) (absoluteTime : Int) : Sleepers :=
  if absoluteTime ≤ kernel.tick then kernel
  else kernel.IRQaddToSleepingList ⟨thread, absoluteTime⟩

def boot : Sleepers where
  tick := 0
  sleeping_list := []
  sleep := fun _ => false

inductive SleepEvent
  | tick
  | sleep (thread : Nat) (ms : UInt32)
  | sleepUntil (thread : Nat) (absoluteTime : Int)
  deriving DecidableEq, Repr

/-- The thread that calls. -/
def SleepEvent.caller : SleepEvent → Option Nat
  | .tick => none
  | .sleep thread _ => some thread
  | .sleepUntil thread _ => some thread

/-- A thread whose flag is set is not chosen to run, so it calls nothing. -/
def step (kernel : Sleepers) : SleepEvent → Option Sleepers
  | .tick => some kernel.IRQwakeThreads.1
  | .sleep thread ms =>
    if kernel.sleep thread then none else some (kernel.threadSleep thread ms)
  | .sleepUntil thread absoluteTime =>
    if kernel.sleep thread then none else some (kernel.threadSleepUntil thread absoluteTime)

/-! ### Every time in the list is still to come -/

/-- The list is sorted, no time in it has passed, and the flags are those of its threads. -/
structure Timely (kernel : Sleepers) : Prop where
  sorted : kernel.sleeping_list.Pairwise fun one other => one.wakeup_time ≤ other.wakeup_time
  future : ∀ x ∈ kernel.sleeping_list, kernel.tick < x.wakeup_time
  once : (kernel.sleeping_list.map SleepData.p).Nodup
  flags : ∀ thread, kernel.sleep thread = true ↔ ∃ x ∈ kernel.sleeping_list, x.p = thread

theorem mem_place {x other : SleepData} {list : List SleepData} :
    other ∈ place x list ↔ other = x ∨ other ∈ list := by
  induction list with
  | nil => exact List.mem_singleton.trans (or_iff_left List.not_mem_nil).symm
  | cons cur next inductionHypothesis =>
    rw [place]
    split
    · exact List.mem_cons
    · rw [List.mem_cons, inductionHypothesis, List.mem_cons, or_left_comm]

theorem perm_place (x : SleepData) (list : List SleepData) : (place x list).Perm (x :: list) := by
  induction list with
  | nil => exact List.Perm.refl _
  | cons cur next inductionHypothesis =>
    rw [place]
    split
    · exact List.Perm.refl _
    · exact (inductionHypothesis.cons cur).trans (List.Perm.swap x cur next)

theorem sorted_place {x : SleepData} {list : List SleepData}
    (sorted : list.Pairwise fun one other => one.wakeup_time ≤ other.wakeup_time) :
    (place x list).Pairwise fun one other => one.wakeup_time ≤ other.wakeup_time := by
  induction list with
  | nil => exact List.pairwise_singleton _ _
  | cons cur next inductionHypothesis =>
    obtain ⟨least, rest⟩ := List.pairwise_cons.mp sorted
    rw [place]
    split
    · rename_i first
      refine List.pairwise_cons.mpr ⟨fun other member => ?_, sorted⟩
      rcases List.mem_cons.mp member with rfl | later
      · exact first
      · exact first.trans (least other later)
    · rename_i behind
      refine List.pairwise_cons.mpr ⟨fun other member => ?_, inductionHypothesis rest⟩
      rcases mem_place.mp member with rfl | later
      · exact (not_le.mp behind).le
      · exact least other later

/-- A thread that is awake may be put into the list for any time to come. -/
theorem Timely.add {kernel : Sleepers} (timely : Timely kernel) {x : SleepData}
    (awake : kernel.sleep x.p = false) (later : kernel.tick < x.wakeup_time) :
    Timely (kernel.IRQaddToSleepingList x) := by
  have absent : x.p ∉ kernel.sleeping_list.map SleepData.p := by
    intro member
    have asleep := (timely.flags x.p).mpr (List.mem_map.mp member)
    exact Bool.false_ne_true (awake.symm.trans asleep)
  refine ⟨sorted_place timely.sorted, fun other member => ?_, ?_, fun thread => ?_⟩
  · rcases mem_place.mp member with rfl | old
    · exact later
    · exact timely.future other old
  · exact ((perm_place x kernel.sleeping_list).map SleepData.p).nodup_iff.mpr
      (List.nodup_cons.mpr ⟨absent, timely.once⟩)
  · show Function.update kernel.sleep x.p true thread = true ↔ ∃ other ∈ place x _, _
    by_cases same : thread = x.p
    · subst same
      exact iff_of_true (Function.update_self _ _ _) ⟨x, mem_place.mpr (.inl rfl), rfl⟩
    · rw [Function.update_of_ne same, timely.flags]
      constructor
      · rintro ⟨other, member, named⟩
        exact ⟨other, mem_place.mpr (.inr member), named⟩
      · rintro ⟨other, member, named⟩
        rcases mem_place.mp member with rfl | old
        · exact absurd named.symm same
        · exact ⟨other, old, named⟩

/-- With a sorted list without times that have passed, the loop wakes exactly the threads whose time
it is. -/
theorem wakeLoop_eq {tick : Int} {list : List SleepData}
    (sorted : list.Pairwise fun one other => one.wakeup_time ≤ other.wakeup_time)
    (future : ∀ x ∈ list, tick ≤ x.wakeup_time) (sleep : Nat → Bool) (result : Bool) :
    (wakeLoop tick list sleep result).1 = list.filter (fun x => tick < x.wakeup_time) ∧
      ∀ thread, (wakeLoop tick list sleep result).2.1 thread = true ↔
        sleep thread = true ∧ ∀ x ∈ list, x.p = thread → x.wakeup_time ≠ tick := by
  induction list generalizing sleep result with
  | nil => exact ⟨rfl, fun thread => (and_iff_left nofun).symm⟩
  | cons first next inductionHypothesis =>
    obtain ⟨least, rest⟩ := List.pairwise_cons.mp sorted
    have here := future first List.mem_cons_self
    rw [wakeLoop]
    split
    · -- the head is still to come, and so are all behind it
      rename_i different
      have all : ∀ x ∈ first :: next, tick < x.wakeup_time := by
        intro x member
        have head : tick < first.wakeup_time := lt_of_le_of_ne here different
        rcases List.mem_cons.mp member with rfl | later
        · exact head
        · exact head.trans_le (least x later)
      refine ⟨(List.filter_eq_self.mpr fun x member => decide_eq_true (all x member)).symm,
        fun thread => ?_⟩
      exact (and_iff_left fun x member _ => (all x member).ne').symm
    · rename_i due
      have due : tick = first.wakeup_time := not_not.mp due
      obtain ⟨left, flags⟩ := inductionHypothesis rest
        (fun x member => future x (List.mem_cons_of_mem _ member))
        (Function.update sleep first.p false) true
      refine ⟨?_, fun thread => ?_⟩
      · rw [left, List.filter_cons_of_neg]
        rw [due]
        exact fun less => lt_irrefl _ (of_decide_eq_true less)
      · rw [flags, List.forall_mem_cons]
        by_cases same : thread = first.p
        · subst same
          rw [Function.update_self]
          exact iff_of_false (fun both => Bool.false_ne_true both.1)
            fun both => both.2.1 rfl due.symm
        · rw [Function.update_of_ne same]
          have other : first.p = thread → first.wakeup_time ≠ tick :=
            fun named => absurd named.symm same
          rw [and_iff_right other]

/-- A tick wakes the threads whose time it is. -/
theorem Timely.wake {kernel : Sleepers} (timely : Timely kernel) :
    Timely kernel.IRQwakeThreads.1 ∧
      kernel.IRQwakeThreads.1.sleeping_list =
        kernel.sleeping_list.filter (fun x => kernel.tick + 1 < x.wakeup_time) := by
  have future : ∀ x ∈ kernel.sleeping_list, kernel.tick + 1 ≤ x.wakeup_time :=
    fun x member => Int.add_one_le_iff.mpr (timely.future x member)
  obtain ⟨left, flags⟩ := wakeLoop_eq timely.sorted future kernel.sleep false
  refine ⟨⟨?_, ?_, ?_, fun thread => ?_⟩, left⟩
  · show List.Pairwise _ (wakeLoop _ _ _ _).1
    rw [left]
    exact timely.sorted.filter _
  · show ∀ x ∈ (wakeLoop _ _ _ _).1, _
    rw [left]
    exact fun x member => of_decide_eq_true (List.mem_filter.mp member).2
  · show ((wakeLoop _ _ _ _).1.map SleepData.p).Nodup
    rw [left]
    exact timely.once.sublist (List.filter_sublist.map SleepData.p)
  · show (wakeLoop _ _ _ _).2.1 thread = true ↔ ∃ x ∈ (wakeLoop _ _ _ _).1, x.p = thread
    rw [left, flags, timely.flags]
    constructor
    · rintro ⟨⟨x, member, named⟩, none⟩
      have later := lt_of_le_of_ne (future x member) (none x member named).symm
      exact ⟨x, List.mem_filter.mpr ⟨member, decide_eq_true later⟩, named⟩
    · rintro ⟨x, kept, named⟩
      obtain ⟨member, later⟩ := List.mem_filter.mp kept
      refine ⟨⟨x, member, named⟩, fun other otherMember otherNamed => ?_⟩
      -- a thread is in the list once
      have same : other = x := List.inj_on_of_nodup_map timely.once otherMember member
        (otherNamed.trans named.symm)
      rw [same]
      exact (of_decide_eq_true later).ne'

theorem sleepTicks_pos (ms : UInt32) : 0 < sleepTicks ms := by
  rw [sleepTicks]
  split
  · rename_i positive
    exact UInt32.lt_iff_toNat_lt.mp positive
  · exact Nat.one_pos

/-- The threads that a step adds to the list, if any. -/
theorem step_cases {kernel next : Sleepers} {event : SleepEvent}
    (taken : kernel.step event = some next) :
    (event = .tick ∧ next = kernel.IRQwakeThreads.1) ∨ (event ≠ .tick ∧ next = kernel) ∨
      ∃ x, event.caller = some x.p ∧ event ≠ .tick ∧ kernel.sleep x.p = false ∧
        kernel.tick < x.wakeup_time ∧ next = kernel.IRQaddToSleepingList x := by
  cases event with
  | tick => exact .inl ⟨rfl, (Option.some.inj taken).symm⟩
  | sleep thread ms =>
    rw [step, Option.ite_none_left_eq_some] at taken
    obtain ⟨awake, taken⟩ := taken
    obtain rfl := Option.some.inj taken
    rw [threadSleep]
    split
    · exact .inr (.inl ⟨nofun, rfl⟩)
    · refine .inr (.inr ⟨_, rfl, nofun, Bool.not_eq_true _ ▸ awake, ?_, rfl⟩)
      exact lt_add_of_pos_right _ (Int.natCast_pos.mpr (sleepTicks_pos ms))
  | sleepUntil thread absoluteTime =>
    rw [step, Option.ite_none_left_eq_some] at taken
    obtain ⟨awake, taken⟩ := taken
    obtain rfl := Option.some.inj taken
    rw [threadSleepUntil]
    split
    · exact .inr (.inl ⟨nofun, rfl⟩)
    · rename_i later
      exact .inr (.inr ⟨_, rfl, nofun, Bool.not_eq_true _ ▸ awake, not_le.mp later, rfl⟩)

theorem Timely.step {kernel next : Sleepers} {event : SleepEvent} (timely : Timely kernel)
    (taken : kernel.step event = some next) : Timely next := by
  rcases step_cases taken with ⟨-, rfl⟩ | ⟨-, rfl⟩ | ⟨x, -, -, awake, later, rfl⟩
  · exact timely.wake.1
  · exact timely
  · exact timely.add awake later

theorem timely_boot : Timely boot :=
  ⟨List.Pairwise.nil, nofun, List.nodup_nil, fun _ => iff_of_false nofun nofun⟩

/-! ### A thread and its wake-up time -/

/-- A thread sleeps up to a time, and is awake from that time on. -/
structure SleepsUntil (thread : Nat) (time : Int) (kernel : Sleepers) : Prop where
  timely : Timely kernel
  before : kernel.tick < time → ⟨thread, time⟩ ∈ kernel.sleeping_list
  after : time ≤ kernel.tick → kernel.sleep thread = false

theorem SleepsUntil.sleep_iff {thread : Nat} {time : Int} {kernel : Sleepers}
    (sleeps : SleepsUntil thread time kernel) :
    kernel.sleep thread = true ↔ kernel.tick < time := by
  constructor
  · intro asleep
    by_contra passed
    exact Bool.false_ne_true ((sleeps.after (not_lt.mp passed)).symm.trans asleep)
  · exact fun early => (sleeps.timely.flags thread).mpr ⟨_, sleeps.before early, rfl⟩

/-- What the other threads do changes nothing about a thread that sleeps. -/
theorem SleepsUntil.step {thread : Nat} {time : Int} {kernel next : Sleepers} {event : SleepEvent}
    (other : event.caller ≠ some thread) (sleeps : SleepsUntil thread time kernel)
    (taken : kernel.step event = some next) : SleepsUntil thread time next := by
  refine ⟨sleeps.timely.step taken, fun early => ?_, fun passed => ?_⟩
  · rcases step_cases taken with ⟨-, rfl⟩ | ⟨-, rfl⟩ | ⟨x, -, -, -, -, rfl⟩
    · have early : kernel.tick + 1 < time := early
      rw [sleeps.timely.wake.2]
      exact List.mem_filter.mpr
        ⟨sleeps.before ((lt_add_one _).trans early), decide_eq_true early⟩
    · exact sleeps.before early
    · exact mem_place.mpr (.inr (sleeps.before early))
  · rcases step_cases taken with ⟨-, rfl⟩ | ⟨-, rfl⟩ | ⟨x, named, -, -, -, rfl⟩
    · have passed : time ≤ kernel.tick + 1 := passed
      have wake := sleeps.timely.wake
      refine Bool.eq_false_iff.mpr fun asleep => ?_
      obtain ⟨x, kept, named⟩ := (wake.1.flags thread).mp asleep
      rw [wake.2] at kept
      obtain ⟨member, later⟩ := List.mem_filter.mp kept
      have still := sleeps.sleep_iff.mp ((sleeps.timely.flags thread).mpr ⟨x, member, named⟩)
      have same : x = ⟨thread, time⟩ :=
        List.inj_on_of_nodup_map sleeps.timely.once member (sleeps.before still) named
      rw [same] at later
      exact absurd (of_decide_eq_true later) (not_lt.mpr passed)
    · exact sleeps.after passed
    · have different : thread ≠ x.p := fun same => other (named.trans (congrArg some same.symm))
      exact (Function.update_of_ne different _ _).trans (sleeps.after passed)

/-- The clock counts the ticks. -/
theorem run_tick {kernel final : Sleepers} {events : List SleepEvent}
    (ran : Runs.run step kernel events = some final) :
    final.tick = kernel.tick + events.count .tick := by
  let counted : List SleepEvent → Sleepers → Prop := fun taken state =>
    state.tick = kernel.tick + taken.count .tick
  have keeps : ∀ taken state event next, counted taken state →
      state.step event = some next → counted (taken ++ [event]) next := by
    intro taken state event next so stepped
    have so : state.tick = kernel.tick + taken.count .tick := so
    show next.tick = kernel.tick + (taken ++ [event]).count .tick
    rw [List.count_append, Nat.cast_add, ← Int.add_assoc, ← so]
    rcases step_cases stepped with ⟨rfl, rfl⟩ | ⟨other, rfl⟩ | ⟨x, -, other, -, -, rfl⟩
    · rfl
    · rw [List.count_singleton, if_neg (by simpa using other)]
      exact (Int.add_zero _).symm
    · rw [List.count_singleton, if_neg (by simpa using other)]
      exact (Int.add_zero _).symm
  have start : counted [] kernel := (Int.add_zero _).symm
  exact Runs.run_history keeps start ran

/-- The ticks of a sleep are its milliseconds up to the largest number whose product fits. -/
theorem sleepTicks_eq_iff {ms : UInt32} (asked : ms ≠ 0) :
    sleepTicks ms = ms.toNat ↔ ms.toNat ≤ 4294967 := by
  have positive : ms.toNat ≠ 0 := fun zero => asked (UInt32.toNat_inj.mp zero)
  have product : (ms * TICK_FREQ / 1000).toNat = ms.toNat * 1000 % 2 ^ 32 / 1000 := by
    rw [UInt32.toNat_div, UInt32.toNat_mul]
    rfl
  have fits : ms.toNat ≤ 4294967 → ms.toNat * 1000 % 2 ^ 32 = ms.toNat * 1000 :=
    fun small => Nat.mod_eq_of_lt (by omega)
  rw [sleepTicks]
  split
  · rw [product]
    omega
  · rename_i short
    have zero : ms.toNat * 1000 % 2 ^ 32 / 1000 = 0 := by
      rw [← product]
      exact Nat.eq_zero_of_not_pos fun more => short (UInt32.lt_iff_toNat_lt.mpr more)
    omega

/-- In every run a thread that calls `sleep` sleeps up to its tick and not behind it, whatever the
other threads do; the tick is the number of milliseconds, unless that is so large that its product
wraps. -/
theorem sleeps_exactly {before after : List SleepEvent} {thread : Nat} {ms : UInt32}
    {final : Sleepers} (ran : Runs.run step boot (before ++ .sleep thread ms :: after) = some final)
    (asked : ms ≠ 0) (others : ∀ event ∈ after, event.caller ≠ some thread) :
    (final.sleep thread = true ↔ after.count .tick < sleepTicks ms) ∧
      (sleepTicks ms = ms.toNat ↔ ms.toNat ≤ 4294967) := by
  rw [Runs.run_append] at ran
  obtain ⟨state, ranBefore, ran⟩ := Option.bind_eq_some_iff.mp ran
  rw [Runs.run, List.foldlM_cons] at ran
  obtain ⟨asleep, taken, ranAfter⟩ := Option.bind_eq_some_iff.mp ran
  have timely : Timely state :=
    Runs.run_invariant (fun _ _ _ timely taken => timely.step taken) timely_boot ranBefore
  have start : SleepsUntil thread (state.tick + sleepTicks ms) asleep ∧
      asleep.tick = state.tick := by
    rw [step, Option.ite_none_left_eq_some, threadSleep, if_neg asked] at taken
    obtain ⟨awake, taken⟩ := taken
    obtain rfl := Option.some.inj taken
    have later : state.tick < state.tick + sleepTicks ms :=
      lt_add_of_pos_right _ (Int.natCast_pos.mpr (sleepTicks_pos ms))
    exact ⟨⟨timely.add (Bool.not_eq_true _ ▸ awake) later, fun _ => mem_place.mpr (.inl rfl),
      fun passed => absurd later (not_lt.mpr passed)⟩, rfl⟩
  have sleeps : SleepsUntil thread (state.tick + sleepTicks ms) final :=
    Runs.run_invariant_of_mem (fun event => event.caller ≠ some thread)
      (fun _ _ _ other sleeps taken => sleeps.step other taken) others start.1 ranAfter
  refine ⟨?_, sleepTicks_eq_iff asked⟩
  rw [sleeps.sleep_iff, run_tick ranAfter, start.2]
  exact Int.add_lt_add_iff_left _ |>.trans Int.ofNat_lt

/-- Two milliseconds, one of them over; another thread has gone to sleep meanwhile. -/
theorem sleeps_exactly_two : ∃ final,
    Runs.run step boot ([.tick] ++ .sleep 1 2 :: [.sleep 2 5, .tick]) = some final ∧
      (final.sleep 1 = true ↔
        [SleepEvent.sleep 2 5, SleepEvent.tick].count .tick < sleepTicks 2) ∧
      (sleepTicks 2 = (2 : UInt32).toNat ↔ (2 : UInt32).toNat ≤ 4294967) :=
  ⟨_, rfl, @sleeps_exactly [.tick] [.sleep 2 5, .tick] 1 2 _ rfl (by decide) (by decide)⟩

end Sleepers

end WhistleDrivenRobot
