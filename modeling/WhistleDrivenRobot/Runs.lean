/-
This file is a small library about runs of a system with enabled and disabled
events. A system is a partial step function; a run is a list of events each of
which is enabled where it is taken. Two readings of a run are compared: a
property of every state the run visits, and a condition on every step it takes.
An invariant is carried over a run once and for all here, and so is the rule
that turns "the condition protects the property, and breaking the condition
breaks the property at once" into an equivalence between the two readings.
-/

import Mathlib.Data.List.Infix

namespace Runs

variable {State Event : Type} (step : State → Event → Option State)

/-! ### Runs and the states they visit -/

/-- Take the events in order; `none` when one of them is not enabled. -/
def run (start : State) (events : List Event) : Option State :=
  events.foldlM step start

/-- A state is reachable from `start` when some run ends in it. -/
def Reachable (start final : State) : Prop :=
  ∃ events, run step start events = some final

/-- Every state visited by the run, the first and the last one included, satisfies `property`. -/
def Always (property : State → Prop) (start : State) (events : List Event) : Prop :=
  ∀ taken, taken <+: events → ∀ state, run step start taken = some state → property state

/-- Every step of the run is taken in a state and on an event that satisfy `condition`. -/
def EachStep (condition : State → Event → Prop) (start : State) (events : List Event) : Prop :=
  ∀ taken event, taken ++ [event] <+: events →
    ∀ state, run step start taken = some state → condition state event

theorem run_append (start : State) (first second : List Event) :
    run step start (first ++ second) =
      (run step start first).bind fun middle => run step middle second :=
  List.foldlM_append

theorem run_concat (start : State) (events : List Event) (event : Event) :
    run step start (events ++ [event]) =
      (run step start events).bind fun last => step last event := by
  rw [run_append]
  exact congrArg (Option.bind _) (funext fun last => Option.bind_fun_some _)

variable {step}

/-- Two runs, the second from where the first ends. -/
theorem run_join {start middle final : State} {first second : List Event}
    (ranFirst : run step start first = some middle)
    (ranSecond : run step middle second = some final) :
    run step start (first ++ second) = some final := by
  rw [run_append, ranFirst]
  exact ranSecond

/-- A run that goes through has every one of its prefixes go through. -/
theorem exists_of_prefix {start final : State} {events taken : List Event}
    (ran : run step start events = some final) (early : taken <+: events) :
    ∃ state, run step start taken = some state := by
  obtain ⟨rest, rfl⟩ := early
  rw [run_append] at ran
  obtain ⟨state, ranTaken, -⟩ := Option.bind_eq_some_iff.mp ran
  exact ⟨state, ranTaken⟩

/-! ### Invariants -/

/-- What every step keeps about the events so far and the state they led to holds at the end of
every run. -/
theorem run_history {invariant : List Event → State → Prop}
    (keeps : ∀ before state event next, invariant before state →
      step state event = some next → invariant (before ++ [event]) next)
    {start final : State} {events : List Event} (initially : invariant [] start)
    (ran : run step start events = some final) : invariant events final := by
  induction events using List.reverseRecOn generalizing final with
  | nil => exact Option.some.inj ran ▸ initially
  | append_singleton before event inductionHypothesis =>
    rw [run_concat] at ran
    obtain ⟨state, ranBefore, taken⟩ := Option.bind_eq_some_iff.mp ran
    exact keeps before state event final (inductionHypothesis ranBefore) taken

/-- An invariant that every step keeps holds at the end of every run. -/
theorem run_invariant {invariant : State → Prop}
    (keeps : ∀ state event next, invariant state → step state event = some next → invariant next)
    {start final : State} {events : List Event} (initially : invariant start)
    (ran : run step start events = some final) : invariant final :=
  run_history (fun _ state event next => keeps state event next) initially ran

/-- When every step from a state that satisfies the invariant is defined and keeps it, every run is
defined. -/
theorem run_total {invariant : State → Prop}
    (total : ∀ state event, invariant state →
      ∃ next, step state event = some next ∧ invariant next)
    {start : State} (initially : invariant start) (events : List Event) :
    ∃ final, run step start events = some final ∧ invariant final := by
  induction events generalizing start with
  | nil => exact ⟨start, rfl, initially⟩
  | cons event events inductionHypothesis =>
    obtain ⟨next, stepped, carried⟩ := total start event initially
    obtain ⟨final, ran, kept⟩ := inductionHypothesis carried
    refine ⟨final, ?_, kept⟩
    rw [run, List.foldlM_cons, stepped]
    exact ran

theorem Reachable.invariant {invariant : State → Prop} {start final : State}
    (reachable : Reachable step start final) (initially : invariant start)
    (keeps : ∀ state event next, invariant state → step state event = some next → invariant next) :
    invariant final := by
  obtain ⟨events, ran⟩ := reachable
  exact run_invariant keeps initially ran

/-- The same for an invariant that only the steps on some of the events keep. -/
theorem run_invariant_of_mem {invariant : State → Prop} (allowed : Event → Prop)
    (keeps : ∀ state event next, allowed event → invariant state →
      step state event = some next → invariant next)
    {start final : State} {events : List Event} (only : ∀ event ∈ events, allowed event)
    (initially : invariant start) (ran : run step start events = some final) :
    invariant final := by
  let allowedSoFar : List Event → State → Prop := fun before state =>
    (∀ event ∈ before, allowed event) → invariant state
  have carried : allowedSoFar events final := by
    refine run_history ?_ (fun _ => initially) ran
    intro before state event next carried taken allowedAll
    refine keeps state event next (allowedAll event ?_) (carried fun other member => ?_) taken
    · exact List.mem_append_right before (List.mem_singleton_self event)
    · exact allowedAll other (List.mem_append_left [event] member)
  exact carried only

/-! ### Conditions on steps against properties of states -/

section Conditions

variable {carried property : State → Prop} {condition : State → Event → Prop}
variable {start final : State} {events : List Event}

/-- What the steps that meet the condition keep holds in every state of a run of such steps. -/
theorem always_of_eachStep
    (keeps : ∀ state event next, carried state → condition state event →
      step state event = some next → carried next)
    (initially : carried start) (each : EachStep step condition start events) :
    Always step carried start events := by
  intro taken
  induction taken using List.reverseRecOn with
  | nil =>
    intro _ state ran
    exact Option.some.inj ran ▸ initially
  | append_singleton before event inductionHypothesis =>
    intro early next ran
    rw [run_concat] at ran
    obtain ⟨state, ranBefore, taken⟩ := Option.bind_eq_some_iff.mp ran
    have shorter : before <+: events := (List.prefix_append before [event]).trans early
    exact keeps state event next (inductionHypothesis shorter state ranBefore)
      (each before event early state ranBefore) taken

theorem Always.mono (always : Always step carried start events)
    (implies : ∀ state, carried state → property state) : Always step property start events :=
  fun taken early state ran => implies state (always taken early state ran)

/-- When the steps that meet the condition carry what implies the property, and one that breaks the
condition breaks the property at once, the property holds all along a run exactly when all its
steps meet the condition. -/
theorem always_iff_eachStep (carried : State → Prop)
    (keeps : ∀ state event next, carried state → condition state event →
      step state event = some next → carried next)
    (implies : ∀ state, carried state → property state)
    (breaks : ∀ state event next, carried state → ¬ condition state event →
      step state event = some next → ¬ property next)
    (initially : carried start) (ran : run step start events = some final) :
    Always step property start events ↔ EachStep step condition start events := by
  constructor
  · intro always taken
    -- by induction on the length of the prefix: all the earlier steps met the condition
    induction h : taken.length using Nat.strongRecOn generalizing taken with
    | _ length inductionHypothesis =>
      intro event early state ranTaken
      by_contra broken
      obtain ⟨next, ranNext⟩ := exists_of_prefix ran early
      have took : step state event = some next := by
        rw [run_concat, ranTaken, Option.bind_some] at ranNext
        exact ranNext
      have shorter : taken <+: events := (List.prefix_append taken [event]).trans early
      have each : EachStep step condition start taken := by
        intro before earlier within
        refine inductionHypothesis before.length ?_ before rfl earlier (within.trans shorter)
        have bound := within.length_le
        rw [List.length_append, List.length_singleton] at bound
        omega
      have carries := always_of_eachStep keeps initially each taken (List.prefix_refl taken) state
        ranTaken
      exact breaks state event next carries broken took (always _ early next ranNext)
  · intro each
    exact (always_of_eachStep keeps initially each).mono implies

end Conditions

/-! ### Conditions on the steps of a given run -/

section Decisions

variable {condition : State → Event → Prop} {start : State} {event : Event} {events : List Event}

theorem eachStep_nil : EachStep step condition start [] :=
  fun taken event early => absurd (List.prefix_nil.mp early)
    (List.append_ne_nil_of_right_ne_nil taken (List.cons_ne_nil event []))

theorem eachStep_cons :
    EachStep step condition start (event :: events) ↔
      condition start event ∧ ∀ next ∈ step start event, EachStep step condition next events := by
  constructor
  · intro each
    refine ⟨each [] event ⟨events, rfl⟩ start rfl, fun next took taken other early state ran => ?_⟩
    refine each (event :: taken) other (List.cons_prefix_cons.mpr ⟨rfl, early⟩) state ?_
    rw [run, List.foldlM_cons, Option.mem_def.mp took]
    exact ran
  · rintro ⟨first, others⟩ (_ | ⟨head, taken⟩) other early state ran
    · obtain rfl := Option.some.inj ran
      obtain ⟨rfl, -⟩ := List.cons_prefix_cons.mp early
      exact first
    · obtain ⟨rfl, within⟩ := List.cons_prefix_cons.mp early
      rw [run, List.foldlM_cons] at ran
      obtain ⟨next, took, ranNext⟩ := Option.bind_eq_some_iff.mp ran
      exact others next took taken other within state ranNext

/-- A condition that can be decided on one step can be decided on the steps of a run. -/
def decideEachStep (decideStep : ∀ state event, Decidable (condition state event)) :
    ∀ start events, Decidable (EachStep step condition start events)
  | _, [] => isTrue eachStep_nil
  | start, event :: events =>
    haveI := decideStep start event
    haveI := fun next => decideEachStep decideStep next events
    decidable_of_iff _ eachStep_cons.symm

instance [∀ state event, Decidable (condition state event)] :
    Decidable (EachStep step condition start events) :=
  decideEachStep inferInstance start events

end Decisions

/-- What holds all along a run holds at its end. -/
theorem Always.final {property : State → Prop} {start final : State} {events : List Event}
    (always : Always step property start events) (ran : run step start events = some final) :
    property final :=
  always events (List.prefix_refl events) final ran

end Runs
