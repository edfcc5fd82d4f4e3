/-
This file is a small library about loops that work in place. A step of such a loop
reads and writes some places of a memory. When no two steps have a place in
common, the order of the steps is not seen: every place holds in the end what
its own step makes of the memory that the loop started with.
-/

import Mathlib.Logic.Function.Basic

namespace InPlace

variable {Place Value Index : Type}

/-- A step that leaves the places outside alone and whose results inside depend on the places inside
only. -/
structure Local (inside : Place → Prop) (step : (Place → Value) → Place → Value) : Prop where
  frame : ∀ cells place, ¬inside place → step cells place = cells place
  reads : ∀ cells other, (∀ place, inside place → cells place = other place) →
    ∀ place, inside place → step cells place = step other place

/-- Steps at the indices of a list, one after the other. -/
def run (step : Index → (Place → Value) → Place → Value) (indices : List Index)
    (cells : Place → Value) : Place → Value :=
  indices.foldl (fun cells index => step index cells) cells

theorem run_append (step : Index → (Place → Value) → Place → Value) (first second : List Index)
    (cells : Place → Value) :
    run step (first ++ second) cells = run step second (run step first cells) :=
  List.foldl_append

variable {inside : Index → Place → Prop} {step : Index → (Place → Value) → Place → Value}
  {indices : List Index}

/-- A place of no step keeps its value. -/
theorem run_frame (isLocal : ∀ index ∈ indices, Local (inside index) (step index))
    {place : Place} (untouched : ∀ index ∈ indices, ¬inside index place)
    (cells : Place → Value) : run step indices cells place = cells place := by
  induction indices generalizing cells with
  | nil => rfl
  | cons index rest inductionHypothesis =>
    have here := (isLocal index (List.mem_cons_self ..)).frame cells place
      (untouched index (List.mem_cons_self ..))
    refine (inductionHypothesis (fun index member => isLocal index (List.mem_cons_of_mem _ member))
      (fun index member => untouched index (List.mem_cons_of_mem _ member)) _).trans here

/-- A place of one step holds what this step makes of the first memory. -/
theorem run_apply (isLocal : ∀ index ∈ indices, Local (inside index) (step index))
    (disjoint : indices.Pairwise fun one other => ∀ place, inside one place → ¬inside other place)
    {index : Index} (member : index ∈ indices) {place : Place} (within : inside index place)
    (cells : Place → Value) : run step indices cells place = step index cells place := by
  induction indices generalizing cells with
  | nil => exact absurd member List.not_mem_nil
  | cons first rest inductionHypothesis =>
    have apart : ∀ other ∈ rest, ∀ place, inside first place → ¬inside other place :=
      fun other member => List.rel_of_pairwise_cons disjoint member
    have restLocal := fun index member => isLocal index (List.mem_cons_of_mem first member)
    rcases List.mem_cons.mp member with rfl | later
    · exact run_frame restLocal (fun other member => apart other member place within) _
    · have unchanged : ∀ place, inside index place → step first cells place = cells place :=
        fun place within => (isLocal first (List.mem_cons_self ..)).frame cells place
          fun there => apart index later place there within
      have own := inductionHypothesis restLocal disjoint.of_cons later (step first cells)
      exact own.trans ((restLocal index later).reads _ _ unchanged place within)

end InPlace
