/-
This file is a small library about circular lists of cells that point to each other.
A circle is described by its first cell and the cells behind it, in the order of the
pointers; the last one points to the first. The same cells are a circle from each of
them on.
-/

import Mathlib.Data.List.Chain
import Mathlib.Data.List.Nodup
import Mathlib.Logic.Function.Basic

namespace Circles

variable {Cell : Type}

/-- Each cell points to the one behind it, and the last one to the first. -/
structure Circle (next : Cell → Cell) (first : Cell) (rest : List Cell) : Prop where
  once : (first :: rest).Nodup
  linked : (first :: (rest ++ [first])).IsChain fun one other => next one = other

section Circle

variable {next changed : Cell → Cell} {first cell : Cell} {rest before after : List Cell}

/-- Cells in a row point where they did, if the last one is left aside. -/
theorem isChain_congr {list : List Cell} {last : Cell}
    (same : ∀ member ∈ list, changed member = next member)
    (linked : (list ++ [last]).IsChain fun one other => next one = other) :
    (list ++ [last]).IsChain fun one other => changed one = other := by
  obtain ⟨inner, -, ends⟩ := List.isChain_append.mp linked
  refine List.isChain_append.mpr ⟨inner.imp_of_mem_imp fun one other member _ points =>
    (same one member).trans points, List.isChain_singleton _, fun one member other isLast => ?_⟩
  exact (same one (List.mem_of_getLast? member)).trans (ends one member other isLast)

/-- A circle does not depend on where other cells point to. -/
theorem Circle.congr (circle : Circle next first rest)
    (same : ∀ member ∈ first :: rest, changed member = next member) :
    Circle changed first rest :=
  ⟨circle.once, @isChain_congr _ _ _ (first :: rest) _ same circle.linked⟩

/-- The circle from another of its cells on. -/
theorem Circle.turn (circle : Circle next first (before ++ cell :: after)) :
    Circle next cell (after ++ first :: before) := by
  obtain ⟨once, linked⟩ := circle
  rw [List.append_assoc, List.cons_append, List.isChain_cons_split] at linked
  refine ⟨?_, ?_⟩
  · have parts : (first :: (before ++ cell :: after)).Perm (cell :: (after ++ first :: before)) :=
      @List.perm_append_comm _ (first :: before) (cell :: after)
    exact parts.nodup_iff.mp once
  · rw [List.append_assoc, List.cons_append, List.isChain_cons_split]
    exact ⟨linked.2, linked.1⟩

/-- A circle from any of its cells on, the first one being the last of those that are walked. -/
theorem Circle.from (circle : Circle next first rest)
    (split : rest ++ [first] = before ++ cell :: after) : Circle next cell (after ++ before) := by
  rcases List.eq_nil_or_concat after with rfl | ⟨after, last, rfl⟩
  · obtain ⟨rfl, same⟩ := List.append_inj' split rfl
    obtain rfl := (List.cons.inj same).1
    exact circle
  · rw [List.concat_eq_append, ← List.cons_append, ← List.append_assoc] at split
    obtain ⟨rfl, same⟩ := List.append_inj' split rfl
    obtain rfl := (List.cons.inj same).1
    have turned := circle.turn
    rwa [← List.singleton_append, ← List.append_assoc, ← List.concat_eq_append] at turned

theorem Circle.next_first (circle : Circle next first (cell :: rest)) : next first = cell :=
  (List.isChain_cons_cons.mp circle.linked).1

theorem Circle.next_before (circle : Circle next first (before ++ cell :: after))
    {start : List Cell} {last : Cell} (ends : first :: before = start ++ [last]) :
    next last = cell := by
  have linked := circle.linked
  rw [List.append_assoc, ← List.cons_append, ends, List.append_assoc, List.singleton_append,
    List.cons_append, List.isChain_split] at linked
  exact (List.isChain_cons_cons.mp linked.2).1

theorem Circle.next_last (circle : Circle next first rest) {start : List Cell} {last : Cell}
    (ends : first :: rest = start ++ [last]) : next last = first := by
  have linked := circle.linked
  rw [← List.cons_append, ends, List.append_assoc, List.singleton_append,
    List.isChain_split] at linked
  exact (List.isChain_cons_cons.mp linked.2).1

/-- The only cell of a circle points to itself, and no other one does. -/
theorem Circle.alone_iff (circle : Circle next first rest) : next first = first ↔ rest = [] := by
  cases rest with
  | nil => exact iff_of_true (List.isChain_cons_cons.mp circle.linked).1 rfl
  | cons cell rest =>
    refine iff_of_false (fun same => ?_) nofun
    have here : first = cell := same.symm.trans circle.next_first
    exact (List.nodup_cons.mp circle.once).1 (here ▸ List.mem_cons_self)

variable [DecidableEq Cell]

theorem circle_single (next : Cell → Cell) (cell : Cell) :
    Circle (Function.update next cell cell) cell [] :=
  ⟨List.nodup_singleton cell, List.isChain_pair.mpr (Function.update_self _ _ _)⟩

/-- A new cell goes behind the first one. -/
theorem Circle.insert (circle : Circle next first rest) (new : cell ∉ first :: rest) :
    Circle (Function.update (Function.update next cell (next first)) first cell) first
      (cell :: rest) := by
  have different : cell ≠ first := fun same => new (same ▸ List.mem_cons_self)
  have absent : first ∉ rest := (List.nodup_cons.mp circle.once).1
  refine ⟨?_, ?_⟩
  · refine List.nodup_cons.mpr ⟨fun member => ?_, List.nodup_cons.mpr ⟨fun member => ?_,
      (List.nodup_cons.mp circle.once).2⟩⟩
    · rcases List.mem_cons.mp member with same | inside
      · exact different same.symm
      · exact absent inside
    · exact new (List.mem_cons_of_mem _ member)
  · have cells : ∀ member ∈ rest, Function.update (Function.update next cell (next first)) first
        cell member = next member := by
      intro member inside
      have apart : member ≠ first := fun same => absent (same ▸ inside)
      have older : member ≠ cell := fun same => new (same ▸ List.mem_cons_of_mem _ inside)
      rw [Function.update_of_ne apart, Function.update_of_ne older]
    obtain ⟨points, linked⟩ := List.isChain_cons.mp circle.linked
    rw [List.cons_append, List.isChain_cons_cons, List.isChain_cons]
    refine ⟨Function.update_self _ _ _, fun other head => ?_, isChain_congr cells linked⟩
    rw [Function.update_of_ne different, Function.update_self]
    exact points other head

/-- The cell before another one comes to point behind it. -/
theorem Circle.remove (circle : Circle next first (before ++ cell :: after)) {start : List Cell}
    {previous : Cell} (ends : first :: before = start ++ [previous]) :
    Circle (Function.update next previous (next cell)) first (before ++ after) := by
  obtain ⟨once, linked⟩ := circle
  have parts : ∀ list, first :: (before ++ list) = start ++ previous :: list := by
    intro list
    rw [← List.cons_append, ends, List.append_assoc]
    rfl
  rw [List.append_assoc, List.cons_append, parts, List.isChain_split,
    List.isChain_cons_cons, List.isChain_cons] at linked
  obtain ⟨inner, points, head, behind⟩ := linked
  have single : (start ++ previous :: (cell :: after)).Nodup := parts (cell :: after) ▸ once
  obtain ⟨-, last, apart⟩ := List.nodup_append.mp single
  have notStart : ∀ member ∈ start, member ≠ previous := fun member inside =>
    apart member inside previous List.mem_cons_self
  have notAfter : ∀ member ∈ after, member ≠ previous := fun member inside same =>
    (List.nodup_cons.mp last).1 (List.mem_cons_of_mem _ (same ▸ inside))
  refine ⟨?_, ?_⟩
  · refine once.sublist (List.Sublist.cons_cons _ ?_)
    exact (List.append_sublist_append_left before).mpr (List.sublist_cons_self _ _)
  · rw [List.append_assoc, parts, List.isChain_split, List.isChain_cons]
    refine ⟨isChain_congr (fun member inside => Function.update_of_ne (notStart member inside) _ _)
      inner, fun other isHead => ?_, isChain_congr
      (fun member inside => Function.update_of_ne (notAfter member inside) _ _) behind⟩
    rw [Function.update_self]
    exact head other isHead

/-- Without its first cell, a circle begins with the one behind it. -/
theorem Circle.removeFirst (circle : Circle next first (cell :: rest)) {start : List Cell}
    {last : Cell} (ends : cell :: rest = start ++ [last]) :
    Circle (Function.update next last cell) cell rest := by
  have turned : Circle next cell (rest ++ first :: []) :=
    @Circle.turn Cell next first cell [] rest circle
  have removed := turned.remove ends
  rwa [List.append_nil, circle.next_first] at removed

end Circle

/-! ### Walking along a circle -/

/-- Look for a cell that is accepted, up to the one that the walk began at; `none` when the fuel
does not last. -/
def search [DecidableEq Cell] (next : Cell → Cell) (accept : Cell → Bool) (stop : Cell) :
    Nat → Cell → Option (Option Cell)
  | 0, _ => none
  | fuel + 1, temp =>
    if accept temp then some (some temp)
    else if next temp = stop then some none
    else search next accept stop fuel (next temp)

/-- The walk finds the first cell that is accepted. -/
theorem search_eq [DecidableEq Cell] {next : Cell → Cell} {first : Cell} {rest : List Cell}
    (circle : Circle next first rest) (accept : Cell → Bool) {fuel : Nat}
    (enough : rest.length < fuel) :
    search next accept first fuel first = some ((first :: rest).find? accept) := by
  have walk : ∀ (later : List Cell) (temp : Cell) (fuel : Nat), first ∉ later →
      (temp :: (later ++ [first])).IsChain (fun one other => next one = other) →
      later.length < fuel →
      search next accept first fuel temp = some ((temp :: later).find? accept) := by
    intro later
    induction later with
    | nil =>
      intro temp fuel _ linked enough
      obtain ⟨fuel, rfl⟩ := Nat.exists_eq_add_one.mpr enough
      have points : next temp = first := (List.isChain_cons_cons.mp linked).1
      rw [search, if_pos points, List.find?_cons]
      cases accept temp <;> rfl
    | cons cell later inductionHypothesis =>
      intro temp fuel absent linked enough
      obtain ⟨fuel, rfl⟩ := Nat.exists_eq_add_one.mpr (Nat.zero_lt_of_lt enough)
      obtain ⟨points, linked⟩ := List.isChain_cons_cons.mp linked
      have other : next temp ≠ first := fun same =>
        absent ((points.symm.trans same) ▸ List.mem_cons_self)
      rw [search, if_neg other, points, inductionHypothesis cell fuel
        (fun member => absent (List.mem_cons_of_mem _ member)) linked
        (Nat.lt_of_succ_lt_succ enough), @List.find?_cons _ temp]
      cases accept temp <;> rfl
  exact walk rest first fuel (List.nodup_cons.mp circle.once).1 circle.linked enough

/-- From the cell behind the first one, the walk comes to the first one last. -/
theorem search_next [DecidableEq Cell] {next : Cell → Cell} {first : Cell} {rest : List Cell}
    (circle : Circle next first rest) (accept : Cell → Bool) {fuel : Nat}
    (enough : rest.length < fuel) :
    search next accept (next first) fuel (next first) =
      some ((rest ++ [first]).find? accept) := by
  cases rest with
  | nil =>
    rw [circle.alone_iff.mpr rfl]
    exact search_eq circle accept enough
  | cons cell rest =>
    rw [circle.next_first]
    have turned : Circle next cell (rest ++ [first]) :=
      @Circle.turn Cell next first cell [] rest circle
    refine search_eq turned accept ?_
    rw [List.length_append]
    exact enough

/-- Walk to the cell that points to a given one. -/
def previous [DecidableEq Cell] (next : Cell → Cell) (target : Cell) : Nat → Cell → Option Cell
  | 0, _ => none
  | fuel + 1, temp =>
    if next temp = target then some temp else previous next target fuel (next temp)

theorem previous_eq [DecidableEq Cell] {next : Cell → Cell} {target : Cell} {before : List Cell} :
    ∀ {temp : Cell} {fuel : Nat}, target ∉ before →
      (temp :: (before ++ [target])).IsChain (fun one other => next one = other) →
      before.length < fuel → ∃ start last, previous next target fuel temp = some last ∧
        temp :: before = start ++ [last] := by
  induction before with
  | nil =>
    intro temp fuel _ linked enough
    obtain ⟨fuel, rfl⟩ := Nat.exists_eq_add_one.mpr enough
    exact ⟨[], temp, if_pos (List.isChain_cons_cons.mp linked).1, rfl⟩
  | cons cell before inductionHypothesis =>
    intro temp fuel absent linked enough
    obtain ⟨fuel, rfl⟩ := Nat.exists_eq_add_one.mpr (Nat.zero_lt_of_lt enough)
    obtain ⟨points, linked⟩ := List.isChain_cons_cons.mp linked
    have other : next temp ≠ target := fun same =>
      absent ((points.symm.trans same) ▸ List.mem_cons_self)
    obtain ⟨start, last, found, ends⟩ := inductionHypothesis
      (fun member => absent (List.mem_cons_of_mem _ member)) linked (Nat.lt_of_succ_lt_succ enough)
    refine ⟨temp :: start, last, ?_, congrArg (temp :: ·) ends⟩
    rw [previous, if_neg other, points]
    exact found

end Circles
