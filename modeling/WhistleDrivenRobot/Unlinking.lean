/-
This file says what the loops over the pointers do to the circles. A circle stands for
the queue of its threads in the order in which a search looks at them, the first one of
the list last. To take a thread out, the loops look for the one before it; to take the
dead ones out, they go once around.
-/

import Mathlib.Data.List.TakeWhile
import WhistleDrivenRobot.Threads

namespace WhistleDrivenRobot

open Circles

namespace PriorityScheduler

/-! ### The queues -/

/-- The threads of a list in the order in which a search looks at them. -/
def Queued (next : Nat → Nat) : Option Nat → List Nat → Prop
  | none, queue => queue = []
  | some first, queue => ∃ rest, Circle next first rest ∧ queue = rest ++ [first]

theorem Queued.nodup {next : Nat → Nat} {list : Option Nat} {queue : List Nat}
    (queued : Queued next list queue) : queue.Nodup := by
  cases list with
  | none => exact (show queue = [] from queued) ▸ List.nodup_nil
  | some first =>
    obtain ⟨rest, circle, rfl⟩ := queued
    exact (List.perm_append_singleton first rest).nodup_iff.mpr circle.once

/-- A search that stops at a thread puts it and those before it behind the others. -/
theorem Queued.rotate {next : Nat → Nat} {list : Option Nat} {before after : List Nat}
    {thread : Nat} (queued : Queued next list (before ++ thread :: after)) :
    Queued next (some thread) (after ++ before ++ [thread]) := by
  cases list with
  | none =>
    have empty : before ++ thread :: after = [] := queued
    exact absurd empty (List.append_ne_nil_of_right_ne_nil _ (List.cons_ne_nil _ _))
  | some first =>
    obtain ⟨rest, circle, split⟩ := queued
    exact ⟨after ++ before, circle.from split.symm, rfl⟩

theorem Queued.congr {next changed : Nat → Nat} {list : Option Nat} {queue : List Nat}
    (queued : Queued next list queue) (same : ∀ thread ∈ queue, changed thread = next thread) :
    Queued changed list queue := by
  cases list with
  | none => exact queued
  | some first =>
    obtain ⟨rest, circle, rfl⟩ := queued
    refine ⟨rest, circle.congr fun member inside => same member ?_, rfl⟩
    exact (List.perm_append_singleton first rest).mem_iff.mpr inside

theorem removeLoop_eq {next : Nat → Nat} {first thread : Nat} {before : List Nat} :
    ∀ {temp fuel : Nat}, first ∉ before → first ≠ thread → thread ∉ before →
      (temp :: (before ++ [thread])).IsChain (fun one other => next one = other) →
      removeLoop next first thread fuel temp =
        (previous next thread fuel temp).map fun last =>
          Function.update next last (next thread) := by
  induction before with
  | nil =>
    intro temp fuel _ different _ linked
    have points : next temp = thread := (List.isChain_cons_cons.mp linked).1
    cases fuel with
    | zero => rfl
    | succ fuel =>
      rw [removeLoop, previous, points, if_neg different.symm, if_pos rfl, if_pos rfl]
      rfl
  | cons cell before inductionHypothesis =>
    intro temp fuel absent different once linked
    obtain ⟨points, linked⟩ := List.isChain_cons_cons.mp linked
    obtain ⟨notFirst, absent⟩ := not_or.mp (List.mem_cons.not.mp absent)
    obtain ⟨notThread, once⟩ := not_or.mp (List.mem_cons.not.mp once)
    cases fuel with
    | zero => rfl
    | succ fuel =>
      rw [removeLoop, previous, points, if_neg (Ne.symm notFirst), if_neg (Ne.symm notThread),
        if_neg (Ne.symm notThread)]
      exact inductionHypothesis absent different once linked

/-- A thread was taken from a queue, and no other queue changed. -/
structure Unlinked (next : Nat → Nat) (queue : List Nat) (thread : Nat) (changed : Nat → Nat)
    (list : Option Nat) (rest : List Nat) : Prop where
  queued : Queued changed list rest
  parts : (thread :: rest).Perm queue
  same : ∀ other ∉ queue, changed other = next other

/-- Without the first thread, the list begins with the one behind it. -/
theorem unlink_first {next : Nat → Nat} {first fuel : Nat} {rest : List Nat}
    (circle : Circle next first rest) (enough : rest.length < fuel) :
    ∃ changed list left, unlink next fuel first first = some (changed, list) ∧
      Unlinked next (rest ++ [first]) first changed list left := by
  have shuffle := List.perm_append_singleton first rest
  rw [unlink, if_pos rfl]
  cases rest with
  | nil =>
    rw [if_pos (circle.alone_iff.mpr rfl)]
    exact ⟨next, none, [], rfl, rfl, List.Perm.refl _, fun _ _ => rfl⟩
  | cons cell rest =>
    obtain ⟨start, last, found, ends⟩ :=
      previous_eq (List.nodup_cons.mp circle.once).1 circle.linked enough
    have inQueue : last ∈ cell :: rest ++ [first] :=
      shuffle.mem_iff.mpr (ends ▸ List.mem_append_right _ List.mem_cons_self)
    cases start with
    | nil => exact absurd (List.cons.inj ends).2 (List.cons_ne_nil _ _)
    | cons _ start =>
      have removed := circle.removeFirst (List.cons.inj ends).2
      rw [if_neg fun alone => List.cons_ne_nil _ _ (circle.alone_iff.mp alone), found,
        circle.next_first]
      refine ⟨_, _, rest ++ [cell], rfl, ⟨rest, removed, rfl⟩, ?_, fun other outside => ?_⟩
      · exact ((List.perm_append_singleton cell rest).cons first).trans shuffle.symm
      · have apart : other ≠ last := fun same => outside (same ▸ inQueue)
        exact Function.update_of_ne apart _ _

/-- Without a thread behind it, the list begins with the same one. -/
theorem unlink_behind {next : Nat → Nat} {first thread fuel : Nat} {before after : List Nat}
    (circle : Circle next first (before ++ thread :: after)) (enough : before.length < fuel) :
    ∃ changed list left, unlink next fuel first thread = some (changed, list) ∧
      Unlinked next (before ++ thread :: after ++ [first]) thread changed list left := by
  obtain ⟨absent, single⟩ := List.nodup_cons.mp circle.once
  have once : thread ∉ before := fun member =>
    List.disjoint_of_nodup_append single member List.mem_cons_self
  have notBefore : first ∉ before := fun member => absent (List.mem_append_left _ member)
  have different : first ≠ thread := fun same =>
    absent (List.mem_append_right _ (same ▸ List.mem_cons_self))
  have linked := circle.linked
  rw [List.append_assoc, List.cons_append, ← List.cons_append, List.isChain_split] at linked
  obtain ⟨start, last, found, ends⟩ := previous_eq once linked.1 enough
  have inQueue : last ∈ before ++ thread :: after ++ [first] := by
    refine (List.perm_append_singleton first _).mem_iff.mpr ?_
    rw [← List.cons_append, ends]
    exact List.mem_append_left _ (List.mem_append_right _ List.mem_cons_self)
  rw [unlink, if_neg different, removeLoop_eq notBefore different once linked.1, found]
  refine ⟨_, _, before ++ after ++ [first], rfl, ⟨before ++ after, circle.remove ends, rfl⟩, ?_,
    fun other outside => ?_⟩
  · exact (List.perm_middle.append_right [first]).symm
  · have apart : other ≠ last := fun same => outside (same ▸ inQueue)
    exact Function.update_of_ne apart _ _

theorem Queued.unlink {next : Nat → Nat} {first thread fuel : Nat} {queue : List Nat}
    (queued : Queued next (some first) queue) (inside : thread ∈ queue)
    (enough : queue.length ≤ fuel) :
    ∃ changed list rest, unlink next fuel first thread = some (changed, list) ∧
      Unlinked next queue thread changed list rest := by
  obtain ⟨rest, circle, rfl⟩ := queued
  have fits : rest.length < fuel := by
    rw [List.length_append] at enough
    exact enough
  have place := (List.perm_append_singleton first rest).mem_iff.mp inside
  rcases List.mem_cons.mp place with rfl | behind
  · exact unlink_first circle fits
  · obtain ⟨before, after, rfl⟩ := List.append_of_mem behind
    rw [List.length_append] at fits
    exact unlink_behind circle (by omega)

/-! ### Dead threads -/

section Dead

variable {deleted : Nat → Bool} {next : Nat → Nat} {first : Nat} {rest : List Nat}

/-- The threads of a list from its first one on. -/
def Listed (next : Nat → Nat) : Option Nat → List Nat → Prop
  | none, threads => threads = []
  | some first, threads => ∃ rest, Circle next first rest ∧ threads = first :: rest

/-- The threads of a list were replaced by others of them; other lists did not change. -/
structure Left (next : Nat → Nat) (threads : List Nat) (changed : Nat → Nat) (list : Option Nat)
    (left : List Nat) : Prop where
  listed : Listed changed list left
  same : ∀ other ∉ threads, changed other = next other

/-- The first loop goes up to the first thread that is alive. -/
theorem removeFront_eq {fuel : Nat} {tail : Option Nat} (circle : Circle next first rest)
    (enough : rest.length < fuel)
    (known : ∀ last, tail = some last → ∃ start, first :: rest = start ++ [last]) :
    ∃ changed list, removeFront deleted fuel next tail first =
        some (changed, list, (first :: rest).takeWhile deleted) ∧
      Left next (first :: rest) changed list ((first :: rest).dropWhile deleted) := by
  induction rest generalizing next first fuel tail with
  | nil =>
    obtain ⟨fuel, rfl⟩ := Nat.exists_eq_add_one.mpr enough
    rw [removeFront]
    cases dead : deleted first with
    | true =>
      rw [if_pos rfl, if_pos (circle.alone_iff.mpr rfl), List.takeWhile_cons_of_pos dead,
        List.dropWhile_cons_of_pos dead]
      exact ⟨next, none, rfl, rfl, fun _ _ => rfl⟩
    | false =>
      have alive := Bool.eq_false_iff.mp dead
      rw [if_neg Bool.false_ne_true, List.takeWhile_cons_of_neg alive,
        List.dropWhile_cons_of_neg alive]
      exact ⟨next, some first, rfl, ⟨[], circle, rfl⟩, fun _ _ => rfl⟩
  | cons cell rest inductionHypothesis =>
    obtain ⟨fuel, rfl⟩ := Nat.exists_eq_add_one.mpr (Nat.zero_lt_of_lt enough)
    rw [removeFront]
    cases dead : deleted first with
    | true =>
      have found : ∃ last start, tail.or (previous next first (fuel + 1) first) = some last ∧
          first :: cell :: rest = start ++ [last] := by
        cases tail with
        | none =>
          obtain ⟨start, last, found, ends⟩ :=
            previous_eq (List.nodup_cons.mp circle.once).1 circle.linked enough
          exact ⟨last, start, found, ends⟩
        | some last =>
          obtain ⟨start, ends⟩ := known last rfl
          exact ⟨last, start, rfl, ends⟩
      obtain ⟨last, start, found, ends⟩ := found
      cases start with
      | nil => exact absurd (List.cons.inj ends).2 (List.cons_ne_nil _ _)
      | cons _ start =>
        have ends : cell :: rest = start ++ [last] := (List.cons.inj ends).2
        have inside : last ∈ cell :: rest := ends ▸ List.mem_append_right _ List.mem_cons_self
        obtain ⟨changed, list, ran, listed, same⟩ := @inductionHypothesis _ _ fuel (some last)
          (circle.removeFirst ends) (Nat.lt_of_succ_lt_succ enough)
          fun other known => ⟨start, Option.some.inj known ▸ ends⟩
        rw [if_pos rfl, if_neg fun alone => List.cons_ne_nil _ _ (circle.alone_iff.mp alone),
          found, circle.next_first, Option.bind_some, ran, List.takeWhile_cons_of_pos dead,
          List.dropWhile_cons_of_pos dead]
        refine ⟨changed, list, rfl, listed, fun other outside => ?_⟩
        have apart : other ≠ last := fun named =>
          outside (List.mem_cons_of_mem _ (named ▸ inside))
        exact (same other fun member => outside (List.mem_cons_of_mem _ member)).trans
          (Function.update_of_ne apart _ _)
    | false =>
      have alive := Bool.eq_false_iff.mp dead
      rw [if_neg Bool.false_ne_true, List.takeWhile_cons_of_neg alive,
        List.dropWhile_cons_of_neg alive]
      exact ⟨next, some first, rfl, ⟨cell :: rest, circle, rfl⟩, fun _ _ => rfl⟩

/-- The second loop keeps the threads that it has passed and those ahead that are alive. -/
theorem removeRest_eq {fuel temp : Nat} {passed start : List Nat}
    (circle : Circle next first (passed ++ rest)) (ends : first :: passed = start ++ [temp])
    (enough : rest.length < fuel) :
    ∃ changed, removeRest deleted first fuel next temp = some (changed, rest.filter deleted) ∧
      Circle changed first (passed ++ rest.filter (!deleted ·)) ∧
      ∀ other ∉ first :: (passed ++ rest), changed other = next other := by
  induction rest generalizing next passed start temp fuel with
  | nil =>
    obtain ⟨fuel, rfl⟩ := Nat.exists_eq_add_one.mpr enough
    rw [List.append_nil] at circle
    refine ⟨next, ?_, ?_, fun _ _ => rfl⟩
    · rw [removeRest, if_pos (circle.next_last ends)]
      rfl
    · rwa [List.filter_nil, List.append_nil]
  | cons cell rest inductionHypothesis =>
    obtain ⟨fuel, rfl⟩ := Nat.exists_eq_add_one.mpr (Nat.zero_lt_of_lt enough)
    have few : rest.length < fuel := Nat.lt_of_succ_lt_succ enough
    have different : cell ≠ first := fun same => (List.nodup_cons.mp circle.once).1
      (same ▸ List.mem_append_right _ List.mem_cons_self)
    have points := circle.next_before ends
    rw [removeRest, points, if_neg different]
    cases dead : deleted cell with
    | true =>
      obtain ⟨changed, ran, left, same⟩ :=
        inductionHypothesis (circle.remove ends) ends few
      have alive : ¬(!deleted cell) = true := by
        rw [dead]
        exact Bool.false_ne_true
      rw [if_pos rfl, ran, List.filter_cons_of_pos dead,
        @List.filter_cons_of_neg _ (!deleted ·) cell rest alive]
      refine ⟨changed, rfl, left, fun other outside => ?_⟩
      have inside : temp ∈ first :: passed := ends ▸ List.mem_append_right _ List.mem_cons_self
      have kept : ∀ thread, thread ∈ first :: (passed ++ rest) →
          thread ∈ first :: (passed ++ cell :: rest) := fun thread member =>
        (((List.sublist_cons_self cell rest).append_left passed).cons_cons first).subset member
      have apart : other ≠ temp := fun named =>
        outside (List.mem_append_left (cell :: rest) (named ▸ inside))
      exact (same other fun member => outside (kept other member)).trans
        (Function.update_of_ne apart _ _)
    | false =>
      have alive : (!deleted cell) = true := by
        rw [dead]
        rfl
      have circle : Circle next first (passed ++ [cell] ++ rest) := by
        rwa [List.append_assoc, List.singleton_append]
      obtain ⟨changed, ran, left, same⟩ := inductionHypothesis circle
        (show first :: (passed ++ [cell]) = (first :: passed) ++ [cell] from rfl) few
      rw [if_neg Bool.false_ne_true, List.filter_cons_of_neg (Bool.eq_false_iff.mp dead),
        @List.filter_cons_of_pos _ (!deleted ·) cell rest alive]
      rw [List.append_assoc, List.singleton_append] at left same
      exact ⟨changed, ran, left, same⟩

/-- Both loops together: the threads that are alive stay in their order. -/
theorem removeDead_eq {fuel : Nat} (circle : Circle next first rest)
    (enough : rest.length < fuel) :
    ∃ changed list, removeDead deleted fuel next first =
        some (changed, list, (first :: rest).filter deleted) ∧
      Left next (first :: rest) changed list ((first :: rest).filter (!deleted ·)) := by
  obtain ⟨changed, list, ran, listed, same⟩ :=
    @removeFront_eq deleted next first rest fuel none circle enough nofun
  have parts := @List.takeWhile_append_dropWhile _ deleted (first :: rest)
  have dead : ∀ thread ∈ (first :: rest).takeWhile deleted, deleted thread = true :=
    fun thread member => List.mem_takeWhile_imp member
  have front : ((first :: rest).takeWhile deleted).filter deleted =
      (first :: rest).takeWhile deleted := List.filter_eq_self.mpr dead
  have noneAlive : ((first :: rest).takeWhile deleted).filter (!deleted ·) = [] := by
    refine List.filter_eq_nil_iff.mpr fun thread member => ?_
    rw [dead thread member]
    exact Bool.false_ne_true
  rw [removeDead, ran, Option.bind_some]
  dsimp only
  cases list with
  | none =>
    have empty : (first :: rest).dropWhile deleted = [] := listed
    rw [empty, List.append_nil] at parts
    rw [parts] at front noneAlive
    rw [front, noneAlive, parts]
    exact ⟨changed, none, rfl, rfl, same⟩
  | some head =>
    obtain ⟨behind, headCircle, split⟩ := listed
    have alive := @List.head_dropWhile_not _ deleted (first :: rest) (by rw [split]; nofun)
    simp only [split, List.head_cons] at alive
    have aliveHead : (!deleted head) = true := by
      rw [alive]
      rfl
    rw [split] at parts
    have wholeDead : (first :: rest).filter deleted =
        (first :: rest).takeWhile deleted ++ behind.filter deleted := by
      conv_lhs => rw [← parts, List.filter_append, front]
      rw [List.filter_cons_of_neg (Bool.eq_false_iff.mp alive)]
    have wholeAlive : (first :: rest).filter (!deleted ·) =
        head :: behind.filter (!deleted ·) := by
      conv_lhs => rw [← parts, List.filter_append, noneAlive, List.nil_append]
      rw [@List.filter_cons_of_pos _ (!deleted ·) head behind aliveHead]
    have few : behind.length < fuel := by
      have length := congrArg List.length parts
      rw [List.length_append, List.length_cons, List.length_cons] at length
      omega
    obtain ⟨last, ranRest, left, sameRest⟩ :=
      @removeRest_eq deleted changed head behind fuel head [] [] headCircle rfl few
    dsimp only
    rw [ranRest, wholeDead, wholeAlive]
    refine ⟨last, some head, rfl, ⟨_, left, rfl⟩, fun other outside => ?_⟩
    have kept : ∀ thread, thread ∈ head :: behind → thread ∈ first :: rest := fun thread member =>
      parts ▸ List.mem_append_right _ member
    exact (sameRest other fun member => outside (kept other member)).trans (same other outside)

/-- The dead threads of a queue are taken from it, and no other queue changes. -/
theorem Queued.removeDead {queue : List Nat} {fuel : Nat} (queued : Queued next (some first) queue)
    (enough : queue.length ≤ fuel) :
    ∃ changed list freed left, removeDead deleted fuel next first = some (changed, list, freed) ∧
      Queued changed list left ∧ (∀ thread, thread ∈ freed ↔ thread ∈ queue ∧ deleted thread) ∧
      (∀ thread, thread ∈ left ↔ thread ∈ queue ∧ ¬deleted thread) ∧
      ∀ other ∉ queue, changed other = next other := by
  obtain ⟨rest, circle, rfl⟩ := queued
  have members : ∀ thread, thread ∈ rest ++ [first] ↔ thread ∈ first :: rest := fun thread =>
    (List.perm_append_singleton first rest).mem_iff
  have fits : rest.length < fuel := by
    rw [List.length_append] at enough
    exact enough
  obtain ⟨changed, list, ran, listed, same⟩ :=
    @removeDead_eq deleted next first rest fuel circle fits
  have queuedLeft : ∃ left, Queued changed list left ∧
      ∀ thread, thread ∈ left ↔ thread ∈ (first :: rest).filter (!deleted ·) := by
    cases list with
    | none => exact ⟨_, listed, fun _ => Iff.rfl⟩
    | some head =>
      obtain ⟨behind, headCircle, split⟩ := listed
      refine ⟨behind ++ [head], ⟨behind, headCircle, rfl⟩, fun thread => ?_⟩
      rw [split]
      exact (List.perm_append_singleton head behind).mem_iff
  obtain ⟨left, queuedLeft, kept⟩ := queuedLeft
  refine ⟨changed, list, _, left, ran, queuedLeft, fun thread => ?_, fun thread => ?_,
    fun other outside => same other fun member => outside ((members other).mpr member)⟩
  · rw [members, List.mem_filter]
  · rw [members, kept, List.mem_filter, Bool.not_eq_true', Bool.not_eq_true]

end Dead

end PriorityScheduler

end WhistleDrivenRobot
