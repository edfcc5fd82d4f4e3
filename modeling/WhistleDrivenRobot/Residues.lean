/-
This file says when the receiver's hash map is a map on residues. The index of a
key is its remainder, which has the sign of the key: below zero it lies in front
of the array. The map stays inside its array exactly when no key that it is used
with is negative, multiples of the size apart, and then it is a map on residues.
-/

import WhistleDrivenRobot.Executer

namespace WhistleDrivenRobot

namespace IntegerHashMap

variable {K : Type}

/-! ### The index of a key -/

/-- The keys whose remainder is not negative. -/
def Regular (size key : Int) : Prop := 0 ≤ key ∨ size ∣ key

theorem tmod_of_regular {size key : Int} (regular : Regular size key) :
    key.tmod size = key % size := by
  have divides : 0 ≤ key ∨ size ∣ key := regular
  rw [Int.tmod_eq_emod, if_pos divides]
  exact Int.sub_zero _

/-- A key has its index in the array exactly when it is regular. -/
theorem inside_iff {size : Int} (positive : 1 ≤ size) (key : Int) :
    (0 ≤ key.tmod size ∧ key.tmod size < size) ↔ Regular size key := by
  have below := Int.tmod_lt_of_pos key (show 0 < size by omega)
  rw [and_iff_left below]
  constructor
  · intro inside
    by_contra irregular
    have negative : ¬(0 ≤ key ∨ size ∣ key) := irregular
    rw [Int.tmod_eq_emod, if_neg negative] at inside
    have residue := Int.emod_lt_of_pos key (show 0 < size by omega)
    omega
  · intro regular
    rw [tmod_of_regular regular]
    exact Int.emod_nonneg key (by omega)

/-! ### Sequences of puts -/

def putAll (map : IntegerHashMap K) (puts : List (Int × Option K)) : IntegerHashMap K :=
  puts.foldl (fun map entry => map.put entry.1 entry.2) map

theorem putAll_concat (map : IntegerHashMap K) (puts : List (Int × Option K))
    (entry : Int × Option K) :
    map.putAll (puts ++ [entry]) = (map.putAll puts).put entry.1 entry.2 := by
  rw [putAll, List.foldl_append]
  rfl

theorem size_putAll (map : IntegerHashMap K) (puts : List (Int × Option K)) :
    (map.putAll puts).size = map.size := by
  induction puts using List.reverseRecOn with
  | nil => rfl
  | append_singleton puts entry inductionHypothesis =>
    rw [putAll_concat, size_put, inductionHypothesis]

/-- The object of the most recent put with a key of the same residue, NULL if there was none. -/
def latest (size key : Int) (puts : List (Int × Option K)) : Option K :=
  (puts.reverse.find? fun entry => entry.1 % size = key % size).bind Prod.snd

theorem latest_concat (size key : Int) (puts : List (Int × Option K)) (entry : Int × Option K) :
    latest size key (puts ++ [entry]) =
      if key % size = entry.1 % size then entry.2 else latest size key puts := by
  rw [latest, List.reverse_append, List.reverse_singleton, List.singleton_append,
    List.find?_cons]
  by_cases same : entry.1 % size = key % size
  · rw [if_pos same.symm, decide_eq_true same]
    rfl
  · rw [if_neg fun equal => same equal.symm, decide_eq_false same]
    rfl

/-- On regular keys a new map and its puts are a map on residues. -/
theorem get_putAll {size : Int} (positive : 1 ≤ size) (memory : Int → Option K)
    {puts : List (Int × Option K)} {key : Int} (regular : Regular size key)
    (regularPuts : ∀ entry ∈ puts, Regular size entry.1) :
    ((create size memory).putAll puts).get key = latest size key puts := by
  induction puts using List.reverseRecOn with
  | nil =>
    obtain ⟨low, high⟩ := (inside_iff positive key).mpr regular
    exact get_create_of_inside memory low high
  | append_singleton puts entry inductionHypothesis =>
    have last := regularPuts entry (List.mem_append_right puts (List.mem_singleton_self entry))
    rw [putAll_concat, get_put, size_putAll, size_create, latest_concat, tmod_of_regular regular,
      tmod_of_regular last, inductionHypothesis fun other member =>
        regularPuts other (List.mem_append_left [entry] member)]

/-! ### The laws of the map -/

/-- Every index that the puts and the look-up compute is in the array, and the look-up finds what
was put last with a key of the same residue. -/
structure MapsResidues (size : Int) (memory : Int → Option K) (puts : List (Int × Option K))
    (key : Int) : Prop where
  inside : ∀ used ∈ key :: puts.map Prod.fst,
    0 ≤ ((create size memory).putAll puts).computeHash used ∧
      ((create size memory).putAll puts).computeHash used < size
  get : ((create size memory).putAll puts).get key = latest size key puts
  containsKey : ((create size memory).putAll puts).containsKey key = true ↔
    latest size key puts ≠ none

theorem mapsResidues_iff {size : Int} (positive : 1 ≤ size) (memory : Int → Option K)
    (puts : List (Int × Option K)) (key : Int) :
    MapsResidues size memory puts key ↔
      ∀ used ∈ key :: puts.map Prod.fst, 0 ≤ used ∨ size ∣ used := by
  have hashes : ∀ used, ((create size memory).putAll puts).computeHash used = used.tmod size :=
    fun used => by rw [computeHash, size_putAll, size_create]
  constructor
  · intro maps used member
    have inside := maps.inside used member
    rw [hashes] at inside
    exact (inside_iff positive used).mp inside
  · intro regular
    have found : ((create size memory).putAll puts).get key = latest size key puts := by
      refine get_putAll positive memory (regular key List.mem_cons_self) fun entry member => ?_
      exact regular entry.1 (List.mem_cons_of_mem key (List.mem_map_of_mem member))
    refine ⟨fun used member => ?_, found, ?_⟩
    · rw [hashes]
      exact (inside_iff positive used).mpr (regular used member)
    · rw [containsKey, found, Option.isSome_iff_ne_none]

theorem mapsResidues_iff_letters :
    MapsResidues 50 (fun _ => none) [(102, some Handler.forward), (-50, none)] 2 ↔
      ∀ used ∈ (2 : Int) :: [((102 : Int), some Handler.forward), (-50, none)].map Prod.fst,
        0 ≤ used ∨ (50 : Int) ∣ used :=
  mapsResidues_iff (by decide) _ _ _

/-- What is put with a negative key is in front of the array, and a look-up with the same residue
does not find it. -/
theorem not_mapsResidues_negative :
    (create 50 fun _ => (none : Option Handler)).computeHash (-1) = -1 ∧
      ((create 50 fun _ => none).putAll [(-1, some Handler.forward)]).get 49 = none ∧
      latest 50 49 [(-1, some Handler.forward)] = some .forward ∧
      ¬MapsResidues 50 (fun _ => none) [(-1, some Handler.forward)] 49 := by
  refine ⟨by decide, by decide, by decide, fun maps => ?_⟩
  exact absurd (maps.inside (-1) (List.mem_cons_of_mem 49 List.mem_cons_self)).1 (by decide)

end IntegerHashMap

end WhistleDrivenRobot
