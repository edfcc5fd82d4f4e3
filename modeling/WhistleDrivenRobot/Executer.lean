/-
This file models the receiver's hash map and the `Executer` that looks commands
up in it. The map is a plain array indexed by the remainder of the key, without
any check, so the array is modelled together with the memory around it: an index
is an integer and an object is a pointer that may be NULL. A `char` is a signed
byte, as on the AVR board. Looked up in the map that `fillHashMap` builds, the
lower-case letters, and the NUL that stands for the name of an empty command,
name exactly the five registered handlers and nothing else.
-/

import Mathlib.Tactic.SplitIfs
import WhistleDrivenRobot.Filler

namespace WhistleDrivenRobot

/-! ### The hash map -/

/-- `elements` is the memory seen from the array: the array is at the indices from `0` to
`size - 1`, and `none` is NULL. -/
structure IntegerHashMap (K : Type) where
  size : Int
  elements : Int → Option K

namespace IntegerHashMap

variable {K : Type}

/-- The constructor's loop: `elements[i] = NULL` for `i` from `count - 1` down to `0`. -/
def clearElements (elements : Int → Option K) : Nat → Int → Option K
  | 0 => elements
  | count + 1 => clearElements (Function.update elements count none) count

/-- The constructor, on whatever the memory holds. -/
def create (size : Int) (memory : Int → Option K) : IntegerHashMap K where
  size := size
  elements := clearElements memory size.toNat

def computeHash (map : IntegerHashMap K) (key : Int) : Int := key.tmod map.size

def get (map : IntegerHashMap K) (key : Int) : Option K := map.elements (map.computeHash key)

def containsKey (map : IntegerHashMap K) (key : Int) : Bool := (map.get key).isSome

def put (map : IntegerHashMap K) (key : Int) (object : Option K) : IntegerHashMap K :=
  { map with elements := Function.update map.elements (map.computeHash key) object }

theorem clearElements_apply (elements : Int → Option K) (count : Nat) (index : Int) :
    clearElements elements count index =
      if 0 ≤ index ∧ index < count then none else elements index := by
  induction count generalizing elements with
  | zero =>
    rw [if_neg (by omega)]
    rfl
  | succ count inductionHypothesis =>
    rw [clearElements, inductionHypothesis]
    by_cases last : index = count
    · subst last
      rw [Function.update_self, if_neg (by omega), if_pos (by omega)]
    · rw [Function.update_of_ne last]
      exact if_congr (by omega) rfl rfl

@[simp]
theorem size_create (size : Int) (memory : Int → Option K) : (create size memory).size = size := rfl

@[simp]
theorem size_put (map : IntegerHashMap K) (key : Int) (object : Option K) :
    (map.put key object).size = map.size := rfl

/-- A new map holds NULL at every index of its array. -/
theorem get_create_of_inside {size : Int} (memory : Int → Option K) {key : Int}
    (low : 0 ≤ key.tmod size) (high : key.tmod size < size) :
    (create size memory).get key = none := by
  show clearElements memory size.toNat (key.tmod size) = none
  rw [clearElements_apply, if_pos ⟨low, by omega⟩]

theorem get_create {size : Int} (memory : Int → Option K) {key : Int} (positive : 0 < size)
    (nonnegative : 0 ≤ key) : (create size memory).get key = none :=
  get_create_of_inside memory (Int.tmod_nonneg size nonnegative)
    (Int.tmod_lt_of_pos key positive)

theorem get_put (map : IntegerHashMap K) (key other : Int) (object : Option K) :
    (map.put key object).get other =
      if other.tmod map.size = key.tmod map.size then object else map.get other :=
  Function.update_apply _ _ _ _

end IntegerHashMap

/-! ### The commands map -/

def hashMapSize : Int := 50
def commandPosition : Nat := 0

/-- The `char` of a character literal of the source. -/
def ascii (literal : Char) : Int8 := Int8.ofNat literal.toNat

/-- `fillHashMap` on the map: the five registrations. Its pin calls are `fillHashMapCalls`. -/
def fillHashMap (map : IntegerHashMap Handler) : IntegerHashMap Handler :=
  let map := map.put (ascii 'f').toInt (some .forward)
  let map := map.put (ascii 'b').toInt (some .back)
  let map := map.put (ascii 'r').toInt (some .right)
  let map := map.put (ascii 'l').toInt (some .left)
  map.put (ascii 's').toInt (some .deactivateAll)

structure Executer where
  commandsMap : IntegerHashMap Handler

/-- The constructor of the `Executer`, on whatever the memory holds. -/
def Executer.create (memory : Int → Option Handler) : Executer where
  commandsMap := fillHashMap (IntegerHashMap.create hashMapSize memory)

/-- The `String` of the Arduino library, by its characters. -/
abbrev ArduinoString := List Int8

/-- `charAt` returns NUL past the end. -/
def charAt (string : ArduinoString) (position : Nat) : Int8 := string.getD position 0

/-- The handler that is called, if any. -/
def Executer.execute (executer : Executer) (string : ArduinoString) : Option Handler :=
  let commandName := charAt string commandPosition
  if executer.commandsMap.containsKey commandName.toInt then
    executer.commandsMap.get commandName.toInt
  else none

def Executer.optimizedExecute (executer : Executer) (c : Int8) : Option Handler :=
  if executer.commandsMap.containsKey c.toInt then executer.commandsMap.get c.toInt else none

/-- The handlers by the letters that name them. -/
def namedHandler (c : Int8) : Option Handler :=
  if c = ascii 'f' then some .forward
  else if c = ascii 'b' then some .back
  else if c = ascii 'r' then some .right
  else if c = ascii 'l' then some .left
  else if c = ascii 's' then some .deactivateAll
  else none

/-- A lower-case letter, the range that both receivers let through. -/
def LowerCase (c : Int8) : Prop := ascii 'a' ≤ c ∧ c ≤ ascii 'z'

instance (c : Int8) : Decidable (LowerCase c) := inferInstanceAs (Decidable (_ ∧ _))

theorem ascii_values : (ascii 'f').toInt = 102 ∧ (ascii 'b').toInt = 98 ∧
    (ascii 'r').toInt = 114 ∧ (ascii 'l').toInt = 108 ∧ (ascii 's').toInt = 115 := by
  decide

theorem LowerCase.range {c : Int8} (lower : LowerCase c) : 97 ≤ c.toInt ∧ c.toInt ≤ 122 :=
  ⟨Int8.le_iff_toInt_le.mp lower.1, Int8.le_iff_toInt_le.mp lower.2⟩

theorem get_commandsMap (memory : Int → Option Handler) {key : Int} (nonnegative : 0 ≤ key) :
    (Executer.create memory).commandsMap.get key =
      if key % 50 = 15 then some .deactivateAll
      else if key % 50 = 8 then some .left
      else if key % 50 = 14 then some .right
      else if key % 50 = 48 then some .back
      else if key % 50 = 2 then some .forward
      else none := by
  have empty : (IntegerHashMap.create 50 memory).get key = none :=
    IntegerHashMap.get_create memory (by decide) nonnegative
  simp only [Executer.create, fillHashMap, IntegerHashMap.get_put, IntegerHashMap.size_put,
    IntegerHashMap.size_create, empty, hashMapSize, Int.tmod_eq_emod_of_nonneg nonnegative,
    ascii_values]
  rfl

/-- Among the lower-case letters and NUL no two keys share a cell of the commands map. -/
theorem get_commandsMap_of_lowerCase (memory : Int → Option Handler) {c : Int8}
    (legible : LowerCase c ∨ c = 0) :
    (Executer.create memory).commandsMap.get c.toInt = namedHandler c := by
  have range : 97 ≤ c.toInt ∧ c.toInt ≤ 122 ∨ c.toInt = 0 :=
    legible.imp LowerCase.range fun zero => by rw [zero]; rfl
  have literal (k : Int8) : c = k ↔ c.toInt = k.toInt := Int8.toInt_inj.symm
  rw [get_commandsMap memory (by omega)]
  simp only [namedHandler, literal, ascii_values]
  split_ifs <;> first | rfl | omega

theorem ite_isSome_self {Value : Type} (value : Option Value) :
    (if value.isSome then value else none) = value := by
  cases value <;> rfl

theorem optimizedExecute_eq (memory : Int → Option Handler) {c : Int8} (lower : LowerCase c) :
    (Executer.create memory).optimizedExecute c = namedHandler c := by
  rw [Executer.optimizedExecute, IntegerHashMap.containsKey, ite_isSome_self,
    get_commandsMap_of_lowerCase memory (Or.inl lower)]

/-- A command runs the handler named by its first letter; the empty command runs none. -/
theorem execute_eq (memory : Int → Option Handler) {string : ArduinoString}
    (legible : LowerCase (charAt string 0) ∨ charAt string 0 = 0) :
    (Executer.create memory).execute string = namedHandler (charAt string 0) := by
  rw [Executer.execute, IntegerHashMap.containsKey, ite_isSome_self]
  exact get_commandsMap_of_lowerCase memory legible

end WhistleDrivenRobot
