/-
This file models the transcoder of the microphone driver: a cascade of
integrators that is fed every bit of a word, followed by a cascade of comb
stages that is fed the last integrator once per word. The registers are words of
sixteen bits and wrap around.
-/

import Mathlib.Data.List.Basic

namespace WhistleDrivenRobot

/-- `unsigned short` -/
abbrev Word := BitVec 16

def filterOrder : Nat := 4

/-- The static arrays `intReg` and `combReg`. -/
structure FilterRegs where
  intReg : List Word
  combReg : List Word
  intReg_length : intReg.length = filterOrder
  combReg_length : combReg.length = filterOrder
deriving DecidableEq

def FilterRegs.zero : FilterRegs where
  intReg := List.replicate filterOrder 0
  combReg := List.replicate filterOrder 0
  intReg_length := List.length_replicate
  combReg_length := List.length_replicate

def pdmLUT (bit : Bool) : Word := if bit then 1 else -1

/-- One round of the integrator loop: every register adds the one before it, already updated, and
the first one adds the input. -/
def integrate : Word → List Word → List Word
  | _, [] => []
  | input, reg :: rest => (reg + input) :: integrate (reg + input) rest

/-- The comb loop: `combRes` after the last stage, and the new registers. -/
def comb : Word → List Word → Word × List Word
  | combInput, [] => (combInput, [])
  | combInput, reg :: rest =>
    let (combRes, regs) := comb (combInput - reg) rest
    (combRes, combInput :: regs)

theorem length_integrate (input : Word) (regs : List Word) :
    (integrate input regs).length = regs.length := by
  induction regs generalizing input with
  | nil => rfl
  | cons reg rest inductionHypothesis =>
    rw [integrate, List.length_cons, inductionHypothesis, List.length_cons]

theorem length_comb (combInput : Word) (regs : List Word) :
    (comb combInput regs).2.length = regs.length := by
  induction regs generalizing combInput with
  | nil => rfl
  | cons reg rest inductionHypothesis =>
    rw [comb, List.length_cons, inductionHypothesis, List.length_cons]

/-- The bits of a word, most significant first. -/
def bits (word : Word) : List Bool :=
  (List.range 16).map fun i => word.getLsbD (15 - i)

def integrateBits (bits : List Bool) (intReg : List Word) : List Word :=
  bits.foldl (fun regs bit => integrate (pdmLUT bit) regs) intReg

theorem length_integrateBits (bits : List Bool) (intReg : List Word) :
    (integrateBits bits intReg).length = intReg.length := by
  induction bits generalizing intReg with
  | nil => rfl
  | cons bit rest inductionHypothesis =>
    exact (inductionHypothesis _).trans (length_integrate _ _)

/-- The PCM word that the filter returns on a PDM word, and its registers afterwards. -/
def PDMFilter (regs : FilterRegs) (word : Word) : Word × FilterRegs :=
  let intReg := integrateBits (bits word) regs.intReg
  let combInput := intReg.getD (filterOrder - 1) 0
  ((comb combInput regs.combReg).1,
    { intReg := intReg
      combReg := (comb combInput regs.combReg).2
      intReg_length := (length_integrateBits _ _).trans regs.intReg_length
      combReg_length := (length_comb _ _).trans regs.combReg_length })

end WhistleDrivenRobot
