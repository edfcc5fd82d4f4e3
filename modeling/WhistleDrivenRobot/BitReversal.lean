/-
This file proves what the in-place bit reversal does. Its rounds exchange the
places of an even index of the lower half with those of the reversed index: four
places when the index is the smaller of the two, and two in any case. Every pair of
places is met once, so each place ends with the value of its reversal.
-/

import WhistleDrivenRobot.Stages

namespace WhistleDrivenRobot

open InPlace Reversal

variable {Value : Type}

/-! ### Exchanges of complex values -/

/-- Two complex values are exchanged. -/
def pointSwap (points : Nat → Point Value) (i j : Nat) : Nat → Point Value :=
  Function.update (Function.update points i (points j)) j (points i)

theorem load_swapPoints (pSrc : Nat → Value) (i j : Nat) :
    load (swapPoints pSrc i j) = pointSwap (load pSrc) i j := by
  have real : ∀ place, swapPoints pSrc i j (2 * place) =
      (pointSwap (load pSrc) i j place).re := by
    intro place
    have odd : 2 * place ≠ 2 * i + 1 ∧ 2 * place ≠ 2 * j + 1 := by omega
    rw [swapPoints, swapValues, Function.update_of_ne odd.2, Function.update_of_ne odd.1,
      swapValues, pointSwap]
    by_cases second : place = j
    · rw [second, Function.update_self, Function.update_self, load]
    · rw [Function.update_of_ne (by omega), Function.update_of_ne second]
      by_cases first : place = i
      · rw [first, Function.update_self, Function.update_self, load]
      · rw [Function.update_of_ne (by omega), Function.update_of_ne first, load]
  have imaginary : ∀ place, swapPoints pSrc i j (2 * place + 1) =
      (pointSwap (load pSrc) i j place).im := by
    intro place
    have even : ∀ index, 2 * index + 1 ≠ 2 * i ∧ 2 * index + 1 ≠ 2 * j := by omega
    have untouched : ∀ index, swapValues pSrc (2 * i) (2 * j) (2 * index + 1) =
        pSrc (2 * index + 1) := by
      intro index
      rw [swapValues, Function.update_of_ne (even index).2, Function.update_of_ne (even index).1]
    rw [swapPoints, swapValues, pointSwap]
    by_cases second : place = j
    · rw [second, Function.update_self, Function.update_self, untouched, load]
    · rw [Function.update_of_ne (by omega), Function.update_of_ne second]
      by_cases first : place = i
      · rw [first, Function.update_self, Function.update_self, untouched, load]
      · rw [Function.update_of_ne (by omega), Function.update_of_ne first, untouched, load]
  funext place
  rw [load, real, imaginary]

theorem pointSwap_left (points : Nat → Point Value) (i j : Nat) :
    pointSwap points i j i = points j := by
  rw [pointSwap]
  by_cases same : i = j
  · rw [same, Function.update_self]
  · rw [Function.update_of_ne same, Function.update_self]

theorem pointSwap_right (points : Nat → Point Value) (i j : Nat) :
    pointSwap points i j j = points i := Function.update_self ..

theorem pointSwap_of_ne (points : Nat → Point Value) {i j place : Nat} (first : place ≠ i)
    (second : place ≠ j) : pointSwap points i j place = points place := by
  rw [pointSwap, Function.update_of_ne second, Function.update_of_ne first]

/-! ### One round -/

/-- A round on complex values, with half of the two even indices. -/
def pointRound (half number other : Nat) (points : Nat → Point Value) : Nat → Point Value :=
  let points :=
    if number < other then
      pointSwap (pointSwap points (2 * number) (2 * other)) (2 * number + half + 1)
        (2 * other + half + 1)
    else points
  pointSwap points (2 * number + 1) (2 * other + half)

theorem load_reversalRound (half number other : Nat) (pSrc : Nat → Value) :
    load (reversalRound half (2 * number) (2 * other) pSrc) =
      pointRound half number other (load pSrc) := by
  have test : 2 * number < 2 * other ↔ number < other := by omega
  rw [reversalRound, load_swapPoints, pointRound]
  simp only [test, ← Nat.add_assoc]
  split
  · rw [load_swapPoints, load_swapPoints]
  · rfl

/-- The places of a round. -/
def Exchanged (half number other place : Nat) : Prop :=
  (number < other ∧ (place = 2 * number ∨ place = 2 * other ∨ place = 2 * number + half + 1 ∨
    place = 2 * other + half + 1)) ∨ place = 2 * number + 1 ∨ place = 2 * other + half

/-- Where the places of a round are sent: each to the one that it is exchanged with. -/
structure Paired (half number other : Nat) (target : Nat → Nat) : Prop where
  even : half % 2 = 0
  low : 2 * number < half
  otherLow : 2 * other < half
  lower : target (2 * number) = 2 * other
  otherLower : target (2 * other) = 2 * number
  odd : target (2 * number + half + 1) = 2 * other + half + 1
  otherOdd : target (2 * other + half + 1) = 2 * number + half + 1
  mixed : target (2 * number + 1) = 2 * other + half
  otherMixed : target (2 * other + half) = 2 * number + 1

/-- A round gives every place the value of its target. -/
theorem pointRound_apply {half number other : Nat} {target : Nat → Nat}
    (paired : Paired half number other target) {place : Nat}
    (exchanged : Exchanged half number other place) (points : Nat → Point Value) :
    pointRound half number other points place = points (target place) := by
  obtain ⟨even, low, otherLow, lower, otherLower, odd, otherOdd, mixed, otherMixed⟩ := paired
  rcases exchanged with ⟨less, rfl | rfl | rfl | rfl⟩ | rfl | rfl
  · rw [pointRound, if_pos less, pointSwap_of_ne _ (by omega) (by omega),
      pointSwap_of_ne _ (by omega) (by omega), pointSwap_left, lower]
  · rw [pointRound, if_pos less, pointSwap_of_ne _ (by omega) (by omega),
      pointSwap_of_ne _ (by omega) (by omega), pointSwap_right, otherLower]
  · rw [pointRound, if_pos less, pointSwap_of_ne _ (by omega) (by omega), pointSwap_left,
      pointSwap_of_ne _ (by omega) (by omega), odd]
  · rw [pointRound, if_pos less, pointSwap_of_ne _ (by omega) (by omega), pointSwap_right,
      pointSwap_of_ne _ (by omega) (by omega), otherOdd]
  · rw [pointRound, pointSwap_left, mixed]
    split
    · rw [pointSwap_of_ne _ (by omega) (by omega), pointSwap_of_ne _ (by omega) (by omega)]
    · rfl
  · rw [pointRound, pointSwap_right, otherMixed]
    split
    · rw [pointSwap_of_ne _ (by omega) (by omega), pointSwap_of_ne _ (by omega) (by omega)]
    · rfl

/-- The target of a place of a round is a place of the round. -/
theorem Paired.exchanged {half number other : Nat} {target : Nat → Nat}
    (paired : Paired half number other target) {place : Nat}
    (exchanged : Exchanged half number other place) :
    Exchanged half number other (target place) := by
  rcases exchanged with ⟨less, rfl | rfl | rfl | rfl⟩ | rfl | rfl
  · exact .inl ⟨less, .inr (.inl paired.lower)⟩
  · exact .inl ⟨less, .inl paired.otherLower⟩
  · exact .inl ⟨less, .inr (.inr (.inr paired.odd))⟩
  · exact .inl ⟨less, .inr (.inr (.inl paired.otherOdd))⟩
  · exact .inr (.inr paired.mixed)
  · exact .inr (.inl paired.otherMixed)

theorem pointRound_frame {half number other place : Nat}
    (untouched : ¬Exchanged half number other place) (points : Nat → Point Value) :
    pointRound half number other points place = points place := by
  unfold Exchanged at untouched
  rw [pointRound, pointSwap_of_ne _ (by omega) (by omega)]
  split
  · rw [pointSwap_of_ne _ (by omega) (by omega), pointSwap_of_ne _ (by omega) (by omega)]
  · rfl

theorem local_pointRound {half number other : Nat} {target : Nat → Nat}
    (paired : Paired half number other target) :
    Local (Exchanged half number other)
      (pointRound half number other : (Nat → Point Value) → Nat → Point Value) where
  frame points place untouched := pointRound_frame untouched points
  reads points other same place exchanged := by
    rw [pointRound_apply paired exchanged, pointRound_apply paired exchanged,
      same _ (paired.exchanged exchanged)]

/-! ### The reversal of an index -/

section Reverses

variable {width number : Nat}

theorem reverse_even (fits : number < 2 ^ width) :
    reverse (width + 2) (2 * number) = 2 * reverse width number := by
  have top := reverse_top width number 0 Nat.two_pos fits
  rw [Nat.zero_mul, Nat.zero_add, Nat.add_zero] at top
  have low := reverse_append (width + 1) number 0 Nat.two_pos
  rwa [Nat.add_zero, Nat.zero_mul, Nat.zero_add, top] at low

theorem reverse_odd (fits : number < 2 ^ width) :
    reverse (width + 2) (2 * number + 1) = 2 * reverse width number + 2 ^ (width + 1) := by
  have top := reverse_top width number 0 Nat.two_pos fits
  rw [Nat.zero_mul, Nat.zero_add, Nat.add_zero] at top
  rw [reverse_append (width + 1) number 1 (by decide), top]
  omega

theorem reverse_even_upper (fits : number < 2 ^ width) :
    reverse (width + 2) (2 * number + 2 ^ (width + 1)) = 2 * reverse width number + 1 := by
  have top := reverse_top width number 1 (by decide) fits
  have low := reverse_append (width + 1) (1 * 2 ^ width + number) 0 Nat.two_pos
  have place : 2 * (1 * 2 ^ width + number) + 0 = 2 * number + 2 ^ (width + 1) := by ring
  rw [place, top] at low
  rw [low]
  omega

theorem reverse_odd_upper (fits : number < 2 ^ width) :
    reverse (width + 2) (2 * number + 2 ^ (width + 1) + 1) =
      2 * reverse width number + 2 ^ (width + 1) + 1 := by
  have top := reverse_top width number 1 (by decide) fits
  have low := reverse_append (width + 1) (1 * 2 ^ width + number) 1 (by decide)
  have place : 2 * (1 * 2 ^ width + number) + 1 = 2 * number + 2 ^ (width + 1) + 1 := by ring
  rw [place, top] at low
  rw [low]
  omega

end Reverses

/-! ### The loop -/

/-- What the table holds for a width: the reversals of the even indices, but for index zero. -/
def Reverses (width bitRevFactor : Nat) (pBitRevTab : Nat → Nat) : Prop :=
  ∀ number, number + 1 < 2 ^ width →
    pBitRevTab (number * bitRevFactor) = 2 * reverse width (number + 1)

theorem reversalLoop_eq_run {width bitRevFactor : Nat} {pBitRevTab : Nat → Nat}
    (table : Reverses width bitRevFactor pBitRevTab) (left : Nat) {number : Nat}
    (rounds : number + (left + 1) = 2 ^ width) (pSrc : Nat → Value) :
    load (reversalLoop (2 ^ (width + 1)) bitRevFactor pBitRevTab (2 * number)
        (2 * reverse width number) (number * bitRevFactor) pSrc) =
      run (fun number => pointRound (2 ^ (width + 1)) number (reverse width number))
        (List.range' number (left + 1)) (load pSrc) := by
  have half : 2 ^ (width + 1) = 2 * 2 ^ width := by ring
  have following : 2 * number + 2 = 2 * (number + 1) := by ring
  have further : number * bitRevFactor + bitRevFactor = (number + 1) * bitRevFactor := by ring
  rw [reversalLoop, if_pos (by omega), List.range'_succ]
  induction left generalizing number pSrc with
  | zero =>
    rw [reversalLoop, if_neg (by omega), load_reversalRound]
    rfl
  | succ left inductionHypothesis =>
    have here := table number (by omega)
    rw [following, here, further, reversalLoop, if_pos (by omega),
      inductionHypothesis (by omega) _ (by ring) (by ring), load_reversalRound, List.range'_succ]
    rfl

/-- Two rounds have no place in common. -/
theorem exchanged_disjoint {width number other place : Nat} (fits : number < 2 ^ width)
    (otherFits : other < 2 ^ width)
    (here : Exchanged (2 ^ (width + 1)) number (reverse width number) place)
    (there : Exchanged (2 ^ (width + 1)) other (reverse width other) place) : number = other := by
  have half : 2 ^ (width + 1) = 2 * 2 ^ width := by ring
  have back := reverse_reverse fits
  have otherBack := reverse_reverse otherFits
  have bound := reverse_lt width number
  have otherBound := reverse_lt width other
  have crossed : number = reverse width other → reverse width number = other :=
    fun same => by rw [same, otherBack]
  have crossedBack : reverse width number = other → number = reverse width other :=
    fun same => by rw [← same, back]
  have same : reverse width number = reverse width other → number = other :=
    reverse_injective fits otherFits
  unfold Exchanged at here there
  omega

theorem paired_reverse {width number : Nat} (fits : number < 2 ^ width) :
    Paired (2 ^ (width + 1)) number (reverse width number) (reverse (width + 2)) where
  even := by omega
  low := by omega
  otherLow := by
    have bound := reverse_lt width number
    omega
  lower := reverse_even fits
  otherLower := by rw [reverse_even (reverse_lt ..), reverse_reverse fits]
  odd := reverse_odd_upper fits
  otherOdd := by rw [reverse_odd_upper (reverse_lt ..), reverse_reverse fits]
  mixed := reverse_odd fits
  otherMixed := by rw [reverse_even_upper (reverse_lt ..), reverse_reverse fits]

/-- A place of no round is its own reversal. -/
theorem reverse_of_untouched {width place : Nat} (inside : place < 2 ^ (width + 2))
    (untouched : ∀ number < 2 ^ width,
      ¬Exchanged (2 ^ (width + 1)) number (reverse width number) place) :
    reverse (width + 2) place = place := by
  have half : 2 ^ (width + 1) = 2 * 2 ^ width := by ring
  have total : 2 ^ (width + 2) = 2 * 2 ^ (width + 1) := by ring
  obtain ⟨number, fits, classes⟩ : ∃ number < 2 ^ width, place = 2 * number ∨
      place = 2 * number + 1 ∨ place = 2 * number + 2 ^ (width + 1) ∨
        place = 2 * number + 2 ^ (width + 1) + 1 := by
    by_cases lower : place < 2 ^ (width + 1)
    · exact ⟨place / 2, by omega⟩
    · exact ⟨(place - 2 ^ (width + 1)) / 2, by omega⟩
  have bound := reverse_lt width number
  have here := untouched number fits
  have there := untouched (reverse width number) bound
  rw [reverse_reverse fits] at there
  unfold Exchanged at here there
  rcases classes with rfl | rfl | rfl | rfl
  · rw [reverse_even fits]
    omega
  · exact absurd (.inr (.inl rfl)) here
  · exact absurd (.inr (.inr rfl)) there
  · rw [reverse_odd_upper fits]
    omega

/-- The loop runs the rounds of all even indices of the lower half. -/
theorem armBitreversalF32_eq_run {width bitRevFactor : Nat} {pBitRevTab : Nat → Nat}
    (table : Reverses width bitRevFactor pBitRevTab) (pSrc : Nat → Value) :
    load (armBitreversalF32 pSrc (2 ^ (width + 2)) bitRevFactor pBitRevTab) =
      run (fun number => pointRound (2 ^ (width + 1)) number (reverse width number))
        (List.range (2 ^ width)) (load pSrc) := by
  obtain ⟨left, rounds⟩ : ∃ left, 0 + (left + 1) = 2 ^ width :=
    ⟨2 ^ width - 1, by have positive := Nat.two_pow_pos width; omega⟩
  have loop := reversalLoop_eq_run table left rounds pSrc
  have total : 2 ^ (width + 2) = 2 * 2 ^ (width + 1) := by ring
  have shifted : 2 ^ (width + 2) >>> 1 = 2 ^ (width + 1) := by
    rw [Nat.shiftRight_eq_div_pow]
    omega
  rw [reverse_zero, Nat.mul_zero, Nat.zero_mul] at loop
  rw [armBitreversalF32, shifted, loop, List.range_eq_range', ← rounds, Nat.zero_add]

theorem local_rounds (width : Nat) : ∀ number ∈ List.range (2 ^ width),
    Local (Exchanged (2 ^ (width + 1)) number (reverse width number))
      (pointRound (2 ^ (width + 1)) number (reverse width number) :
        (Nat → Point Value) → Nat → Point Value) :=
  fun _ member => local_pointRound (paired_reverse (List.mem_range.mp member))

/-- The reversal puts every complex value at the reversal of its place. -/
theorem armBitreversalF32_eq {width bitRevFactor : Nat} {pBitRevTab : Nat → Nat}
    (table : Reverses width bitRevFactor pBitRevTab) (pSrc : Nat → Value) {place : Nat}
    (inside : place < 2 ^ (width + 2)) :
    load (armBitreversalF32 pSrc (2 ^ (width + 2)) bitRevFactor pBitRevTab) place =
      load pSrc (reverse (width + 2) place) := by
  rw [armBitreversalF32_eq_run table]
  by_cases touched : ∃ number < 2 ^ width,
      Exchanged (2 ^ (width + 1)) number (reverse width number) place
  · obtain ⟨number, small, exchanged⟩ := touched
    have disjoint : (List.range (2 ^ width)).Pairwise fun one other => ∀ place,
        Exchanged (2 ^ (width + 1)) one (reverse width one) place →
          ¬Exchanged (2 ^ (width + 1)) other (reverse width other) place :=
      List.nodup_range.pairwise_of_forall_ne
        fun one oneMember other otherMember different place here there =>
          different (exchanged_disjoint (List.mem_range.mp oneMember)
            (List.mem_range.mp otherMember) here there)
    rw [run_apply (local_rounds width) disjoint (List.mem_range.mpr small) exchanged,
      pointRound_apply (paired_reverse small) exchanged]
  · have untouched : ∀ number < 2 ^ width,
        ¬Exchanged (2 ^ (width + 1)) number (reverse width number) place :=
      fun number small exchanged => touched ⟨number, small, exchanged⟩
    rw [run_frame (local_rounds width) fun number member =>
      untouched number (List.mem_range.mp member), reverse_of_untouched inside untouched]

/-- The reversal leaves what stands behind its values alone. -/
theorem armBitreversalF32_frame {width bitRevFactor : Nat} {pBitRevTab : Nat → Nat}
    (table : Reverses width bitRevFactor pBitRevTab) (pSrc : Nat → Value) {place : Nat}
    (behind : 2 ^ (width + 2) ≤ place) :
    load (armBitreversalF32 pSrc (2 ^ (width + 2)) bitRevFactor pBitRevTab) place =
      load pSrc place := by
  have half : 2 ^ (width + 1) = 2 * 2 ^ width := by ring
  have total : 2 ^ (width + 2) = 2 * 2 ^ (width + 1) := by ring
  rw [armBitreversalF32_eq_run table]
  refine run_frame (local_rounds width) (fun number member exchanged => ?_) _
  have small := List.mem_range.mp member
  have bound := reverse_lt width number
  unfold Exchanged at exchanged
  omega

/-! ### The table and the set-up -/

/-- The table holds the reversals of the numbers from one on. -/
theorem armBitRevTable_eq :
    armBitRevTable = (List.range 1024).map fun number => reverse 11 (number + 1) := by
  decide +kernel

/-- Every step through the table that the set-up picks meets the reversals for its length. -/
theorem reverses_armBitRevTable {stages : Nat} (short : stages ≤ 4) {start : Nat}
    (first : start + 1 = 4 ^ (4 - stages)) :
    Reverses (2 * stages + 2) (4 ^ (4 - stages)) fun place =>
      armBitRevTable.getD (start + place) 0 := by
  intro number inside
  have factor : 4 ^ (4 - stages) = 2 ^ (8 - 2 * stages) := by
    have exponent : 8 - 2 * stages = 2 * (4 - stages) := by omega
    rw [exponent]
    exact (pow_mul 2 2 _).symm
  have place : start + number * 4 ^ (4 - stages) + 1 = (number + 1) * 2 ^ (8 - 2 * stages) := by
    rw [← factor, Nat.add_mul, Nat.one_mul, ← first]
    omega
  have bound : (number + 1) * 2 ^ (8 - 2 * stages) < 1024 := by
    have total : 2 ^ (2 * stages + 2) * 2 ^ (8 - 2 * stages) = 1024 := by
      rw [← pow_add, show 2 * stages + 2 + (8 - 2 * stages) = 10 by omega]
      rfl
    rw [← total]
    exact Nat.mul_lt_mul_of_pos_right inside (Nat.two_pow_pos _)
  have width : 11 = 2 * stages + 3 + (8 - 2 * stages) := by omega
  have top := reverse_top (2 * stages + 2) (number + 1) 0 Nat.two_pos inside
  rw [Nat.zero_mul, Nat.zero_add, Nat.add_zero] at top
  show armBitRevTable.getD (start + number * 4 ^ (4 - stages)) 0 = _
  rw [armBitRevTable_eq, List.getD_eq_getElem?_getD, List.getElem?_map,
    List.getElem?_range (by omega), Option.map_some, Option.getD_some, place]
  exact (congrArg (reverse · _) width).trans ((reverse_scaled ..).trans top)

/-- What the set-up leaves in an instance for a length of four to the power of the stages. -/
structure Ready (twiddleCoef : Nat → Value) (fftLen : UInt16) (ifftFlag bitReverseFlag : UInt8)
    (stages : Nat) (S : CfftRadix4 Value) : Prop where
  short : stages ≤ 4
  requested : S.fftLen = fftLen
  length : S.fftLen.toNat = 4 ^ (stages + 2)
  modifier : S.twidCoefModifier.toNat = 4 ^ (4 - stages)
  factor : S.bitRevFactor.toNat = 4 ^ (4 - stages)
  table : S.pBitRevTable + 1 = 4 ^ (4 - stages)
  twiddles : S.pTwiddle = twiddleCoef
  direction : S.ifftFlag = ifftFlag
  ordered : S.bitReverseFlag = bitReverseFlag

/-- The set-up succeeds for the powers of four from 16 to 4096. -/
theorem ready_armCfftRadix4InitF32 [OfScientific Value] {twiddleCoef : Nat → Value}
    {S ready : CfftRadix4 Value} {fftLen : UInt16} {ifftFlag bitReverseFlag : UInt8}
    (succeeds : armCfftRadix4InitF32 twiddleCoef S fftLen ifftFlag bitReverseFlag =
      (.success, ready)) :
    ∃ stages, Ready twiddleCoef fftLen ifftFlag bitReverseFlag stages ready := by
  unfold armCfftRadix4InitF32 at succeeds
  dsimp only at succeeds
  split_ifs at succeeds with first second third fourth fifth <;>
    simp only [Prod.mk.injEq, reduceCtorEq, false_and, true_and] at succeeds <;> subst succeeds
  · exact ⟨4, by decide, rfl, congrArg UInt16.toNat first, rfl, rfl, rfl, rfl, rfl, rfl⟩
  · exact ⟨3, by decide, rfl, congrArg UInt16.toNat second, rfl, rfl, rfl, rfl, rfl, rfl⟩
  · exact ⟨2, by decide, rfl, congrArg UInt16.toNat third, rfl, rfl, rfl, rfl, rfl, rfl⟩
  · exact ⟨1, by decide, rfl, congrArg UInt16.toNat fourth, rfl, rfl, rfl, rfl, rfl, rfl⟩
  · exact ⟨0, by decide, rfl, congrArg UInt16.toNat fifth, rfl, rfl, rfl, rfl, rfl, rfl⟩

section Ready

variable {twiddleCoef : Nat → Value} {fftLen : UInt16} {ifftFlag bitReverseFlag : UInt8}
  {stages : Nat} {S : CfftRadix4 Value}

theorem Ready.whole (ready : Ready twiddleCoef fftLen ifftFlag bitReverseFlag stages S) :
    4 ^ (4 - stages) * 4 ^ (stages + 2) = 4096 := by
  rw [← pow_add, show 4 - stages + (stages + 2) = 6 by have short := ready.short; omega]
  rfl

theorem Ready.narrow (ready : Ready twiddleCoef fftLen ifftFlag bitReverseFlag stages S) :
    4 ^ (4 - stages) * 4 ^ (stages + 1) < 2 ^ 16 := by
  have whole := ready.whole
  have quarters : 4 ^ (4 - stages) * 4 ^ (stages + 2) = 4 ^ (4 - stages) * 4 ^ (stages + 1) * 4 := by
    ring
  omega

/-- The number of values as a power of two, the width of the reversals. -/
theorem Ready.width (ready : Ready twiddleCoef fftLen ifftFlag bitReverseFlag stages S) :
    S.fftLen.toNat = 2 ^ (2 * stages + 2 + 2) := by
  have exponent : 2 * stages + 2 + 2 = 2 * (stages + 2) := by ring
  rw [ready.length, exponent]
  exact (pow_mul 2 2 _).symm

theorem Ready.reverses (ready : Ready twiddleCoef fftLen ifftFlag bitReverseFlag stages S) :
    Reverses (2 * stages + 2) S.bitRevFactor.toNat fun place =>
      armBitRevTable.getD (S.pBitRevTable + place) 0 := by
  rw [ready.factor]
  exact reverses_armBitRevTable ready.short ready.table

/-- The transform leaves what stands behind its values alone, in any arithmetic. -/
theorem armCfftRadix4F32_frame [Add Value] [Sub Value] [Mul Value]
    (ready : Ready twiddleCoef fftLen ifftFlag bitReverseFlag stages S) (pSrc : Nat → Value)
    {place : Nat} (behind : S.fftLen.toNat ≤ place) :
    load (armCfftRadix4F32 S pSrc) place = load pSrc place := by
  have stagesBehind : 4 ^ (stages + 2) ≤ place := by rwa [← ready.length]
  have reversalBehind : 2 ^ (2 * stages + 2 + 2) ≤ place := by rwa [← ready.width]
  have butterflies : load (if S.ifftFlag = 1 then
        armRadix4ButterflyInverseF32 pSrc S.fftLen.toNat S.pTwiddle S.twidCoefModifier.toNat
          S.onebyfftLen
      else armRadix4ButterflyF32 pSrc S.fftLen.toNat S.pTwiddle S.twidCoefModifier.toNat) place =
      load pSrc place := by
    rw [ready.length, ready.modifier]
    split
    · exact radix4_frame _ _ ready.narrow pSrc stagesBehind
    · exact radix4_frame _ _ ready.narrow pSrc stagesBehind
  rw [armCfftRadix4F32]
  split
  · have table := ready.reverses
    rw [ready.width] at butterflies ⊢
    rw [armBitreversalF32_frame table _ reversalBehind]
    exact butterflies
  · exact butterflies

end Ready

end WhistleDrivenRobot
