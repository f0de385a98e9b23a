import CodeGraph.Number.Shortest
import CodeGraph.Proofs.Count

/-!
# Whole numbers

A whole number below `2 ^ 53` is so far apart from its neighbours that a decimal without places behind the
point rounds to it only if it is equal (`Binary64.IsWhole.eq_of_admits`). So the decimal of fewest digits
that rounds to it has none either, and is the number itself (`Binary64.IsWhole.shortest_eq`).
-/

namespace CodeGraph

namespace Binary64

/-! ## The fields of a number -/

theorem fractionField_lt (x : Binary64) : x.fractionField < fractionSize :=
  Nat.mod_lt _ (by decide)

theorem significand_lt (x : Binary64) : x.significand < 2 * fractionSize := by
  have := x.fractionField_lt
  unfold significand
  split <;> omega

theorem le_significand {x : Binary64} (normal : x.exponentField ≠ 0) :
    fractionSize ≤ x.significand := by
  rw [significand, if_neg normal]
  exact Nat.le_add_right _ _

/-- The bits of a number below its sign. -/
theorem mod_signBit (x : Binary64) :
    x.bits.toNat % signBit = x.exponentField * fractionSize + x.fractionField := by
  simp only [exponentField, fractionField, signBit, fractionSize]
  omega

theorem units_lt_of_exponentField_lt {x y : Binary64} (less : x.exponentField < y.exponentField) :
    x.units < y.units := by
  have top : fractionSize * 2 ^ y.place ≤ y.units :=
    Nat.mul_le_mul_right _ (le_significand (Nat.ne_of_gt (Nat.zero_lt_of_lt less)))
  refine Nat.lt_of_lt_of_le ?_ top
  by_cases subnormal : x.exponentField = 0
  · have bottom : x.units = x.fractionField := by
      rw [units, significand, if_pos subnormal, place, subnormal]
      exact Nat.mul_one _
    rw [bottom]
    exact Nat.lt_of_lt_of_le x.fractionField_lt (Nat.le_mul_of_pos_right _ (Nat.pow_pos (by decide)))
  · calc x.units < 2 * fractionSize * 2 ^ x.place :=
          Nat.mul_lt_mul_of_pos_right x.significand_lt (Nat.pow_pos (by decide))
      _ = fractionSize * 2 ^ (x.place + 1) := by
          rw [Nat.pow_succ, Nat.mul_comm 2 fractionSize, Nat.mul_assoc, Nat.mul_comm 2]
      _ ≤ fractionSize * 2 ^ y.place := by
          refine Nat.mul_le_mul_left _ (Nat.pow_le_pow_right (by decide) ?_)
          simp only [place]
          omega

/-- The magnitude of a number tells its bits below the sign. -/
theorem mod_signBit_of_units {x y : Binary64} (same : x.units = y.units) :
    x.bits.toNat % signBit = y.bits.toNat % signBit := by
  have exponent : x.exponentField = y.exponentField := by
    rcases Nat.lt_trichotomy x.exponentField y.exponentField with less | equal | more
    · exact absurd same (Nat.ne_of_lt (units_lt_of_exponentField_lt less))
    · exact equal
    · exact absurd same.symm (Nat.ne_of_lt (units_lt_of_exponentField_lt more))
  have place : x.place = y.place := by rw [Binary64.place, Binary64.place, exponent]
  have significand : x.significand = y.significand := by
    rw [units, units, place] at same
    exact Nat.eq_of_mul_eq_mul_right (Nat.pow_pos (by decide)) same
  have fraction : x.fractionField = y.fractionField := by
    rw [Binary64.significand, Binary64.significand, exponent] at significand
    split at significand <;> omega
  rw [mod_signBit, mod_signBit, exponent, fraction]

/-- A finite number is the number of its sign and of its magnitude. -/
theorem withSign_of_units {x y : Binary64} (finite : x.isFinite = true) (same : y.units = x.units) :
    y.withSign x.isNegative = x := by
  have magnitude : y.bits.toNat % signBit ≤ infinityBits := by
    have fields := x.mod_signBit
    have fraction := x.fractionField_lt
    have exponent : x.exponentField < 2047 := by
      have bound : x.exponentField < 2048 := Nat.mod_lt _ (by decide)
      have other : x.exponentField ≠ 2047 := by simpa [isFinite] using finite
      omega
    rw [mod_signBit_of_units same, fields]
    simp only [infinityBits, fractionSize] at fraction ⊢
    omega
  have word := x.bits.toNat_lt
  have bits : x.bits.toNat = (if x.isNegative then signBit else 0) + y.bits.toNat % signBit := by
    rw [mod_signBit_of_units same]
    by_cases negative : signBit ≤ x.bits.toNat
    · rw [isNegative, decide_eq_true negative, if_pos rfl]
      simp only [signBit] at negative ⊢
      omega
    · rw [isNegative, decide_eq_false negative, if_neg (by decide)]
      simp only [signBit] at negative ⊢
      omega
  obtain ⟨xbits⟩ := x
  unfold withSign ofMagnitude
  rw [Nat.min_eq_left magnitude, ← bits]
  simp

/-! ## Quotients -/

theorem nearestQuotient_mul {factor : Nat} (positive : 0 < factor) (num den : Nat) :
    nearestQuotient (factor * num) (factor * den) = nearestQuotient num den := by
  unfold nearestQuotient
  simp only [Nat.mul_div_mul_left _ _ positive, Nat.mul_mod_mul_left]
  have scaled (a b : Nat) : factor * a < factor * b ↔ a < b := Nat.mul_lt_mul_left positive
  rw [Nat.mul_left_comm 2 factor]
  simp only [scaled]

/-- A factor of both sides of a quotient does not change its rounding. -/
theorem ofRatio_mul {factor : Nat} (positive : 0 < factor) (negative : Bool) (num den : Nat) :
    ofRatio negative (factor * num) (factor * den) = ofRatio negative num den := by
  unfold ofRatio
  simp only [Nat.mul_assoc, Nat.mul_div_mul_left _ _ positive, nearestQuotient_mul positive]

/-! ## Decimals -/

theorem admits_of_onGrid? {x : Binary64} {c : Nat} {k : Int} (found : x.onGrid? k = some c) :
    x.admits c k = true := by
  unfold onGrid? at found
  simp only at found
  generalize nearestQuotient _ _ = near at found
  generalize (if near = _ then _ else _) = far at found
  split at found
  · obtain rfl := Option.some.inj found
    assumption
  · split at found
    · obtain rfl := Option.some.inj found
      assumption
    · cases found

/-- Zeros behind the digits of a number. -/
theorem toDigits_mul_pow {n : Nat} (positive : 0 < n) (zeros : Nat) :
    Nat.toDigits 10 (n * 10 ^ zeros) = Nat.toDigits 10 n ++ List.replicate zeros '0' := by
  induction zeros with
  | zero => simp
  | succ zeros ih =>
    have next := Nat.toDigits_append_toDigits (b := 10) (d := 0) (by decide)
      (Nat.mul_pos positive (Nat.pow_pos (n := zeros) (by decide : 0 < 10))) (by decide)
    rw [Nat.toDigits_zero, ih, Nat.add_zero] at next
    rw [Nat.pow_succ, ← Nat.mul_assoc, Nat.mul_comm _ 10, ← next, List.append_assoc,
      List.replicate_succ']

/-! ## Whole numbers -/

/-- A finite number is a whole number below `2 ^ 53`, apart from its sign. -/
structure IsWhole (x : Binary64) (n : Nat) : Prop where
  finite : x.isFinite = true
  units : x.units = n * unitsPerOne
  small : n < 2 ^ 53

theorem isWhole_of_toInt? {x : Binary64} {n : Int} (found : x.toInt? = some n)
    (small : n.natAbs < 2 ^ 53) : x.IsWhole n.natAbs := by
  unfold toInt? at found
  split at found
  case isFalse => cases found
  case isTrue whole =>
    rw [Bool.and_eq_true, beq_iff_eq] at whole
    have magnitude : n.natAbs = x.units / unitsPerOne := by
      obtain rfl := Option.some.inj found
      split <;> simp only [Int.natAbs_neg, Int.natAbs_natCast]
    refine ⟨whole.1, ?_, small⟩
    rw [magnitude, Nat.div_mul_cancel (Nat.dvd_of_mod_eq_zero whole.2)]

theorem isWhole_ofNat {n : Nat} (small : n < 2 ^ 53) : (ofNat n).IsWhole n := by
  by_cases zero : n = 0
  · subst zero
    exact ⟨by decide +kernel, by decide +kernel, small⟩
  have exponent : n.log2 ≤ 52 := Nat.lt_succ_iff.1 ((Nat.log2_lt zero).2 small)
  obtain ⟨field, -, units⟩ := parts_ofNat zero (by omega) (dvd_mul_unitsPerOne exponent)
  refine ⟨?_, units, small⟩
  rw [isFinite, field, bne_iff_ne]
  omega

theorem toInt?_ofNat {n : Nat} (small : n < 2 ^ 53) : (ofNat n).toInt? = some (n : Int) := by
  by_cases zero : n = 0
  · subst zero
    decide +kernel
  have exponent : n.log2 ≤ 52 := Nat.lt_succ_iff.1 ((Nat.log2_lt zero).2 small)
  obtain ⟨-, positive, units⟩ := parts_ofNat zero (by omega) (dvd_mul_unitsPerOne exponent)
  unfold toInt?
  simp only [(isWhole_ofNat small).finite, positive, units, Nat.mul_mod_left, beq_self_eq_true,
    Bool.and_self, if_true, Bool.false_eq_true, if_false, Nat.mul_div_cancel _ unitsPerOne_pos]

namespace IsWhole

variable {x : Binary64} {n : Nat}

/-- The last place of a whole number is not above one. -/
theorem two_pow_place_le (whole : x.IsWhole n) : 2 ^ x.place ≤ unitsPerOne := by
  obtain ⟨exponent, same⟩ : ∃ exponent : Nat, exponent = 1074 := ⟨_, rfl⟩
  rw [← two_pow_eq_unitsPerOne same]
  refine Nat.pow_le_pow_right (by decide) ?_
  by_cases subnormal : x.exponentField = 0
  · rw [place, subnormal]
    omega
  · have size : fractionSize = 2 ^ 52 := rfl
    -- The significand has its leading bit, so a place above one would make the number too large.
    have bound : 2 ^ (52 + x.place) < 2 ^ (53 + exponent) := by
      calc 2 ^ (52 + x.place) ≤ x.significand * 2 ^ x.place := by
            rw [Nat.pow_add, ← size]
            exact Nat.mul_le_mul_right _ (le_significand subnormal)
        _ = n * 2 ^ exponent := by rw [two_pow_eq_unitsPerOne same]; exact whole.units
        _ < 2 ^ (53 + exponent) := by
            rw [Nat.pow_add]
            exact Nat.mul_lt_mul_of_pos_right whole.small (Nat.pow_pos (by decide))
    have := (Nat.pow_lt_pow_iff_right (by decide)).1 bound
    omega

/-- A decimal without places behind the point that rounds to a whole number is equal to it. -/
theorem eq_of_admits (whole : x.IsWhole n) {c : Nat} {k : Int} (integral : 0 ≤ k)
    (admitted : x.admits c k = true) : c * 10 ^ k.toNat = n := by
  have gap := whole.two_pow_place_le
  have positive := unitsPerOne_pos
  have none : (-k).toNat = 0 := by omega
  have bounds : 4 * x.units - 2 * 2 ^ x.place ≤ 4 * (c * 10 ^ k.toNat * unitsPerOne) ∧
      4 * (c * 10 ^ k.toNat * unitsPerOne) ≤ 4 * x.units + 2 * 2 ^ x.place := by
    have same : 4 * c * 10 ^ k.toNat * unitsPerOne = 4 * (c * 10 ^ k.toNat * unitsPerOne) := by
      rw [Nat.mul_assoc 4, Nat.mul_assoc 4]
    have power (a b : Nat) : Nat.pow a b = a ^ b := rfl
    unfold admits at admitted
    simp only [none, same, power, Nat.pow_zero, Nat.mul_one] at admitted
    split at admitted <;> simp only [Bool.and_eq_true, decide_eq_true_eq] at admitted <;>
      split at admitted <;> omega
  rw [whole.units] at bounds
  -- Two different whole numbers are four quarters of one apart.
  have apart {a b : Nat} (less : a < b) : a * unitsPerOne + unitsPerOne ≤ b * unitsPerOne := by
    rw [← Nat.succ_mul]
    exact Nat.mul_le_mul_right _ less
  generalize c * 10 ^ k.toNat = m at bounds ⊢
  rcases Nat.lt_trichotomy m n with less | equal | more
  · have := apart less
    omega
  · exact equal
  · have := apart more
    omega

theorem admits_self (whole : x.IsWhole n) (positive : n ≠ 0) : x.admits n 0 = true := by
  have gap : 0 < 2 ^ x.place := Nat.pow_pos (by decide)
  have some_ : 0 < x.units := by
    rw [whole.units]
    exact Nat.mul_pos (Nat.pos_of_ne_zero positive) unitsPerOne_pos
  have power (a b : Nat) : Nat.pow a b = a ^ b := rfl
  have none : (-(0 : Int)).toNat = 0 ∧ (0 : Int).toNat = 0 := ⟨rfl, rfl⟩
  unfold admits
  simp only [none, power, Nat.pow_zero, Nat.mul_one, Nat.mul_assoc, ← whole.units]
  split <;> simp only [Bool.and_eq_true, decide_eq_true_eq] <;> split <;> omega

theorem onGrid?_zero (whole : x.IsWhole n) (positive : n ≠ 0) : x.onGrid? 0 = some n := by
  have near : nearestQuotient (x.units * Nat.pow 10 (-0 : Int).toNat)
      (unitsPerOne * Nat.pow 10 (0 : Int).toNat) = n := by
    have one : Nat.pow 10 (-0 : Int).toNat = 1 ∧ Nat.pow 10 (0 : Int).toNat = 1 := ⟨rfl, rfl⟩
    rw [one.1, one.2, Nat.mul_one, Nat.mul_one, whole.units,
      nearestQuotient_of_dvd unitsPerOne_pos (Nat.dvd_mul_left _ _),
      Nat.mul_div_cancel _ unitsPerOne_pos]
  unfold onGrid?
  simp only [near, whole.admits_self positive, if_true]

/-- The leading digit of a whole number is as many places in front of the point as it has digits. -/
theorem leadingPlace_eq (whole : x.IsWhole n) (positive : n ≠ 0) :
    x.leadingPlace = (Nat.toDigits 10 n).length - 1 := by
  -- Under a name of its own the scale is no literal, so that its power is not computed.
  obtain ⟨scale, same⟩ : ∃ scale : Nat, scale = 340 := ⟨_, rfl⟩
  have shifted : x.units * Nat.pow 10 scale / unitsPerOne = n * 10 ^ scale := by
    rw [whole.units, Nat.mul_right_comm, Nat.mul_div_cancel _ unitsPerOne_pos]
    rfl
  unfold leadingPlace
  simp only [← same, shifted, toDigits_mul_pow (Nat.pos_of_ne_zero positive), List.length_append,
    List.length_replicate]
  omega

/-- The decimal of fewest digits is the number itself, without places behind the point. -/
theorem shortestFrom_eq (whole : x.IsWhole n) (positive : n ≠ 0) (digits more : Nat)
    (below : digits ≤ (Nat.toDigits 10 n).length) (enough : (Nat.toDigits 10 n).length < digits + more) :
    0 ≤ (x.shortestFrom digits more).exponent ∧
      (x.shortestFrom digits more).coefficient * 10 ^ (x.shortestFrom digits more).exponent.toNat = n := by
  induction more generalizing digits with
  | zero => omega
  | succ more ih =>
    have grid : x.leadingPlace + 1 - digits = (Nat.toDigits 10 n).length - digits := by
      rw [whole.leadingPlace_eq positive]
      omega
    rw [shortestFrom]
    simp only [grid]
    cases found : x.onGrid? ((Nat.toDigits 10 n).length - digits) with
    | some c =>
      have integral : (0 : Int) ≤ (Nat.toDigits 10 n).length - digits := by omega
      exact ⟨integral, whole.eq_of_admits integral (admits_of_onGrid? found)⟩
    | none =>
      have other : digits ≠ (Nat.toDigits 10 n).length := by
        rintro rfl
        rw [Int.sub_self, whole.onGrid?_zero positive] at found
        cases found
      exact ih (digits + 1) (by omega) (by omega)

theorem shortest_eq (whole : x.IsWhole n) (positive : n ≠ 0) :
    0 ≤ x.shortest.exponent ∧ x.shortest.coefficient * 10 ^ x.shortest.exponent.toNat = n := by
  have size : (Nat.toDigits 10 n).length ≤ 16 :=
    (Nat.length_toDigits_le_iff (by decide) (by decide)).2 (Nat.lt_trans whole.small (by decide))
  obtain ⟨integral, same⟩ := whole.shortestFrom_eq positive 1 17 Nat.length_toDigits_pos (by omega)
  unfold shortest
  simp only
  split
  case isFalse => exact ⟨integral, same⟩
  case isTrue ten =>
    have next : ((x.shortestFrom 1 17).exponent + 1).toNat = (x.shortestFrom 1 17).exponent.toNat + 1 := by
      omega
    refine ⟨by simp only; omega, ?_⟩
    rw [ten] at same
    rw [next, Nat.pow_succ, Nat.one_mul, Nat.mul_comm, same]

/-- Ten times a whole number is kept as it is if it is not above `2 ^ 54`, and then a tenth of it is the
number again. -/
theorem tenth_eq (whole : x.IsWhole n) (small : 10 * n ≤ 2 ^ 54) :
    ((ofNat (10 * n)).overMagnitude (ofNat 10)).withSign x.isNegative = x := by
  have tenfold : (ofNat (10 * n)).units = 10 * n * unitsPerOne := by
    by_cases zero : n = 0
    · subst zero
      decide +kernel
    · have positive : 10 * n ≠ 0 := by omega
      -- A multiple of ten is even, so the place behind 53 bits is none of it.
      have exponent : (10 * n).log2 < 54 := (Nat.log2_lt positive).2 (by omega)
      refine (parts_ofNat positive (by omega) ?_).2.2
      by_cases short : (10 * n).log2 ≤ 52
      · exact dvd_mul_unitsPerOne short
      · obtain ⟨exponent, same⟩ : ∃ exponent : Nat, exponent = 1074 := ⟨_, rfl⟩
        have places : (10 * n).log2 + 1022 = 1 + exponent := by omega
        have even : 2 ∣ 10 * n := ⟨5 * n, by omega⟩
        rw [places, Nat.pow_add, Nat.pow_one, two_pow_eq_unitsPerOne same]
        exact Nat.mul_dvd_mul_right even _
  have ten : (ofNat 10).units = 10 * unitsPerOne * 1 := by
    rw [Nat.mul_one]
    exact (isWhole_ofNat (by decide)).units
  refine withSign_of_units whole.finite ?_
  rw [overMagnitude, tenfold, ten, Nat.mul_right_comm, ofRatio_mul (Nat.mul_pos (by decide) unitsPerOne_pos),
    whole.units]
  exact (isWhole_ofNat whole.small).units

end IsWhole

end Binary64

end CodeGraph
