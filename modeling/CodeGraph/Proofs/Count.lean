import CodeGraph.Number.Binary64
import Mathlib.Algebra.Order.Ring.Nat
import Mathlib.Data.Nat.Log

/-!
# Counts in floating-point numbers

A position is kept in the graph as a floating-point number and read back as a count. Below `2 ^ 53` it
comes back as it was, and a larger one does not come back below that (`Binary64.toCount_ofNat_eq_iff`).
-/

namespace CodeGraph

namespace Binary64

theorem toNat_ofMagnitude (magnitude : Nat) :
    (ofMagnitude false magnitude).bits.toNat = min magnitude infinityBits := by
  have less : min magnitude infinityBits < 2 ^ 64 :=
    Nat.lt_of_le_of_lt (Nat.min_le_right _ _) (by decide)
  show (0 + min magnitude infinityBits) % 2 ^ 64 = _
  rw [Nat.zero_add, Nat.mod_eq_of_lt less]

theorem nearestQuotient_of_dvd {num den : Nat} (positive : 0 < den) (divides : den ∣ num) :
    nearestQuotient num den = num / den := by
  have rest : num % den = 0 := Nat.mod_eq_zero_of_dvd divides
  unfold nearestQuotient
  simp only [rest, Nat.mul_zero, if_pos positive]

theorem div_le_nearestQuotient (num den : Nat) : num / den ≤ nearestQuotient num den := by
  unfold nearestQuotient
  simp only
  split
  · exact Nat.le_refl _
  · split <;> omega

theorem two_pow_eq_unitsPerOne {exponent : Nat} (same : exponent = 1074) :
    2 ^ exponent = unitsPerOne :=
  congrArg (Nat.pow 2) same

theorem unitsPerOne_pos : 0 < unitsPerOne := by
  -- Under a name of its own the exponent is no literal, so that its power is not computed.
  obtain ⟨exponent, same⟩ : ∃ exponent : Nat, exponent = 1074 := ⟨_, rfl⟩
  exact Nat.lt_of_lt_of_eq (Nat.two_pow_pos exponent) (two_pow_eq_unitsPerOne same)

theorem log2_mul_unitsPerOne {n : Nat} (positive : n ≠ 0) :
    (n * unitsPerOne).log2 = n.log2 + 1074 := by
  rw [Nat.log2_eq_iff (Nat.mul_ne_zero positive unitsPerOne_pos.ne')]
  obtain ⟨low, high⟩ := (Nat.log2_eq_iff positive).1 rfl
  constructor
  · rw [Nat.pow_add, two_pow_eq_unitsPerOne rfl]
    exact Nat.mul_le_mul_right _ low
  · rw [Nat.add_right_comm, Nat.pow_add, two_pow_eq_unitsPerOne rfl]
    exact Nat.mul_lt_mul_of_pos_right high unitsPerOne_pos

/-- A positive number has its leading bit in front of the 52 bits of the fraction. -/
theorem ofNat_eq {n : Nat} (positive : n ≠ 0) : ofNat n = ofMagnitude false
    ((n.log2 + 1022) * fractionSize +
      nearestQuotient (n * unitsPerOne) (2 ^ (n.log2 + 1022))) := by
  have place : n.log2 + 1074 - 52 = n.log2 + 1022 := by omega
  unfold ofNat ofRatio
  simp only [Nat.div_one, log2_mul_unitsPerOne positive, place, Nat.one_mul]
  rfl

/-- What has a large exponent is read back as a large count. -/
theorem le_toCount_ofMagnitude {magnitude : Nat} (large : 1076 * fractionSize ≤ magnitude) :
    2 ^ 53 ≤ (ofMagnitude false magnitude).toCount := by
  have bits := toNat_ofMagnitude magnitude
  have low : 1076 * fractionSize ≤ min magnitude infinityBits :=
    Nat.le_min.2 ⟨large, by decide⟩
  have high : min magnitude infinityBits ≤ infinityBits := Nat.min_le_right _ _
  generalize ofMagnitude false magnitude = x at bits ⊢
  generalize min magnitude infinityBits = word at bits low high
  have positive : x.isNegative = false := by
    simp only [isNegative, bits, signBit, infinityBits, fractionSize] at high ⊢
    exact decide_eq_false (by omega)
  have exponent : x.exponentField = word / fractionSize := by
    simp only [exponentField, bits, infinityBits, fractionSize] at high ⊢
    omega
  unfold toCount
  by_cases finite : x.isFinite = true
  · have number : x.isNaN = false := by
      rw [isFinite, bne_iff_ne] at finite
      simp [isNaN, finite]
    have above : 1076 ≤ x.exponentField := exponent ▸ (Nat.le_div_iff_mul_le (by decide)).2 low
    have units : 2 ^ 53 * unitsPerOne ≤ x.units := by
      have significand : fractionSize ≤ x.significand := by
        rw [Binary64.significand, if_neg (by omega)]
        exact Nat.le_add_right _ _
      have power : unitsPerOne * 2 ≤ 2 ^ x.place := by
        obtain ⟨exponent, same⟩ : ∃ exponent : Nat, exponent = 1074 := ⟨_, rfl⟩
        rw [← two_pow_eq_unitsPerOne same, ← Nat.pow_succ]
        refine Nat.pow_le_pow_right (by decide) ?_
        rw [Binary64.place]
        omega
      calc 2 ^ 53 * unitsPerOne = fractionSize * (unitsPerOne * 2) := by
            have size : 2 ^ 53 = fractionSize * 2 := rfl
            rw [size, Nat.mul_assoc, Nat.mul_comm 2]
        _ ≤ x.significand * 2 ^ x.place := Nat.mul_le_mul significand power
    simp only [number, positive, finite, if_true, Bool.false_eq_true, if_false]
    exact Nat.le_min.2 ⟨(Nat.le_div_iff_mul_le unitsPerOne_pos).2 units, by decide⟩
  · have number : x.isNaN = false := by
      rw [isFinite, bne_iff_ne, not_not, exponent] at finite
      have fraction : x.fractionField = 0 := by
        simp only [fractionField, bits, infinityBits, fractionSize] at finite high ⊢
        omega
      simp [isNaN, fraction]
    simp only [number, positive, finite, Bool.false_eq_true, if_false]
    decide

/-- A number of at most 53 bits is a multiple of the last place of its leading 53 bits. -/
theorem dvd_mul_unitsPerOne {n : Nat} (small : n.log2 ≤ 52) :
    2 ^ (n.log2 + 1022) ∣ n * unitsPerOne := by
  have parts : (52 - n.log2) + (n.log2 + 1022) = 1074 := by omega
  refine ⟨n * 2 ^ (52 - n.log2), ?_⟩
  rw [← two_pow_eq_unitsPerOne parts, Nat.pow_add, Nat.mul_comm (2 ^ (n.log2 + 1022)), Nat.mul_assoc]

/-- A number that the leading 53 bits tell is kept as it is. -/
theorem parts_ofNat {n : Nat} (positive : n ≠ 0) (finite : n.log2 ≤ 1022)
    (exact_ : 2 ^ (n.log2 + 1022) ∣ n * unitsPerOne) :
    (ofNat n).exponentField = n.log2 + 1023 ∧ (ofNat n).isNegative = false ∧
      (ofNat n).units = n * unitsPerOne := by
  obtain ⟨significand, shifted⟩ := exact_
  rw [Nat.mul_comm (2 ^ _)] at shifted
  have place : 0 < 2 ^ (n.log2 + 1022) := Nat.pow_pos (by decide)
  have quotient : nearestQuotient (n * unitsPerOne) (2 ^ (n.log2 + 1022)) = significand := by
    rw [nearestQuotient_of_dvd place ⟨_, shifted.trans (Nat.mul_comm _ _)⟩, shifted,
      Nat.mul_div_cancel _ place]
  have leading : fractionSize ≤ significand ∧ significand < 2 * fractionSize := by
    obtain ⟨low, high⟩ := (Nat.log2_eq_iff (Nat.mul_ne_zero positive unitsPerOne_pos.ne')).1
      (log2_mul_unitsPerOne positive)
    have one : 2 ^ (n.log2 + 1074) = fractionSize * 2 ^ (n.log2 + 1022) := by
      have split : n.log2 + 1074 = 52 + (n.log2 + 1022) := by omega
      rw [split, Nat.pow_add]
      rfl
    rw [shifted, one] at low
    rw [Nat.pow_succ, shifted, one, Nat.mul_right_comm] at high
    rw [Nat.mul_comm 2]
    exact ⟨Nat.le_of_mul_le_mul_right low place, Nat.lt_of_mul_lt_mul_right high⟩
  have bits : (ofNat n).bits.toNat = (n.log2 + 1022) * fractionSize + significand := by
    rw [ofNat_eq positive, quotient, toNat_ofMagnitude, Nat.min_eq_left]
    simp only [infinityBits, fractionSize] at leading ⊢
    omega
  generalize ofNat n = x at bits ⊢
  have field : x.exponentField = n.log2 + 1023 := by
    simp only [exponentField, bits, fractionSize] at leading ⊢
    omega
  have whole : x.significand = significand := by
    rw [Binary64.significand, field, if_neg (Nat.succ_ne_zero _)]
    simp only [fractionField, bits, fractionSize] at leading ⊢
    omega
  refine ⟨field, ?_, ?_⟩
  · simp only [isNegative, bits, signBit, fractionSize] at leading ⊢
    exact decide_eq_false (by omega)
  · rw [Binary64.units, whole, Binary64.place, field, shifted]
    rfl

/-- A count of at most 53 bits comes back as it was. -/
theorem toCount_ofNat {n : Nat} (small : n < 2 ^ 53) : (ofNat n).toCount = n := by
  by_cases zero : n = 0
  · subst zero
    decide +kernel
  have exponent : n.log2 ≤ 52 := Nat.lt_succ_iff.1 ((Nat.log2_lt zero).2 small)
  obtain ⟨field, positive, units⟩ := parts_ofNat zero (by omega) (dvd_mul_unitsPerOne exponent)
  have count : n ≤ maxCount := by
    simp only [maxCount]
    omega
  generalize ofNat n = x at field positive units ⊢
  have other : n.log2 + 1023 ≠ 2047 := by omega
  have finite : x.isFinite = true := by
    rw [isFinite, field, bne_iff_ne]
    exact other
  have number : x.isNaN = false := by
    rw [isNaN, field, beq_false_of_ne other, Bool.false_and]
  unfold toCount
  simp only [number, positive, finite, if_true, Bool.false_eq_true, if_false, units]
  rw [Nat.mul_div_cancel _ unitsPerOne_pos, Nat.min_eq_left count]

/-- A count of more than 53 bits does not come back as a smaller one. -/
theorem le_toCount_ofNat {n : Nat} (large : 2 ^ 53 ≤ n) : 2 ^ 53 ≤ (ofNat n).toCount := by
  have positive : n ≠ 0 := by omega
  have exponent : 53 ≤ n.log2 := (Nat.le_log2 positive).2 large
  obtain ⟨low, -⟩ := (Nat.log2_eq_iff positive).1 rfl
  have leading : fractionSize ≤
      nearestQuotient (n * unitsPerOne) (2 ^ (n.log2 + 1022)) := by
    refine Nat.le_trans ((Nat.le_div_iff_mul_le (Nat.pow_pos (by decide))).2 ?_)
      (div_le_nearestQuotient _ _)
    calc fractionSize * 2 ^ (n.log2 + 1022) = 2 ^ n.log2 * unitsPerOne := by
          have split : 52 + (n.log2 + 1022) = n.log2 + 1074 := by omega
          have size : fractionSize = 2 ^ 52 := rfl
          rw [size, ← Nat.pow_add, split, Nat.pow_add, two_pow_eq_unitsPerOne rfl]
      _ ≤ n * unitsPerOne := Nat.mul_le_mul_right _ low
  rw [ofNat_eq positive]
  refine le_toCount_ofMagnitude ?_
  have place := Nat.mul_le_mul_right fractionSize (Nat.add_le_add_right exponent 1022)
  calc 1076 * fractionSize = (53 + 1022) * fractionSize + fractionSize := by decide
    _ ≤ _ := Nat.add_le_add place leading

/-- Just the count itself comes back as a count of at most 53 bits. -/
theorem toCount_ofNat_eq_iff {n count : Nat} (small : count < 2 ^ 53) :
    (ofNat n).toCount = count ↔ n = count := by
  constructor
  · intro back
    by_cases exact_ : n < 2 ^ 53
    · exact (toCount_ofNat exact_).symm.trans back
    · have := le_toCount_ofNat (Nat.le_of_not_lt exact_)
      omega
  · rintro rfl
    exact toCount_ofNat small

end Binary64

end CodeGraph
