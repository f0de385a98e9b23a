import CodeGraph.Proofs.Json.Text
import CodeGraph.Proofs.Number.Whole

/-!
# How numbers are spelled

A natural number is spelled with its digits, and a whole floating-point number with a point and a zero behind
them (`Numeral.ofBinary64_eq`). A natural number that fits 64 bits is read back as it was. A floating-point
number is read with all its digits first, the zero included, and then divided by ten; so it comes back as it
was where its tenfold needs no rounding (`Numeral.toBinary64?_ofBinary64`), and not everywhere else.
-/

namespace CodeGraph

namespace Numeral

/-! ## Digits -/

theorem allDigits_toDigits (n : Nat) : AllDigits (Nat.toDigits 10 n) :=
  fun _ inside => Nat.isDigit_of_mem_toDigits (by decide) (by decide) inside

theorem head?_toDigits {n : Nat} (positive : 0 < n) : (Nat.toDigits 10 n).head? ≠ some '0' := by
  induction n using Nat.strong_induction_on with
  | _ n ih =>
    by_cases short : n < 10
    · have other : ∀ n < 10, 0 < n → Nat.digitChar n ≠ '0' := by decide
      rw [Nat.toDigits_of_lt_base short, List.head?_cons]
      exact fun same => other n short positive (Option.some.inj same)
    · have front := ih (n / 10) (by omega) (by omega)
      obtain ⟨c, rest, same⟩ := List.exists_cons_of_ne_nil (Nat.toDigits_ne_nil (n := n / 10) (b := 10))
      rw [Nat.toDigits_of_base_le (by decide) (by omega), same]
      rwa [same] at front

/-- Only the numeral of zero starts with a zero. -/
theorem leading_toDigits (n : Nat) (c d : Char) (rest : List Char)
    (same : Nat.toDigits 10 n = c :: d :: rest) : c ≠ '0' := by
  rintro rfl
  by_cases zero : n = 0
  · subst zero
    rw [Nat.toDigits_zero] at same
    cases same
  · exact head?_toDigits (Nat.pos_of_ne_zero zero) (by rw [same]; rfl)

theorem le_ofDigitChars (digits : List Char) (start : Nat) :
    start ≤ Nat.ofDigitChars 10 digits start := by
  induction digits generalizing start with
  | nil => exact Nat.le_refl _
  | cons c digits ih =>
    rw [Nat.ofDigitChars_cons]
    exact Nat.le_trans (by omega) (ih _)

/-- Digits whose value fits 64 bits are all read. -/
theorem accumulate_eq {digits : List Char} {start : Nat}
    (fits : Nat.ofDigitChars 10 digits start ≤ Binary64.maxCount) :
    accumulate start digits = (Nat.ofDigitChars 10 digits start, []) := by
  induction digits generalizing start with
  | nil => rfl
  | cons c digits ih =>
    rw [Nat.ofDigitChars_cons] at fits ⊢
    rw [accumulate, digit, if_pos (Nat.le_trans (le_ofDigitChars digits _) fits)]
    exact ih fits

theorem accumulate_toDigits {n : Nat} (fits : n ≤ Binary64.maxCount) :
    accumulate 0 (Nat.toDigits 10 n) = (n, []) := by
  have value : Nat.ofDigitChars 10 (Nat.toDigits 10 n) 0 = n := Nat.ofDigitChars_ten_toDigits
  rw [accumulate_eq (value.symm ▸ fits), value]

/-! ## Natural numbers -/

theorem spelled_ofNat (n : Nat) : (ofNat n).Spelled where
  some_ := Nat.toDigits_ne_nil
  whole := allDigits_toDigits n
  leading := leading_toDigits n
  fraction := nofun
  exponent := nofun

theorem value_ofNat {n : Nat} (fits : n ≤ Binary64.maxCount) : (ofNat n).value = .natural n := by
  unfold value ofNat
  simp [accumulate_toDigits fits]

/-! ## Whole floating-point numbers -/

/-- The numeral of a whole number with a point behind it. -/
def withPoint (negative : Bool) (n : Nat) : Numeral :=
  { negative, whole := Nat.toDigits 10 n, fraction := ['0'] }

theorem spelled_withPoint (negative : Bool) (n : Nat) : (withPoint negative n).Spelled where
  some_ := Nat.toDigits_ne_nil
  whole := allDigits_toDigits n
  leading := leading_toDigits n
  fraction := by simp [withPoint, AllDigits]
  exponent := nofun

variable {x : Binary64} {n : Nat}

theorem ofBinary64_eq (whole : x.IsWhole n) : ofBinary64 x = withPoint x.isNegative n := by
  by_cases zero : n = 0
  · subst zero
    rw [ofBinary64, if_pos (by rw [whole.units, Nat.zero_mul])]
    rfl
  have some_ : x.units ≠ 0 := by
    rw [whole.units]
    exact Nat.mul_ne_zero zero Binary64.unitsPerOne_pos.ne'
  obtain ⟨integral, same⟩ := whole.shortest_eq zero
  rw [ofBinary64, if_neg some_]
  simp only
  generalize x.shortest = shortest at integral same ⊢
  obtain ⟨zeros, exponent⟩ := Int.eq_ofNat_of_zero_le integral
  rw [exponent, Int.toNat_natCast] at same
  have positive : 0 < shortest.coefficient := Nat.pos_of_ne_zero fun none => by simp_all
  have digits := Binary64.toDigits_mul_pow positive zeros
  rw [same] at digits
  have size : (Nat.toDigits 10 n).length ≤ 16 :=
    (Nat.length_toDigits_le_iff (by decide) (by decide)).2 (Nat.lt_trans whole.small (by decide))
  rw [digits, List.length_append, List.length_replicate] at size
  rw [exponent, ofDigits, if_pos (by omega), withPoint, digits]
  congr 3
  omega

/-- What a whole number is read back as. -/
theorem value_ofBinary64 (whole : x.IsWhole n) : (ofBinary64 x).value =
    .real (((Binary64.ofNat (10 * n)).overMagnitude (.ofNat 10)).withSign x.isNegative) := by
  have small := whole.small
  have tenfold : Nat.ofDigitChars 10 ['0'] n = 10 * n := by simp [Nat.ofDigitChars]
  have read : accumulate 0 (Nat.toDigits 10 n) = (n, []) :=
    accumulate_toDigits (by simp only [Binary64.maxCount]; omega)
  have behind : accumulate n ['0'] = (10 * n, []) := by
    rw [accumulate_eq (by rw [tenfold]; simp only [Binary64.maxCount]; omega), tenfold]
  have ten : powerOfTen 1 = .ofNat 10 := by decide +kernel
  rw [ofBinary64_eq whole]
  unfold value withPoint
  simp only [read, behind]
  simp [real, scale, scaleDown, maxPower, ten]

theorem toBinary64?_ofBinary64 (whole : x.IsWhole n) (small : 10 * n ≤ 2 ^ 54) :
    (ofBinary64 x).toBinary64? = some x := by
  unfold toBinary64?
  simp only [value_ofBinary64 whole, whole.tenth_eq small]

end Numeral

end CodeGraph
