import CodeGraph.Time.Rfc3339
import Mathlib.Algebra.Order.Ring.Nat
import Mathlib.Data.Option.Basic
import Mathlib.Tactic.SplitIfs

/-!
# Days and instants

A day number is the number of the date that it has (`Date.dayNumber_ofDayNumber`), and that date is on the
calendar (`Date.isValid_ofDayNumber`). An instant in the years of four digits is read back from its text
(`Instant.ofText?_text`): each number is written with all its digits, so it is read up to the separator
behind it.
-/

namespace CodeGraph

namespace Date

/-! ## Days of an era -/

/-- A day of an era: full centuries, full cycles of four years, full years and days. A year of 366 days is
the last of its cycle, and no century ends with one but the last. -/
structure DayOfEra where
  centuries : Nat
  cycles : Nat
  years : Nat
  days : Nat
  centuries_le : centuries ≤ 3
  cycles_le : cycles ≤ 24
  years_le : years ≤ 3
  days_le : days ≤ 364 ∨ days = 365 ∧ years = 3 ∧ (cycles < 24 ∨ centuries = 3)

namespace DayOfEra

variable (day : DayOfEra)

/-- The number of a day in its era. -/
def number : Nat := 36524 * day.centuries + 1461 * day.cycles + 365 * day.years + day.days

/-- The year of a day in its era. -/
def year : Nat := 100 * day.centuries + 4 * day.cycles + day.years

theorem year_le : day.year ≤ 399 := by
  obtain ⟨centuries, cycles, years, days, centuries_le, cycles_le, years_le, -⟩ := day
  simp only [year]
  omega

/-- The year of a day is what the calendar works out from its number. -/
theorem year_eq : (day.number - day.number / 1460 + day.number / 36524 - day.number / 146096) / 365 =
    day.year := by
  obtain ⟨centuries, cycles, years, days, centuries_le, cycles_le, years_le, days_le⟩ := day
  simp only [number, year]
  generalize same : 36524 * centuries + 1461 * cycles + 365 * years + days = number
  -- Only on the last day of an era does the last quotient count.
  by_cases last : number = 146096
  · subst last
    omega
  have first : number / 36524 = centuries := by omega
  have second : number / 146096 = 0 := by omega
  have third : number / 1460 =
      25 * centuries + cycles + (24 * centuries + cycles + 365 * years + days) / 1460 := by omega
  have once : (24 * centuries + cycles + 365 * years + days) / 1460 ≤ 1 := by omega
  rw [first, second, third]
  generalize (24 * centuries + cycles + 365 * years + days) / 1460 = more at *
  omega

/-- The days of an era before a year. -/
theorem number_eq : day.number = 365 * day.year + day.year / 4 - day.year / 100 + day.days := by
  obtain ⟨centuries, cycles, years, days, centuries_le, cycles_le, years_le, -⟩ := day
  simp only [number, year]
  omega

/-- The last day of a year of 366 days stands before the end of a leap year. -/
theorem leap (last : day.days = 365) :
    (day.year + 1) % 4 = 0 ∧ ((day.year + 1) % 100 ≠ 0 ∨ day.year = 399) := by
  obtain ⟨centuries, cycles, years, days, centuries_le, cycles_le, years_le, days_le⟩ := day
  simp only [year] at last ⊢
  omega

end DayOfEra

/-- Every day of an era is of that form. -/
theorem exists_dayOfEra {number : Nat} (inside : number < 146097) :
    ∃ day : DayOfEra, day.number = number := by
  obtain ⟨centuries, rest, same, centuries_le, rest_le⟩ : ∃ centuries rest,
      number = 36524 * centuries + rest ∧ centuries ≤ 3 ∧
        (rest < 36524 ∨ rest = 36524 ∧ centuries = 3) := by
    by_cases last : number = 146096
    · exact ⟨3, 36524, last, by omega, .inr ⟨rfl, rfl⟩⟩
    · exact ⟨number / 36524, number % 36524, by omega, by omega, .inl (by omega)⟩
  obtain ⟨years, days, cycle, years_le, days_le⟩ : ∃ years days,
      rest % 1461 = 365 * years + days ∧ years ≤ 3 ∧ (days ≤ 364 ∨ days = 365 ∧ years = 3) := by
    by_cases last : rest % 1461 = 1460
    · exact ⟨3, 365, last, by omega, .inr ⟨rfl, rfl⟩⟩
    · exact ⟨rest % 1461 / 365, rest % 1461 % 365, by omega, by omega, .inl (by omega)⟩
  exact ⟨⟨centuries, rest / 1461, years, days, centuries_le, by omega, years_le, by omega⟩,
    by simp only [DayOfEra.number]; omega⟩

/-! ## Dates of days -/

/-- The date of a day of an era, from the start of March on. -/
theorem ofDayNumber_eq (number : Int) : ∃ (era : Int) (day : DayOfEra),
    number = era * 146097 + day.number - 719468 ∧
    ofDayNumber number =
      (let month := (5 * day.days + 2) / 153
       ⟨if (if month < 10 then month + 3 else month - 9) ≤ 2 then (day.year : Int) + era * 400 + 1
          else day.year + era * 400,
        if month < 10 then month + 3 else month - 9, day.days - (153 * month + 2) / 5 + 1⟩) := by
  have inside : ((number + 719468) % 146097).toNat < 146097 := by omega
  obtain ⟨day, same⟩ := exists_dayOfEra inside
  refine ⟨(number + 719468) / 146097, day, by omega, ?_⟩
  have rest : day.number - (365 * day.year + day.year / 4 - day.year / 100) = day.days := by
    rw [day.number_eq]
    omega
  unfold ofDayNumber
  simp only [← same, day.year_eq, rest]

/-- A day number is the number of its date. -/
theorem dayNumber_ofDayNumber (number : Int) : (ofDayNumber number).dayNumber = number := by
  obtain ⟨era, day, same, date⟩ := ofDayNumber_eq number
  have year := day.year_le
  have days := day.days_le
  have whole := day.number_eq
  have inYear : 153 * ((5 * day.days + 2) / 153) ≤ 5 * day.days + 2 := Nat.mul_div_le _ _
  have last : (5 * day.days + 2) / 153 ≤ 11 := by omega
  rw [date, dayNumber]
  simp only
  -- What is left to show is linear in the month and the year.
  generalize (5 * day.days + 2) / 153 = month at inYear last
  have quotient : (day.year + era * 400 : Int) / 400 = era := by omega
  have rest : (day.year + era * 400 : Int) % 400 = day.year := by omega
  -- The two months behind these belong to the next year of the calendar.
  by_cases early : month < 10
  · have behind : ¬ month + 3 ≤ 2 := by omega
    have back : (month + 3 + 9) % 12 = month := by omega
    simp only [if_pos early, if_neg behind, quotient, rest, back]
    omega
  · have ahead : month - 9 ≤ 2 := by omega
    have back : (month - 9 + 9) % 12 = month := by omega
    simp only [if_neg early, if_pos ahead, Int.add_sub_cancel, quotient, rest, back]
    omega

/-- A day number has a date on the calendar. -/
theorem isValid_ofDayNumber (number : Int) : (ofDayNumber number).isValid = true := by
  obtain ⟨era, day, -, date⟩ := ofDayNumber_eq number
  have days : day.days ≤ 365 := by
    have := day.days_le
    omega
  -- The months from March on, with the last of the 366 days as the end of the only February that has it.
  have table : ∀ days ≤ 365, let month := (5 * days + 2) / 153
      let name := if month < 10 then month + 3 else month - 9
      1 ≤ name ∧ name ≤ 12 ∧ days - (153 * month + 2) / 5 + 1 ≤
        (if name = 2 then if days = 365 then 29 else 28
          else if name = 4 ∨ name = 6 ∨ name = 9 ∨ name = 11 then 30 else 31) := by
    decide +kernel
  obtain ⟨low, high, end_⟩ := table day.days days
  have leap : day.days = 365 → isLeapYear (day.year + era * 400 + 1) = true := by
    intro last
    have := day.leap last
    have := day.year_le
    simp only [isLeapYear, Bool.and_eq_true, Bool.or_eq_true, beq_iff_eq, bne_iff_ne]
    omega
  rw [date]
  simp only at low high end_ ⊢
  generalize (if (5 * day.days + 2) / 153 < 10 then _ else _) = name at low high end_ ⊢
  simp only [isValid, Bool.and_eq_true, decide_eq_true_eq]
  refine ⟨⟨⟨low, high⟩, Nat.le_add_left _ _⟩, Nat.le_trans end_ ?_⟩
  unfold daysInMonth
  by_cases february : name = 2
  · subst february
    simp only [Nat.le_refl, if_true]
    by_cases last : day.days = 365
    · rw [if_pos last, leap last]
      exact Nat.le_refl _
    · rw [if_neg last]
      split <;> decide
  · simp only [if_neg february, Nat.le_refl]

end Date

namespace Instant

/-! ## Numbers between separators -/

theorem toList_padded (width n : Nat) : (padded width n).toList =
    List.replicate (width - (Nat.toDigits 10 n).length) '0' ++ Nat.toDigits 10 n :=
  String.toList_ofList

/-- A number that fits its width is written with just that many digits. -/
theorem length_padded {width n : Nat} (some_ : 0 < width) (fits : n < 10 ^ width) :
    (padded width n).toList.length = width := by
  have := (Nat.length_toDigits_le_iff (by decide) some_).2 fits
  rw [toList_padded, List.length_append, List.length_replicate]
  omega

theorem isDigit_padded (width n : Nat) : ∀ c ∈ (padded width n).toList, c.isDigit = true := by
  intro c inside
  rw [toList_padded, List.mem_append] at inside
  rcases inside with zero | digit
  · rw [List.eq_of_mem_replicate zero]
    rfl
  · exact Nat.isDigit_of_mem_toDigits (by decide) (by decide) digit

theorem digitsValue_padded (width n : Nat) : Part.digitsValue (padded width n).toList = n := by
  show Nat.ofDigitChars 10 (padded width n).toList 0 = n
  rw [toList_padded, Nat.ofDigitChars_append, Nat.ofDigitChars_replicate_zero, Nat.mul_zero,
    Nat.ofDigitChars_ten_toDigits]

theorem takeWhile_padded (width n : Nat) {rest : List Char}
    (stops : rest.takeWhile Char.isDigit = []) :
    ((padded width n).toList ++ rest).takeWhile Char.isDigit = (padded width n).toList := by
  rw [List.takeWhile_append_of_pos (isDigit_padded width n), stops, List.append_nil]

theorem number_padded {width n : Nat} (some_ : 0 < width) (fits : n < 10 ^ width) (rest : List Char) :
    number width ((padded width n).toList ++ rest) = some (n, rest) := by
  have size := length_padded some_ fits
  have value := digitsValue_padded width n
  have none : ([] : List Char).takeWhile Char.isDigit = [] := rfl
  have whole := takeWhile_padded width n none
  rw [List.append_nil] at whole
  unfold number
  rw [List.take_left' size, whole]
  generalize (padded width n).toList = digits at size value
  cases digits with
  | nil => exact absurd size.symm (Nat.ne_of_gt some_)
  | cons c digits => simp [value]

theorem skipBlanks_cons {c : Char} (rest : List Char) (other : isBlank c = false) :
    skipBlanks (c :: rest) = c :: rest :=
  List.dropWhile_cons_of_neg (by simp [other])

theorem isBlank_of_isDigit {c : Char} (digit : c.isDigit = true) : isBlank c = false := by
  have bounds : 48 ≤ c.toNat ∧ c.toNat ≤ 57 := by
    simpa [Char.isDigit, Char.le_def, UInt32.le_iff_toNat_le] using digit
  simp only [isBlank, Bool.or_eq_false_iff, Bool.and_eq_false_iff, decide_eq_false_iff_not,
    beq_eq_false_iff_ne]
  omega

theorem skipBlanks_padded {width n : Nat} (some_ : 0 < width) (fits : n < 10 ^ width)
    (rest : List Char) :
    skipBlanks ((padded width n).toList ++ rest) = (padded width n).toList ++ rest := by
  have size := length_padded some_ fits
  have digits := isDigit_padded width n
  generalize (padded width n).toList = text at size digits ⊢
  cases text with
  | nil => exact absurd size.symm (Nat.ne_of_gt some_)
  | cons c text => exact skipBlanks_cons _ (isBlank_of_isDigit (digits c List.mem_cons_self))

theorem field_padded {width n : Nat} (some_ : 0 < width) (fits : n < 10 ^ width) (rest : List Char) :
    field width ((padded width n).toList ++ rest) = some (n, rest) := by
  rw [field, skipBlanks_padded some_ fits, number_padded some_ fits]

theorem mark_cons {c : Char} (rest : List Char) (other : isBlank c = false) :
    mark c (c :: rest) = some ((), rest) := by
  rw [mark, skipBlanks_cons rest other]
  exact if_pos rfl

/-! ## Dates and times of day -/

theorem yearPart_padded {n : Nat} (fits : n < 10 ^ 4) (rest : List Char) :
    yearPart ((padded 4 n).toList ++ rest) = some ((n : Int), rest) := by
  have read := number_padded (by decide) fits rest
  have size := length_padded (by decide) fits
  have digits := isDigit_padded 4 n
  unfold yearPart
  rw [skipBlanks_padded (by decide) fits]
  generalize (padded 4 n).toList = text at read size digits ⊢
  cases text with
  | nil => cases size
  | cons c text =>
    have digit := digits c List.mem_cons_self
    rw [List.cons_append] at read ⊢
    split
    case h_1 same =>
      obtain ⟨rfl, -⟩ := List.cons.inj same
      exact absurd digit (by decide)
    case h_2 same =>
      obtain ⟨rfl, -⟩ := List.cons.inj same
      exact absurd digit (by decide)
    case h_3 => rw [read]; rfl

/-- A date as text. -/
def dateText (date : Date) : List Char :=
  (padded 4 date.year.toNat).toList ++ '-' :: ((padded 2 date.month).toList ++
    '-' :: (padded 2 date.day).toList)

theorem datePart_dateText {date : Date} (valid : date.isValid = true)
    (year : 0 ≤ date.year ∧ date.year ≤ 9999) (rest : List Char) :
    datePart (dateText date ++ rest) = some (date, rest) := by
  have bounds : date.month < 10 ^ 2 ∧ date.day < 10 ^ 2 := by
    simp only [Date.isValid, Bool.and_eq_true, decide_eq_true_eq] at valid
    have month : Date.daysInMonth date.year date.month ≤ 31 := by
      unfold Date.daysInMonth
      split
      · split <;> decide
      · split <;> decide
    omega
  have back : ((date.year.toNat : Nat) : Int) = date.year := Int.toNat_of_nonneg year.1
  unfold datePart dateText
  simp only [List.append_assoc, List.cons_append, bind, Option.bind,
    yearPart_padded (show date.year.toNat < 10 ^ 4 by omega), mark_cons _ (show isBlank '-' = false by decide),
    field_padded (show 0 < 2 by decide) bounds.1, field_padded (show 0 < 2 by decide) bounds.2, back]
  rfl

theorem nanosPart_padded {width n : Nat} (some_ : 0 < width) (short : width ≤ 9) (fits : n < 10 ^ width)
    (rest : List Char) :
    nanosPart ('.' :: ((padded width n).toList ++ 'Z' :: rest)) =
      some (n * 10 ^ (9 - width), 'Z' :: rest) := by
  have size := length_padded some_ fits
  have value := digitsValue_padded width n
  have read : (((padded width n).toList ++ 'Z' :: rest).take 9).takeWhile Char.isDigit =
      (padded width n).toList := by
    rw [List.take_append, List.take_of_length_le (by omega)]
    refine takeWhile_padded width n ?_
    cases 9 - (padded width n).toList.length <;> rfl
  have behind : ((padded width n).toList ++ 'Z' :: rest).dropWhile Char.isDigit = 'Z' :: rest := by
    rw [List.dropWhile_append_of_pos (isDigit_padded width n)]
    rfl
  unfold nanosPart
  simp only [read, behind]
  generalize (padded width n).toList = digits at size value
  cases digits with
  | nil => exact absurd size.symm (Nat.ne_of_gt some_)
  | cons c digits => simp [size, value]

theorem nanosPart_fractionText {nanos : Nat} (fits : nanos < 1000000000) (rest : List Char) :
    nanosPart ((fractionText nanos).toList ++ 'Z' :: rest) = some (nanos, 'Z' :: rest) := by
  have point (text : String) : ("." ++ text).toList = '.' :: text.toList := by
    rw [String.toList_append]
    rfl
  unfold fractionText
  split_ifs with none millis micros
  · subst none
    rfl
  · have same : nanos / 1000000 * 10 ^ (9 - 3) = nanos := by omega
    rw [point, List.cons_append, nanosPart_padded (by decide) (by decide) (by omega), same]
  · have same : nanos / 1000 * 10 ^ (9 - 6) = nanos := by omega
    rw [point, List.cons_append, nanosPart_padded (by decide) (by decide) (by omega), same]
  · rw [point, List.cons_append, nanosPart_padded (by decide) (by decide) (by omega)]
    simp

/-- A time of day as text. -/
def clockText (hour minute second nanos : Nat) : List Char :=
  (padded 2 hour).toList ++ ':' :: ((padded 2 minute).toList ++
    ':' :: ((padded 2 second).toList ++ (fractionText nanos).toList))

theorem clockPart_clockText {hour minute second nanos : Nat} (hours : hour ≤ 23) (minutes : minute ≤ 59)
    (seconds : second ≤ 60) (fits : nanos < 1000000000) (rest : List Char) :
    clockPart (clockText hour minute second nanos ++ 'Z' :: rest) =
      some (if second = 60 then ⟨hour * 3600 + minute * 60 + 59, nanos + 1000000000⟩
        else ⟨hour * 3600 + minute * 60 + second, nanos⟩, 'Z' :: rest) := by
  unfold clockPart clockText
  simp only [List.append_assoc, List.cons_append, bind, Option.bind,
    mark_cons _ (show isBlank ':' = false by decide),
    field_padded (show 0 < 2 by decide) (show hour < 10 ^ 2 by omega),
    field_padded (show 0 < 2 by decide) (show minute < 10 ^ 2 by omega),
    field_padded (show 0 < 2 by decide) (show second < 10 ^ 2 by omega),
    nanosPart_fractionText fits]
  have inside : (decide (hour ≤ 23) && decide (minute ≤ 59) && decide (second ≤ 60)) = true := by
    simp [hours, minutes, seconds]
  simp only [(Option.guard_eq_some' ()).2 inside]
  by_cases leap : second = 60
  · simp only [if_pos leap]
    rfl
  · simp only [if_neg leap]
    rfl

/-! ## Instants -/

/-- An instant lies in the years of four digits, and its nanoseconds are those of a second or, on the last
second of a minute, of a leap second behind it. -/
structure Regular (instant : Instant) : Prop where
  year : 0 ≤ (Date.ofDayNumber (instant.seconds / 86400)).year ∧
    (Date.ofDayNumber (instant.seconds / 86400)).year ≤ 9999
  nanos : instant.nanos < 1000000000 ∨ instant.nanos < 2000000000 ∧ instant.seconds % 60 = 59

/-- An instant is read back from its text. -/
theorem ofText?_text {instant : Instant} (regular : instant.Regular) :
    ofText? instant.text = some instant := by
  obtain ⟨year, nanos⟩ := regular
  have day := Date.dayNumber_ofDayNumber (instant.seconds / 86400)
  have valid := Date.isValid_ofDayNumber (instant.seconds / 86400)
  have parts : instant.text.toList = dateText (Date.ofDayNumber (instant.seconds / 86400)) ++
      'T' :: (clockText ((instant.seconds % 86400).toNat / 3600) ((instant.seconds % 86400).toNat / 60 % 60)
        ((instant.seconds % 86400).toNat % 60 + instant.nanos / 1000000000)
        (instant.nanos % 1000000000) ++ ['Z']) := by
    have marks : "-".toList = ['-'] ∧ "T".toList = ['T'] ∧ ":".toList = [':'] ∧ "Z".toList = ['Z'] := by
      decide
    unfold text dateText clockText
    simp only [yearText, if_pos year, String.toList_append, List.append_assoc, List.cons_append, marks,
      List.nil_append]
  have read := datePart_dateText valid year
  have count : instant.nanos % 1000000000 < 1000000000 := Nat.mod_lt _ (by decide)
  have clock := clockPart_clockText
    (show (instant.seconds % 86400).toNat / 3600 ≤ 23 by omega)
    (show (instant.seconds % 86400).toNat / 60 % 60 ≤ 59 by omega)
    (show (instant.seconds % 86400).toNat % 60 + instant.nanos / 1000000000 ≤ 60 by omega) count []
  have offset : offsetPart (skipBlanks ['Z']) = some (0, []) := by decide
  generalize Date.ofDayNumber (instant.seconds / 86400) = date at year day valid parts read
  have inside : ((skipBlanks []).isEmpty && date.isValid && decide ((0 : Int).natAbs < 86400) &&
      decide (date.year.natAbs ≤ maxYear)) = true := by
    have years : date.year.natAbs ≤ maxYear := by
      simp only [maxYear]
      omega
    simp [valid, years, skipBlanks]
  unfold ofText?
  simp only [parts, read, bind, Option.bind, clock, offset, (Option.guard_eq_some' ()).2 inside, day]
  obtain ⟨seconds, fraction⟩ := instant
  simp only at nanos ⊢
  by_cases leap : (seconds % 86400).toNat % 60 + fraction / 1000000000 = 60
  · simp only [if_pos leap]
    refine congrArg some ?_
    rw [Instant.mk.injEq]
    omega
  · simp only [if_neg leap]
    refine congrArg some ?_
    rw [Instant.mk.injEq]
    omega

end Instant

end CodeGraph
