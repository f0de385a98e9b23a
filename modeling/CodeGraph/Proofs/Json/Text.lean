import CodeGraph.Json.Typed
import CodeGraph.Json.Writer
import Mathlib.Tactic.SplitIfs

/-!
# Documents as text

A document that is made from values (`Doc.Clean`) is read back from its text: each part of it is read from
its characters, and the rest of the text is left (`Doc.read_chars`). So a value is read from the text of
such a document as it is read from the document itself (`Doc.decode_toText`).
-/

namespace CodeGraph

namespace Doc

/-! ## Texts in quotes -/

theorem readHex_control {c : Char} (control : c.toNat < 0x20) (rest : List Char) :
    readHex ('0' :: '0' :: hexDigit (c.toNat / 16) :: hexDigit (c.toNat % 16) :: rest) =
      .ok (c.toNat, rest) := by
  have digits : ∀ n < 0x20, hexDigit? (hexDigit (n / 16)) = some (n / 16) ∧
      hexDigit? (hexDigit (n % 16)) = some (n % 16) := by decide
  obtain ⟨high, low⟩ := digits _ control
  have zero : hexDigit? '0' = some 0 := by decide
  simp only [readHex, zero, high, low]
  congr 2
  omega

theorem readUnit_control {c : Char} (control : c.toNat < 0x20) (rest : List Char) :
    readUnit c.toNat rest = .ok (c, rest) := by
  unfold readUnit
  rw [if_pos (.inl (by omega)), Char.ofNat_toNat]

/-- What stands for a character inside quotes is read as that character, in one step. -/
theorem readChars_escape (c : Char) (fuel : Nat) (rest read : List Char) :
    readChars (fuel + 1) (escape c ++ rest) read = readChars fuel rest (c :: read) := by
  unfold escape
  split_ifs with quote backslash b f n r t control
  · subst quote; rfl
  · subst backslash; rfl
  · subst b; rfl
  · subst f; rfl
  · subst n; rfl
  · subst r; rfl
  · subst t; rfl
  · simp only [List.cons_append, List.nil_append, readChars, readHex_control control,
      readUnit_control control]
  · rw [List.singleton_append, readChars]
    · rw [if_neg control]
    all_goals simp_all

/-- What stands for a character inside quotes is passed over in one step. -/
theorem skipChars_escape (c : Char) (fuel : Nat) (rest : List Char) :
    skipChars (fuel + 1) (escape c ++ rest) = skipChars fuel rest := by
  unfold escape
  split_ifs with quote backslash b f n r t control
  · subst quote; rfl
  · subst backslash; rfl
  · subst b; rfl
  · subst f; rfl
  · subst n; rfl
  · subst r; rfl
  · subst t; rfl
  · simp only [List.cons_append, List.nil_append, skipChars, readHex_control control]
  · rw [List.singleton_append, skipChars]
    · rw [if_neg control]
    all_goals simp_all

theorem readChars_quoted (text rest read : List Char) {fuel : Nat} (enough : text.length < fuel) :
    readChars fuel (text.flatMap escape ++ '"' :: rest) read = .ok (read.reverse ++ text, rest) := by
  induction text generalizing fuel read with
  | nil =>
    obtain ⟨fuel, rfl⟩ := Nat.exists_eq_succ_of_ne_zero (Nat.ne_of_gt enough)
    simp [readChars]
  | cons c text ih =>
    obtain ⟨fuel, rfl⟩ := Nat.exists_eq_succ_of_ne_zero (Nat.ne_of_gt (Nat.zero_lt_of_lt enough))
    rw [List.flatMap_cons, List.append_assoc, readChars_escape, ih _ (Nat.lt_of_succ_lt_succ enough)]
    simp

theorem skipChars_quoted (text rest : List Char) {fuel : Nat} (enough : text.length < fuel) :
    skipChars fuel (text.flatMap escape ++ '"' :: rest) = .ok rest := by
  induction text generalizing fuel with
  | nil =>
    obtain ⟨fuel, rfl⟩ := Nat.exists_eq_succ_of_ne_zero (Nat.ne_of_gt enough)
    simp [skipChars]
  | cons c text ih =>
    obtain ⟨fuel, rfl⟩ := Nat.exists_eq_succ_of_ne_zero (Nat.ne_of_gt (Nat.zero_lt_of_lt enough))
    rw [List.flatMap_cons, List.append_assoc, skipChars_escape, ih (Nat.lt_of_succ_lt_succ enough)]

theorem length_le_flatMap_escape (text : List Char) :
    text.length ≤ (text.flatMap escape).length := by
  induction text with
  | nil => exact Nat.le_refl _
  | cons c text ih =>
    have some_ : 1 ≤ (escape c).length := by
      unfold escape
      split_ifs <;> simp
    rw [List.flatMap_cons, List.length_append, List.length_cons]
    omega

/-- A text is read from its quotes, behind the opening one. -/
theorem readText_quoted (text : String) (rest : List Char) :
    readText (text.toList.flatMap escape ++ '"' :: rest) = (.ok text, .ok rest) := by
  have enough : text.toList.length < (text.toList.flatMap escape ++ '"' :: rest).length + 1 := by
    have := length_le_flatMap_escape text.toList
    rw [List.length_append]
    omega
  unfold readText
  simp only [readChars_quoted _ rest [] enough, skipChars_quoted _ rest enough, List.reverse_nil,
    List.nil_append, String.ofList_toList]

end Doc

/-! ## Numerals -/

/-- All characters of a list are digits. -/
def AllDigits (digits : List Char) : Prop := ∀ c ∈ digits, c.isDigit = true

/-- A numeral is spelled as numerals are: there are digits before the point, of which the first is no zero
unless it is the only one, and digits in the exponent. -/
structure Numeral.Spelled (numeral : Numeral) : Prop where
  some_ : numeral.whole ≠ []
  whole : AllDigits numeral.whole
  leading : ∀ c d rest, numeral.whole = c :: d :: rest → c ≠ '0'
  fraction : AllDigits numeral.fraction
  exponent : ∀ below digits, numeral.exponent = some (below, digits) →
    digits ≠ [] ∧ AllDigits digits

namespace Doc

/-- A text does not go on with what could belong to a numeral before it. -/
structure Stops (rest : List Char) : Prop where
  digit : ∀ c, rest.head? = some c → c.isDigit = false
  point : rest.head? ≠ some '.'
  exponent : rest.head? ≠ some 'e' ∧ rest.head? ≠ some 'E'

theorem stops_nil : Stops [] := ⟨nofun, nofun, nofun, nofun⟩

theorem stops_cons {c : Char} (rest : List Char) (other : c = ',' ∨ c = ']' ∨ c = '\x7d') :
    Stops (c :: rest) := by
  refine ⟨fun d same => ?_, ?_, ?_, ?_⟩
  · obtain rfl := Option.some.inj same
    rcases other with rfl | rfl | rfl <;> decide
  all_goals
    intro same
    obtain rfl := Option.some.inj same
    revert other
    decide

/-- Digits are read up to the first character that is none. -/
theorem readDigits_append {digits : List Char} (all : AllDigits digits) {rest : List Char}
    (stops : ∀ c, rest.head? = some c → c.isDigit = false) :
    readDigits (digits ++ rest) = (digits, rest) := by
  have none : rest.takeWhile Char.isDigit = [] ∧ rest.dropWhile Char.isDigit = rest := by
    cases rest with
    | nil => exact ⟨rfl, rfl⟩
    | cons c rest =>
      have other : ¬ c.isDigit = true := by simp [stops c rfl]
      exact ⟨List.takeWhile_cons_of_neg other, List.dropWhile_cons_of_neg other⟩
  unfold readDigits
  rw [List.takeWhile_append_of_pos all, List.dropWhile_append_of_pos all, none.1, none.2,
    List.append_nil]

theorem readWhole_append {whole : List Char} (some_ : whole ≠ []) (all : AllDigits whole)
    (leading : ∀ c d rest, whole = c :: d :: rest → c ≠ '0') {rest : List Char}
    (stops : ∀ c, rest.head? = some c → c.isDigit = false) :
    readWhole (whole ++ rest) = .ok (whole, rest) := by
  unfold readWhole
  rw [readDigits_append all stops]
  split
  · next same => exact absurd (Prod.mk.inj same).1 some_
  · next same => exact absurd rfl (leading _ _ _ (Prod.mk.inj same).1)
  · rfl

theorem readFraction_append {fraction : List Char} (all : AllDigits fraction) {rest : List Char}
    (stops : ∀ c, rest.head? = some c → c.isDigit = false) (point : rest.head? ≠ some '.') :
    readFraction ((if fraction.isEmpty then [] else '.' :: fraction) ++ rest) =
      .ok (fraction, rest) := by
  cases fraction with
  | nil =>
    rw [List.isEmpty_nil, if_pos rfl, List.nil_append]
    unfold readFraction
    split
    · exact absurd rfl point
    · rfl
  | cons c fraction =>
    rw [List.isEmpty_cons, if_neg (by decide), List.cons_append]
    simp only [readFraction, readDigits_append all stops]

/-- The text of an exponent. -/
def exponentText : Option (Bool × List Char) → List Char
  | none => []
  | some (negative, digits) => 'e' :: ((if negative then ['-'] else []) ++ digits)

theorem readExponent_append {exponent : Option (Bool × List Char)}
    (spelled : ∀ below digits, exponent = some (below, digits) → digits ≠ [] ∧ AllDigits digits)
    {rest : List Char} (stops : Stops rest) :
    readExponent (exponentText exponent ++ rest) = .ok (exponent, rest) := by
  cases exponent with
  | none =>
    show readExponent rest = _
    unfold readExponent
    split
    · exact absurd rfl stops.exponent.1
    · exact absurd rfl stops.exponent.2
    · rfl
  | some parts =>
    obtain ⟨below, digits⟩ := parts
    obtain ⟨some_, all⟩ := spelled below digits rfl
    obtain ⟨c, more, rfl⟩ := List.exists_cons_of_ne_nil some_
    have read := readDigits_append all stops.digit
    cases below with
    | true =>
      simp only [exponentText, if_true, List.cons_append, List.nil_append, readExponent,
        readExponent.signed]
      rw [← List.cons_append, read]
    | false =>
      have digit := all c List.mem_cons_self
      simp only [exponentText, Bool.false_eq_true, if_false, List.cons_append, List.nil_append,
        readExponent]
      rw [readExponent.signed]
      · rw [← List.cons_append, read]
      · rintro rest same
        obtain ⟨rfl, -⟩ := List.cons.inj same
        revert digit
        decide
      · rintro rest same
        obtain ⟨rfl, -⟩ := List.cons.inj same
        revert digit
        decide

/-- The text of a numeral behind its sign. -/
def bareText (numeral : Numeral) : List Char :=
  numeral.whole ++ ((if numeral.fraction.isEmpty then [] else '.' :: numeral.fraction) ++
    exponentText numeral.exponent)

theorem text_eq (numeral : Numeral) :
    numeral.text = (if numeral.negative then ['-'] else []) ++ bareText numeral := by
  obtain ⟨negative, whole, fraction, exponent⟩ := numeral
  cases exponent <;> simp [Numeral.text, bareText, exponentText]

/-- A numeral is read from its text. -/
theorem readNumeral_append {numeral : Numeral} (spelled : numeral.Spelled) {rest : List Char}
    (stops : Stops rest) :
    readNumeral numeral.negative (bareText numeral ++ rest) = .ok (numeral, rest) := by
  -- What stands behind the digits of each part does not go on with a digit.
  have behind : ∀ c, (exponentText numeral.exponent ++ rest).head? = some c →
      c.isDigit = false := by
    intro c same
    cases given : numeral.exponent with
    | none =>
      rw [given] at same
      exact stops.digit c same
    | some parts =>
      rw [given] at same
      obtain rfl := Option.some.inj same
      rfl
  have point : (exponentText numeral.exponent ++ rest).head? ≠ some '.' := by
    cases numeral.exponent with
    | none => exact stops.point
    | some parts => exact nofun
  have first : ∀ c, ((if numeral.fraction.isEmpty then [] else '.' :: numeral.fraction) ++
      (exponentText numeral.exponent ++ rest)).head? = some c → c.isDigit = false := by
    intro c same
    split at same
    · exact behind c same
    · obtain rfl := Option.some.inj same
      rfl
  unfold readNumeral
  rw [bareText, List.append_assoc, List.append_assoc,
    readWhole_append spelled.some_ spelled.whole spelled.leading first]
  simp only [bind, Except.bind, readFraction_append spelled.fraction behind point,
    readExponent_append spelled.exponent stops]
  rfl

/-! ## Documents -/

/-- A document that is made from values: it holds no fault, and its numerals are spelled as such. -/
inductive Clean : Doc → Prop
  | null : Clean null
  | bool (value : Bool) : Clean (bool value)
  | number {value : Numeral} : value.Spelled → Clean (number value)
  | text (value : String) : Clean (ofText value)
  | array {items : List Doc} : (∀ item ∈ items, Clean item) → Clean (ofList items)
  | object {members : List (String × Doc)} : (∀ member ∈ members, Clean member.2) →
      Clean (ofMembers members)

theorem readWord_append (doc : Doc) (word rest : List Char) :
    readWord doc word (word ++ rest) = (doc, some rest) := by
  induction word with
  | nil => cases rest <;> rfl
  | cons c word ih =>
    rw [List.cons_append, readWord, if_pos rfl]
    exact ih

theorem skipSpace_cons {c : Char} (rest : List Char) (other : isSpace c = false) :
    skipSpace (c :: rest) = c :: rest :=
  List.dropWhile_cons_of_neg (by simp [other])

theorem isSpace_of_isDigit {c : Char} (digit : c.isDigit = true) : isSpace c = false := by
  refine Bool.eq_false_iff.2 fun space => ?_
  simp only [isSpace, Bool.or_eq_true, beq_iff_eq] at space
  rcases space with ((rfl | rfl) | rfl) | rfl <;> revert digit <;> decide

/-- A document starts with a character that is neither a blank nor the end of an array. -/
theorem Clean.starts {doc : Doc} (clean : doc.Clean) :
    ∃ c rest, doc.chars = c :: rest ∧ isSpace c = false ∧ c ≠ ']' := by
  cases clean with
  | null => exact ⟨_, _, rfl, by decide, by decide⟩
  | bool value => cases value <;> exact ⟨_, _, rfl, by decide, by decide⟩
  | text value => exact ⟨_, _, rfl, by decide, by decide⟩
  | array _ => exact ⟨_, _, by rw [ofList, chars], by decide, by decide⟩
  | object _ => exact ⟨_, _, by rw [ofMembers, chars], by decide, by decide⟩
  | @number value spelled =>
    rw [chars, text_eq]
    cases value.negative with
    | true => exact ⟨_, _, rfl, by decide, by decide⟩
    | false =>
      obtain ⟨c, more, whole⟩ := List.exists_cons_of_ne_nil spelled.some_
      have digit := spelled.whole c (by rw [whole]; exact List.mem_cons_self)
      refine ⟨c, _, by rw [bareText, whole]; rfl, isSpace_of_isDigit digit, ?_⟩
      rintro rfl
      revert digit
      decide

/-- A document that starts with a digit is a number. -/
theorem read_digit {c : Char} (digit : c.isDigit = true) (fuel : Nat) (rest : List Char) :
    read (fuel + 1) (c :: rest) = readNumber false (c :: rest) := by
  have other : ∀ d : Char, d.isDigit = false → c ≠ d := by
    rintro d none rfl
    rw [digit] at none
    cases none
  rw [read, skipSpace_cons _ (isSpace_of_isDigit digit)]
  split
  case h_1 same => cases same
  case h_9 same =>
    obtain ⟨rfl, rfl⟩ := List.cons.inj same
    rw [if_pos digit]
  all_goals
    next same => exact absurd (List.cons.inj same).1 (other _ (by decide))

/-- A numeral is read as a document. -/
theorem read_number {value : Numeral} (spelled : value.Spelled) (fuel : Nat) {rest : List Char}
    (stops : Stops rest) :
    read (fuel + 1) ((number value).chars ++ rest) = (number value, some rest) := by
  have bare := readNumeral_append spelled stops
  rw [chars, text_eq]
  cases negative : value.negative with
  | true =>
    rw [negative] at bare
    rw [if_pos rfl, List.append_assoc, List.singleton_append, read,
      skipSpace_cons _ (by decide)]
    simp only [readNumber, bare]
  | false =>
    rw [negative] at bare
    obtain ⟨c, more, whole⟩ := List.exists_cons_of_ne_nil spelled.some_
    have digit := spelled.whole c (by rw [whole]; exact List.mem_cons_self)
    have starts : ∃ behind, bareText value ++ rest = c :: behind :=
      ⟨_, by rw [bareText, whole, List.append_assoc, List.cons_append]⟩
    obtain ⟨behind, starts⟩ := starts
    rw [if_neg (by decide), List.nil_append, starts, read_digit digit, ← starts]
    simp only [readNumber, bare]

/-- A text is read as a document. -/
theorem read_text (value : String) (fuel : Nat) (rest : List Char) :
    read (fuel + 1) ((ofText value).chars ++ rest) = (ofText value, some rest) := by
  have quoted : (ofText value).chars ++ rest =
      '"' :: (value.toList.flatMap escape ++ '"' :: rest) := by
    simp [ofText, chars, quote]
  rw [quoted, read, skipSpace_cons _ (by decide)]
  simp only [readText_quoted]
  rfl

/-- A document is read from its characters. -/
def Reads (doc : Doc) : Prop :=
  ∀ (fuel : Nat) (rest : List Char), 2 * doc.chars.length ≤ fuel → Stops rest →
    read fuel (doc.chars ++ rest) = (doc, some rest)

/-- The items of an array are read if each of them is. -/
theorem readItems_chars {items : List Doc} (some_ : items ≠ []) (clean : ∀ item ∈ items, item.Clean)
    (reads : ∀ item ∈ items, item.Reads) {fuel : Nat} (rest : List Char)
    (enough : 2 * (itemChars items).length ≤ fuel + 1) :
    readItems fuel (itemChars items ++ rest) = (items, .closed, some rest) := by
  induction items generalizing fuel with
  | nil => exact absurd rfl some_
  | cons item items ih =>
    have first := reads item List.mem_cons_self
    obtain ⟨c, more, starts, -, -⟩ := (clean item List.mem_cons_self).starts
    have long : 1 ≤ item.chars.length := by rw [starts]; simp
    cases items with
    | nil =>
      rw [itemChars, List.length_append, List.length_singleton] at enough
      obtain ⟨fuel, rfl⟩ := Nat.exists_eq_succ_of_ne_zero (show fuel ≠ 0 by omega)
      rw [itemChars, List.append_assoc, List.singleton_append, readItems,
        first fuel _ (by omega) (stops_cons _ (.inr (.inl rfl)))]
      simp only [skipSpace_cons rest (show isSpace ']' = false by decide)]
    | cons next items =>
      obtain ⟨d, behind, follows, space, bracket⟩ :=
        (clean next (List.mem_cons_of_mem _ List.mem_cons_self)).starts
      have later := fun fuel enough => @ih (List.cons_ne_nil _ _)
        (fun other there => clean other (List.mem_cons_of_mem _ there))
        (fun other there => reads other (List.mem_cons_of_mem _ there)) fuel enough
      have head : ∃ tail, itemChars (next :: items) ++ rest = d :: tail := by
        cases items <;> rw [itemChars, follows] <;> exact ⟨_, rfl⟩
      obtain ⟨tail, head⟩ := head
      rw [itemChars, List.length_append, List.length_cons] at enough
      obtain ⟨fuel, rfl⟩ := Nat.exists_eq_succ_of_ne_zero (show fuel ≠ 0 by omega)
      rw [itemChars, List.append_assoc, List.cons_append, readItems,
        first fuel _ (by omega) (stops_cons _ (.inl rfl))]
      simp only [skipSpace_cons _ (show isSpace ',' = false by decide)]
      rw [head, skipSpace_cons _ space]
      split
      case h_1 same => cases same
      case h_2 same => exact absurd (List.cons.inj same).1 bracket
      case h_3 => rw [← head, later fuel (by omega)]

/-- The members of an object as the reader gives them. -/
def keyed (members : List (String × Doc)) : List (Except Fault String × Doc) :=
  members.map fun member => (.ok member.1, member.2)

/-- What stands behind the first member of an object. -/
def behindMember : List (Except Fault String × Doc) → List Char
  | [] => ['\x7d']
  | next :: members => ',' :: memberChars (next :: members)

theorem memberChars_cons (key : String) (value : Doc) (members : List (Except Fault String × Doc)) :
    memberChars ((.ok key, value) :: members) =
      '"' :: (key.toList.flatMap escape ++ '"' :: ':' :: (value.chars ++ behindMember members)) := by
  cases members <;> simp [memberChars, behindMember, keyChars, quote]

/-- The members of an object are read, behind the quote of the first key, if each of their values is. -/
theorem readMembers_chars {members : List (String × Doc)}
    (reads : ∀ member ∈ members, member.2.Reads) {fuel : Nat} {text rest : List Char}
    (starts : memberChars (keyed members) ++ rest = '"' :: text)
    (enough : 2 * (memberChars (keyed members)).length ≤ fuel + 1) :
    readMembers fuel text = (keyed members, .closed, some rest) := by
  induction members generalizing fuel text with
  | nil => cases starts
  | cons member members ih =>
    obtain ⟨key, value⟩ := member
    have first : value.Reads := reads _ List.mem_cons_self
    rw [keyed, List.map_cons, memberChars_cons] at starts enough
    simp only [List.length_cons, List.length_append] at enough
    obtain ⟨fuel, rfl⟩ := Nat.exists_eq_succ_of_ne_zero (show fuel ≠ 0 by omega)
    rw [List.cons_append, List.append_assoc, List.cons_append, List.cons_append,
      List.append_assoc] at starts
    obtain rfl := (List.cons.inj starts).2
    rw [readMembers, readText_quoted]
    simp only [skipSpace_cons _ (show isSpace ':' = false by decide)]
    cases members with
    | nil =>
      rw [List.map_nil, behindMember, List.singleton_append,
        first fuel _ (by omega) (stops_cons _ (.inr (.inr rfl)))]
      simp only [skipSpace_cons rest (show isSpace '\x7d' = false by decide)]
      rfl
    | cons next members =>
      rw [List.map_cons, behindMember, List.length_cons] at enough
      rw [List.map_cons, behindMember, List.cons_append,
        first fuel _ (by omega) (stops_cons _ (.inl rfl))]
      have follows : memberChars (keyed (next :: members)) ++ rest = '"' ::
          (next.1.toList.flatMap escape ++ '"' :: ':' ::
            (next.2.chars ++ behindMember (keyed members)) ++ rest) := by
        rw [keyed, List.map_cons, memberChars_cons]
        rfl
      have short : 2 * (memberChars (keyed (next :: members))).length ≤ fuel + 1 := by
        rw [keyed, List.map_cons]
        omega
      have later := ih (fun other there => reads other (List.mem_cons_of_mem _ there)) follows short
      rw [keyed, List.map_cons] at follows
      simp only [skipSpace_cons _ (show isSpace ',' = false by decide), follows,
        skipSpace_cons _ (show isSpace '"' = false by decide), later]
      rfl

/-- An array is read if its items are. -/
theorem reads_ofList {items : List Doc} (clean : ∀ item ∈ items, item.Clean)
    (reads : ∀ item ∈ items, item.Reads) : (ofList items).Reads := by
  intro fuel rest enough _
  rw [ofList, chars, List.length_cons] at enough
  obtain ⟨fuel, rfl⟩ := Nat.exists_eq_succ_of_ne_zero (show fuel ≠ 0 by omega)
  rw [ofList, chars, List.cons_append, read, skipSpace_cons _ (by decide)]
  cases items with
  | nil =>
    simp only [itemChars, List.singleton_append, skipSpace_cons rest (show isSpace ']' = false by decide)]
  | cons item items =>
    obtain ⟨c, behind, starts, space, bracket⟩ := (clean item List.mem_cons_self).starts
    have head : ∃ tail, itemChars (item :: items) ++ rest = c :: tail := by
      cases items <;> rw [itemChars, starts] <;> exact ⟨_, rfl⟩
    obtain ⟨tail, head⟩ := head
    have short : 2 * (itemChars (item :: items)).length ≤ fuel + 1 := by omega
    have whole := readItems_chars (List.cons_ne_nil item items) clean reads rest short
    simp only [head, skipSpace_cons _ space] at whole ⊢
    split
    case h_1 same => exact absurd (List.cons.inj same).1 bracket
    case h_2 same => cases same
    case h_3 => rw [whole]

/-- An object is read if the values of its members are. -/
theorem reads_ofMembers {members : List (String × Doc)}
    (reads : ∀ member ∈ members, member.2.Reads) : (ofMembers members).Reads := by
  intro fuel rest enough _
  rw [ofMembers, chars, List.length_cons] at enough
  obtain ⟨fuel, rfl⟩ := Nat.exists_eq_succ_of_ne_zero (show fuel ≠ 0 by omega)
  rw [ofMembers, chars, List.cons_append, read, skipSpace_cons _ (by decide)]
  cases members with
  | nil =>
    simp only [List.map_nil, memberChars, List.singleton_append,
      skipSpace_cons rest (show isSpace '\x7d' = false by decide)]
  | cons member members =>
    -- What the reader is given behind the quote of the first key.
    have head : memberChars (keyed (member :: members)) ++ rest = '"' ::
        (member.1.toList.flatMap escape ++ '"' :: ':' ::
          (member.2.chars ++ behindMember (keyed members)) ++ rest) := by
      rw [keyed, List.map_cons, memberChars_cons]
      rfl
    have short : 2 * (memberChars (keyed (member :: members))).length ≤ fuel + 1 := by
      rw [keyed]
      omega
    have whole := readMembers_chars reads head short
    rw [← keyed, head]
    simp only [skipSpace_cons _ (show isSpace '"' = false by decide), whole]

/-- A document that is made from values is read from its characters. -/
theorem Clean.reads {doc : Doc} (clean : doc.Clean) : doc.Reads := by
  have step : ∀ {doc : Doc}, doc.Clean → (∀ (fuel : Nat) (rest : List Char), Stops rest →
      read (fuel + 1) (doc.chars ++ rest) = (doc, some rest)) → doc.Reads := by
    intro doc clean read fuel rest enough stops
    obtain ⟨c, more, starts, -, -⟩ := clean.starts
    rw [starts, List.length_cons] at enough
    obtain ⟨fuel, rfl⟩ := Nat.exists_eq_succ_of_ne_zero (show fuel ≠ 0 by omega)
    exact read fuel rest stops
  induction clean with
  | null =>
    refine step .null fun fuel rest _ => ?_
    rw [chars, nullWord, List.cons_append, read, skipSpace_cons _ (by decide)]
    exact readWord_append _ _ rest
  | bool value =>
    refine step (.bool value) fun fuel rest _ => ?_
    cases value <;> rw [chars, boolWord] <;> simp only [Bool.false_eq_true, if_false, if_true]
    all_goals
      rw [List.cons_append, read, skipSpace_cons _ (by decide)]
      exact readWord_append _ _ rest
  | number spelled => exact step (.number spelled) fun fuel rest => read_number spelled fuel
  | text value => exact step (.text value) fun fuel rest _ => read_text value fuel rest
  | array clean reads => exact reads_ofList clean reads
  | object _ reads => exact reads_ofMembers reads

/-- A document that is made from values is what its text is read as, and nothing is left. -/
theorem Clean.parse_toText {doc : Doc} (clean : doc.Clean) :
    parse doc.toText = (doc, some []) := by
  have whole := clean.reads (2 * doc.chars.length + 2) [] (by omega) stops_nil
  rw [List.append_nil] at whole
  rw [parse, toText, String.length_ofList, String.toList_ofList, whole]

variable {α : Type}

/-- A value is read from the text of a document as it is read from the document. -/
theorem Clean.decode_toText {doc : Doc} (clean : doc.Clean) (value : Doc → Except Fault α) :
    decode value doc.toText = value doc := by
  unfold decode
  rw [clean.parse_toText]
  cases given : value doc <;> simp [given, bind, Except.bind, pure, Except.pure, skipSpace]

end Doc

end CodeGraph
