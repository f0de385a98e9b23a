/-!
# Wildcards

What the patterns for file names come down to: a sequence of elements, each of which stands for one
symbol of a set or for any number of them. Symbols are numbers: the code points or the bytes of a
text. `Wildcard.accepts_iff` says which texts a sequence accepts.
-/

namespace CodeGraph

/-- A set of symbols: those in some range, or all others. -/
structure SymbolSet where
  ranges : List (Nat × Nat)
  negated : Bool := false
deriving DecidableEq, Repr

namespace SymbolSet

/-- Whether a set holds a symbol. -/
def contains (set : SymbolSet) (symbol : Nat) : Bool :=
  set.negated != set.ranges.any fun range => range.1 ≤ symbol && symbol ≤ range.2

/-- The set of all symbols. -/
def all : SymbolSet := ⟨[], true⟩

/-- The set of one symbol. -/
def only (symbol : Nat) : SymbolSet := ⟨[(symbol, symbol)], false⟩

/-- The set of all symbols but one. -/
def allBut (symbol : Nat) : SymbolSet := ⟨[(symbol, symbol)], true⟩

end SymbolSet

/-- An element of a pattern. -/
inductive Wildcard where
  /-- One symbol of a set. -/
  | one (set : SymbolSet)
  /-- Any number of symbols of a set. -/
  | many (set : SymbolSet)
deriving DecidableEq, Repr

namespace Wildcard

/-- Whether a sequence of elements stands for a text. -/
def accepts : List Wildcard → List Nat → Bool
  | [], text => text.isEmpty
  | one _ :: _, [] => false
  | one set :: rest, symbol :: text => set.contains symbol && accepts rest text
  | many _ :: rest, [] => accepts rest []
  | many set :: rest, symbol :: text =>
    accepts rest (symbol :: text) || (set.contains symbol && accepts (many set :: rest) text)
termination_by elements text => elements.length + text.length

/-- The texts that a sequence of elements stands for. -/
inductive Accepts : List Wildcard → List Nat → Prop where
  | nil : Accepts [] []
  | one {set : SymbolSet} {symbol : Nat} {rest : List Wildcard} {text : List Nat} :
      set.contains symbol → Accepts rest text → Accepts (.one set :: rest) (symbol :: text)
  | none {set : SymbolSet} {rest : List Wildcard} {text : List Nat} :
      Accepts rest text → Accepts (.many set :: rest) text
  | more {set : SymbolSet} {symbol : Nat} {rest : List Wildcard} {text : List Nat} :
      set.contains symbol → Accepts (.many set :: rest) text →
        Accepts (.many set :: rest) (symbol :: text)

theorem accepts_iff (elements : List Wildcard) (text : List Nat) :
    accepts elements text = true ↔ Accepts elements text := by
  fun_induction accepts elements text with
  | case1 text =>
    constructor
    · intro empty
      cases text with
      | nil => exact .nil
      | cons symbol text => simp at empty
    · rintro ⟨⟩
      rfl
  | case2 set rest =>
    constructor
    · intro impossible
      cases impossible
    · intro accepted
      cases accepted
  | case3 set rest symbol text ih =>
    rw [Bool.and_eq_true, ih]
    constructor
    · rintro ⟨inside, accepted⟩
      exact .one inside accepted
    · intro accepted
      cases accepted with
      | one inside accepted => exact ⟨inside, accepted⟩
  | case4 set rest ih =>
    rw [ih]
    constructor
    · exact .none
    · intro accepted
      cases accepted with
      | none accepted => exact accepted
  | case5 set rest symbol text ihNone ihMore =>
    rw [Bool.or_eq_true, Bool.and_eq_true, ihNone, ihMore]
    constructor
    · rintro (accepted | ⟨inside, accepted⟩)
      · exact .none accepted
      · exact .more inside accepted
    · intro accepted
      cases accepted with
      | none accepted => exact .inl accepted
      | more inside accepted => exact .inr ⟨inside, accepted⟩

/-- The code point of the character between the names of a path. -/
def slash : Nat := '/'.toNat

/-- The element that stands for a slash. -/
def separator : Wildcard := one (.only slash)

/-- Any symbols at all. -/
def anything : Wildcard := many .all

end Wildcard

end CodeGraph
