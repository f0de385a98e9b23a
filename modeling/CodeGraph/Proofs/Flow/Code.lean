/-!
# Structured code and its traces

Structured code is a tree: a statement together with the statements inside it. `Code.Runs` is the
reference semantics of control flow. It says which sequences of statements a run of a tree goes
through and how the run ends (`Outcome`), by rules whose premises speak of the parts of the tree
only, apart from a loop that goes on. Nothing in it knows of jumps to statement numbers.

The second half of the module prepares the comparison with control flow graphs. A *continuation*
tells which sequences may follow each outcome, and `Followed` joins a run with a continuation. For
every form of code there is one law that says what its runs are followed by (`followed_loop`,
`followed_guarded`, …), and `followed_congr` says that only the shorter rest of a sequence counts.
-/

namespace CodeGraph

/-- How a run of code ends: at its end, or by a jump that something around it takes up. -/
inductive Outcome where
  | completes
  | breaks
  | continues
  | returns
  | throws
deriving DecidableEq, Repr

/-- A statement with what is inside it. A statement is named by its number. -/
inductive Code where
  /-- A statement with nothing inside: a jump, or a plain one, which completes. -/
  | single (number : Nat) (ends : Outcome)
  /-- A missing arm is an empty one. -/
  | conditional (number : Nat) (whenTrue whenFalse : List Code)
  | loop (number : Nat) (body : Option (List Code))
  /-- The cases in order, each with a mark whether it is the default. -/
  | switch (number : Nat) (cases : List (Bool × List Code))
  /-- A missing cleanup is an empty one. -/
  | guarded (number : Nat) (body handler : Option (List Code)) (cleanup : List Code)

namespace Code

/-- The number of a statement. -/
def number : Code → Nat
  | single number _ => number
  | conditional number _ _ => number
  | loop number _ => number
  | switch number _ => number
  | guarded number _ _ _ => number

/-- The statements from a case of a switch on: a case that completes falls through into the next. -/
def fallThrough (cases : List (Bool × List Code)) : List Code :=
  cases.flatMap Prod.snd

mutual

/-- `Runs last code trace outcome`: running `code` goes through the statements `trace` and ends with
`outcome`. The mark `last` says that the statement is the last one of a guarded body with a handler.

* `raises`: such a statement may throw as soon as its own node has run.
* `single`: a statement with nothing inside ends as it says.
* `whenTrue`, `whenFalse`: a conditional runs one of its arms.
* `ends`, `repeats`, `broken`, `left`: a loop completes, or runs its body; a body that completes or
  continues is followed by the loop again, a break completes the loop, other jumps leave it.
* `enters`, `skips`: a switch runs from one of its cases on, where a break completes it; without a
  default case it may also complete at once.
* `bare`: a guarded statement without a body completes.
* `atOnce`: a guarded statement with nothing in its body may throw into its handler at once.
* `cleansUp`, `handles`: the cleanup runs behind a body that completes, and behind the handler if
  that completes. The handler takes up what the body throws.
* `escapes`: other jumps out of the body, and what it throws without a handler, leave the statement
  and pass by the cleanup. -/
inductive Runs : Bool → Code → List Nat → Outcome → Prop
  | raises {code : Code} : Runs true code [code.number] .throws
  | single {last : Bool} {n : Nat} {o : Outcome} : Runs last (.single n o) [n] o
  | whenTrue {last : Bool} {n : Nat} {one other : List Code} {trace : List Nat} {o : Outcome} :
      RunsAll false one trace o → Runs last (.conditional n one other) (n :: trace) o
  | whenFalse {last : Bool} {n : Nat} {one other : List Code} {trace : List Nat} {o : Outcome} :
      RunsAll false other trace o → Runs last (.conditional n one other) (n :: trace) o
  | ends {last : Bool} {n : Nat} {body : Option (List Code)} :
      Runs last (.loop n body) [n] .completes
  | repeats {last : Bool} {n : Nat} {body : List Code} {front back : List Nat} {o o' : Outcome} :
      RunsAll false body front o → o = .completes ∨ o = .continues →
      Runs last (.loop n (some body)) back o' →
      Runs last (.loop n (some body)) (n :: (front ++ back)) o'
  | broken {last : Bool} {n : Nat} {body : List Code} {trace : List Nat} :
      RunsAll false body trace .breaks → Runs last (.loop n (some body)) (n :: trace) .completes
  | left {last : Bool} {n : Nat} {body : List Code} {trace : List Nat} {o : Outcome} :
      RunsAll false body trace o → o = .returns ∨ o = .throws →
      Runs last (.loop n (some body)) (n :: trace) o
  | enters {last : Bool} {n : Nat} {before after : List (Bool × List Code)} {here : Bool × List Code}
      {trace : List Nat} {o : Outcome} :
      RunsAll false (fallThrough (here :: after)) trace o →
      Runs last (.switch n (before ++ here :: after)) (n :: trace)
        (if o = .breaks then .completes else o)
  | skips {last : Bool} {n : Nat} {cases : List (Bool × List Code)} :
      (∀ here ∈ cases, here.1 = false) → Runs last (.switch n cases) [n] .completes
  | bare {last : Bool} {n : Nat} {handler : Option (List Code)} {cleanup : List Code} :
      Runs last (.guarded n none handler cleanup) [n] .completes
  | atOnce {last : Bool} {n : Nat} {body : Option (List Code)} {handler cleanup : List Code}
      {trace : List Nat} {o : Outcome} :
      body.getD [] = [] → RunsAll false (handler ++ cleanup) trace o →
      Runs last (.guarded n body (some handler) cleanup) (n :: trace) o
  | cleansUp {last : Bool} {n : Nat} {body cleanup : List Code} {handler : Option (List Code)}
      {front back : List Nat} {o : Outcome} :
      RunsAll handler.isSome body front .completes → RunsAll false cleanup back o →
      Runs last (.guarded n (some body) handler cleanup) (n :: (front ++ back)) o
  | handles {last : Bool} {n : Nat} {body handler cleanup : List Code} {front back : List Nat}
      {o : Outcome} :
      RunsAll true body front .throws → RunsAll false (handler ++ cleanup) back o →
      Runs last (.guarded n (some body) (some handler) cleanup) (n :: (front ++ back)) o
  | escapes {last : Bool} {n : Nat} {body cleanup : List Code} {handler : Option (List Code)}
      {trace : List Nat} {o : Outcome} :
      RunsAll handler.isSome body trace o → o ≠ .completes → (o = .throws → handler = none) →
      Runs last (.guarded n (some body) handler cleanup) (n :: trace) o

/-- `RunsAll raising block trace outcome`: the statements of `block` run in order until one of them
jumps. The mark `raising` says that the block is a guarded body with a handler. -/
inductive RunsAll : Bool → List Code → List Nat → Outcome → Prop
  | nil {raising : Bool} : RunsAll raising [] [] .completes
  | cons {raising : Bool} {head : Code} {rest : List Code} {front back : List Nat} {o : Outcome} :
      Runs (raising && rest.isEmpty) head front .completes → RunsAll raising rest back o →
      RunsAll raising (head :: rest) (front ++ back) o
  | jump {raising : Bool} {head : Code} {rest : List Code} {trace : List Nat} {o : Outcome} :
      Runs (raising && rest.isEmpty) head trace o → o ≠ .completes →
      RunsAll raising (head :: rest) trace o

end

/-- The complete traces of a whole body: it completes, returns, or throws what nothing takes up. A
break or a continuation with nothing around it goes nowhere. -/
def Traces (body : List Code) (trace : List Nat) : Prop :=
  ∃ o, RunsAll false body trace o ∧ (o = .completes ∨ o = .returns ∨ o = .throws)

end Code

/-! ## What follows a run -/

/-- What may follow a run, by the outcome of the run. -/
abbrev Continuation := Outcome → List Nat → Prop

/-- `Followed runs next trace`: the sequence `trace` is a run, and then something that may follow
its outcome. -/
def Followed (runs : List Nat → Outcome → Prop) (next : Continuation) (trace : List Nat) : Prop :=
  ∃ front o back, trace = front ++ back ∧ runs front o ∧ next o back

namespace Continuation

/-- The continuation with another one behind what completes. -/
def completing (next : Continuation) (behind : List Nat → Prop) : Continuation
  | .completes => behind
  | o => next o

/-- The continuation inside the body of a loop, where `again` is what the loop goes on with. -/
def looping (next : Continuation) (again : List Nat → Prop) : Continuation
  | .completes => again
  | .continues => again
  | .breaks => next .completes
  | o => next o

/-- The continuation inside a switch. -/
def switching (next : Continuation) : Continuation
  | .breaks => next .completes
  | o => next o

/-- The continuation inside a guarded body, where `raised` is what follows a throw. -/
def guarding (next : Continuation) (cleaned raised : List Nat → Prop) : Continuation
  | .completes => cleaned
  | .throws => raised
  | o => next o

end Continuation

open Continuation

/-- Two continuations that agree on all sequences up to the length of a given one follow the same
runs there. -/
theorem followed_congr {runs : List Nat → Outcome → Prop} {next other : Continuation}
    {trace : List Nat}
    (agree : ∀ o back, back.length ≤ trace.length → (next o back ↔ other o back)) :
    Followed runs next trace ↔ Followed runs other trace := by
  constructor
  · rintro ⟨front, o, back, rfl, run, goes⟩
    exact ⟨front, o, back, rfl, run, (agree o back (by simp)).1 goes⟩
  · rintro ⟨front, o, back, rfl, run, goes⟩
    exact ⟨front, o, back, rfl, run, (agree o back (by simp)).2 goes⟩

namespace Code

theorem number_head {last : Bool} {code : Code} {trace : List Nat} {o : Outcome}
    (run : Runs last code trace o) : ∃ rest, trace = code.number :: rest := by
  cases run <;> exact ⟨_, rfl⟩

theorem followed_nil {raising : Bool} {next : Continuation} {trace : List Nat} :
    Followed (RunsAll raising []) next trace ↔ next .completes trace := by
  constructor
  · rintro ⟨front, o, back, rfl, run, goes⟩
    cases run
    exact goes
  · exact fun goes => ⟨[], .completes, trace, rfl, .nil, goes⟩

/-- A block is its first statement with the rest of the block behind it. -/
theorem followed_cons {raising : Bool} {head : Code} {rest : List Code} {next : Continuation}
    {trace : List Nat} :
    Followed (RunsAll raising (head :: rest)) next trace ↔
      Followed (Runs (raising && rest.isEmpty) head)
        (next.completing (Followed (RunsAll raising rest) next)) trace := by
  constructor
  · rintro ⟨front, o, back, rfl, run, goes⟩
    cases run with
    | @cons _ _ _ one two _ first later =>
      exact ⟨one, .completes, two ++ back, by simp, first, two, o, back, rfl, later, goes⟩
    | jump first jumps =>
      refine ⟨front, o, back, rfl, first, ?_⟩
      cases o with
      | completes => exact absurd rfl jumps
      | _ => exact goes
  · rintro ⟨front, o, back, rfl, run, goes⟩
    cases o with
    | completes =>
      obtain ⟨two, o, back, rfl, later, goes⟩ := goes
      exact ⟨front ++ two, o, back, by simp, .cons run later, goes⟩
    | _ => exact ⟨front, _, back, rfl, .jump run (by simp), goes⟩

/-- Two blocks in a row are the first with the second behind it. -/
theorem followed_append {front back : List Code} {next : Continuation} {trace : List Nat} :
    Followed (RunsAll false (front ++ back)) next trace ↔
      Followed (RunsAll false front)
        (next.completing (Followed (RunsAll false back) next)) trace := by
  induction front generalizing trace with
  | nil => rw [List.nil_append, followed_nil]; rfl
  | cons head rest ih =>
    rw [List.cons_append, followed_cons, followed_cons]
    refine followed_congr fun o back _ => ?_
    cases o with
    | completes => exact ih
    | _ => rfl

/-! ## Laws for each form of statement -/

section Laws

variable {last : Bool} {n m : Nat} {next : Continuation} {trace : List Nat}

/-- Nothing follows a statement without going through its node first. -/
theorem followed_number {code : Code} :
    Followed (Runs last code) next (m :: trace) →
      m = code.number ∧ Followed (Runs last code) next (code.number :: trace) := by
  rintro ⟨front, o, back, split, run, goes⟩
  obtain ⟨rest, rfl⟩ := number_head run
  obtain ⟨rfl, rfl⟩ := List.cons.inj split
  exact ⟨rfl, code.number :: rest, o, back, rfl, run, goes⟩

theorem not_followed_empty {code : Code} : ¬ Followed (Runs last code) next [] := by
  rintro ⟨front, o, back, split, run, goes⟩
  obtain ⟨rest, rfl⟩ := number_head run
  simp at split

/-- The throw that the last statement of a guarded body adds to what else follows it. -/
def Raised (last : Bool) (next : Continuation) (trace : List Nat) : Prop :=
  last = true ∧ next .throws trace

theorem followed_raises (code : Code) (raised : Raised last next trace) :
    Followed (Runs last code) next (code.number :: trace) := by
  obtain ⟨rfl, goes⟩ := raised
  exact ⟨[code.number], .throws, trace, rfl, .raises, goes⟩

theorem followed_single {ends : Outcome} :
    Followed (Runs last (.single n ends)) next (n :: trace) ↔
      next ends trace ∨ Raised last next trace := by
  constructor
  · rintro ⟨front, o, back, split, run, goes⟩
    cases run with
    | raises =>
      obtain rfl : trace = back := by simpa [number] using split
      exact .inr ⟨rfl, goes⟩
    | single =>
      obtain rfl : trace = back := by simpa using split
      exact .inl goes
  · rintro (goes | raised)
    · exact ⟨[n], ends, trace, rfl, .single, goes⟩
    · exact followed_raises (.single n ends) raised

theorem followed_conditional {one other : List Code} :
    Followed (Runs last (.conditional n one other)) next (n :: trace) ↔
      (Followed (RunsAll false one) next trace ∨ Followed (RunsAll false other) next trace) ∨
        Raised last next trace := by
  constructor
  · rintro ⟨front, o, back, split, run, goes⟩
    cases run with
    | raises =>
      obtain rfl : trace = back := by simpa [number] using split
      exact .inr ⟨rfl, goes⟩
    | whenTrue run =>
      obtain rfl := (List.cons.inj split).2
      exact .inl (.inl ⟨_, o, back, rfl, run, goes⟩)
    | whenFalse run =>
      obtain rfl := (List.cons.inj split).2
      exact .inl (.inr ⟨_, o, back, rfl, run, goes⟩)
  · rintro ((⟨front, o, back, rfl, run, goes⟩ | ⟨front, o, back, rfl, run, goes⟩) | raised)
    · exact ⟨n :: front, o, back, rfl, .whenTrue run, goes⟩
    · exact ⟨n :: front, o, back, rfl, .whenFalse run, goes⟩
    · exact followed_raises (.conditional n one other) raised

/-- A loop without a body completes. -/
theorem followed_bare_loop :
    Followed (Runs last (.loop n none)) next (n :: trace) ↔
      next .completes trace ∨ Raised last next trace := by
  constructor
  · rintro ⟨front, o, back, split, run, goes⟩
    cases run with
    | raises =>
      obtain rfl : trace = back := by simpa [number] using split
      exact .inr ⟨rfl, goes⟩
    | ends =>
      obtain rfl : trace = back := by simpa using split
      exact .inl goes
  · rintro (goes | raised)
    · exact ⟨[n], .completes, trace, rfl, .ends, goes⟩
    · exact followed_raises (.loop n none) raised

/-- A loop completes, or runs its body with the loop itself behind it. -/
theorem followed_loop {body : List Code} :
    Followed (Runs last (.loop n (some body))) next (n :: trace) ↔
      (next .completes trace ∨
        Followed (RunsAll false body)
          (next.looping (Followed (Runs last (.loop n (some body))) next)) trace) ∨
        Raised last next trace := by
  constructor
  · rintro ⟨front, o, back, split, run, goes⟩
    cases run with
    | raises =>
      obtain rfl : trace = back := by simpa [number] using split
      exact .inr ⟨rfl, goes⟩
    | ends =>
      obtain rfl : trace = back := by simpa using split
      exact .inl (.inl goes)
    | @repeats _ _ _ one two o₁ _ inside on again =>
      obtain rfl := (List.cons.inj split).2
      refine .inl (.inr ⟨one, o₁, two ++ back, by simp, inside, ?_⟩)
      rcases on with rfl | rfl <;> exact ⟨two, o, back, rfl, again, goes⟩
    | broken inside =>
      obtain rfl := (List.cons.inj split).2
      exact .inl (.inr ⟨_, .breaks, back, rfl, inside, goes⟩)
    | left inside away =>
      obtain rfl := (List.cons.inj split).2
      refine .inl (.inr ⟨_, o, back, rfl, inside, ?_⟩)
      rcases away with rfl | rfl <;> exact goes
  · rintro ((goes | ⟨front, o, back, rfl, inside, goes⟩) | raised)
    · exact ⟨[n], .completes, trace, rfl, .ends, goes⟩
    · cases o with
      | completes =>
        obtain ⟨two, o, back, rfl, again, goes⟩ := goes
        exact ⟨n :: (front ++ two), o, back, by simp, .repeats inside (.inl rfl) again, goes⟩
      | continues =>
        obtain ⟨two, o, back, rfl, again, goes⟩ := goes
        exact ⟨n :: (front ++ two), o, back, by simp, .repeats inside (.inr rfl) again, goes⟩
      | breaks => exact ⟨n :: front, .completes, back, rfl, .broken inside, goes⟩
      | returns => exact ⟨n :: front, .returns, back, rfl, .left inside (.inl rfl), goes⟩
      | throws => exact ⟨n :: front, .throws, back, rfl, .left inside (.inr rfl), goes⟩
    · exact followed_raises (.loop n (some body)) raised

/-- A switch runs from one of its cases on, or completes if it has no default case. -/
theorem followed_switch {cases : List (Bool × List Code)} :
    Followed (Runs last (.switch n cases)) next (n :: trace) ↔
      ((∃ before here after, cases = before ++ here :: after ∧
          Followed (RunsAll false (fallThrough (here :: after))) next.switching trace) ∨
        (∀ here ∈ cases, here.1 = false) ∧ next .completes trace) ∨
        Raised last next trace := by
  constructor
  · rintro ⟨front, o, back, split, run, goes⟩
    cases run with
    | raises =>
      obtain rfl : trace = back := by simpa [number] using split
      exact .inr ⟨rfl, goes⟩
    | @enters _ _ before after here one o₁ inside =>
      obtain rfl := (List.cons.inj split).2
      refine .inl (.inl ⟨before, here, after, rfl, one, o₁, back, rfl, inside, ?_⟩)
      cases o₁ <;> exact goes
    | skips none =>
      obtain rfl : trace = back := by simpa using split
      exact .inl (.inr ⟨none, goes⟩)
  · rintro ((⟨before, here, after, rfl, front, o, back, rfl, inside, goes⟩ | ⟨none, goes⟩) | raised)
    · refine ⟨n :: front, if o = .breaks then .completes else o, back, rfl, .enters inside, ?_⟩
      cases o <;> exact goes
    · exact ⟨[n], .completes, trace, rfl, .skips none, goes⟩
    · exact followed_raises (.switch n cases) raised

/-- What follows a throw inside a guarded body: the handler and then the cleanup, if there is a
handler, else whatever takes up a throw of the whole statement. -/
def caught (next : Continuation) (cleanup : List Code) : Option (List Code) → List Nat → Prop
  | some handler => Followed (RunsAll false (handler ++ cleanup)) next
  | none => next .throws

/-- A guarded statement runs its body, with the cleanup behind it and the handler beside it. If
there is nothing in the body, the handler may be entered at once. -/
theorem followed_guarded {body handler : Option (List Code)} {cleanup : List Code} :
    Followed (Runs last (.guarded n body handler cleanup)) next (n :: trace) ↔
      ((match body with
        | some body => Followed (RunsAll handler.isSome body)
            (next.guarding (Followed (RunsAll false cleanup) next) (caught next cleanup handler))
            trace
        | none => next .completes trace) ∨
        body.getD [] = [] ∧ handler.isSome = true ∧ caught next cleanup handler trace) ∨
        Raised last next trace := by
  constructor
  · rintro ⟨front, o, back, split, run, goes⟩
    cases run with
    | raises =>
      obtain rfl : trace = back := by simpa [number] using split
      exact .inr ⟨rfl, goes⟩
    | bare =>
      obtain rfl : trace = back := by simpa using split
      exact .inl (.inl goes)
    | atOnce nothing handling =>
      obtain rfl := (List.cons.inj split).2
      exact .inl (.inr ⟨nothing, rfl, _, o, back, rfl, handling, goes⟩)
    | @cleansUp _ _ _ _ _ one two _ inside cleaning =>
      obtain rfl := (List.cons.inj split).2
      exact .inl (.inl ⟨one, .completes, two ++ back, by simp, inside, two, o, back, rfl, cleaning,
        goes⟩)
    | @handles _ _ _ _ _ one two _ inside handling =>
      obtain rfl := (List.cons.inj split).2
      exact .inl (.inl ⟨one, .throws, two ++ back, by simp, inside, two, o, back, rfl, handling,
        goes⟩)
    | escapes inside jumps uncaught =>
      obtain rfl := (List.cons.inj split).2
      refine .inl (.inl ⟨_, o, back, rfl, inside, ?_⟩)
      cases o with
      | completes => exact absurd rfl jumps
      | throws =>
        obtain rfl := uncaught rfl
        exact goes
      | _ => exact goes
  · rintro ((goes | ⟨nothing, handled, goes⟩) | raised)
    · cases body with
      | none => exact ⟨[n], .completes, trace, rfl, .bare, goes⟩
      | some body =>
        obtain ⟨front, o, back, rfl, inside, goes⟩ := goes
        cases o with
        | completes =>
          obtain ⟨two, o, back, rfl, cleaning, goes⟩ := goes
          exact ⟨n :: (front ++ two), o, back, by simp, .cleansUp inside cleaning, goes⟩
        | throws =>
          cases handler with
          | some handler =>
            obtain ⟨two, o, back, rfl, handling, goes⟩ := goes
            exact ⟨n :: (front ++ two), o, back, by simp, .handles inside handling, goes⟩
          | none =>
            exact ⟨n :: front, .throws, back, rfl, .escapes inside (by simp) (fun _ => rfl), goes⟩
        | _ => exact ⟨n :: front, _, back, rfl, .escapes inside (by simp) (by simp), goes⟩
    · cases handler with
      | some handler =>
        obtain ⟨front, o, back, rfl, handling, goes⟩ := goes
        exact ⟨n :: front, o, back, rfl, .atOnce nothing handling, goes⟩
      | none => simp at handled
    · exact followed_raises (.guarded n body handler cleanup) raised

end Laws

end Code

end CodeGraph
