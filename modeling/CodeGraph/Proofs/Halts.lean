/-!
# Loops that end

A loop is a step on states that gives no state where the loop is over. `Halts step start last` says
that the loop begins at `start`, and is over at `last`. A loop ends if every step leads down in a
well-founded order (`Halts.exists_of_descent`).
-/

namespace CodeGraph

/-- `Halts step start last`: the steps from `start` end, and they end at `last`.

* `ended`: there is no step to take.
* `next`: one step, and the steps from there on. -/
inductive Halts {State : Type} (step : State → Option State) : State → State → Prop
  | ended {state : State} : step state = none → Halts step state state
  | next {state middle last : State} : step state = some middle → Halts step middle last →
      Halts step state last

namespace Halts

variable {State : Type} {step : State → Option State} {start last : State}

theorem stopped (halts : Halts step start last) : step last = none := by
  induction halts with
  | ended stop => exact stop
  | next _ _ ih => exact ih

/-- What holds at the start and after every step holds where the loop is over. -/
theorem invariant (halts : Halts step start last) (Holds : State → Prop) (begun : Holds start)
    (kept : ∀ state middle, Holds state → step state = some middle → Holds middle) :
    Holds last := by
  induction halts with
  | ended _ => exact begun
  | next taken _ ih => exact ih (kept _ _ begun taken)

/-- A loop ends if its steps lead down from every state where something holds that they keep. -/
theorem exists_of_descent {Measure : Type} [WellFoundedRelation Measure] (measure : State → Measure)
    (Holds : State → Prop)
    (kept : ∀ state middle, Holds state → step state = some middle → Holds middle)
    (descent : ∀ state middle, Holds state → step state = some middle →
      WellFoundedRelation.rel (measure middle) (measure state))
    (begun : Holds start) : ∃ last, Halts step start last := by
  induction start using (InvImage.wf measure WellFoundedRelation.wf).induction with
  | _ start ih =>
    cases taken : step start with
    | none => exact ⟨start, .ended taken⟩
    | some middle =>
      obtain ⟨last, halts⟩ := ih middle (descent _ _ begun taken) (kept _ _ begun taken)
      exact ⟨last, .next taken halts⟩

end Halts

end CodeGraph
