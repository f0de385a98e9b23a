/-!
# Closure under successors

`closure` marks the numbers below a bound that can be reached from given ones by following
successors. Every round either marks a new number or drops one from the list of those still to be
looked at, so it ends.
-/

namespace CodeGraph

/-- Mark what can be reached from the numbers to be looked at, without passing what is marked. -/
def closure (successors : Nat → List Nat) (pending : List Nat) (marked : Array Bool) :
    Array Bool :=
  match pending with
  | [] => marked
  | next :: rest =>
    if inside : next < marked.size then
      if seen : marked[next] then closure successors rest marked
      else closure successors (successors next ++ rest) (marked.set next true)
    else closure successors rest marked
termination_by (marked.count false, pending.length)
decreasing_by
  · right; simp
  · left
    have here : marked[next] = false := by simpa using seen
    have : 0 < marked.count false := Array.count_pos_iff.2 (here ▸ Array.getElem_mem inside)
    have : (marked.set next true).count false = marked.count false - 1 := by
      rw [Array.count_set, here]
      rfl
    omega
  · right; simp

end CodeGraph
