import CodeGraph.Flow.Reaching

/-!
# Reaching definitions by a worklist

The sets of live definitions, all definitions at once. Statements wait in a queue. The set before the
one in front is put together from the sets behind its predecessors; if the set behind it comes out
different from the last time, its successors have to wait again, unless they are waiting anyway
(`Worklist.step`).
-/

namespace CodeGraph

/-- The sets of live definitions of a region while they are worked out. -/
structure Worklist where
  /-- The statements whose sets are to be worked out. -/
  queue : List Nat
  /-- For each statement, whether it waits in the queue. -/
  queued : Array Bool
  /-- The definitions live before each statement. -/
  ins : Array (List Definition)
  /-- The definitions that each statement leaves behind, once they have been worked out. -/
  outs : Array (Option (List Definition))

namespace Worklist

/-- Every statement waits, and nothing is known to be live. -/
def start (size : Nat) : Worklist where
  queue := List.range size
  queued := Array.replicate size true
  ins := Array.replicate size []
  outs := Array.replicate size none

/-- The definitions that have been found to be left behind by a statement. -/
def out (outs : Array (Option (List Definition))) (s : Nat) : List Definition :=
  outs[s]?.join.getD []

/-- The definitions live before a statement, by what its predecessors leave behind. -/
def input (region : Region) (control : Control) (entry : List Definition)
    (outs : Array (Option (List Definition))) (s : Nat) : List Definition :=
  Definition.sorted
    ((if control.entry = some s then Reaching.start region entry else [])
      ++ (control.predecessors s).flatMap (out outs))

/-- Let a statement wait at the end of the queue, unless it waits already. -/
def enqueue (work : Worklist) (s : Nat) : Worklist :=
  if work.queued[s]? = some false then
    { work with queue := work.queue ++ [s], queued := work.queued.setIfInBounds s true }
  else work

/-- Work out the sets of the statement in front. -/
def step (region : Region) (control : Control) (entry : List Definition) (work : Worklist) :
    Option Worklist :=
  match work.queue with
  | [] => none
  | s :: rest =>
    let input := input region control entry work.outs s
    let output := Definition.transfer input (region.accessesOf s)
    let next : Worklist :=
      { queue := rest
        queued := work.queued.setIfInBounds s false
        ins := work.ins.setIfInBounds s input
        outs := work.outs }
    if work.outs[s]? = some (some output) then some next
    else
      some ((control.successors s).foldl enqueue
        { next with outs := work.outs.setIfInBounds s (some output) })

end Worklist

end CodeGraph
