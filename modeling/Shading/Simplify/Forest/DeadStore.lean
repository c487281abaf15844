import Shading.Simplify.DeadStore
import Shading.Tree.Forest

/-!
# Dead stores of numbered nodes

The sweeps of `Shading.Simplify.DeadStore` on a forest.  A sweep visits the
nodes in the order they had at its start, and each change shows at once
wherever a node is shared.
-/

namespace Shading

namespace Forest

section

variable (uses : List Use)

/-- Turns an assignment to a local that is never read into its value. -/
def collapse (forest : Forest) (id : NodeId) : Forest × Nat :=
  match (forest.entry id).form with
  | .binary .assign target value =>
    match (forest.entry target).form with
    | .var symbol =>
      if isDeadStore forest.symbols uses symbol then (forest.replace id value, 1) else (forest, 0)
    | _ => (forest, 0)
  | _ => (forest, 0)

def isDeadStatement (forest : Forest) (id : NodeId) : Bool :=
  (forest.node? id).any (Shading.isDeadStatement forest.symbols uses)

/-- Drops the statements of a block, or the step of a loop, without effect. -/
def prune (forest : Forest) (id : NodeId) : Forest × Nat :=
  match (forest.entry id).form with
  | .block statements =>
    let (dead, kept) := statements.partition (forest.isDeadStatement uses)
    if dead.isEmpty then (forest, 0)
    else ((dead.foldl detach forest).setForm id (.block kept), dead.length)
  | .loop kind init? condition? (some step) body =>
    if forest.isPure step then
      ((forest.detach step).setForm id (.loop kind init? condition? none body), 1)
    else
      (forest, 0)
  | _ => (forest, 0)

/-- Changes nodes one after another and counts the changes. -/
def changeEach (change : Forest → NodeId → Forest × Nat) (forest : Forest) (ids : List NodeId) :
    Forest × Nat :=
  ids.foldl (fun (forest, count) id =>
    let (forest, more) := change forest id
    (forest, count + more)) (forest, 0)

end

def sweep (forest : Forest) (id : NodeId) : Forest × Nat :=
  let uses := forest.uses id
  let (forest, collapsed) := forest.changeEach (collapse uses) (forest.descendants id)
  let (forest, pruned) := forest.changeEach (prune uses) (forest.descendants id)
  (forest, collapsed + pruned)

/-- Sweeps until nothing changes, at most `bound` times. -/
def sweepUpTo (id : NodeId) : (bound : Nat) → Forest → Forest × Nat
  | 0, forest => (forest, 0)
  | bound + 1, forest =>
    let (swept, removed) := forest.sweep id
    if removed = 0 then
      (forest, 0)
    else
      let (rest, more) := sweepUpTo id bound swept
      (rest, removed + more)

/-- Number of children of all nodes.  Every change of a sweep makes it smaller. -/
def childCount (forest : Forest) : Nat :=
  forest.entries.toList.foldl (fun count entry => count + entry.form.children.length) 0

/-- Removes the dead stores below a node and counts the changes. -/
def eliminateDeadStores (forest : Forest) (id : NodeId) : Forest × Nat :=
  sweepUpTo id (forest.childCount + 1) forest

end Forest

end Shading
