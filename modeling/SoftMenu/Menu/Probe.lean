import SoftMenu.Menu.Order
import SoftMenu.Menu.Walk

/-!
# Probing a menu tree

Walks for looking at a tree and for changing single nodes of it: a tour that may be broken off, a
recording walk that may renumber nodes and empty a group, and the change of the first node that has
a label.
-/

namespace SoftMenu

/-! ## Tours -/

/-- A tour through a tree that is broken off after the step with the given number, and whether it
came to its end. -/
def Node.tour (root : Node) (stopAt : Option Nat) : List Event × Bool :=
  match stopAt with
  | none => (root.events, true)
  | some last => (root.events.take (last + 1), root.events.length ≤ last)

/-! ## Recording walks -/

/-- What a recording walk does besides recording. -/
structure RecordingPlan where
  /-- The visit, counted from 0, at which it gives up. -/
  stopAt : Option Nat := none
  /-- The label of the groups whose rows it removes. -/
  prune : Option String := none
deriving Repr

/-- What a recording walk has seen. -/
structure Recording where
  /-- The labels of the nodes visited, each with the group id that the visit was told. -/
  visits : List (String × UInt8) := []
  /-- The id for the next node, if nodes are renumbered; it wraps around. -/
  counter : Option UInt8 := none
deriving Repr

/-- Removes the rows of a group with the given label. -/
def Node.pruned (label? : Option String) : Node → Node
  | .group info rows => .group info (if label? = some info.label then [] else rows)
  | leaf => leaf

/-- Records a node; then renumbers it, and removes its rows. -/
def RecordingPlan.visitor (plan : RecordingPlan) : Visitor Recording Unit :=
  fun parentId node recording =>
    let seen := { recording with visits := recording.visits ++ [(node.label, parentId)] }
    if plan.stopAt = some recording.visits.length then ⟨node, seen, some ()⟩
    else
      let numbered :=
        match recording.counter with
        | some id => node.mapInfo fun info => { info with id }
        | none => node
      .done (numbered.pruned plan.prune) { seen with counter := recording.counter.map (· + 1) }

/-! ## Changing one node -/

/-- Changes to the data of a node. -/
structure InfoEdit where
  /-- A new text of the name. -/
  name : Option String := none
  /-- A new label. -/
  label : Option String := none
  /-- A new id. -/
  id : Option UInt8 := none
deriving Repr

/-- Applies changes; what is noted about the glyphs of a name stays. -/
def InfoEdit.apply (edit : InfoEdit) (info : NodeInfo) : NodeInfo :=
  { info with
    name := { info.name with text := edit.name.getD info.name.text }
    label := edit.label.getD info.label
    id := edit.id.getD info.id }

/-- Changes the first node with a label; the state is whether it has been met. -/
def InfoEdit.visitor (edit : InfoEdit) (label : String) : Visitor Bool Empty := fun _ node found =>
  if !found && node.label = label then .done (node.mapInfo edit.apply) true else .done node found

end SoftMenu
