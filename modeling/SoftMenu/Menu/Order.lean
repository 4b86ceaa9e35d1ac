import SoftMenu.Menu.Node

/-!
# The hybrid order

Menu trees are listed in an order that is neither depth-first nor breadth-first: the root comes
first; then each group lists all its slots, row by row, without going down; then it goes down into
those slots that are groups, again in order. The slots of one group therefore stand next to each
other, and numbers handed out in this order give each group one unbroken run of ids.

`Node.events` is the whole story of such a tour: the nodes it meets, each with its group, and the
beginnings of groups and rows. `Node.flatten` are the nodes alone.
-/

namespace SoftMenu

/-- A step of a tour through a menu tree. -/
inductive Event where
  /-- The tour meets a node, which is a slot of `parent` or the root. -/
  | visit (node : Node) (parent : Option Node)
  /-- The tour begins to list the slots of a group. -/
  | enterGroup (group : Node)
  /-- The tour begins to list the row of a group with the given number, counted from 0. -/
  | enterRow (group : Node) (row : Row Node) (index : Nat)
deriving Repr

namespace Event

/-- The node that a step meets. -/
def node? : Event → Option Node
  | .visit node _ => some node
  | _ => none

end Event

/-- The steps through the rows of a group, of which the first has the number `index`. -/
def rowEvents (group : Node) (index : Nat) : List (Row Node) → List Event
  | [] => []
  | row :: rows =>
    .enterRow group row index :: row.slots.map (fun slot => .visit slot (some group)) ++
      rowEvents group (index + 1) rows

mutual

/-- The steps below a node that has been met: the block of its own slots, then the blocks of the
groups among them. -/
def Node.eventsBelow : Node → List Event
  | .group info rows =>
    .enterGroup (.group info rows) :: rowEvents (.group info rows) 0 rows ++ eventsBelowRows rows
  | _ => []

/-- The steps below the slots of some rows. -/
def eventsBelowRows : List (Row Node) → List Event
  | [] => []
  | row :: rows => eventsBelowRow row ++ eventsBelowRows rows

/-- The steps below the slots of a row. -/
def eventsBelowRow : Row Node → List Event
  | ⟨slots, _⟩ => eventsBelowSlots slots

/-- The steps below some slots. -/
def eventsBelowSlots : List Node → List Event
  | [] => []
  | slot :: slots => slot.eventsBelow ++ eventsBelowSlots slots

end

namespace Node

/-- The tour through a tree. -/
def events (root : Node) : List Event := .visit root none :: root.eventsBelow

/-- The nodes of a tree in hybrid order. -/
def flatten (root : Node) : List Node := root.events.filterMap Event.node?

end Node

end SoftMenu
