import SoftMenu.Menu.Node

/-!
# Walks that change a tree

A pass over a menu tree takes its nodes in hybrid order and may change each of them, its rows
included, while it carries a state along. It may give up at a node; what it has changed before then
stays changed, so the outcome of a pass is the tree and the state as the pass left them, together
with the reason for giving up, if it did.

A walk is given the number of levels of groups that it goes down. `Visitor.walk` goes down as many
levels as the tree has; a visitor that never deepens a tree then meets all its nodes.
-/

namespace SoftMenu

/-- What a pass over a value has left behind. -/
structure Outcome (σ ε α : Type) where
  /-- The value as the pass left it. -/
  value : α
  /-- The state as the pass left it. -/
  state : σ
  /-- Why the pass gave up, if it did. -/
  halt : Option ε
deriving Repr

namespace Outcome

variable {σ ε α β : Type}

/-- The outcome of a pass that did not give up. -/
def done (value : α) (state : σ) : Outcome σ ε α := ⟨value, state, none⟩

/-- Changes the value of an outcome. -/
def map (change : α → β) (outcome : Outcome σ ε α) : Outcome σ ε β :=
  ⟨change outcome.value, outcome.state, outcome.halt⟩

/-- Goes on with a second pass unless the first gave up. -/
def andThen (outcome : Outcome σ ε α) (next : α → σ → Outcome σ ε α) : Outcome σ ε α :=
  match outcome.halt with
  | none => next outcome.value outcome.state
  | some _ => outcome

/-- The value and the state, or the reason for giving up. -/
def toExcept (outcome : Outcome σ ε α) : Except ε (α × σ) :=
  match outcome.halt with
  | none => .ok (outcome.value, outcome.state)
  | some reason => .error reason

end Outcome

section Sweep

variable {σ ε α : Type}

/-- Passes over the members of a list from left to right; where one gives up, the members after it
are left alone. -/
def sweep (pass : α → σ → Outcome σ ε α) : List α → σ → Outcome σ ε (List α)
  | [], state => .done [] state
  | member :: members, state =>
    let first := pass member state
    match first.halt with
    | none => (sweep pass members first.state).map (first.value :: ·)
    | some _ => first.map (· :: members)

/-- Passes over the slots of a row. -/
def Row.sweep (pass : α → σ → Outcome σ ε α) (row : Row α) (state : σ) : Outcome σ ε (Row α) :=
  (SoftMenu.sweep pass row.slots state).map fun slots => { row with slots }

/-- Passes over the slots of a group, row by row; a leaf is left alone. -/
def Node.sweepSlots (pass : Node → σ → Outcome σ ε Node) (node : Node) (state : σ) :
    Outcome σ ε Node :=
  match node with
  | .group info rows => (SoftMenu.sweep (Row.sweep pass) rows state).map (.group info)
  | leaf => .done leaf state

end Sweep

/-- What a walk does at a node: it is told the id of the group that the node is a slot of, or the
null id at the root. -/
abbrev Visitor (σ ε : Type) := UInt8 → Node → σ → Outcome σ ε Node

namespace Visitor

variable {σ ε : Type}

/-- Visits the slots of a group that has been visited, then goes down into each of them, for so many
levels. The slots are told the id that the group has by then. -/
def descend (visitor : Visitor σ ε) : Nat → Node → σ → Outcome σ ε Node
  | 0, node, state => .done node state
  | levels + 1, node, state =>
    (node.sweepSlots (visitor node.id) state).andThen fun node state =>
      node.sweepSlots (visitor.descend levels) state

/-- Visits a tree in hybrid order down to so many levels of groups. -/
def walkLevels (visitor : Visitor σ ε) (levels : Nat) (root : Node) (state : σ) :
    Outcome σ ε Node :=
  (visitor nullId root state).andThen (visitor.descend levels)

/-- Visits all levels of a tree in hybrid order. -/
def walk (visitor : Visitor σ ε) (root : Node) (state : σ) : Outcome σ ε Node :=
  visitor.walkLevels root.depth root state

/-- Visits the tree of a menu file in hybrid order. -/
def walkFile (visitor : Visitor σ ε) (file : MenuFile) (state : σ) : Outcome σ ε MenuFile :=
  (visitor.walk file.root state).map fun root => { file with root }

end Visitor

end SoftMenu
