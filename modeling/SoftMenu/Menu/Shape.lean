import SoftMenu.Error
import SoftMenu.Menu.Walk
import SoftMenu.Text.Alphabetic

/-!
# The shape of a menu

The rules that a menu tree has to keep, and the pass that checks them and fills up its rows.

A label becomes a symbol of the program: it begins with a letter and not like the symbols that are
generated. A node that is marked as blank is a plain item with the label `*`, and no other node has
that label. A group has 1 to 255 rows, and each row is declared with 1 to 5 slots.

The pass takes the nodes in hybrid order. At a group it extends each row to five slots by blank
items, row by row; the blanks are visited in their turn. It gives up at the first rule that is
broken.
-/

namespace SoftMenu

/-- How the generated symbols begin. -/
def reservedStarts : List String := ["mBlank", "mNull", "mMenuTable", "mMenuNameTable"]

/-- The most rows of a group: their number is one byte. -/
def maxRows : Nat := 255

/-- The reserved beginning of a label, if it has one. -/
def reservedStart? (label : String) : Option String :=
  reservedStarts.find? fun start => start.toList.isPrefixOf label.toList

/-- Whether a label begins with a letter. -/
def beginsWithLetter (label : String) : Bool := label.toList.head?.any isAlphabetic

/-- The label rule that a node breaks. -/
def Node.labelError? (node : Node) : Option CompileError :=
  let illegal (fault : LabelFault) : CompileError :=
    .illegalLabel node.label node.name fault node.place
  match reservedStart? node.label with
  | some start => some (illegal (.reserved start))
  | none =>
    if node.isBlank then
      if node.kind ≠ .item then some (.misplacedBlank node.kind node.place)
      else if node.label ≠ blankMark then some (illegal .labelledBlank)
      else none
    else if node.label = blankMark then some (illegal .blankLabel)
    else if beginsWithLetter node.label then none
    else some (illegal .noLetter)

namespace Row

/-- The rule that a row breaks, as row `index` of the group with the given name. -/
def error? (group : String) (index : Nat) (row : Row Node) : Option CompileError :=
  if rowSlots < row.slots.length then
    some (.rowOverflow group index row.slots.length row.place)
  else if row.slots.isEmpty then some (.emptyRow group index row.place)
  else none

/-- The number of slots that a row lacks. -/
def missing (row : Row Node) : Nat := rowSlots - row.slots.length

/-- A row extended to five slots by blank items that carry its place. -/
def pad (row : Row Node) : Row Node :=
  { row with slots := row.slots ++ List.replicate row.missing (.blank row.place) }

end Row

/-- Pads the rows of the group with the given name, the first of which has the number `index`, up to
the first one that breaks a rule. The state counts the blank items. -/
def padRows (group : String) (index : Nat) :
    List (Row Node) → Nat → Outcome Nat CompileError (List (Row Node))
  | [], padded => .done [] padded
  | row :: rows, padded =>
    match row.error? group index with
    | some error => ⟨row :: rows, padded, some error⟩
    | none => (padRows group (index + 1) rows (padded + row.missing)).map (row.pad :: ·)

/-- Checks and pads the rows of a group. -/
def padGroup (info : NodeInfo) (rows : List (Row Node)) (padded : Nat) :
    Outcome Nat CompileError (List (Row Node)) :=
  if rows.isEmpty then ⟨rows, padded, some (.emptyGroup info.name.text info.place)⟩
  else if maxRows < rows.length then
    ⟨rows, padded, some (.tooManyRows info.name.text rows.length info.place)⟩
  else padRows info.name.text 0 rows padded

/-- Checks a node and pads its rows. -/
def shapeVisitor : Visitor Nat CompileError := fun _ node padded =>
  match node.labelError? with
  | some error => ⟨node, padded, some error⟩
  | none =>
    match node with
    | .group info rows => (padGroup info rows padded).map (.group info)
    | leaf => .done leaf padded

/-- Checks a menu and pads all its rows; the state is the number of blank items added. -/
def validate (file : MenuFile) : Outcome Nat CompileError MenuFile := shapeVisitor.walkFile file 0

end SoftMenu
