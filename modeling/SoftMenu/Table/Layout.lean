import SoftMenu.Error
import SoftMenu.Menu.Order
import SoftMenu.Table.Basic

/-!
# Laying out the table

The table of a numbered menu follows its hybrid order: each step of the tour through the tree gives
one entry. The name pool lists, in the same order, the name of every node that is not blank and then
its alternate name, with name ids 1, 2, 3, … up to 254.
-/

namespace SoftMenu

/-- The label of the record that stands for no node. -/
def nullLabel : String := "mNull"

/-- The greatest name id. -/
def maxNameId : UInt8 := 254

/-! ## Names -/

/-- A name that has to go into the pool. -/
structure PoolName where
  /-- The node that has the name. -/
  node : Node
  /-- Which of its names it is. -/
  slot : NameSlot
  /-- The name. -/
  name : DisplayName
deriving Repr

/-- The names that a node puts into the pool. -/
def Node.poolNames (node : Node) : List PoolName :=
  if node.isBlank then []
  else ⟨node, .primary, node.info.name⟩ ::
    (node.altName?.map fun altName => ⟨node, .alternate, altName⟩).toList

/-- The stored contents of a name. -/
def NameText.ofName (name : DisplayName) : NameText :=
  match name.exploded with
  | some operands => .glyphs operands
  | none => .literal name.text

/-- Numbers names, beginning with the id `next`. -/
def numberNames (next : Nat) : List PoolName → Except CompileError (List NameEntry)
  | [] => .ok []
  | ⟨node, slot, name⟩ :: names =>
    if maxNameId.toNat < next then
      .error (.nameIdOverflow maxNameId node.label node.place.span)
    else
      (numberNames (next + 1) names).map
        (⟨node.label, slot, UInt8.ofNat next, .ofName name⟩ :: ·)

/-- The name pool of a menu tree. -/
def namePool (root : Node) : Except CompileError (List NameEntry) :=
  numberNames 1 (root.flatten.flatMap Node.poolNames)

/-! ## Records -/

/-- What the fifth byte of the record of a group refers to. -/
def RowBegin.ofGroup (group : Node) : RowBegin :=
  match group.firstSlot? with
  | some slot => .firstSlot slot.label slot.id
  | none => .nothing

/-- The record of a node under the given settings. -/
def NodeRecord.ofNode (config : Config) (node : Node) (parent : Option Node) : NodeRecord :=
  let record (nameId : String) (numRows : UInt8) (rowBegin : RowBegin) (handler : Handler)
      (nameSelector : Option String) : NodeRecord :=
    { label := node.label
      id := node.id
      parentLabel := (parent.map Node.label).getD nullLabel
      parentId := (parent.map Node.id).getD node.parentId
      nameId, numRows, rowBegin, handler, nameSelector }
  let own (ending : String) : String := node.label ++ ending
  match node with
  | .item _ =>
    if node.isBlank then record config.blankNameId 0 .nothing ⟨config.blankHandler, true⟩ none
    else record (own "NameId") 0 .nothing ⟨own "Handler", false⟩ none
  | .altItem _ _ =>
    record (own "NameId") 0 (.altName (own "AltNameId")) ⟨own "Handler", false⟩
      (some (own "NameSelector"))
  | .group _ rows =>
    record (own "NameId") (.ofNat (min rows.length 255)) (.ofGroup node)
      ⟨config.handlerOfGroups, true⟩ none

/-- The entry for a step of the tour through a menu tree. -/
def Event.entry (config : Config) : Event → Entry
  | .visit node parent => .node (.ofNode config node parent)
  | .enterGroup group => .groupChildren group.name
  | .enterRow group _ index => .groupRow group.name index

/-- The table of a menu. -/
def Table.ofFile (file : MenuFile) : Except CompileError Table := do
  let names ← namePool file.root
  return ⟨file.root.events.map (Event.entry file.config), names⟩

end SoftMenu
