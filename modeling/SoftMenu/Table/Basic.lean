/-!
# The flat table of a menu

The program that shows a menu reads it from a table of records, one for each node, and from a pool
of names. A record refers to other records and to names by symbols. Between the records, markers
tell a human reader where the slots of a group and its rows begin.
-/

namespace SoftMenu

/-- What the fifth byte of a record refers to. -/
inductive RowBegin where
  /-- Nothing. -/
  | nothing
  /-- The first slot of a group. -/
  | firstSlot (label : String) (id : UInt8)
  /-- The alternate name of an item, by the symbol of its name id. -/
  | altName (symbol : String)
deriving DecidableEq, Repr

/-- The routine of a record. -/
structure Handler where
  /-- The symbol of the routine. -/
  symbol : String
  /-- Whether the settings name the routine; otherwise it is named after the node. -/
  predefined : Bool
deriving DecidableEq, Repr

/-- The record of a node. -/
structure NodeRecord where
  /-- The label of the node. -/
  label : String
  /-- The id of the node. -/
  id : UInt8
  /-- The label of its group. -/
  parentLabel : String
  /-- The id of its group. -/
  parentId : UInt8
  /-- The symbol of its name id. -/
  nameId : String
  /-- The number of its rows. -/
  numRows : UInt8
  /-- Its first slot or its alternate name. -/
  rowBegin : RowBegin
  /-- Its routine. -/
  handler : Handler
  /-- The routine that chooses between its names. -/
  nameSelector : Option String
deriving DecidableEq, Repr

/-- An entry of the table. -/
inductive Entry where
  /-- The slots of the group with the given name follow. -/
  | groupChildren (group : String)
  /-- The slots of a row of the group with the given name follow. -/
  | groupRow (group : String) (row : Nat)
  /-- A record. -/
  | node (record : NodeRecord)
deriving DecidableEq, Repr

/-- The record that an entry is. -/
def Entry.record? : Entry → Option NodeRecord
  | .node record => some record
  | _ => none

/-- Which of its names a pool entry holds for a node. -/
inductive NameSlot where
  /-- The name. -/
  | primary
  /-- The alternate name. -/
  | alternate
deriving DecidableEq, Repr

/-- What follows the label of a node in the symbol of one of its names. -/
def NameSlot.ending : NameSlot → String
  | .primary => "Name"
  | .alternate => "AltName"

/-- The contents of a string of the pool. -/
inductive NameText where
  /-- Characters that stand for themselves. -/
  | literal (text : String)
  /-- The operands of characters and glyphs. -/
  | glyphs (operands : List String)
deriving DecidableEq, Repr

/-- An entry of the name pool. -/
structure NameEntry where
  /-- The label of the node. -/
  label : String
  /-- Which of the names of the node it is. -/
  slot : NameSlot
  /-- The name id. -/
  id : UInt8
  /-- The contents. -/
  text : NameText
deriving DecidableEq, Repr

namespace NameEntry

/-- The symbol of the string. -/
def symbol (entry : NameEntry) : String := entry.label ++ entry.slot.ending

/-- The symbol of the name id. -/
def idSymbol (entry : NameEntry) : String := entry.symbol ++ "Id"

end NameEntry

/-- The table of a menu. -/
structure Table where
  /-- The records and markers. -/
  entries : List Entry
  /-- The name pool. -/
  names : List NameEntry
deriving DecidableEq, Repr

namespace Table

/-- The records, in order. -/
def records (table : Table) : List NodeRecord := table.entries.filterMap Entry.record?

/-- The first record with the given label. -/
def record? (table : Table) (label : String) : Option NodeRecord :=
  table.records.find? fun record => record.label = label

/-- The first name with the given symbol. -/
def name? (table : Table) (symbol : String) : Option NameEntry :=
  table.names.find? fun entry => entry.symbol = symbol

end Table

end SoftMenu
