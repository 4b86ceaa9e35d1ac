import SoftMenu.Json.Basic
import SoftMenu.Table.Basic

/-!
# The JSON form of tables

Every entry of a table is an object with a field `kind`; the fields of a record stand beside it.
-/

namespace SoftMenu

/-- The JSON form of what the fifth byte refers to. -/
def RowBegin.toJson : RowBegin → Json
  | .nothing => .obj [("kind", .str "None")]
  | .firstSlot label id =>
    .obj [("kind", .str "FirstSlot"), ("label", .str label), ("id", .nat id.toNat)]
  | .altName symbol => .obj [("kind", .str "AltName"), ("symbol", .str symbol)]

/-- The JSON form of a routine. -/
def Handler.toJson (handler : Handler) : Json :=
  .obj [("symbol", .str handler.symbol), ("predefined", .bool handler.predefined)]

/-- The fields of a record. -/
def NodeRecord.toFields (record : NodeRecord) : List (String × Json) :=
  Json.present
    [("label", some (.str record.label)),
      ("id", some (.nat record.id.toNat)),
      ("parent_label", some (.str record.parentLabel)),
      ("parent_id", some (.nat record.parentId.toNat)),
      ("name_id", some (.str record.nameId)),
      ("num_rows", some (.nat record.numRows.toNat)),
      ("row_begin", some record.rowBegin.toJson),
      ("handler", some record.handler.toJson),
      ("name_selector", record.nameSelector.map .str)]

/-- The JSON form of a record. -/
def NodeRecord.toJson (record : NodeRecord) : Json := .obj record.toFields

/-- The JSON form of an entry. -/
def Entry.toJson : Entry → Json
  | .groupChildren group => .obj [("kind", .str "GroupChildren"), ("group", .str group)]
  | .groupRow group row =>
    .obj [("kind", .str "GroupRow"), ("group", .str group), ("row", .nat row)]
  | .node record => .obj (("kind", .str "Node") :: record.toFields)

/-- The word for a name slot. -/
def NameSlot.word : NameSlot → String
  | .primary => "Primary"
  | .alternate => "Alt"

/-- The JSON form of the contents of a string. -/
def NameText.toJson : NameText → Json
  | .literal text => .obj [("Literal", .str text)]
  | .glyphs operands => .obj [("Glyphs", .arr (operands.map .str))]

/-- The JSON form of an entry of the name pool. -/
def NameEntry.toJson (entry : NameEntry) : Json :=
  .obj
    [("label", .str entry.label),
      ("slot", .str entry.slot.word),
      ("id", .nat entry.id.toNat),
      ("text", entry.text.toJson)]

/-- The JSON form of a table. -/
def Table.toJson (table : Table) : Json :=
  .obj
    [("entries", .arr (table.entries.map Entry.toJson)),
      ("names", .arr (table.names.map NameEntry.toJson))]

end SoftMenu
