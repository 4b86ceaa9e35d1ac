import SoftMenu.Diagnostic.Json
import SoftMenu.Menu.Node

/-!
# The JSON form of menu files

Every part of a menu file is an object; the kind of a node is its field `kind`. Fields that are not
set are left out.

What is read may be laid out more freely. Fields that are not set may also be `null`, and fields
that mean nothing here are ignored; the others must not be repeated. Every part may also be the
array of all its fields, in the order in which they are written; that of a node begins with its
kind. A node inside a group may give its kind by its number, counted from 0.

The reader goes down the JSON value itself, so a field that holds further nodes is looked for by
recursion on the list of fields.
-/

namespace SoftMenu

/-! ## Kinds -/

/-- The word for a kind of node. -/
def Kind.tag : Kind → String
  | .item => "Item"
  | .altItem => "ItemAlt"
  | .group => "Group"

/-- The kind that a word stands for. -/
def Kind.ofTag? : String → Option Kind
  | "Item" => some .item
  | "ItemAlt" => some .altItem
  | "Group" => some .group
  | _ => none

/-- The kind that a number stands for. -/
def Kind.ofNumber? : Nat → Option Kind
  | 0 => some .item
  | 1 => some .altItem
  | 2 => some .group
  | _ => none

/-- Reads the kind of a node; only inside a group it may be a number. -/
def Kind.ofJson? (inner : Bool) : Json → Option Kind
  | .str tag => ofTag? tag
  | value => if inner then value.word64?.bind ofNumber? else none

/-! ## Writing -/

/-- The JSON form of a name. -/
def DisplayName.toJson (name : DisplayName) : Json :=
  .obj <| Json.present
    [("text", some (.str name.text)),
      ("exploded", name.exploded.map fun operands => .arr (operands.map .str))]

/-- The fields of a place. -/
def Place.toFields (place : Place) : List (String × Json) :=
  [("line", .nat place.line), ("span", place.span.toJson)]

/-- The JSON form of the data of a node. -/
def NodeInfo.toJson (info : NodeInfo) : Json :=
  .obj <|
    [("name", info.name.toJson),
      ("label", .str info.label),
      ("id", .nat info.id.toNat),
      ("parent_id", .nat info.parentId.toNat)] ++ info.place.toFields

/-- The JSON form of settings. -/
def Config.toJson (config : Config) : Json :=
  .obj <| Json.present
    [("item_name", config.itemName.map .str),
      ("item_name_id", config.itemNameId.map .str),
      ("item_handler", config.itemHandler.map .str),
      ("group_handler", config.groupHandler.map .str)]

mutual

/-- The JSON form of a node. -/
def Node.toJson : Node → Json
  | .item info => .obj [("kind", .str Kind.item.tag), ("info", info.toJson)]
  | .altItem info altName =>
    .obj [("kind", .str Kind.altItem.tag), ("info", info.toJson), ("altname", altName.toJson)]
  | .group info rows =>
    .obj [("kind", .str Kind.group.tag), ("info", info.toJson), ("rows", .arr (rowsToJson rows))]

/-- The JSON forms of some rows. -/
def rowsToJson : List (Row Node) → List Json
  | [] => []
  | row :: rows => rowToJson row :: rowsToJson rows

/-- The JSON form of a row. -/
def rowToJson : Row Node → Json
  | ⟨slots, place⟩ => .obj (("slots", .arr (slotsToJson slots)) :: place.toFields)

/-- The JSON forms of some slots. -/
def slotsToJson : List Node → List Json
  | [] => []
  | slot :: slots => slot.toJson :: slotsToJson slots

end

/-- The JSON form of a menu file. -/
def MenuFile.toJson (file : MenuFile) : Json :=
  .obj [("config", file.config.toJson), ("root", file.root.toJson)]

/-- The JSON text of a menu file in the pretty layout. -/
def MenuFile.toText (file : MenuFile) : String := file.toJson.write .pretty

/-! ## Reading -/

/-- Reads the JSON form of a name. -/
def DisplayName.ofJson? (value : Json) : Option DisplayName := do
  let [text, exploded] ← value.record? ["text", "exploded"] | none
  return { text := ← text.str?, exploded := ← exploded.nullable? Json.strings? }

/-- Reads the parts of a place. -/
def Place.ofJson? (line span : Json) : Option Place := do
  return { line := ← line.word64?, span := ← Span.ofJson? span }

/-- Reads the JSON form of the data of a node. -/
def NodeInfo.ofJson? (value : Json) : Option NodeInfo := do
  let [name, label, id, parentId, line, span] ←
    value.record? ["name", "label", "id", "parent_id", "line", "span"] | none
  return {
    name := ← DisplayName.ofJson? name
    label := ← label.str?
    id := ← id.byte?
    parentId := ← parentId.byte?
    place := ← Place.ofJson? line span }

/-- Reads the JSON form of settings. -/
def Config.ofJson? (value : Json) : Option Config := do
  let [itemName, itemNameId, itemHandler, groupHandler] ←
    value.record? ["item_name", "item_name_id", "item_handler", "group_handler"] | none
  return {
    itemName := ← itemName.nullable? Json.str?
    itemNameId := ← itemNameId.nullable? Json.str?
    itemHandler := ← itemHandler.nullable? Json.str?
    groupHandler := ← groupHandler.nullable? Json.str? }

mutual

/-- Reads the JSON form of a node. -/
def Node.ofJson? (inner : Bool) : Json → Option Node
  | .obj fields => do
    let kind ← Kind.ofJson? inner (← (Json.obj fields).field? "kind")
    let info ← NodeInfo.ofJson? (← (Json.obj fields).field? "info")
    match kind with
    | .item => return .item info
    | .altItem =>
      return .altItem info (← DisplayName.ofJson? (← (Json.obj fields).field? "altname"))
    | .group => return .group info (← rowsOfField? fields)
  | .arr [kind, info] => do
    match ← Kind.ofJson? inner kind with
    | .item => return .item (← NodeInfo.ofJson? info)
    | .altItem | .group => none
  | .arr [kind, info, last] => do
    match ← Kind.ofJson? inner kind with
    | .item => none
    | .altItem => return .altItem (← NodeInfo.ofJson? info) (← DisplayName.ofJson? last)
    | .group => return .group (← NodeInfo.ofJson? info) (← rowsOfJson? last)
  | _ => none

/-- Reads the field `rows`, which must not be repeated. -/
def rowsOfField? : List (String × Json) → Option (List (Row Node))
  | [] => none
  | (name, value) :: fields =>
    if name = "rows" then
      if fields.any fun field => field.1 = "rows" then none else rowsOfJson? value
    else rowsOfField? fields

/-- Reads an array of rows. -/
def rowsOfJson? : Json → Option (List (Row Node))
  | .arr items => rowsOfItems? items
  | _ => none

/-- Reads the items of an array of rows. -/
def rowsOfItems? : List Json → Option (List (Row Node))
  | [] => some []
  | item :: items => do
    let row ← rowOfJson? item
    let rows ← rowsOfItems? items
    return row :: rows

/-- Reads the JSON form of a row. -/
def rowOfJson? : Json → Option (Row Node)
  | .obj fields => do
    let slots ← slotsOfField? fields
    let line ← (Json.obj fields).field? "line"
    let span ← (Json.obj fields).field? "span"
    return ⟨slots, ← Place.ofJson? line span⟩
  | .arr [slots, line, span] => return ⟨← slotsOfJson? slots, ← Place.ofJson? line span⟩
  | _ => none

/-- Reads the field `slots`, which must not be repeated. -/
def slotsOfField? : List (String × Json) → Option (List Node)
  | [] => none
  | (name, value) :: fields =>
    if name = "slots" then
      if fields.any fun field => field.1 = "slots" then none else slotsOfJson? value
    else slotsOfField? fields

/-- Reads an array of slots. -/
def slotsOfJson? : Json → Option (List Node)
  | .arr items => slotsOfItems? items
  | _ => none

/-- Reads the items of an array of slots. -/
def slotsOfItems? : List Json → Option (List Node)
  | [] => some []
  | item :: items => do
    let slot ← Node.ofJson? true item
    let slots ← slotsOfItems? items
    return slot :: slots

end

/-- Reads the JSON form of a menu file. -/
def MenuFile.ofJson? (value : Json) : Option MenuFile := do
  let [config, root] ← value.record? ["config", "root"] | none
  return { config := ← Config.ofJson? config, root := ← Node.ofJson? false root }

/-- Reads the JSON text of a menu file. -/
def MenuFile.ofText? (text : String) : Option MenuFile := (Json.read? text).bind MenuFile.ofJson?

end SoftMenu
