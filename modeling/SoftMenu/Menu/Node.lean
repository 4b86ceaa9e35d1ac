import SoftMenu.Place

/-!
# Menu trees

A menu is a tree. A leaf is an item, or an item with an alternate name; an inner node is a group,
whose slots are arranged in rows. The five menu buttons show one row at a time, so a row of a
finished menu has exactly five slots; those that nothing was declared for hold *blank* items, which
are written with the name `*`.

A node carries two numbers of one byte each, its own id and that of its group, which are 0 until
they are assigned.
-/

namespace SoftMenu

/-- The number of slots of a finished row: one for each menu button. -/
def rowSlots : Nat := 5

/-- The name that marks a blank item, and the label it is declared with. -/
def blankMark : String := "*"

/-- The id of no node; the parent id of the root. -/
def nullId : UInt8 := 0

/-! ## Nodes -/

/-- The kinds of menu node. -/
inductive Kind where
  /-- A plain item. -/
  | item
  /-- An item with an alternate name. -/
  | altItem
  /-- A group of rows. -/
  | group
deriving DecidableEq, Repr

/-- The keyword that declares a node of a kind. -/
def Kind.keyword : Kind → String
  | .item => "MenuItem"
  | .altItem => "MenuItemAlt"
  | .group => "MenuGroup"

/-- The text that the menu shows for a node. -/
structure DisplayName where
  /-- The text as it is declared. -/
  text : String
  /-- The characters and glyphs it stands for, once it is known to refer to glyphs. -/
  exploded : Option (List String) := none
deriving DecidableEq, Repr

/-- Whether a name refers to a glyph: it has an angle bracket. -/
def DisplayName.isSpecial (name : DisplayName) : Bool :=
  name.text.toList.any fun c => c = '<' || c = '>'

/-- What all nodes carry. -/
structure NodeInfo where
  /-- The name shown for the node. -/
  name : DisplayName
  /-- The symbol that stands for the node in the program. -/
  label : String
  /-- The number of the node. -/
  id : UInt8 := nullId
  /-- The number of the group that the node is a slot of. -/
  parentId : UInt8 := nullId
  /-- Where the keyword of the declaration stands. -/
  place : Place
deriving DecidableEq, Repr

/-- A row of a group. -/
structure Row (α : Type) where
  /-- The slots from left to right. -/
  slots : List α
  /-- Where the keyword of the declaration stands. -/
  place : Place
deriving DecidableEq, Repr

/-- A menu tree. -/
inductive Node where
  /-- A plain item. -/
  | item (info : NodeInfo)
  /-- An item that is shown by one of two names. -/
  | altItem (info : NodeInfo) (altName : DisplayName)
  /-- A group of rows. -/
  | group (info : NodeInfo) (rows : List (Row Node))
deriving Repr

namespace Node

/-- The data that all kinds of node carry. -/
def info : Node → NodeInfo
  | .item info | .altItem info _ | .group info _ => info

/-- Changes the data that all kinds of node carry. -/
def mapInfo (change : NodeInfo → NodeInfo) : Node → Node
  | .item info => .item (change info)
  | .altItem info altName => .altItem (change info) altName
  | .group info rows => .group (change info) rows

/-- The kind of a node. -/
def kind : Node → Kind
  | .item _ => .item
  | .altItem _ _ => .altItem
  | .group _ _ => .group

/-- The declared text of the name of a node. -/
def name (node : Node) : String := node.info.name.text

/-- The label of a node. -/
def label (node : Node) : String := node.info.label

/-- The id of a node. -/
def id (node : Node) : UInt8 := node.info.id

/-- The parent id of a node. -/
def parentId (node : Node) : UInt8 := node.info.parentId

/-- Where a node is declared. -/
def place (node : Node) : Place := node.info.place

/-- Whether a node is marked as blank. -/
def isBlank (node : Node) : Bool := node.name = blankMark

/-- Whether a node is a group. -/
def isGroup : Node → Bool
  | .group _ _ => true
  | _ => false

/-- The rows of a group; a leaf has none. -/
def rows : Node → List (Row Node)
  | .group _ rows => rows
  | _ => []

/-- The slots of a group, row by row. -/
def slots (node : Node) : List Node := node.rows.flatMap Row.slots

/-- The alternate name of a node that has one. -/
def altName? : Node → Option DisplayName
  | .altItem _ altName => some altName
  | _ => none

/-- The first slot of the first row of a group. -/
def firstSlot? (node : Node) : Option Node := node.rows.head?.bind fun row => row.slots.head?

/-- The id of the first slot of the first row of a group, or the null id if there is none. -/
def rowBeginId (node : Node) : UInt8 := (node.firstSlot?.map Node.id).getD nullId

/-- A blank item that fills a slot of the row declared at `place`. -/
def blank (place : Place) : Node := .item { name := ⟨blankMark, none⟩, label := blankMark, place }

end Node

mutual

/-- The number of groups on the longest way down from a node, the node included. -/
def Node.depth : Node → Nat
  | .group _ rows => depthOfRows rows + 1
  | _ => 0

/-- The greatest depth among the slots of some rows. -/
def depthOfRows : List (Row Node) → Nat
  | [] => 0
  | row :: rows => max (depthOfRow row) (depthOfRows rows)

/-- The greatest depth among the slots of a row. -/
def depthOfRow : Row Node → Nat
  | ⟨slots, _⟩ => depthOfSlots slots

/-- The greatest depth among some slots. -/
def depthOfSlots : List Node → Nat
  | [] => 0
  | slot :: slots => max slot.depth (depthOfSlots slots)

end

/-! ## Menu files -/

/-- The settings of a menu definition. -/
inductive ConfigKey where
  /-- The name of blank items. -/
  | itemName
  /-- The symbol of the name id of blank items. -/
  | itemNameId
  /-- The routine of blank items. -/
  | itemHandler
  /-- The routine of all groups. -/
  | groupHandler
deriving DecidableEq, Repr

/-- The word that a setting is written with. -/
def ConfigKey.word : ConfigKey → String
  | .itemName => "ItemName"
  | .itemNameId => "ItemNameId"
  | .itemHandler => "ItemHandler"
  | .groupHandler => "GroupHandler"

/-- All settings, in the order in which they are listed. -/
def ConfigKey.all : List ConfigKey := [.itemName, .itemNameId, .itemHandler, .groupHandler]

/-- The setting that a word names. -/
def ConfigKey.ofWord? (word : String) : Option ConfigKey :=
  ConfigKey.all.find? fun key => key.word = word

/-- The settings that a menu definition gives. -/
structure Config where
  /-- The name of blank items. -/
  itemName : Option String := none
  /-- The symbol of the name id of blank items. -/
  itemNameId : Option String := none
  /-- The routine of blank items. -/
  itemHandler : Option String := none
  /-- The routine of all groups. -/
  groupHandler : Option String := none
deriving DecidableEq, Repr, Inhabited

namespace Config

/-- The value given for a setting. -/
def get? (config : Config) : ConfigKey → Option String
  | .itemName => config.itemName
  | .itemNameId => config.itemNameId
  | .itemHandler => config.itemHandler
  | .groupHandler => config.groupHandler

/-- Gives a setting a value, in place of any it had. -/
def set (config : Config) (key : ConfigKey) (value : String) : Config :=
  match key with
  | .itemName => { config with itemName := some value }
  | .itemNameId => { config with itemNameId := some value }
  | .itemHandler => { config with itemHandler := some value }
  | .groupHandler => { config with groupHandler := some value }

/-- The symbol of the name id of blank items. -/
def blankNameId (config : Config) : String := config.itemNameId.getD "mNullNameId"

/-- The routine of blank items. -/
def blankHandler (config : Config) : String := config.itemHandler.getD "mNullHandler"

/-- The routine of all groups. -/
def handlerOfGroups (config : Config) : String := config.groupHandler.getD "mGroupHandler"

end Config

/-- A menu definition: settings and one menu tree. -/
structure MenuFile where
  /-- The settings. -/
  config : Config
  /-- The tree. -/
  root : Node
deriving Repr

end SoftMenu
