import SoftMenu.Error
import SoftMenu.Token

/-!
# Reading menu definitions

The grammar of a menu definition, over words:

    File      := 'MenuConfig' '[' (ConfigKey Value)* ']' MenuGroup
    MenuGroup := 'MenuGroup' Name Label '[' MenuRow* ']'
    MenuRow   := 'MenuRow' '[' Slot* ']'
    Slot      := 'MenuItem' Name Label | 'MenuItemAlt' Name AltName Label | MenuGroup

Names, labels and values are any word at all, keywords and brackets included.

The reader is a machine that takes one word at a time. Its state says what may come next and keeps
the groups and rows that are still open, so the first word that cannot continue any menu definition
is the one at which the machine stops.
-/

namespace SoftMenu

/-! ## States -/

/-- A group whose closing bracket has not been read. -/
structure OpenGroup where
  /-- The data of the group. -/
  info : NodeInfo
  /-- The rows read so far, last one first. -/
  rows : List (Row Node) := []
deriving Repr

/-- A row whose closing bracket has not been read. -/
structure OpenRow where
  /-- The group that the row belongs to. -/
  group : OpenGroup
  /-- Where the keyword of the row stands. -/
  place : Place
  /-- The slots read so far, last one first. -/
  slots : List Node := []
deriving Repr

/-- What the reader has to read next. The rows that are open around it are kept innermost first;
`row` is the innermost one where there must be one. -/
inductive Expectation where
  /-- The keyword of the settings. -/
  | configKeyword
  /-- The bracket that opens the settings. -/
  | configOpen
  /-- The name of a setting, or the bracket that closes the settings. -/
  | configKey
  /-- The value of a setting that has been named by the word `token`. -/
  | configValue (key : ConfigKey) (token : Token)
  /-- The keyword of the root group. -/
  | rootKeyword
  /-- The name of a group. -/
  | groupName (keyword : Token) (outer : List OpenRow)
  /-- The label of a group. -/
  | groupLabel (keyword name : Token) (outer : List OpenRow)
  /-- The bracket that opens a group. -/
  | groupOpen (group : OpenGroup) (outer : List OpenRow)
  /-- A row of a group, or the bracket that closes the group. -/
  | groupBody (group : OpenGroup) (outer : List OpenRow)
  /-- The bracket that opens a row. -/
  | rowOpen (row : OpenRow) (outer : List OpenRow)
  /-- A slot of a row, or the bracket that closes the row. -/
  | rowBody (row : OpenRow) (outer : List OpenRow)
  /-- The name of an item. -/
  | itemName (keyword : Token) (row : OpenRow) (outer : List OpenRow)
  /-- The label of an item. -/
  | itemLabel (keyword name : Token) (row : OpenRow) (outer : List OpenRow)
  /-- The name of an item with an alternate name. -/
  | altItemName (keyword : Token) (row : OpenRow) (outer : List OpenRow)
  /-- The alternate name of an item. -/
  | altItemAltName (keyword name : Token) (row : OpenRow) (outer : List OpenRow)
  /-- The label of an item with an alternate name. -/
  | altItemLabel (keyword name altName : Token) (row : OpenRow) (outer : List OpenRow)
  /-- The end of the text. -/
  | finished (root : Node)
deriving Repr

/-- How the missing thing is described when the text ends. -/
def Expectation.atEnd : Expectation → String
  | .configKeyword => "'MenuConfig'"
  | .configOpen | .groupOpen .. | .rowOpen .. => "'['"
  | .configKey => "a MenuConfig key or ']'"
  | .configValue key _ => s!"a value for '{key.word}'"
  | .rootKeyword | .finished _ => "'MenuGroup'"
  | .groupName .. => "a MenuGroup name"
  | .groupLabel .. => "a MenuGroup label"
  | .groupBody .. => "'MenuRow' or ']'"
  | .rowBody .. => "a menu slot or ']'"
  | .itemName .. => "a MenuItem name"
  | .itemLabel .. => "a MenuItem label"
  | .altItemName .. => "a MenuItemAlt name"
  | .altItemAltName .. => "a MenuItemAlt alternate name"
  | .altItemLabel .. => "a MenuItemAlt label"

/-- How the right words are described when another word stands in their place. -/
def Expectation.instead : Expectation → String
  | .configKey => "'ItemName', 'ItemNameId', 'ItemHandler', 'GroupHandler' or ']'"
  | .rowBody .. => "'MenuItem', 'MenuItemAlt', 'MenuGroup' or ']'"
  | expectation => expectation.atEnd

/-- A menu definition that has been read up to some word. -/
structure Reader where
  /-- The settings read so far. -/
  config : Config := {}
  /-- The warnings so far. -/
  warnings : List Diagnostic := []
  /-- What has to come next. -/
  expectation : Expectation := .configKeyword
deriving Repr

/-! ## Steps -/

/-- The data of a node declared by a keyword, a name and a label. -/
def declare (keyword name label : Token) : NodeInfo :=
  { name := { text := name.text }, label := label.text, place := keyword.place }

/-- The warning that a setting has been given a second time. -/
def repeatedKey (key : ConfigKey) (token value : Token) (previous : String) : Diagnostic where
  id := Code.duplicateConfigKey.id
  severity := .warn
  message :=
    s!"MenuConfig key '{key.word}' repeated at line {token.place.line}; " ++
      s!"'{value.text}' replaces '{previous}'"
  span := some token.place.span
  context := some (.ofPairs [("key", key.word), ("previous", previous)])

/-- What comes after a slot: more of its row. -/
def afterSlot (slot : Node) (row : OpenRow) (outer : List OpenRow) : Expectation :=
  .rowBody { row with slots := slot :: row.slots } outer

/-- What comes after a row: more of its group. -/
def afterRow (row : OpenRow) (outer : List OpenRow) : Expectation :=
  .groupBody { row.group with rows := ⟨row.slots.reverse, row.place⟩ :: row.group.rows } outer

/-- What comes after a group: more of the row it is a slot of, or the end if it is the root. -/
def afterGroup (group : OpenGroup) (outer : List OpenRow) : Expectation :=
  let node := Node.group group.info group.rows.reverse
  match outer with
  | [] => .finished node
  | row :: outer => afterSlot node row outer

namespace Reader

/-- Goes on to the next expectation. -/
def expecting (reader : Reader) (expectation : Expectation) : Reader := { reader with expectation }

/-- Gives a setting a value, with a warning if it has one. -/
def configure (reader : Reader) (key : ConfigKey) (token value : Token) : Reader where
  config := reader.config.set key value.text
  warnings := reader.warnings ++
    ((reader.config.get? key).map (repeatedKey key token value)).toList
  expectation := .configKey

/-- The error that a word does not fit. -/
def reject (reader : Reader) (token : Token) : Except CompileError Reader :=
  .error (.unexpectedToken token.text reader.expectation.instead token.place)

/-- Goes on if the word is the right one. -/
def require (reader : Reader) (word : String) (token : Token) (next : Expectation) :
    Except CompileError Reader :=
  if token.text = word then .ok (reader.expecting next) else reader.reject token

/-- Takes the next word. -/
def step (reader : Reader) (token : Token) : Except CompileError Reader :=
  match reader.expectation with
  | .configKeyword => reader.require "MenuConfig" token .configOpen
  | .configOpen => reader.require "[" token .configKey
  | .configKey =>
    match ConfigKey.ofWord? token.text with
    | some key => .ok (reader.expecting (.configValue key token))
    | none => reader.require "]" token .rootKeyword
  | .configValue key keyToken => .ok (reader.configure key keyToken token)
  | .rootKeyword => reader.require "MenuGroup" token (.groupName token [])
  | .groupName keyword outer => .ok (reader.expecting (.groupLabel keyword token outer))
  | .groupLabel keyword name outer =>
    .ok (reader.expecting (.groupOpen { info := declare keyword name token } outer))
  | .groupOpen group outer => reader.require "[" token (.groupBody group outer)
  | .groupBody group outer =>
    if token.text = "MenuRow" then
      .ok (reader.expecting (.rowOpen { group, place := token.place } outer))
    else reader.require "]" token (afterGroup group outer)
  | .rowOpen row outer => reader.require "[" token (.rowBody row outer)
  | .rowBody row outer =>
    if token.text = "MenuItem" then .ok (reader.expecting (.itemName token row outer))
    else if token.text = "MenuItemAlt" then .ok (reader.expecting (.altItemName token row outer))
    else if token.text = "MenuGroup" then
      .ok (reader.expecting (.groupName token (row :: outer)))
    else reader.require "]" token (afterRow row outer)
  | .itemName keyword row outer => .ok (reader.expecting (.itemLabel keyword token row outer))
  | .itemLabel keyword name row outer =>
    .ok (reader.expecting (afterSlot (.item (declare keyword name token)) row outer))
  | .altItemName keyword row outer =>
    .ok (reader.expecting (.altItemAltName keyword token row outer))
  | .altItemAltName keyword name row outer =>
    .ok (reader.expecting (.altItemLabel keyword name token row outer))
  | .altItemLabel keyword name altName row outer =>
    let slot := Node.altItem (declare keyword name token) { text := altName.text }
    .ok (reader.expecting (afterSlot slot row outer))
  | .finished _ =>
    if token.text = "MenuGroup" then .error (.extraRoot token.place) else reader.reject token

end Reader

/-! ## Whole definitions -/

/-- A menu definition that has been read. -/
structure Parsed where
  /-- The menu file; nothing in it is numbered or exploded yet. -/
  file : MenuFile
  /-- The warnings, in order. -/
  warnings : List Diagnostic
deriving Repr

/-- What has been read once the text has ended at the given place. -/
def Reader.finish (reader : Reader) (place : Place) : Except CompileError Parsed :=
  match reader.expectation with
  | .finished root => .ok ⟨⟨reader.config, root⟩, reader.warnings⟩
  | .rootKeyword => .error (.missingRoot place)
  | expectation => .error (.unexpectedEnd expectation.atEnd place)

/-- The place where a source text ends. -/
def endPlace (source : String) : Place := ⟨lastLine source, .empty source.utf8ByteSize⟩

/-- Reads words up to the end of the text at the given place. -/
def parseTokens (tokens : List Token) (place : Place) : Except CompileError Parsed := do
  (← tokens.foldlM Reader.step {}).finish place

/-- Reads a menu definition. -/
def parse (source : String) : Except CompileError Parsed :=
  parseTokens (tokenize source) (endPlace source)

end SoftMenu
