/-!
# Diagnostic codes

Every diagnostic has a stable code: `MDL1…` for the words and the grammar of a menu definition,
`MDL2…` for the tree and its symbols, `MDL3…` for display names. Each code has a long explanation.
-/

namespace SoftMenu

/-- The kinds of diagnostic. -/
inductive Code where
  /-- The text ended where a word was required. -/
  | unexpectedEnd
  /-- A word cannot stand where it does. -/
  | unexpectedToken
  /-- There is no root group. -/
  | missingRoot
  /-- There is a second root group. -/
  | extraRoot
  /-- A setting is given more than once. -/
  | duplicateConfigKey
  /-- A group has no rows. -/
  | emptyGroup
  /-- A row has more slots than there are buttons. -/
  | rowOverflow
  /-- A row has no slots. -/
  | emptyRow
  /-- A group has more rows than a byte can count. -/
  | tooManyRows
  /-- A label is reserved or does not begin with a letter. -/
  | illegalLabel
  /-- A node that is not a plain item is marked as blank. -/
  | misplacedBlank
  /-- Two nodes may not share their name. -/
  | duplicateName
  /-- Two nodes share their label. -/
  | duplicateLabel
  /-- There are more nodes than ids. -/
  | idOverflow
  /-- There are more names than name ids. -/
  | nameIdOverflow
  /-- A display name is malformed. -/
  | invalidName
deriving DecidableEq, Repr

namespace Code

/-- All codes in ascending order. -/
def all : List Code :=
  [.unexpectedEnd, .unexpectedToken, .missingRoot, .extraRoot, .duplicateConfigKey, .emptyGroup,
    .rowOverflow, .emptyRow, .tooManyRows, .illegalLabel, .misplacedBlank, .duplicateName,
    .duplicateLabel, .idOverflow, .nameIdOverflow, .invalidName]

/-- The stable spelling of a code. -/
def id : Code → String
  | .unexpectedEnd => "MDL1001"
  | .unexpectedToken => "MDL1101"
  | .missingRoot => "MDL1102"
  | .extraRoot => "MDL1103"
  | .duplicateConfigKey => "MDL1201"
  | .emptyGroup => "MDL2001"
  | .rowOverflow => "MDL2002"
  | .emptyRow => "MDL2003"
  | .tooManyRows => "MDL2004"
  | .illegalLabel => "MDL2101"
  | .misplacedBlank => "MDL2102"
  | .duplicateName => "MDL2201"
  | .duplicateLabel => "MDL2202"
  | .idOverflow => "MDL2301"
  | .nameIdOverflow => "MDL2302"
  | .invalidName => "MDL3001"

/-- What a code means and what to do about it. -/
def explanation : Code → String
  | .unexpectedEnd =>
    "The file ended in the middle of a construct. Every MenuGroup, MenuRow and MenuConfig " ++
    "block must be closed with ']', and every MenuItem needs both a name and a label."
  | .unexpectedToken =>
    "The parser found a token that cannot appear at this position. Check for a misspelled " ++
    "keyword (MenuGroup, MenuRow, MenuItem, MenuItemAlt) or a missing bracket."
  | .missingRoot =>
    "A menu definition file must contain exactly one top-level MenuGroup after the MenuConfig " ++
    "block; it becomes the root menu."
  | .extraRoot =>
    "Only one top-level MenuGroup is allowed. Nest additional groups inside a MenuRow of the " ++
    "root group."
  | .duplicateConfigKey =>
    "A MenuConfig key was given more than once. The last value is used."
  | .emptyGroup => "Every MenuGroup must contain at least one MenuRow."
  | .rowOverflow =>
    "A MenuRow maps onto the five menu buttons and may declare at most five slots. Split the " ++
    "entries into another MenuRow."
  | .emptyRow =>
    "A MenuRow must declare at least one slot. Use 'MenuItem * *' to reserve an empty button " ++
    "explicitly."
  | .tooManyRows =>
    "A MenuGroup stores its row count in a single byte and may declare at most 255 rows."
  | .illegalLabel =>
    "Labels become assembler symbols. They must start with a letter and must not start with a " ++
    "reserved prefix (mBlank, mNull, mMenuTable, mMenuNameTable)."
  | .misplacedBlank =>
    "The blank sentinel '*' may only be used as 'MenuItem * *'. Groups and alternate-name " ++
    "items need a real name and label."
  | .duplicateName =>
    "Two menu nodes share a display name. Depending on the duplicate-name policy, leaf items " ++
    "may share names, but a MenuGroup name must always be unique."
  | .duplicateLabel =>
    "Two menu nodes share a label. Labels become assembler symbols and must be unique across " ++
    "the whole tree."
  | .idOverflow =>
    "Node ids are stored in a single byte and id 0 is reserved, so the tree (including padded " ++
    "blank slots) may hold at most 254 nodes."
  | .nameIdOverflow =>
    "Name ids are stored in a single byte and id 0 is reserved for the null name, so at most " ++
    "254 names and alternate names can be emitted."
  | .invalidName =>
    "Display names may only use ASCII letters, digits and '<...>' glyph references. Names " ++
    "containing '<' or '>' are exploded into glyph tokens, and every '<' needs a matching '>' " ++
    "with a non-empty glyph name in between."

/-- The code with the given spelling. -/
def ofId? (id : String) : Option Code := all.find? fun code => code.id = id

end Code

/-- The explanation of the code with the given spelling. -/
def explain? (id : String) : Option String := (Code.ofId? id).map Code.explanation

end SoftMenu
