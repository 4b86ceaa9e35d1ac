import SoftMenu.Diagnostic.Basic
import SoftMenu.Menu.Glyph
import SoftMenu.Menu.Node

/-!
# Compile errors

Every fault of a menu definition stops its compilation. A `CompileError` is the cause together with
what the report about it needs; the wording, the code and the category are functions of it.
-/

namespace SoftMenu

/-- The classes of compile error. -/
inductive Category where
  /-- The text ends too early. -/
  | lexical
  /-- A word does not fit the grammar. -/
  | grammatical
  /-- The tree, its labels, its names or its size break a rule. -/
  | structural
  /-- A display name is malformed. -/
  | encoding
deriving DecidableEq, Repr

/-- The word for a category. -/
def Category.word : Category → String
  | .lexical => "lexical"
  | .grammatical => "syntax"
  | .structural => "structural"
  | .encoding => "encoding"

/-- Why a label is not legal. -/
inductive LabelFault where
  /-- It begins like the symbols that are generated. -/
  | reserved (start : String)
  /-- A blank item has a label of its own. -/
  | labelledBlank
  /-- A node that is not blank has the label of blank items. -/
  | blankLabel
  /-- It does not begin with a letter. -/
  | noLetter
deriving DecidableEq, Repr

/-- The wording of a label fault. -/
def LabelFault.reason : LabelFault → String
  | .reserved start => s!"prefix '{start}' is reserved"
  | .labelledBlank => "a blank menu must use the label '*'"
  | .blankLabel => "'*' is only valid for a blank menu"
  | .noLetter => "a label must begin with a letter"

/-- Why a menu definition does not compile. -/
inductive CompileError where
  /-- The text ended where something was expected. -/
  | unexpectedEnd (expected : String) (place : Place)
  /-- A word stands where something else was expected. -/
  | unexpectedToken (found expected : String) (place : Place)
  /-- The text ended after the settings. -/
  | missingRoot (place : Place)
  /-- A second root group begins. -/
  | extraRoot (place : Place)
  /-- A group has no rows. -/
  | emptyGroup (group : String) (place : Place)
  /-- A row has more than five slots. -/
  | rowOverflow (group : String) (row count : Nat) (place : Place)
  /-- A row has no slots. -/
  | emptyRow (group : String) (row : Nat) (place : Place)
  /-- A group has more than 255 rows. -/
  | tooManyRows (group : String) (count : Nat) (place : Place)
  /-- A label is not legal. -/
  | illegalLabel (label name : String) (fault : LabelFault) (place : Place)
  /-- A node that is not a plain item is marked as blank. -/
  | misplacedBlank (kind : Kind) (place : Place)
  /-- A name is used again where the policy forbids it. -/
  | duplicateName (name : String) (kind previous : Kind) (place : Place)
  /-- A label is used again. -/
  | duplicateLabel (label : String) (firstLine : Nat) (place : Place)
  /-- A node finds no id left. -/
  | idOverflow (max : UInt8) (label : String) (place : Place)
  /-- A name finds no name id left. -/
  | nameIdOverflow (max : UInt8) (label : String) (span : Span)
  /-- A display name is malformed. -/
  | invalidName (name : String) (fault : NameFault) (place : Place)
deriving DecidableEq, Repr

namespace CompileError

/-- The sentence that reports an error. -/
def message : CompileError → String
  | .unexpectedEnd expected place =>
    s!"unexpected end of input at line {place.line}, expected {expected}"
  | .unexpectedToken found expected place =>
    s!"unexpected token '{found}' at line {place.line}, expected {expected}"
  | .missingRoot place =>
    s!"missing root 'MenuGroup' after 'MenuConfig' (input ends at line {place.line})"
  | .extraRoot place =>
    s!"second root 'MenuGroup' at line {place.line}; only one root group is allowed"
  | .emptyGroup group place =>
    s!"MenuGroup '{group}' at line {place.line} must have at least one MenuRow"
  | .rowOverflow group row count place =>
    s!"MenuGroup '{group}', row {row} at line {place.line} has too many ({count}) nodes, " ++
      s!"must be <= 5"
  | .emptyRow group row place => s!"MenuGroup '{group}', row {row} at line {place.line} has 0 nodes"
  | .tooManyRows group count place =>
    s!"MenuGroup '{group}' at line {place.line} has {count} rows, must be <= 255"
  | .illegalLabel label name fault place =>
    s!"illegal label '{label}' for menu '{name}' at line {place.line}: {fault.reason}"
  | .misplacedBlank kind place =>
    s!"invalid blank sentinel '*' for {kind.keyword} at line {place.line}; " ++
      s!"only 'MenuItem * *' may be blank"
  | .duplicateName name kind previous place =>
    s!"duplicate name '{name}' at line {place.line} " ++
      s!"({kind.keyword} clashes with {previous.keyword})"
  | .duplicateLabel label firstLine place =>
    s!"duplicate label '{label}' at line {place.line} (first used at line {firstLine})"
  | .idOverflow max label place =>
    s!"overflow: menu tree needs more than {max.toNat} node ids " ++
      s!"(at '{label}', line {place.line})"
  | .nameIdOverflow max label _ =>
    s!"overflow: name pool needs more than {max.toNat} name ids (at '{label}')"
  | .invalidName name fault place =>
    s!"invalid syntax in menu name '{name}' at line {place.line}: {fault.message}"

/-- The code of an error. -/
def code : CompileError → Code
  | .unexpectedEnd .. => .unexpectedEnd
  | .unexpectedToken .. => .unexpectedToken
  | .missingRoot .. => .missingRoot
  | .extraRoot .. => .extraRoot
  | .emptyGroup .. => .emptyGroup
  | .rowOverflow .. => .rowOverflow
  | .emptyRow .. => .emptyRow
  | .tooManyRows .. => .tooManyRows
  | .illegalLabel .. => .illegalLabel
  | .misplacedBlank .. => .misplacedBlank
  | .duplicateName .. => .duplicateName
  | .duplicateLabel .. => .duplicateLabel
  | .idOverflow .. => .idOverflow
  | .nameIdOverflow .. => .nameIdOverflow
  | .invalidName .. => .invalidName

/-- The category of an error. -/
def category : CompileError → Category
  | .unexpectedEnd .. => .lexical
  | .unexpectedToken .. | .missingRoot .. | .extraRoot .. => .grammatical
  | .invalidName .. => .encoding
  | _ => .structural

/-- The bytes that an error points at. -/
def span : CompileError → Span
  | .unexpectedEnd _ place | .unexpectedToken _ _ place | .missingRoot place | .extraRoot place
  | .emptyGroup _ place | .rowOverflow _ _ _ place | .emptyRow _ _ place | .tooManyRows _ _ place
  | .illegalLabel _ _ _ place | .misplacedBlank _ place | .duplicateName _ _ _ place
  | .duplicateLabel _ _ place | .idOverflow _ _ place | .invalidName _ _ place => place.span
  | .nameIdOverflow _ _ span => span

/-- The details of an error besides its category. -/
def details : CompileError → List (String × String)
  | .unexpectedEnd expected _ => [("expected", expected)]
  | .unexpectedToken found expected _ => [("found", found), ("expected", expected)]
  | .missingRoot _ | .extraRoot _ | .misplacedBlank _ _ => []
  | .emptyGroup group _ | .tooManyRows group _ _ => [("group", group)]
  | .rowOverflow group row _ _ | .emptyRow group row _ =>
    [("group", group), ("row", toString row)]
  | .illegalLabel label name _ _ => [("label", label), ("name", name)]
  | .duplicateName name _ _ _ | .invalidName name _ _ => [("name", name)]
  | .duplicateLabel label _ _ | .idOverflow _ label _ | .nameIdOverflow _ label _ =>
    [("label", label)]

/-- The report about an error. -/
def diagnostic (error : CompileError) : Diagnostic where
  id := error.code.id
  severity := .error
  message := error.message
  span := some error.span
  context := some (.ofPairs (("category", error.category.word) :: error.details))

end CompileError

end SoftMenu
