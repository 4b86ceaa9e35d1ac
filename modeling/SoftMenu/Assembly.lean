import SoftMenu.Table.Basic

/-!
# Assembly text

The table of a menu as source text for a Z80 assembler. The text is made of lines of a few forms; it
has a header comment, the node table with the null record in front, the table of pointers to names,
and the pool of zero-terminated strings.
-/

namespace SoftMenu

/-- A line of assembly text. -/
inductive AsmLine where
  /-- An empty line. -/
  | empty
  /-- A comment; the text follows the comment sign at once. -/
  | comment (text : String)
  /-- The definition of a symbol as the current address. -/
  | label (symbol : String)
  /-- The definition of a symbol as a number. -/
  | equate (symbol : String) (value : Nat)
  /-- Bytes, perhaps with a remark. -/
  | bytes (operands : List String) (remark : Option String)
  /-- A word of two bytes, perhaps with a remark. -/
  | word (operand : String) (remark : Option String)
deriving DecidableEq, Repr

namespace AsmLine

/-- The characters of a remark at the end of a line. -/
def remarkChars : Option String → List Char
  | some remark => ' ' :: ';' :: ' ' :: remark.toList
  | none => []

/-- The characters of operands, with a comma and a blank between any two of them. -/
def operandChars : List String → List Char
  | [] => []
  | [operand] => operand.toList
  | operand :: operands => operand.toList ++ ',' :: ' ' :: operandChars operands

/-- The characters of a line, without its newline. -/
def chars : AsmLine → List Char
  | .empty => []
  | .comment text => ';' :: text.toList
  | .label symbol => symbol.toList ++ [':']
  | .equate symbol value => symbol.toList ++ " equ ".toList ++ Nat.toDigits 10 value
  | .bytes operands remark => "    .db ".toList ++ operandChars operands ++ remarkChars remark
  | .word operand remark => "    .dw ".toList ++ operand.toList ++ remarkChars remark

end AsmLine

/-- The header comment, which names the source. -/
def headerLines (sourceName : String) : List AsmLine :=
  [.comment "-----------------------------------------------------------------------------",
    .comment s!" Menu hierarchy definitions, generated from {sourceName}.",
    .comment " See menu.asm for the equivalent C struct declaration.",
    .comment "",
    .comment " The following symbols are reserved and pre-generated by the compilemenu",
    .comment " tool:",
    .comment "   - mNull",
    .comment "   - mNullId",
    .comment "   - mNullName",
    .comment "   - mNullNameId",
    .comment "   - mNullHandler",
    .comment "",
    .comment " The following symbols are not reserved, but the root menu group is",
    .comment " recommended to use the 'mRoot' label, which then generates the following",
    .comment " for the root menu group:",
    .comment "   - mRoot",
    .comment "   - mRootId",
    .comment "   - mRootNameId",
    .comment "",
    .comment " The following is the recommended configuration of the 'GroupHandler'",
    .comment " directive inside a 'MenuConfig':",
    .comment "   - GroupHandler mGroupHandler",
    .comment "",
    .comment " The following are the recommended configurations for a blank menu item:",
    .comment "   - ItemName mNullName",
    .comment "   - ItemNameId mNullNameId",
    .comment "   - ItemHandler mNullHandler",
    .comment "",
    .comment " DO NOT EDIT: This file was autogenerated.",
    .comment "-----------------------------------------------------------------------------",
    .empty]

/-- The record that stands for no node. -/
def nullRecordLines : List AsmLine :=
  [.label "mMenuTable",
    .label "mNull",
    .equate "mNullId" 0,
    .bytes ["mNullId"] (some "id"),
    .bytes ["mNullId"] (some "parentId"),
    .bytes ["mNullNameId"] (some "nameId"),
    .bytes ["0"] (some "numRows"),
    .bytes ["0"] (some "rowBeginId"),
    .word "mNullHandler" none,
    .word "0" none]

/-- The operand of the fifth byte of a record. -/
def RowBegin.operand : RowBegin → String
  | .nothing => "0"
  | .firstSlot label _ => label ++ "Id"
  | .altName symbol => symbol

/-- The remark on the routine of a record. -/
def Handler.remark (handler : Handler) : String :=
  if handler.predefined then "handler (predefined)" else "handler (to be implemented)"

/-- The lines of a record: five bytes and two words. -/
def NodeRecord.lines (record : NodeRecord) : List AsmLine :=
  [.label record.label,
    .equate (record.label ++ "Id") record.id.toNat,
    .bytes [record.label ++ "Id"] (some "id"),
    .bytes [record.parentLabel ++ "Id"] (some "parentId"),
    .bytes [record.nameId] (some "nameId"),
    .bytes [toString record.numRows.toNat] (some "numRows"),
    .bytes [record.rowBegin.operand] (some "rowBeginId or altNameId"),
    .word record.handler.symbol (some record.handler.remark),
    .word (record.nameSelector.getD "0") (some "nameSelector")]

/-- The lines of an entry. -/
def Entry.lines : Entry → List AsmLine
  | .groupChildren group => [.comment s!" MenuGroup {group}: children"]
  | .groupRow group row => [.comment s!" MenuGroup {group}: children: row {row}"]
  | .node record => record.lines

/-- The lines of a pointer to a name. -/
def NameEntry.pointerLines (entry : NameEntry) : List AsmLine :=
  [.equate entry.idSymbol entry.id.toNat, .word entry.symbol none]

/-- The operands of a string, without the zero at its end. A list of no glyphs is written as one
empty operand. -/
def NameText.operands : NameText → List String
  | .literal text => ["\"" ++ text ++ "\""]
  | .glyphs [] => [""]
  | .glyphs operands => operands

/-- The lines of a string of the pool. -/
def NameEntry.poolLines (entry : NameEntry) : List AsmLine :=
  [.label entry.symbol, .bytes (entry.text.operands ++ ["0"]) none]

namespace Table

/-- The node table. -/
def nodeLines (table : Table) : List AsmLine :=
  nullRecordLines ++ table.entries.flatMap Entry.lines

/-- The table of pointers to names. -/
def pointerLines (table : Table) : List AsmLine :=
  [.comment " Table of 2-byte pointers to names in the pool of strings below.",
    .label "mMenuNameTable",
    .equate "mNullNameId" 0,
    .word "mNullName" none] ++
    table.names.flatMap NameEntry.pointerLines

/-- The pool of strings. -/
def poolLines (table : Table) : List AsmLine :=
  [.comment " Table of names as NUL terminated C strings.",
    .label "mNullName",
    .bytes ["0"] none] ++
    table.names.flatMap NameEntry.poolLines

/-- All lines after the header. -/
def bodyLines (table : Table) : List AsmLine :=
  table.nodeLines ++ [.empty] ++ table.pointerLines ++ [.empty] ++ table.poolLines

/-- All lines for a table whose source has the given name. -/
def lines (table : Table) (sourceName : String) : List AsmLine :=
  headerLines sourceName ++ table.bodyLines

end Table

/-- The characters of some lines, each ended by a newline. -/
def renderLines (lines : List AsmLine) : List Char :=
  lines.flatMap fun line => line.chars ++ ['\n']

/-- The assembly text of a table whose source has the given name. -/
def Table.assembly (table : Table) (sourceName : String) : String :=
  String.ofList (renderLines (table.lines sourceName))

end SoftMenu
