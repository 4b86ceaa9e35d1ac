import SoftMenu.Json.Basic

/-!
# Writing JSON text

A value is written in one of two layouts: `compact` has no blanks, `pretty` puts every item and
every field on a line of its own, indented by two blanks for each level. An empty array or object is
written without a break in both. Strings escape the quote, the backslash and the control characters
below U+0020, and nothing else.
-/

namespace SoftMenu.Json

/-- The text layouts of a value. -/
inductive Layout where
  /-- Everything on one line, without blanks. -/
  | compact
  /-- One item or field a line, indented by two blanks a level. -/
  | pretty
deriving DecidableEq, Repr

/-- What stands before an item at the given level, and before the closing bracket. -/
def Layout.lineBreak (level : Nat) : Layout → List Char
  | .compact => []
  | .pretty => '\n' :: List.replicate (2 * level) ' '

/-- What stands between a key and its value. -/
def Layout.colon : Layout → List Char
  | .compact => [':']
  | .pretty => [':', ' ']

/-! ## Strings -/

/-- The lower-case hexadecimal digit of a number below 16. -/
def hexDigit (n : Nat) : Char := if n < 10 then Char.ofNat (48 + n) else Char.ofNat (87 + n)

/-- How a character is written inside a string. -/
def escape (c : Char) : List Char :=
  if c = '"' then ['\\', '"']
  else if c = '\\' then ['\\', '\\']
  else if c = '\n' then ['\\', 'n']
  else if c = '\r' then ['\\', 'r']
  else if c = '\t' then ['\\', 't']
  else if c.toNat = 8 then ['\\', 'b']
  else if c.toNat = 12 then ['\\', 'f']
  else if c.toNat < 32 then
    ['\\', 'u', '0', '0', hexDigit (c.toNat / 16), hexDigit (c.toNat % 16)]
  else [c]

/-- A string in quotes. -/
def quote (s : String) : List Char := '"' :: s.toList.flatMap escape ++ ['"']

/-! ## Values -/

/-- The decimal digits of an integer, after its sign. -/
def decimal : Int → List Char
  | .ofNat n => Nat.toDigits 10 n
  | .negSucc n => '-' :: Nat.toDigits 10 (n + 1)

mutual

/-- The characters of a value that begins at the given level. -/
def writeAt (layout : Layout) (level : Nat) : Json → List Char
  | .null => "null".toList
  | .bool true => "true".toList
  | .bool false => "false".toList
  | .int value => decimal value
  | .real literal => literal.toList
  | .str value => quote value
  | .arr [] => ['[', ']']
  | .arr (item :: items) =>
    '[' :: layout.lineBreak (level + 1) ++ writeAt layout (level + 1) item ++
      writeItems layout (level + 1) items ++ layout.lineBreak level ++ [']']
  | .obj [] => ['\x7b', '\x7d']
  | .obj ((key, value) :: fields) =>
    '\x7b' :: layout.lineBreak (level + 1) ++ quote key ++ layout.colon ++
      writeAt layout (level + 1) value ++
      writeFields layout (level + 1) fields ++ layout.lineBreak level ++ ['\x7d']

/-- The characters of further items of an array, each after a comma. -/
def writeItems (layout : Layout) (level : Nat) : List Json → List Char
  | [] => []
  | item :: items =>
    ',' :: layout.lineBreak level ++ writeAt layout level item ++ writeItems layout level items

/-- The characters of further fields of an object, each after a comma. -/
def writeFields (layout : Layout) (level : Nat) : List (String × Json) → List Char
  | [] => []
  | (key, value) :: fields =>
    ',' :: layout.lineBreak level ++ quote key ++ layout.colon ++ writeAt layout level value ++
      writeFields layout level fields

end

/-- The text of a value. -/
def write (layout : Layout) (value : Json) : String := String.ofList (writeAt layout 0 value)

end SoftMenu.Json
