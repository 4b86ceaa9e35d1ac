import SoftMenu.Json.Basic

/-!
# Reading JSON text

Text is read in two passes, each a machine that takes one symbol at a time, so both are plain folds.
A `Scanner` cuts the characters into lexemes: punctuation marks and scalar values. A `Builder` then
takes the lexemes and keeps the arrays and objects that are still open on a stack.

Strings follow the standard: the eight short escapes, `\u` with four hexadecimal digits, and pairs
of surrogates for characters beyond U+FFFF. A raw control character or an unpaired surrogate is
refused.
-/

namespace SoftMenu.Json

/-- A symbol of JSON text. -/
inductive Lexeme where
  /-- A bracket, a comma or a colon. -/
  | mark (c : Char)
  /-- A string, a number, a truth value or `null`. -/
  | scalar (value : Json)
deriving Repr

/-! ## Numbers and names -/

/-- The value of decimal digits. -/
def digitsValue (digits : List Char) : Nat :=
  digits.foldl (fun value c => 10 * value + (c.toNat - 48)) 0

/-- Whether the characters are one or more digits. -/
def isDigits (chars : List Char) : Bool := !chars.isEmpty && chars.all Char.isDigit

/-- Whether the characters are an exponent: a mark, perhaps a sign, and digits. -/
def isExponent : List Char → Bool
  | e :: '+' :: digits | e :: '-' :: digits => (e == 'e' || e == 'E') && isDigits digits
  | e :: digits => (e == 'e' || e == 'E') && isDigits digits
  | [] => false

/-- Whether the characters may follow the integer part of a number: a fraction, an exponent or
both. -/
def isFraction : List Char → Bool
  | '.' :: chars =>
    let rest := chars.dropWhile Char.isDigit
    isDigits (chars.takeWhile Char.isDigit) && (rest.isEmpty || isExponent rest)
  | chars => isExponent chars

/-- The number that the characters spell, without its sign. -/
def magnitude? (negative : Bool) (chars : List Char) : Option Json :=
  let digits := chars.takeWhile Char.isDigit
  let rest := chars.dropWhile Char.isDigit
  if digits = [] || (digits.head? = some '0' && digits.length ≠ 1) then none
  else
    let spelled := String.ofList (if negative then '-' :: chars else chars)
    if rest = [] then
      let n := digitsValue digits
      if negative then some (if n = 0 then .real spelled else .int (-n)) else some (.int n)
    else if isFraction rest then some (.real spelled)
    else none

/-- The name or number that the characters spell. -/
def word? : List Char → Option Json
  | ['n', 'u', 'l', 'l'] => some .null
  | ['t', 'r', 'u', 'e'] => some (.bool true)
  | ['f', 'a', 'l', 's', 'e'] => some (.bool false)
  | '-' :: chars => magnitude? true chars
  | chars => magnitude? false chars

/-! ## Lexemes -/

/-- What the scanner is reading. Characters read so far are kept last one first. -/
inductive ScanMode where
  /-- Between lexemes. -/
  | gap
  /-- Inside a name or a number. -/
  | word (chars : List Char)
  /-- Inside a string. -/
  | text (chars : List Char)
  /-- Inside a string, after a backslash. -/
  | escape (chars : List Char)
  /-- Inside a string, with so many hexadecimal digits of a code unit still to come and the value
  of those read; `high` is a high surrogate that waits for its partner. -/
  | unit (chars : List Char) (high : Option Nat) (missing value : Nat)
  /-- Inside a string, after a high surrogate: a backslash must follow. -/
  | pair (chars : List Char) (high : Nat)
  /-- Inside a string, after a high surrogate and a backslash: a `u` must follow. -/
  | pairEscape (chars : List Char) (high : Nat)
deriving Repr

/-- A scanner: what it is reading, and the lexemes found so far, last one first. -/
structure Scanner where
  /-- What is being read. -/
  mode : ScanMode
  /-- The lexemes found, last one first. -/
  found : List Lexeme

/-- Whether a character is a punctuation mark. -/
def isMark (c : Char) : Bool :=
  c == '[' || c == ']' || c == '\x7b' || c == '\x7d' || c == ',' || c == ':'

/-- Whether a character may stand between lexemes. -/
def isBlank (c : Char) : Bool := c == ' ' || c == '\n' || c == '\t' || c == '\r'

/-- The value of a hexadecimal digit. -/
def hexValue? (c : Char) : Option Nat :=
  if c.isDigit then some (c.toNat - 48)
  else if 'a' ≤ c && c ≤ 'f' then some (c.toNat - 87)
  else if 'A' ≤ c && c ≤ 'F' then some (c.toNat - 55)
  else none

/-- The character that a short escape stands for. -/
def unescape? (c : Char) : Option Char :=
  if c = '"' || c = '\\' || c = '/' then some c
  else if c = 'n' then some '\n'
  else if c = 'r' then some '\r'
  else if c = 't' then some '\t'
  else if c = 'b' then some (Char.ofNat 8)
  else if c = 'f' then some (Char.ofNat 12)
  else none

/-- The mode after a whole code unit of sixteen bits. -/
def afterUnit? (chars : List Char) (high : Option Nat) (value : Nat) : Option ScanMode :=
  match high with
  | some high =>
    if 0xDC00 ≤ value && value < 0xE000 then
      some (.text (Char.ofNat (0x10000 + (high - 0xD800) * 0x400 + (value - 0xDC00)) :: chars))
    else none
  | none =>
    if 0xD800 ≤ value && value < 0xDC00 then some (.pair chars value)
    else if 0xDC00 ≤ value && value < 0xE000 then none
    else some (.text (Char.ofNat value :: chars))

namespace Scanner

/-- Takes a character that stands between lexemes or begins one. -/
def enter? (found : List Lexeme) (c : Char) : Option Scanner :=
  if isBlank c then some ⟨.gap, found⟩
  else if isMark c then some ⟨.gap, .mark c :: found⟩
  else if c = '"' then some ⟨.text [], found⟩
  else some ⟨.word [c], found⟩

/-- Takes the next character. -/
def step? (scanner : Scanner) (c : Char) : Option Scanner :=
  let found := scanner.found
  match scanner.mode with
  | .gap => enter? found c
  | .word chars =>
    if isBlank c || isMark c || c = '"' then do
      enter? (.scalar (← word? chars.reverse) :: found) c
    else some ⟨.word (c :: chars), found⟩
  | .text chars =>
    if c = '"' then some ⟨.gap, .scalar (.str (String.ofList chars.reverse)) :: found⟩
    else if c = '\\' then some ⟨.escape chars, found⟩
    else if c.toNat < 32 then none
    else some ⟨.text (c :: chars), found⟩
  | .escape chars =>
    if c = 'u' then some ⟨.unit chars none 4 0, found⟩
    else (unescape? c).map fun plain => ⟨.text (plain :: chars), found⟩
  | .unit chars high missing value => do
    let value := 16 * value + (← hexValue? c)
    if missing ≤ 1 then (afterUnit? chars high value).map (⟨·, found⟩)
    else some ⟨.unit chars high (missing - 1) value, found⟩
  | .pair chars high => if c = '\\' then some ⟨.pairEscape chars high, found⟩ else none
  | .pairEscape chars high => if c = 'u' then some ⟨.unit chars (some high) 4 0, found⟩ else none

/-- The lexemes in order, once the text has ended. -/
def finish? (scanner : Scanner) : Option (List Lexeme) :=
  match scanner.mode with
  | .gap => some scanner.found.reverse
  | .word chars => (word? chars.reverse).map fun value => (.scalar value :: scanner.found).reverse
  | _ => none

end Scanner

/-- The lexemes of a text. -/
def lexemes? (chars : List Char) : Option (List Lexeme) := do
  (← chars.foldlM Scanner.step? ⟨.gap, []⟩).finish?

/-! ## Values -/

/-- An array or an object of which a part has been read; contents are kept last one first. -/
inductive Frame where
  /-- An array and its items before the one that is being read. -/
  | items (done : List Json)
  /-- An object, its fields before the one that is being read, and the key of that one. -/
  | fields (done : List (String × Json)) (key : String)

/-- What has to come next. -/
inductive Want where
  /-- A value. -/
  | value
  /-- The first item of an array, or its closing bracket. -/
  | firstItem
  /-- The first key of an object, or its closing bracket. -/
  | firstKey
  /-- A further key of an object with the given fields. -/
  | key (done : List (String × Json))
  /-- The colon after a key. -/
  | colon (done : List (String × Json)) (key : String)
  /-- Whatever may follow a value: a comma or a closing bracket, or the end. -/
  | after (value : Json)

/-- A value of which a part has been read. -/
structure Builder where
  /-- What has to come next. -/
  want : Want
  /-- The open arrays and objects, innermost first. -/
  frames : List Frame

namespace Builder

/-- Takes a lexeme that begins a value. -/
def value? (frames : List Frame) : Lexeme → Option Builder
  | .scalar value => some ⟨.after value, frames⟩
  | .mark '[' => some ⟨.firstItem, .items [] :: frames⟩
  | .mark '\x7b' => some ⟨.firstKey, frames⟩
  | .mark _ => none

/-- Takes a lexeme that must be a key. -/
def key? (done : List (String × Json)) (frames : List Frame) : Lexeme → Option Builder
  | .scalar (.str key) => some ⟨.colon done key, frames⟩
  | _ => none

/-- Takes a lexeme after a complete value. -/
def after? (value : Json) : List Frame → Lexeme → Option Builder
  | .items done :: frames, .mark ',' => some ⟨.value, .items (value :: done) :: frames⟩
  | .items done :: frames, .mark ']' => some ⟨.after (.arr (value :: done).reverse), frames⟩
  | .fields done key :: frames, .mark ',' => some ⟨.key ((key, value) :: done), frames⟩
  | .fields done key :: frames, .mark '\x7d' =>
    some ⟨.after (.obj ((key, value) :: done).reverse), frames⟩
  | _, _ => none

/-- Takes the next lexeme. -/
def step? (builder : Builder) (lexeme : Lexeme) : Option Builder :=
  match builder.want, lexeme, builder.frames with
  | .value, _, frames => value? frames lexeme
  | .firstItem, .mark ']', _ :: frames => some ⟨.after (.arr []), frames⟩
  | .firstItem, _, frames => value? frames lexeme
  | .firstKey, .mark '\x7d', frames => some ⟨.after (.obj []), frames⟩
  | .firstKey, _, frames => key? [] frames lexeme
  | .key done, _, frames => key? done frames lexeme
  | .colon done key, .mark ':', frames => some ⟨.value, .fields done key :: frames⟩
  | .colon _ _, _, _ => none
  | .after value, _, frames => after? value frames lexeme

/-- The value, once the lexemes have ended and nothing is open. -/
def finish? : Builder → Option Json
  | ⟨.after value, []⟩ => some value
  | _ => none

end Builder

/-- The value that a text spells. -/
def read? (text : String) : Option Json := do
  let lexemes ← lexemes? text.toList
  (← lexemes.foldlM Builder.step? ⟨.value, []⟩).finish?

end SoftMenu.Json
