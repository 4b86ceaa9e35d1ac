import SoftMenu.Place
import SoftMenu.Text.WhiteSpace

/-!
# Words of a source text

A menu definition is read as a sequence of words. A line ends at a newline; what follows the first
`#` of a line is a comment; the rest of the line is cut at white space. A word has no class of its
own: the grammar decides from its position what it is.

`tokenize` gives all words at once. A `Lexer` hands them out one by one and knows the number of the
line it has read last, which is where a text that ends too early is reported.
-/

namespace SoftMenu

/-- A word of the source text. -/
structure Token where
  /-- The characters of the word. -/
  text : String
  /-- Where the word stands. -/
  place : Place
deriving DecidableEq, Repr, Inhabited

/-- The number of bytes of the UTF-8 form of some characters. -/
def byteLength (chars : List Char) : Nat :=
  chars.foldr (fun char bytes => char.utf8Size + bytes) 0

/-! ## Lines -/

/-- Cuts a text after every newline and drops the newlines. A text that ends in a newline has no
empty line after it, and the empty text has no line at all. -/
def cutLines : List Char → List (List Char)
  | [] => []
  | c :: cs =>
    if c = '\n' then [] :: cutLines cs
    else match cutLines cs with
      | [] => [[c]]
      | line :: lines => (c :: line) :: lines

/-- A line of a source text. -/
structure SourceLine where
  /-- The number of the line, counted from 1. -/
  number : Nat
  /-- The byte offset of its first character. -/
  offset : Nat
  /-- Its characters, without the newline. -/
  chars : List Char
deriving DecidableEq, Repr

/-- Numbers lines and gives each its byte offset; after every line there is a newline of one
byte. -/
def placeLines (number offset : Nat) : List (List Char) → List SourceLine
  | [] => []
  | line :: lines =>
    ⟨number, offset, line⟩ :: placeLines (number + 1) (offset + byteLength line + 1) lines

/-- The lines of a source text. -/
def sourceLines (source : String) : List SourceLine := placeLines 1 0 (cutLines source.toList)

/-! ## Words of a line -/

/-- The word made of the characters `word` (last one first) that end before the offset `stop`, or
nothing if there are none. -/
def closeWord (line stop : Nat) (word : List Char) : List Token :=
  if word = [] then []
  else [⟨String.ofList word.reverse, line, ⟨stop - byteLength word, stop⟩⟩]

/-- Cuts characters at white space. `offset` is where they begin, and `word` holds the characters
(last one first) of a word that has begun before them. -/
def cutWords (line offset : Nat) (word : List Char) : List Char → List Token
  | [] => closeWord line offset word
  | c :: cs =>
    if isWhiteSpace c then closeWord line offset word ++ cutWords line (offset + c.utf8Size) [] cs
    else cutWords line (offset + c.utf8Size) (c :: word) cs

namespace SourceLine

/-- The characters of a line before its comment. -/
def code (line : SourceLine) : List Char := line.chars.takeWhile (· ≠ '#')

/-- The words of a line. -/
def tokens (line : SourceLine) : List Token := cutWords line.number line.offset [] line.code

end SourceLine

/-- All words of a source text, in order. -/
def tokenize (source : String) : List Token := (sourceLines source).flatMap SourceLine.tokens

/-- The number of the last line of a source text; the empty text ends on line 1. -/
def lastLine (source : String) : Nat := max 1 (sourceLines source).length

/-! ## Reading words one by one -/

/-- A source text that has been read up to some word. -/
structure Lexer where
  /-- The lines not read yet. -/
  ahead : List SourceLine
  /-- The number of lines read so far. -/
  linesRead : Nat
  /-- The words of the line read last that have not been handed out. -/
  pending : List Token
deriving Repr

namespace Lexer

/-- A lexer at the beginning of a source text. -/
def ofSource (source : String) : Lexer := ⟨sourceLines source, 0, []⟩

/-- The number of the line read last; 1 before any line is read. -/
def line (lexer : Lexer) : Nat := max 1 lexer.linesRead

/-- Reads lines until one has a word, and hands out that word. -/
def advance (linesRead : Nat) : List SourceLine → Option Token × Lexer
  | [] => (none, ⟨[], linesRead, []⟩)
  | line :: ahead =>
    match line.tokens with
    | [] => advance line.number ahead
    | token :: pending => (some token, ⟨ahead, line.number, pending⟩)

/-- The next word, or nothing at the end of the text, and the lexer after it. -/
def next (lexer : Lexer) : Option Token × Lexer :=
  match lexer.pending with
  | token :: pending => (some token, { lexer with pending })
  | [] => advance lexer.linesRead lexer.ahead

/-- All words that are left, and the lexer at the end of the text. -/
def rest (lexer : Lexer) : List Token × Lexer :=
  (lexer.pending ++ lexer.ahead.flatMap SourceLine.tokens,
    ⟨[], lexer.linesRead + lexer.ahead.length, []⟩)

end Lexer

end SoftMenu
