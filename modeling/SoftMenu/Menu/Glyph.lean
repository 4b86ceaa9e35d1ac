/-!
# Display names

A display name is a sequence of segments: ASCII letters and digits, which stand for themselves, and
references `<tag>` to glyphs of the menu font. `segments?` reads a name from left to right and
reports the first thing in it that is neither.
-/

namespace SoftMenu

/-- A part of a display name. -/
inductive Segment where
  /-- An ASCII letter or digit. -/
  | letter (c : Char)
  /-- A reference to a glyph by the characters of its tag. -/
  | glyph (tag : List Char)
deriving DecidableEq, Repr

/-- The operand that a segment contributes to the stored string. -/
def Segment.operand : Segment → String
  | .letter c => String.ofList ['\'', c, '\'']
  | .glyph tag => String.ofList tag

/-- Why a display name cannot be read. -/
inductive NameFault where
  /-- A glyph reference has no end. -/
  | missingClose
  /-- A glyph reference has no tag. -/
  | emptyTag
  /-- A character outside of glyph references is not an ASCII letter or digit. -/
  | unsupported (c : Char)
deriving DecidableEq, Repr

/-- The wording of a fault. -/
def NameFault.message : NameFault → String
  | .missingClose => "missing '>'"
  | .emptyTag => "empty <>"
  | .unsupported c => s!"unsupported character '{c}'"

/-- Whether a character may stand for itself: an ASCII letter or digit. -/
def isPlain (c : Char) : Bool := c.isAlphanum

/-- Reads segments; `tag` holds the characters (last one first) of a glyph reference that has been
opened. -/
def readSegments (tag : Option (List Char)) : List Char → Except NameFault (List Segment)
  | [] =>
    match tag with
    | none => .ok []
    | some _ => .error .missingClose
  | c :: cs =>
    match tag with
    | none =>
      if isPlain c then (readSegments none cs).map (.letter c :: ·)
      else if c = '<' then readSegments (some []) cs
      else .error (.unsupported c)
    | some chars =>
      if c = '>' then
        if chars = [] then .error .emptyTag
        else (readSegments none cs).map (.glyph chars.reverse :: ·)
      else readSegments (some (c :: chars)) cs

/-- The segments of a display name. -/
def segments? (name : String) : Except NameFault (List Segment) := readSegments none name.toList

/-- The operands of a display name: a quoted character for each letter or digit, and the bare tag
for each glyph. -/
def explode (name : String) : Except NameFault (List String) :=
  (segments? name).map (·.map Segment.operand)

end SoftMenu
