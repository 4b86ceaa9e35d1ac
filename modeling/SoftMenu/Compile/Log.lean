import SoftMenu.Compile

/-!
# The log of a compilation

A compilation announces each stage as it begins, and reports some counts at the end of those that
succeed. The stage that fails is the last one announced.
-/

namespace SoftMenu

/-- How much a log entry matters. -/
inductive LogLevel where
  /-- Counts and other details. -/
  | debug
  /-- The progress of the work. -/
  | info
deriving DecidableEq, Repr

/-- The word for a level. -/
def LogLevel.word : LogLevel → String
  | .debug => "DEBUG"
  | .info => "INFO"

/-- An entry of a log. -/
structure LogEntry where
  /-- How much it matters. -/
  level : LogLevel
  /-- What it says. -/
  message : String
  /-- Named values that belong to it. -/
  details : List (String × String) := []
deriving DecidableEq, Repr

namespace LogEntry

/-- How a character of a message is shown: those that a terminal could take for a command are
written as escapes. -/
def escape (c : Char) : List Char :=
  if c.toNat = 0x1b then "\\x1b".toList
  else if c.toNat = 0x07 then "\\x07".toList
  else if c.toNat = 0x08 then "\\x08".toList
  else if c.toNat = 0x0c then "\\x0c".toList
  else if c.toNat = 0x7f then "\\x7f".toList
  else if 0x80 ≤ c.toNat ∧ c.toNat ≤ 0x9f then
    "\\u\x7b".toList ++ Nat.toDigits 16 c.toNat ++ ['\x7d']
  else [c]

/-- The entry that announces a stage of the work. -/
def stage (message : String) (details : List (String × String) := []) : LogEntry :=
  ⟨.info, message, details⟩

/-- The entry that reports counts at the end of a stage. -/
def counting (message : String) (counts : List (String × Nat)) : LogEntry :=
  ⟨.debug, message, counts.map fun count => (count.1, toString count.2)⟩

/-- The text that shows an entry: its level, its message and its details, which are shown as they
are. -/
def text (entry : LogEntry) : String :=
  entry.level.word ++ " " ++ String.ofList (entry.message.toList.flatMap escape) ++
    String.join (entry.details.map fun detail => " " ++ detail.1 ++ "=" ++ detail.2)

end LogEntry

/-- Which entries are shown. -/
inductive LogFilter where
  /-- None. -/
  | silent
  /-- The progress of the work. -/
  | info
  /-- All. -/
  | debug
deriving DecidableEq, Repr

/-- Whether an entry is shown. -/
def LogFilter.shows : LogFilter → LogEntry → Bool
  | .silent, _ => false
  | .info, entry => entry.level = .info
  | .debug, _ => true

/-- The filter that a setting names: the default is to show the progress, and there are no entries
above that level. -/
def LogFilter.ofWord? : String → Option LogFilter
  | "off" | "error" | "warn" => some .silent
  | "info" => some .info
  | "debug" | "trace" => some .debug
  | _ => none

/-! ## Stages -/

/-- The log of laying out and writing the table. -/
def tableLog (file : MenuFile) : List LogEntry :=
  .stage "emitting assembly" ::
    match Table.ofFile file with
    | .error _ => []
    | .ok table =>
      [.counting "laid out menu table"
          [("records", table.entries.length), ("names", table.names.length)],
        .stage "generating menu nodes",
        .stage "generating name strings"]

/-- The log from the exploding of names on. -/
def explodeLog (file : MenuFile) : List LogEntry :=
  .stage "exploding display names" ::
    match (explodeNames file).toExcept with
    | .error _ => []
    | .ok (file, count) => .counting "exploded display names" [("count", count)] :: tableLog file

/-- The log from the numbering on. -/
def assignLog (policy : DuplicatePolicy) (file : MenuFile) : List LogEntry :=
  .stage "assigning node ids" ::
    match (assignIds policy file).toExcept with
    | .error _ => []
    | .ok (file, registry) =>
      .counting "assigned node ids" [("nodes", registry.nodeCount)] :: explodeLog file

/-- The log from the validation on. -/
def validateLog (policy : DuplicatePolicy) (file : MenuFile) : List LogEntry :=
  .stage "validating" ::
    match (validate file).toExcept with
    | .error _ => []
    | .ok (file, padded) =>
      .counting "validated menu tree" [("padded", padded)] :: assignLog policy file

/-- The log of a compilation. -/
def compileLog (options : CompileOptions) (source : String) : List LogEntry :=
  .stage "parsing" [("source", options.sourceName)] ::
    match parse source with
    | .error _ => []
    | .ok parsed => validateLog options.duplicateNames parsed.file

end SoftMenu
