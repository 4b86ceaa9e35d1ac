import SoftMenu.Menu.Registry

/-!
# Command-line arguments

The arguments name one menu definition and may set options, before or after it. An option that takes
a value takes the next argument, which must not look like an option, or what follows a `=` in the
same argument; the short form `-o` also takes what follows it at once. After `--` every argument is
a file name. No option may be given twice.

Arguments are read one at a time from left to right, and the first one that is wrong ends the
reading; so does a request for the version or for help.

An argument is a text. File names that are not UTF-8, which a file system may have, are left out.
-/

namespace SoftMenu

/-- How diagnostics are shown. -/
inductive DiagnosticFormat where
  /-- As reports for a human reader. -/
  | pretty
  /-- As JSON. -/
  | json
deriving DecidableEq, Repr

/-- The format that a word names. -/
def DiagnosticFormat.ofWord? : String → Option DiagnosticFormat
  | "pretty" => some .pretty
  | "json" => some .json
  | _ => none

/-- The policy that an argument names. -/
def DuplicatePolicy.ofArgument? : String → Option DuplicatePolicy
  | "same-kind" => some .sameKindLeaves
  | "any-leaf" => some .anyLeaves
  | "strict" => some .strict
  | _ => none

/-- What a run is asked to compile. -/
structure Request where
  /-- The path of the menu definition. -/
  file : String
  /-- The path of the output, if it is given. -/
  output : Option String := none
  /-- Whether to show the menu as it is read and as it is compiled. -/
  debug : Bool := false
  /-- Which nodes may share a name. -/
  duplicateNames : DuplicatePolicy := .sameKindLeaves
  /-- How diagnostics are shown, if that is given. -/
  errorFormat : Option DiagnosticFormat := none
deriving DecidableEq, Repr

/-- Why arguments cannot be followed. -/
inductive UsageFault where
  /-- An option does not exist. -/
  | unknownOption (argument : String)
  /-- An option lacks its value. -/
  | missingValue (option : String)
  /-- An option that takes no value has one. -/
  | needlessValue (option : String)
  /-- An option has a value that it cannot have. -/
  | badValue (option value : String)
  /-- An option is given twice. -/
  | repeated (option : String)
  /-- There is no file name. -/
  | missingFile
  /-- A file name is empty. -/
  | emptyFile
  /-- There is a second file name. -/
  | extraFile (argument : String)
deriving DecidableEq, Repr

/-- The wording of a fault. -/
def UsageFault.message : UsageFault → String
  | .unknownOption argument => s!"unexpected argument '{argument}'"
  | .missingValue option => s!"a value is required for '{option}'"
  | .needlessValue option => s!"'{option}' takes no value"
  | .badValue option value => s!"invalid value '{value}' for '{option}'"
  | .repeated option => s!"'{option}' cannot be used multiple times"
  | .missingFile => "a menu definition file is required"
  | .emptyFile => "the file name is empty"
  | .extraFile argument => s!"unexpected argument '{argument}'"

/-- Why the reading of arguments ends before the last of them. -/
inductive ArgumentStop where
  /-- An argument is wrong. -/
  | usage (fault : UsageFault)
  /-- The version is asked for. -/
  | version
  /-- Help is asked for. -/
  | help
deriving DecidableEq, Repr

/-- The options that take a value. -/
inductive ValueOption where
  /-- The path of the output. -/
  | output
  /-- Which nodes may share a name. -/
  | duplicateNames
  /-- How diagnostics are shown. -/
  | errorFormat
deriving DecidableEq, Repr

/-- The long spelling of an option. -/
def ValueOption.spelling : ValueOption → String
  | .output => "--output"
  | .duplicateNames => "--duplicate-names"
  | .errorFormat => "--error-format"

/-- What has been read of the arguments. -/
structure ArgumentReader where
  /-- The file name. -/
  file : Option String := none
  /-- The path of the output. -/
  output : Option String := none
  /-- Whether the menu is to be shown. -/
  debug : Bool := false
  /-- Which nodes may share a name. -/
  duplicateNames : Option DuplicatePolicy := none
  /-- How diagnostics are shown. -/
  errorFormat : Option DiagnosticFormat := none
  /-- The option whose value has to be the next argument. -/
  pending : Option ValueOption := none
  /-- Whether only file names may follow. -/
  filesOnly : Bool := false
deriving Repr

namespace ArgumentReader

/-- A value of an option that may be given once. -/
def once (option value : String) (current decoded : Option α) : Except ArgumentStop (Option α) :=
  match current, decoded with
  | some _, _ => .error (.usage (.repeated option))
  | none, none => .error (.usage (.badValue option value))
  | none, some value => .ok (some value)

/-- Takes the value of an option. -/
def takeValue (reader : ArgumentReader) (option : ValueOption) (value : String) :
    Except ArgumentStop ArgumentReader := do
  let reader := { reader with pending := none }
  match option with
  | .output =>
    let decoded := if value = "" then none else some value
    return { reader with output := ← once option.spelling value reader.output decoded }
  | .duplicateNames =>
    let decoded := DuplicatePolicy.ofArgument? value
    return { reader with
      duplicateNames := ← once option.spelling value reader.duplicateNames decoded }
  | .errorFormat =>
    let decoded := DiagnosticFormat.ofWord? value
    return { reader with errorFormat := ← once option.spelling value reader.errorFormat decoded }

/-- Takes an option that has its value with it, or waits for the value. -/
def takeOption (reader : ArgumentReader) (option : ValueOption) (attached : Option (List Char)) :
    Except ArgumentStop ArgumentReader :=
  match attached with
  | some value => reader.takeValue option (String.ofList value)
  | none => .ok { reader with pending := some option }

/-- Takes a file name. -/
def takeFile (reader : ArgumentReader) (argument : String) : Except ArgumentStop ArgumentReader :=
  if reader.file.isSome then .error (.usage (.extraFile argument))
  else if argument = "" then .error (.usage .emptyFile)
  else .ok { reader with file := some argument }

/-- Takes an option without a value. -/
def takeFlag (option : String) (attached : Option (List Char))
    (result : Except ArgumentStop ArgumentReader) : Except ArgumentStop ArgumentReader :=
  if attached.isSome then .error (.usage (.needlessValue option)) else result

/-- Takes an option in its long form, which begins with two hyphens: its name and, after a `=`, its
value. -/
def takeLong (reader : ArgumentReader) (chars : List Char) : Except ArgumentStop ArgumentReader :=
  let name := String.ofList (chars.takeWhile (· ≠ '='))
  let attached :=
    match chars.dropWhile (· ≠ '=') with
    | [] => none
    | _ :: value => some value
  match name with
  | "output" => reader.takeOption .output attached
  | "duplicate-names" => reader.takeOption .duplicateNames attached
  | "error-format" => reader.takeOption .errorFormat attached
  | "debug" =>
    takeFlag "--debug" attached <|
      if reader.debug then .error (.usage (.repeated "--debug"))
      else .ok { reader with debug := true }
  | "version" => takeFlag "--version" attached (.error .version)
  | "help" => takeFlag "--help" attached (.error .help)
  | _ => .error (.usage (.unknownOption ("--" ++ String.ofList chars)))

/-- Takes an option in its short form, which begins with one hyphen. -/
def takeShort (reader : ArgumentReader) (letter : Char) (chars : List Char) :
    Except ArgumentStop ArgumentReader :=
  if letter = 'o' then
    reader.takeOption .output <|
      match chars with
      | [] => none
      | '=' :: value => some value
      | value => some value
  else if letter = 'V' then .error .version
  else if letter = 'h' then .error .help
  else .error (.usage (.unknownOption (String.ofList ('-' :: letter :: chars))))

/-- Takes the next argument. An argument that looks like an option is never a value. -/
def step (reader : ArgumentReader) (argument : String) : Except ArgumentStop ArgumentReader :=
  if reader.filesOnly then reader.takeFile argument
  else match argument.toList, reader.pending with
    | '-' :: _ :: _, some option => .error (.usage (.missingValue option.spelling))
    | _, some option => reader.takeValue option argument
    | ['-', '-'], none => .ok { reader with filesOnly := true }
    | '-' :: '-' :: chars, none => reader.takeLong chars
    | '-' :: letter :: chars, none => reader.takeShort letter chars
    | _, none => reader.takeFile argument

/-- The request, once all arguments have been read. -/
def finish (reader : ArgumentReader) : Except ArgumentStop Request :=
  match reader.pending, reader.file with
  | some option, _ => .error (.usage (.missingValue option.spelling))
  | none, none => .error (.usage .missingFile)
  | none, some file =>
    .ok {
      file
      output := reader.output
      debug := reader.debug
      duplicateNames := reader.duplicateNames.getD .sameKindLeaves
      errorFormat := reader.errorFormat }

end ArgumentReader

/-- Reads the arguments of a run. -/
def parseArguments (arguments : List String) : Except ArgumentStop Request := do
  (← arguments.foldlM ArgumentReader.step {}).finish

end SoftMenu
