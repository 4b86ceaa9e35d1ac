import SoftMenu.CommandLine.Arguments
import SoftMenu.CommandLine.FileSystem
import SoftMenu.Compile.Log
import SoftMenu.Diagnostic.Json
import SoftMenu.Menu.Json

/-!
# Runs of the command-line tool

A run reads the menu definition that its arguments name, compiles it, shows diagnostics, and writes
the assembly text. All of it but the reading and writing itself is in `Request.plan`: from the
result of the reading it makes the messages of the run and the file that is to be written, if any. A
run over a `FileSystem` is then a plan between one reading and one writing.

Exit status 0 means that the output is written, 1 that it is not, and 2 that the arguments are
wrong.
-/

namespace SoftMenu

/-- The name and version of the tool. -/
def versionText : String := "compilemenu 0.1.0"

/-! ## Paths -/

/-- The characters of a path before its last name, and those of the name. -/
def splitPath (path : String) : List Char × List Char :=
  let name := path.toList.reverse.takeWhile (· ≠ '/')
  (path.toList.take (path.toList.length - name.length), name.reverse)

/-- A file name without its extension: what stands before its last dot, unless that dot is its first
character. -/
def fileStem (name : List Char) : List Char :=
  match name.reverse.dropWhile (· ≠ '.') with
  | [] | [_] => name
  | _ :: stem => stem.reverse

/-- A path with the extension of its last name replaced, or one added. Where the stem is a single
dot, what stands before the extension is `.` or `..`: it names a folder, and nothing is added.

Paths that end in `/` or `/.` are left out: the extension would belong to the name before the slash,
and here it is put after it. Such a path names a folder, which cannot be compiled, so no output is
ever written beside it. -/
def withExtension (path : String) (extension : String) : String :=
  let (folder, name) := splitPath path
  if fileStem name = ['.'] then String.ofList (folder ++ name.take 2)
  else String.ofList (folder ++ fileStem name) ++ "." ++ extension

/-- The last name of a path. -/
def fileName (path : String) : String := String.ofList (splitPath path).2

namespace Request

/-- The path of the output: the one given, or that of the source with another extension. -/
def outputPath (request : Request) : String :=
  request.output.getD (withExtension request.file "asm")

/-- The options of the compilation. -/
def compileOptions (request : Request) : CompileOptions where
  sourceName := fileName request.file
  duplicateNames := request.duplicateNames
  snapshotParsed := request.debug

/-- How diagnostics are shown: as reports if the messages go to a terminal, unless a format is
given. -/
def format (request : Request) (terminal : Bool) : DiagnosticFormat :=
  request.errorFormat.getD (if terminal then .pretty else .json)

end Request

/-! ## Diagnostics -/

/-- A diagnostic as it is shown to a human reader beside the source text. -/
structure Report where
  /-- The code, the severity and the message. -/
  head : String
  /-- The bytes of the text that the report points at. -/
  range : Option Span
  /-- The remark at that place. -/
  label : String
  /-- The explanation of the code. -/
  help : Option String
deriving DecidableEq, Repr

namespace Report

/-- How a report names a severity. -/
def severityWord : Severity → String
  | .error => "Error"
  | .warn => "Warning"

/-- The details of a diagnostic in one line, without the category; the message if there are none. -/
def labelOf (diagnostic : Diagnostic) : String :=
  let pairs := (diagnostic.context.map Context.pairs).getD []
  let shown := pairs.filter fun pair => pair.1 ≠ "category"
  if shown.isEmpty then diagnostic.message
  else ", ".intercalate (shown.map fun pair => pair.1 ++ "=" ++ pair.2)

/-- The report of a diagnostic about a source text. -/
def ofDiagnostic (source : String) (diagnostic : Diagnostic) : Report where
  head := s!"[{diagnostic.id}] {severityWord diagnostic.severity}: {diagnostic.message}"
  range := diagnostic.span.map fun span => span.clamp source.utf8ByteSize
  label := labelOf diagnostic
  help := diagnostic.explanation?

end Report

/-- A number of things, with the plural where it is due. -/
def countOf (n : Nat) (thing : String) : String :=
  s!"{n} {thing}" ++ if n = 1 then "" else "s"

/-- The line that sums up diagnostics. -/
def summaryLine (diagnostics : List Diagnostic) : String :=
  let errors := (diagnostics.filter Diagnostic.isError).length
  let warnings := diagnostics.length - errors
  let parts :=
    (if errors = 0 then [] else [countOf errors "error"]) ++
      if warnings = 0 then [] else [countOf warnings "warning"]
  ", ".intercalate parts

/-! ## Plans -/

/-- Something that a run says on the error output. -/
inductive Message where
  /-- An entry of the log. -/
  | log (entry : LogEntry)
  /-- A report of a diagnostic. -/
  | report (report : Report)
  /-- A line of text. -/
  | line (text : String)
deriving DecidableEq, Repr

/-- What a run says, and what it writes. -/
structure Plan where
  /-- The exit status. -/
  exit : Nat
  /-- The standard output. -/
  stdout : String := ""
  /-- The error output. -/
  messages : List Message := []
  /-- The path and the text of the file to write. -/
  output : Option (String × String) := none
deriving Repr

namespace Plan

/-- The lines that report a failure to read or write. -/
def failureLines (action path : String) (fault : FileFault) : List String :=
  s!"Error: failed to {action} '{path}'".splitOn "\n" ++
    ["", "Caused by:", "    " ++ fault.message]

/-- Shows diagnostics about a source text in a format. -/
def showing (plan : Plan) (format : DiagnosticFormat) (source : String)
    (diagnostics : List Diagnostic) : Plan :=
  match format with
  | .pretty =>
    let reports := diagnostics.map fun diagnostic => .report (.ofDiagnostic source diagnostic)
    { plan with messages := plan.messages ++ reports }
  | .json =>
    let text := Json.write .pretty (.arr (diagnostics.map Diagnostic.toJson))
    { plan with stdout := plan.stdout ++ text ++ "\n" }

/-- Adds lines to the error output. -/
def saying (plan : Plan) (lines : List String) : Plan :=
  { plan with messages := plan.messages ++ lines.map .line }

/-- Adds entries of the log to the error output. -/
def logging (plan : Plan) (entries : List LogEntry) : Plan :=
  { plan with messages := plan.messages ++ entries.map .log }

/-- The plan of a run that fails to read its source or to write its output. -/
def failed (plan : Plan) (action path : String) (fault : FileFault) : Plan :=
  { plan.saying (failureLines action path fault) with exit := 1, output := none }

end Plan

/-- The lines that show a menu under a title. -/
def dumpLines (title : String) (file : MenuFile) : List String :=
  s!"==== {title} menu tree" :: file.toText.splitOn "\n"

/-- The lines that show a compiled menu as it was read and as it is compiled. -/
def Compilation.debugLines (compilation : Compilation) : List String :=
  (compilation.parsed.map (dumpLines "Parsed")).getD [] ++
    dumpLines "Annotated" compilation.file

namespace Request

/-- Goes on with the plan of a run whose source does not compile. -/
def rejected (request : Request) (terminal : Bool) (plan : Plan) (source : String)
    (error : CompileError) : Plan :=
  let diagnostics := [error.diagnostic]
  let plan := { plan with exit := 1 }
  match request.format terminal with
  | .pretty => (plan.showing .pretty source diagnostics).saying [summaryLine diagnostics]
  | .json => plan.showing .json source diagnostics

/-- Goes on with the plan of a run whose source compiles. -/
def accepted (request : Request) (terminal : Bool) (plan : Plan) (source : String)
    (compilation : Compilation) : Plan :=
  let plan :=
    if compilation.warnings.isEmpty then plan
    else plan.showing (request.format terminal) source compilation.warnings
  let plan := if request.debug then plan.saying compilation.debugLines else plan
  { plan.logging [.stage s!"Generating {request.outputPath}"] with
    output := some (request.outputPath, compilation.assembly) }

/-- The plan of a run, from the result of reading its source. -/
def plan (request : Request) (terminal : Bool) (reading : Except FileFault String) : Plan :=
  let plan := ({ exit := 0 } : Plan).logging [.stage s!"Reading {request.file}"]
  match reading with
  | .error fault => plan.failed "read" request.file fault
  | .ok source =>
    let plan := plan.logging (compileLog request.compileOptions source)
    match compile request.compileOptions source with
    | .error error => request.rejected terminal plan source error
    | .ok compilation => request.accepted terminal plan source compilation

/-- The run of a request: its plan, as the writing leaves it, and the files after it. -/
def run (request : Request) (terminal : Bool) (files : FileSystem) : Plan × FileSystem :=
  let plan := request.plan terminal (files.readText request.file)
  match plan.output with
  | none => (plan, files)
  | some (path, text) =>
    match files.writeText path text with
    | .error fault => (plan.failed "write" path fault, files)
    | .ok written => (plan, written)

end Request

/-- The plan of a run that ends with its arguments. -/
def ArgumentStop.plan : ArgumentStop → Plan
  | .usage fault => { exit := 2, messages := [.line s!"error: {fault.message}"] }
  | .version => { exit := 0, stdout := versionText ++ "\n" }
  | .help =>
    { exit := 0
      stdout := "Usage: compilemenu [-o OUTPUT] [--debug] " ++
        "[--duplicate-names same-kind|any-leaf|strict] " ++
        "[--error-format pretty|json] FILENAME\n" }

/-- A run of the tool with the given arguments: what it says, and the files after it. -/
def runTool (arguments : List String) (terminal : Bool) (files : FileSystem) :
    Plan × FileSystem :=
  match parseArguments arguments with
  | .error stop => (stop.plan, files)
  | .ok request => request.run terminal files

end SoftMenu
