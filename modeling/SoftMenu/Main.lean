import SoftMenu.CommandLine.Run

/-!
# The command-line tool

Carries out the plan of a run on the real file system.
-/

namespace SoftMenu

/-- The fault behind a failed file operation. -/
def faultOf : IO.Error → FileFault
  | .noFileOrDirectory .. => .notFound
  | .inappropriateType _ code _ =>
    if code = 20 then .notFolder else .isFolder
  | .invalidArgument _ 36 _ => .nameTooLong
  | error => .other (toString error)

/-- Reads a text file. -/
def readSource (path : String) : IO (Except FileFault String) := do
  try
    return FileSystem.decodeText (← IO.FS.readBinFile path)
  catch error => return .error (faultOf error)

/-- Writes a text file. -/
def writeOutput (path text : String) : IO (Except FileFault Unit) := do
  try
    IO.FS.writeFile path text
    return .ok ()
  catch error => return .error (faultOf error)

/-- Prints a message. -/
def sayMessage (filter : LogFilter) : Message → IO Unit
  | .log entry => if filter.shows entry then IO.eprintln entry.text else return
  | .report report => do
    IO.eprintln report.head
    if let some range := report.range then
      IO.eprintln s!"  at bytes {range.start} to {range.stop}"
    IO.eprintln ("  " ++ report.label)
    if let some help := report.help then IO.eprintln ("  help: " ++ help)
  | .line text => IO.eprintln text

/-- Prints what a run says. -/
def say (plan : Plan) (filter : LogFilter) : IO Unit := do
  plan.messages.forM (sayMessage filter)
  IO.print plan.stdout

/-- Runs a request. -/
def runRequest (request : Request) : IO Plan := do
  let terminal ← (← IO.getStderr).isTty
  let plan := request.plan terminal (← readSource request.file)
  match plan.output with
  | none => return plan
  | some (path, text) =>
    match ← writeOutput path text with
    | .ok () => return plan
    | .error fault => return plan.failed "write" path fault

/-- Runs the tool with the given arguments and gives its exit status. -/
def runArguments (arguments : List String) : IO UInt32 := do
  let level ← IO.getEnv "RUST_LOG"
  let filter := (level.bind LogFilter.ofWord?).getD .info
  let plan ←
    match parseArguments arguments with
    | .error stop => pure stop.plan
    | .ok request => runRequest request
  say plan filter
  return .ofNat plan.exit

end SoftMenu

/-- The command-line tool. -/
def main (arguments : List String) : IO UInt32 := SoftMenu.runArguments arguments
