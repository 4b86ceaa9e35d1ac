import SoftMenu.Compile
import SoftMenu.Menu.Probe

/-!
# Sessions

The stages of a compilation one at a time, on a menu that can be looked at and changed in between. A
session holds the current menu, the registry of the last numbering and the last table. A step that
fails does not end the session, and what it changed in the menu before it failed stays changed.
-/

namespace SoftMenu

/-- What a session works on. -/
structure Session where
  /-- The current menu. -/
  file : Option MenuFile := none
  /-- The current registry. -/
  registry : Option Registry := none
  /-- The current table. -/
  table : Option Table := none
deriving Repr

/-- Why a step fails. -/
inductive SessionFault where
  /-- There is no menu yet. -/
  | noFile
  /-- There is no registry yet. -/
  | noRegistry
  /-- There is no table yet. -/
  | noTable
  /-- The menu has a fault. -/
  | compile (error : CompileError)
deriving Repr

/-- A step of a session; its changes stay also when it fails. -/
abbrev SessionStep := ExceptT SessionFault (StateM Session)

namespace SessionStep

/-- The current menu. -/
def currentFile : SessionStep MenuFile := do
  match (← get).file with
  | some file => return file
  | none => throw .noFile

/-- The current registry. -/
def currentRegistry : SessionStep Registry := do
  match (← get).registry with
  | some registry => return registry
  | none => throw .noRegistry

/-- The current table. -/
def currentTable : SessionStep Table := do
  match (← get).table with
  | some table => return table
  | none => throw .noTable

/-- A result, or the fault of the menu that stood in its way. -/
def ofResult (result : Except CompileError α) : SessionStep α :=
  match result with
  | .ok value => return value
  | .error error => throw (.compile error)

/-- Keeps the menu as a pass left it, and reports whether the pass gave up. -/
def keep (outcome : Outcome σ CompileError MenuFile) : SessionStep σ := do
  modify fun session => { session with file := some outcome.value }
  return (← ofResult outcome.toExcept).2

/-- Reads a menu definition in place of the current menu. -/
def parse (source : String) : SessionStep (List Diagnostic) := do
  let parsed ← ofResult (SoftMenu.parse source)
  modify fun session => { session with file := some parsed.file }
  return parsed.warnings

/-- Takes a menu in place of the current one. -/
def load (file : MenuFile) : SessionStep Unit :=
  modify fun session => { session with file := some file }

/-- Checks and pads the current menu. -/
def validate : SessionStep Unit := do
  let _ ← keep (SoftMenu.validate (← currentFile))

/-- Numbers the current menu; the registry is kept if that succeeds. -/
def assign (policy : DuplicatePolicy) : SessionStep Nat := do
  let registry ← keep (assignIds policy (← currentFile))
  modify fun session => { session with registry := some registry }
  return registry.nodeCount

/-- Begins a new registry. -/
def newRegistry (policy : DuplicatePolicy) : SessionStep Unit :=
  modify fun session => { session with registry := some { policy } }

/-- Numbers the current menu with the current registry, which keeps what it has noted. -/
def register : SessionStep Nat := do
  let registry ← currentRegistry
  let outcome := Registry.visitor.walkFile (← currentFile) registry
  modify fun session => { session with registry := some outcome.state }
  return (← keep outcome).nodeCount

/-- Explodes the names of the current menu. -/
def explode : SessionStep Unit := do
  let _ ← keep (explodeNames (← currentFile))

/-- Lays out the table of the current menu. -/
def build : SessionStep Table := do
  let table ← ofResult (Table.ofFile (← currentFile))
  modify fun session => { session with table := some table }
  return table

/-- Walks over the current menu with a visitor; says whether the walk came to its end, and its
state. -/
def walk (visitor : Visitor σ ε) (state : σ) : SessionStep (Bool × σ) := do
  let outcome := visitor.walkFile (← currentFile) state
  modify fun session => { session with file := some outcome.value }
  return (outcome.halt.isNone, outcome.state)

/-- Changes the first node with a label; says whether there is one. -/
def edit (label : String) (edit : InfoEdit) : SessionStep Bool := do
  return (← walk (edit.visitor label) false).2

end SessionStep

end SoftMenu
