import SoftMenu.Assembly
import SoftMenu.Menu.GlyphNames
import SoftMenu.Menu.Reader
import SoftMenu.Menu.Registry
import SoftMenu.Menu.Shape
import SoftMenu.Table.Layout

/-!
# Compilation

From the text of a menu definition to the text of its table: the definition is read, its shape is
checked and its rows are padded, its nodes are numbered, its names are exploded, the table is laid
out and written. The first error ends the compilation.
-/

namespace SoftMenu

/-- The options of a compilation. -/
structure CompileOptions where
  /-- The name of the source that the header shows. -/
  sourceName : String
  /-- Which nodes may share a name. -/
  duplicateNames : DuplicatePolicy := .sameKindLeaves
  /-- Whether the menu is kept as it was read. -/
  snapshotParsed : Bool := false
deriving Repr

/-- What a compilation produces. -/
structure Compilation where
  /-- The menu, padded, numbered and exploded. -/
  file : MenuFile
  /-- The menu as it was read, if it was kept. -/
  parsed : Option MenuFile
  /-- What is known about labels and names. -/
  registry : Registry
  /-- The table. -/
  table : Table
  /-- The text of the table. -/
  assembly : String
  /-- The warnings. -/
  warnings : List Diagnostic
deriving Repr

/-- Compiles a menu definition. -/
def compile (options : CompileOptions) (source : String) : Except CompileError Compilation := do
  let parsed ← parse source
  let (padded, _) ← (validate parsed.file).toExcept
  let (numbered, registry) ← (assignIds options.duplicateNames padded).toExcept
  let (file, _) ← (explodeNames numbered).toExcept
  let table ← Table.ofFile file
  return {
    file
    parsed := if options.snapshotParsed then some parsed.file else none
    registry
    table
    assembly := table.assembly options.sourceName
    warnings := parsed.warnings }

end SoftMenu
