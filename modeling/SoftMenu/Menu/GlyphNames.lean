import SoftMenu.Error
import SoftMenu.Menu.Walk

/-!
# Exploding the names of a menu

The pass that checks all names and alternate names of a menu and notes the operands of those that
refer to glyphs. Names without glyphs are stored as they are declared, so nothing is noted for them.
Blank items have no name to check.
-/

namespace SoftMenu

/-- Checks a name declared at `place`, and notes its operands if it refers to glyphs. The state
counts the names that do. -/
def explodeName (place : Place) (name : DisplayName) (count : Nat) :
    Outcome Nat CompileError DisplayName :=
  match explode name.text with
  | .error fault => ⟨name, count, some (.invalidName name.text fault place)⟩
  | .ok operands =>
    if name.isSpecial then .done { name with exploded := some operands } (count + 1)
    else .done name count

/-- Checks the name of a node, then its alternate name if it has one. -/
def explodeVisitor : Visitor Nat CompileError := fun _ node count =>
  if node.isBlank then .done node count
  else
    let first := explodeName node.place node.info.name count
    match first.halt, node.mapInfo fun info => { info with name := first.value } with
    | none, .altItem info altName =>
      (explodeName info.place altName first.state).map (.altItem info)
    | halt, node => ⟨node, first.state, halt⟩

/-- Checks and explodes the names of a menu; the state is the number of names with glyphs. -/
def explodeNames (file : MenuFile) : Outcome Nat CompileError MenuFile :=
  explodeVisitor.walkFile file 0

end SoftMenu
