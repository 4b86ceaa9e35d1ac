import SoftMenu.Error
import SoftMenu.Menu.Walk

/-!
# Ids, labels and names

Ids are handed out from one counter, 1, 2, 3, … up to 254, in hybrid order, so the slots of a group
get one run of ids and a group can point at all of them by the id of the first. On the way a
`Registry` notes which id a label got and which kind of node used a name first.

No two nodes may have the same label. Whether two nodes may have the same name is a matter of the
policy, which compares a node with the first user of its name. Blank items take part in the
numbering only; each gets a label made from its id.
-/

namespace SoftMenu

/-- Which nodes may share a name. -/
inductive DuplicatePolicy where
  /-- Leaves of one kind. -/
  | sameKindLeaves
  /-- Any leaves. -/
  | anyLeaves
  /-- None. -/
  | strict
deriving DecidableEq, Repr, Inhabited

namespace DuplicatePolicy

/-- The word for a policy. -/
def word : DuplicatePolicy → String
  | .sameKindLeaves => "same-kind-leaves"
  | .anyLeaves => "any-leaves"
  | .strict => "strict"

/-- The policy that a word names. -/
def ofWord? : String → Option DuplicatePolicy
  | "same-kind-leaves" => some .sameKindLeaves
  | "any-leaves" => some .anyLeaves
  | "strict" => some .strict
  | _ => none

/-- Whether a node of kind `new` may use a name that was first used by a node of kind
`previous`. -/
def allows (policy : DuplicatePolicy) (previous new : Kind) : Bool :=
  if previous = .group || new = .group then false
  else match policy with
    | .sameKindLeaves => previous = new
    | .anyLeaves => true
    | .strict => false

end DuplicatePolicy

/-- The id of the root. -/
def rootId : Nat := 1

/-- The greatest id. -/
def maxNodeId : UInt8 := 254

/-- The node that uses a label. -/
structure LabelUse where
  /-- Its id. -/
  id : UInt8
  /-- The line of its declaration. -/
  line : Nat
deriving DecidableEq, Repr

/-- What is known after some nodes have been numbered. -/
structure Registry where
  /-- Which nodes may share a name. -/
  policy : DuplicatePolicy
  /-- The id of the next node. -/
  nextId : Nat := rootId
  /-- The names in use, each with the kind of its first user. -/
  names : List (String × Kind) := []
  /-- The labels in use. -/
  labels : List (String × LabelUse) := []
deriving Repr

/-- The label of the blank item with the given id: three decimal digits after a fixed start. -/
def blankLabel (id : UInt8) : String :=
  let n := id.toNat
  let digits := [n / 100, n / 10 % 10, n % 10].map Nat.digitChar
  "mBlank" ++ String.ofList digits

namespace Registry

/-- The number of ids handed out. -/
def nodeCount (registry : Registry) : Nat := registry.nextId - rootId

/-- The id of the node with the given label; the labels of blank items are not known. -/
def idOfLabel? (registry : Registry) (label : String) : Option UInt8 :=
  (registry.labels.lookup label).map LabelUse.id

/-- The kind of the first node with the given name. -/
def kindOfName? (registry : Registry) (name : String) : Option Kind := registry.names.lookup name

/-- The error that the label of a node is in use. -/
def labelClash? (registry : Registry) (node : Node) : Option CompileError :=
  (registry.labels.lookup node.label).map fun first =>
    .duplicateLabel node.label first.line node.place

/-- Notes the name of a node, and reports whether its name or its label is in the way. -/
def note (registry : Registry) (node : Node) : Registry × Option CompileError :=
  match registry.kindOfName? node.name with
  | some previous =>
    if registry.policy.allows previous node.kind then (registry, registry.labelClash? node)
    else (registry, some (.duplicateName node.name node.kind previous node.place))
  | none =>
    ({ registry with names := (node.name, node.kind) :: registry.names },
      registry.labelClash? node)

/-- Numbers a node that nothing is in the way of. -/
def number (registry : Registry) (parentId : UInt8) (node : Node) :
    Outcome Registry CompileError Node :=
  if maxNodeId.toNat < registry.nextId then
    ⟨node, registry, some (.idOverflow maxNodeId node.label node.place)⟩
  else
    let id := UInt8.ofNat registry.nextId
    let next := registry.nextId + 1
    if node.isBlank then
      .done (node.mapInfo fun info => { info with id, parentId, label := blankLabel id })
        { registry with nextId := next }
    else
      .done (node.mapInfo fun info => { info with id, parentId })
        { registry with
          nextId := next
          labels := (node.label, ⟨id, node.place.line⟩) :: registry.labels }

/-- Registers and numbers a node. -/
def visitor : Visitor Registry CompileError := fun parentId node registry =>
  if node.isBlank then registry.number parentId node
  else match registry.note node with
    | (registry, none) => registry.number parentId node
    | (registry, some error) => ⟨node, registry, some error⟩

end Registry

/-- Numbers the nodes of a menu under a policy; the state is what is known about its labels and
names. -/
def assignIds (policy : DuplicatePolicy) (file : MenuFile) :
    Outcome Registry CompileError MenuFile :=
  Registry.visitor.walkFile file { policy }

end SoftMenu
