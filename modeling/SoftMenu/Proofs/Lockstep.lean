import SoftMenu.Proofs.Walk

/-!
# Two walks in lockstep

Two passes that treat each member of a list alike treat the list alike, and two visitors that treat
each node alike walk alike through a tree (`Comparison.holds_walk`). The trees of the two walks need
not be the same: the second one may have been declared at other places of a text
(`Node.relocate`).

A `Comparison` says what is meant by alike. It also allows the first pass to give up where the
second one goes on, for reasons that are named; nothing is said about the second pass then. Where
each stage of two compilations is alike, so are their results (`Matched.bind`).
-/

namespace SoftMenu

/-! ## Comparing outcomes -/

/-- How two passes are compared. -/
structure Comparison (σ τ ε δ : Type) where
  /-- The states that go together. -/
  state : σ → τ → Prop
  /-- What a reason of the first pass for giving up is to the second one. -/
  reason : ε → δ
  /-- For which reasons the first pass may give up alone. -/
  alone : ε → Prop

section Comparison

variable {σ τ ε δ α β : Type}

/-- The first pass has given up alone, or the second outcome is the image of the first one. -/
inductive Comparison.Holds (comparison : Comparison σ τ ε δ) (image : α → β)
    (first : Outcome σ ε α) (second : Outcome τ δ β) : Prop where
  | alone (reason : ε) (halt_eq : first.halt = some reason) (h : comparison.alone reason)
  | together (value_eq : second.value = image first.value)
      (states : comparison.state first.state second.state)
      (halt_eq : second.halt = first.halt.map comparison.reason)

namespace Comparison

variable {comparison : Comparison σ τ ε δ} {image : α → β}

/-- Passes that end at once are alike if they leave states that go together. -/
theorem holds_done {state : σ} {state' : τ} (h : comparison.state state state') (value : α) :
    comparison.Holds image (.done value state) (.done (image value) state') :=
  .together rfl h rfl

/-- Outcomes that are alike stay so if both values are changed in a way that goes together. -/
theorem Holds.map {α' β' : Type} {image' : α' → β'} {first : Outcome σ ε α}
    {second : Outcome τ δ β} (h : comparison.Holds image first second) {change : α → α'}
    {change' : β → β'} (hchange : ∀ value, change' (image value) = image' (change value)) :
    comparison.Holds image' (first.map change) (second.map change') := by
  cases h with
  | alone reason halt_eq h => exact .alone reason halt_eq h
  | together value_eq states halt_eq =>
    refine .together ?_ states halt_eq
    rw [Outcome.map, value_eq, hchange]
    rfl

/-- Passes that are alike can be followed by others that are alike from there on. -/
theorem Holds.andThen {first : Outcome σ ε α} {second : Outcome τ δ β}
    (h : comparison.Holds image first second) {next : α → σ → Outcome σ ε α}
    {next' : β → τ → Outcome τ δ β}
    (hnext : ∀ state', comparison.state first.state state' →
      comparison.Holds image (next first.value first.state) (next' (image first.value) state')) :
    comparison.Holds image (first.andThen next) (second.andThen next') := by
  unfold Outcome.andThen
  cases h with
  | alone reason halt_eq h =>
    rw [halt_eq]
    exact .alone reason halt_eq h
  | together value_eq states halt_eq =>
    cases hfirst : first.halt with
    | none =>
      rw [hfirst, Option.map_none] at halt_eq
      rw [halt_eq, value_eq]
      exact hnext second.state states
    | some reason =>
      have hsecond : second.halt = some (comparison.reason reason) := by
        rw [halt_eq, hfirst, Option.map_some]
      rw [hsecond]
      exact .together value_eq states halt_eq

/-- Passes that are alike for each member of a list are alike for the list. -/
theorem holds_sweep {pass : α → σ → Outcome σ ε α} {pass' : β → τ → Outcome τ δ β}
    (members : List α)
    (h : ∀ member ∈ members, ∀ state state', comparison.state state state' →
      comparison.Holds image (pass member state) (pass' (image member) state'))
    {state : σ} {state' : τ} (hstate : comparison.state state state') :
    comparison.Holds (List.map image) (sweep pass members state)
      (sweep pass' (members.map image) state') := by
  induction members generalizing state state' with
  | nil => exact holds_done hstate []
  | cons member members ih =>
    rw [List.map_cons]
    cases h member List.mem_cons_self state state' hstate with
    | alone reason halt_eq h =>
      rw [sweep_cons_of_some halt_eq]
      exact .alone reason halt_eq h
    | together value_eq states halt_eq =>
      cases hfirst : (pass member state).halt with
      | none =>
        rw [hfirst, Option.map_none] at halt_eq
        rw [sweep_cons_of_none hfirst, sweep_cons_of_none halt_eq, value_eq]
        refine (ih (fun other hother => ?_) states).map fun _ => rfl
        exact h other (List.mem_cons_of_mem _ hother)
      | some reason =>
        have hsecond : (pass' (image member) state').halt = some (comparison.reason reason) := by
          rw [halt_eq, hfirst, Option.map_some]
        rw [sweep_cons_of_some hfirst, sweep_cons_of_some hsecond]
        exact (Holds.together value_eq states halt_eq).map fun _ => rfl

end Comparison

end Comparison

/-! ## Comparing results -/

section Matched

variable {ε δ α β : Type}

/-- The first result is an error that may stand alone, or both are errors and the second one is the
image of the first, or both are values that go together. -/
inductive Matched (reason : ε → δ) (alone : ε → Prop) (related : α → β → Prop) :
    Except ε α → Except δ β → Prop where
  | alone {error : ε} (h : alone error) (second : Except δ β) :
    Matched reason alone related (.error error) second
  | errors (error : ε) : Matched reason alone related (.error error) (.error (reason error))
  | values {first : α} {second : β} (h : related first second) :
    Matched reason alone related (.ok first) (.ok second)

variable {reason : ε → δ} {alone : ε → Prop} {related : α → β → Prop}

/-- Results that are matched can be followed by computations that match values that go together. -/
theorem Matched.bind {α' β' : Type} {related' : α' → β' → Prop} {first : Except ε α}
    {second : Except δ β} (h : Matched reason alone related first second) {next : α → Except ε α'}
    {next' : β → Except δ β'}
    (hnext : ∀ a b, related a b → Matched reason alone related' (next a) (next' b)) :
    Matched reason alone related' (first >>= next) (second >>= next') := by
  cases h with
  | alone h second => exact .alone h _
  | errors error => exact .errors error
  | values h => exact hnext _ _ h

/-- A choice that is made on both sides by the same condition is matched if both branches are. -/
theorem Matched.ite {condition : Prop} [Decidable condition] {first first' : Except ε α}
    {second second' : Except δ β} (h : Matched reason alone related first second)
    (h' : Matched reason alone related first' second') :
    Matched reason alone related (if condition then first else first')
      (if condition then second else second') := by
  split_ifs
  · exact h
  · exact h'

/-- Every result is matched with itself. -/
theorem matched_self (alone : ε → Prop) (result : Except ε α) :
    Matched id alone Eq result result := by
  cases result with
  | error error => exact .errors error
  | ok value => exact .values rfl

/-- Every result is matched with itself after its error is translated. -/
theorem matched_mapError (reason : ε → δ) (alone : ε → Prop) (result : Except ε α) :
    Matched reason alone Eq result (result.mapError reason) := by
  cases result with
  | error error => exact .errors error
  | ok value => exact .values rfl

/-- Outcomes that are alike are matched if only their results are looked at. -/
theorem Comparison.Holds.matched {σ τ : Type} {comparison : Comparison σ τ ε δ} {image : α → β}
    {first : Outcome σ ε α} {second : Outcome τ δ β} (h : comparison.Holds image first second) :
    Matched comparison.reason comparison.alone
      (fun result result' => result'.1 = image result.1 ∧ comparison.state result.2 result'.2)
      first.toExcept second.toExcept := by
  unfold Outcome.toExcept
  cases h with
  | alone reason halt_eq h =>
    rw [halt_eq]
    exact .alone h _
  | together value_eq states halt_eq =>
    rw [halt_eq]
    cases first.halt with
    | none => exact .values ⟨value_eq, states⟩
    | some reason => exact .errors reason

end Matched

/-! ## Trees at other places -/

/-- A row that is declared at another place, with other slots. -/
def Row.relocate {α : Type} (move : Place → Place) (image : α → α) (row : Row α) : Row α :=
  ⟨row.slots.map image, move row.place⟩

/-- The data of a node that is declared at another place. -/
def NodeInfo.relocate (move : Place → Place) (info : NodeInfo) : NodeInfo :=
  { info with place := move info.place }

mutual

/-- A tree that is declared at other places. -/
def Node.relocate (move : Place → Place) : Node → Node
  | .item info => .item (info.relocate move)
  | .altItem info altName => .altItem (info.relocate move) altName
  | .group info rows => .group (info.relocate move) (relocateRows move rows)

/-- Rows that are declared at other places. -/
def relocateRows (move : Place → Place) : List (Row Node) → List (Row Node)
  | [] => []
  | row :: rows => relocateRow move row :: relocateRows move rows

/-- A row that is declared at another place. -/
def relocateRow (move : Place → Place) : Row Node → Row Node
  | ⟨slots, place⟩ => ⟨relocateSlots move slots, move place⟩

/-- Slots that are declared at other places. -/
def relocateSlots (move : Place → Place) : List Node → List Node
  | [] => []
  | slot :: slots => slot.relocate move :: relocateSlots move slots

end

section Relocate

variable (move : Place → Place)

theorem relocateSlots_eq (slots : List Node) :
    relocateSlots move slots = slots.map (Node.relocate move) := by
  induction slots with
  | nil => rfl
  | cons slot slots ih => rw [relocateSlots, ih, List.map_cons]

theorem relocateRows_eq (rows : List (Row Node)) :
    relocateRows move rows = rows.map (Row.relocate move (Node.relocate move)) := by
  induction rows with
  | nil => rfl
  | cons row rows ih =>
    obtain ⟨slots, place⟩ := row
    rw [relocateRows, ih, relocateRow, relocateSlots_eq, List.map_cons]
    rfl

namespace Node

@[simp] theorem relocate_item (info : NodeInfo) :
    (Node.item info).relocate move = .item (info.relocate move) := by
  rw [Node.relocate]

@[simp] theorem relocate_altItem (info : NodeInfo) (altName : DisplayName) :
    (Node.altItem info altName).relocate move = .altItem (info.relocate move) altName := by
  rw [Node.relocate]

@[simp] theorem relocate_group (info : NodeInfo) (rows : List (Row Node)) :
    (Node.group info rows).relocate move =
      .group (info.relocate move) (rows.map (Row.relocate move (Node.relocate move))) := by
  rw [Node.relocate, relocateRows_eq]

@[simp] theorem info_relocate (node : Node) :
    (node.relocate move).info = node.info.relocate move := by
  cases node <;> simp [Node.info]

@[simp] theorem kind_relocate (node : Node) : (node.relocate move).kind = node.kind := by
  cases node <;> simp [Node.kind]

@[simp] theorem altName?_relocate (node : Node) :
    (node.relocate move).altName? = node.altName? := by
  cases node <;> simp [Node.altName?]

@[simp] theorem rows_relocate (node : Node) :
    (node.relocate move).rows = node.rows.map (Row.relocate move (Node.relocate move)) := by
  cases node <;> simp [Node.rows]

@[simp] theorem name_relocate (node : Node) : (node.relocate move).name = node.name := by
  simp [Node.name, NodeInfo.relocate]

@[simp] theorem label_relocate (node : Node) : (node.relocate move).label = node.label := by
  simp [Node.label, NodeInfo.relocate]

@[simp] theorem id_relocate (node : Node) : (node.relocate move).id = node.id := by
  simp [Node.id, NodeInfo.relocate]

@[simp] theorem parentId_relocate (node : Node) :
    (node.relocate move).parentId = node.parentId := by
  simp [Node.parentId, NodeInfo.relocate]

@[simp] theorem place_relocate (node : Node) : (node.relocate move).place = move node.place := by
  simp [Node.place, NodeInfo.relocate]

@[simp] theorem isBlank_relocate (node : Node) : (node.relocate move).isBlank = node.isBlank := by
  simp [Node.isBlank]

theorem slots_relocate (node : Node) :
    (node.relocate move).slots = node.slots.map (Node.relocate move) := by
  rw [Node.slots, Node.slots, rows_relocate, List.flatMap_map, List.map_flatMap]
  rfl

/-- A tree is as deep at other places. -/
theorem depth_relocate (node : Node) : (node.relocate move).depth = node.depth := by
  have hle : ∀ levels, (node.relocate move).depth ≤ levels ↔ node.depth ≤ levels := by
    induction node using Node.slotInduction with
    | step node ih =>
      intro levels
      cases levels with
      | zero => rw [Nat.le_zero, Nat.le_zero, depth_eq_zero_iff, depth_eq_zero_iff, kind_relocate]
      | succ levels =>
        rw [depth_le_succ_iff, depth_le_succ_iff, slots_relocate, List.forall_mem_map]
        exact forall₂_congr fun slot hslot => ih slot hslot levels
  exact Nat.le_antisymm ((hle _).2 le_rfl) ((hle _).1 le_rfl)

end Node

/-- A tree that is declared at the same places is the same tree. -/
theorem relocate_id (node : Node) : node.relocate id = node := by
  have hrow : ∀ {rows : List (Row Node)},
      (∀ slot ∈ rows.flatMap Row.slots, slot.relocate id = slot) →
      rows.map (Row.relocate id (Node.relocate id)) = rows := by
    intro rows h
    refine (List.map_congr_left fun row hrow => ?_).trans (List.map_id rows)
    have hslots : row.slots.map (Node.relocate id) = row.slots := by
      refine (List.map_congr_left fun slot hslot => ?_).trans (List.map_id row.slots)
      exact h slot (List.mem_flatMap.2 ⟨row, hrow, hslot⟩)
    rw [Row.relocate, hslots]
    rfl
  induction node using Node.slotInduction with
  | step node ih =>
    cases node with
    | item info => rw [Node.relocate_item]; rfl
    | altItem info altName => rw [Node.relocate_altItem]; rfl
    | group info rows =>
      rw [Node.slots_group] at ih
      rw [Node.relocate_group, hrow ih]
      rfl

/-- A menu whose tree is declared at other places. -/
def MenuFile.relocate (file : MenuFile) : MenuFile :=
  { file with root := file.root.relocate move }

end Relocate

/-! ## Comparing walks -/

namespace Comparison

variable {σ τ ε δ : Type} {comparison : Comparison σ τ ε δ} {move : Place → Place}

/-- Passes that are alike for every slot are alike for the slots of a node, row by row. -/
theorem holds_sweepSlots {pass : Node → σ → Outcome σ ε Node} {pass' : Node → τ → Outcome τ δ Node}
    (h : ∀ slot state state', comparison.state state state' →
      comparison.Holds (Node.relocate move) (pass slot state) (pass' (slot.relocate move) state'))
    (node : Node) {state : σ} {state' : τ} (hstate : comparison.state state state') :
    comparison.Holds (Node.relocate move) (node.sweepSlots pass state)
      ((node.relocate move).sweepSlots pass' state') := by
  have hrow : ∀ row state state', comparison.state state state' →
      comparison.Holds (Row.relocate move (Node.relocate move)) (Row.sweep pass row state)
        (Row.sweep pass' (row.relocate move (Node.relocate move)) state') := by
    intro row state state' hstate
    exact (holds_sweep row.slots (fun slot _ => h slot) hstate).map fun _ => rfl
  cases node with
  | item info =>
    rw [Node.relocate_item]
    exact .together (Node.relocate_item move info).symm hstate rfl
  | altItem info altName =>
    rw [Node.relocate_altItem]
    exact .together (Node.relocate_altItem move info altName).symm hstate rfl
  | group info rows =>
    rw [Node.relocate_group]
    refine (holds_sweep rows (fun row _ => hrow row) hstate).map fun rows => ?_
    exact (Node.relocate_group move info rows).symm

section Walk

variable {visitor : Visitor σ ε} {visitor' : Visitor τ δ}
  (h : ∀ parentId node state state', comparison.state state state' →
    comparison.Holds (Node.relocate move) (visitor parentId node state)
      (visitor' parentId (node.relocate move) state'))

include h

/-- Visitors that are alike at every node are alike for any number of levels below a node. -/
theorem holds_descend (levels : Nat) (node : Node) {state : σ} {state' : τ}
    (hstate : comparison.state state state') :
    comparison.Holds (Node.relocate move) (visitor.descend levels node state)
      (visitor'.descend levels (node.relocate move) state') := by
  induction levels generalizing node state state' with
  | zero => exact holds_done hstate node
  | succ levels ih =>
    rw [Visitor.descend, Visitor.descend, Node.id_relocate]
    refine (holds_sweepSlots (h node.id) node hstate).andThen fun state' hstate => ?_
    exact holds_sweepSlots (fun slot state state' => ih slot) _ hstate

/-- Visitors that are alike at every node are alike for any number of levels of a tree. -/
theorem holds_walkLevels (levels : Nat) (root : Node) {state : σ} {state' : τ}
    (hstate : comparison.state state state') :
    comparison.Holds (Node.relocate move) (visitor.walkLevels levels root state)
      (visitor'.walkLevels levels (root.relocate move) state') := by
  rw [Visitor.walkLevels, Visitor.walkLevels]
  refine (h nullId root state state' hstate).andThen fun state' hstate => ?_
  exact holds_descend h levels _ hstate

/-- Visitors that are alike at every node walk alike. -/
theorem holds_walk (root : Node) {state : σ} {state' : τ} (hstate : comparison.state state state') :
    comparison.Holds (Node.relocate move) (visitor.walk root state)
      (visitor'.walk (root.relocate move) state') := by
  rw [Visitor.walk, Visitor.walk, Node.depth_relocate]
  exact holds_walkLevels h root.depth root hstate

/-- Visitors that are alike at every node walk alike through the tree of a menu. -/
theorem holds_walkFile (file : MenuFile) {state : σ} {state' : τ}
    (hstate : comparison.state state state') :
    comparison.Holds (MenuFile.relocate move) (visitor.walkFile file state)
      (visitor'.walkFile (file.relocate move) state') :=
  (holds_walk h file.root hstate).map fun _ => rfl

end Walk

end Comparison

end SoftMenu
