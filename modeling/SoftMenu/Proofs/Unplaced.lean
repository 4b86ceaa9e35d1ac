import SoftMenu.Proofs.Lockstep
import SoftMenu.Proofs.Stages

/-!
# Menus without places

Every node and row carries the place it was declared at, every error the place it points to, and a
registry the line of every label. Places are reported, but nothing is ever decided by them: a stage
that is given a menu without places does what it does to the menu, without the places
(`holds_validate`, `holds_assignIds_relocate`, `holds_explodeNames`, `ofFile_relocate`).
-/

namespace SoftMenu

/-! ## Without places -/

/-- The place that stands for all places. -/
def nowhere : Place := ⟨0, .empty 0⟩

/-- Forgets a place. -/
def unplace (_ : Place) : Place := nowhere

/-- An error without its place, and without the line of the first use of a label. -/
def CompileError.unplaced : CompileError → CompileError
  | .unexpectedEnd expected _ => .unexpectedEnd expected nowhere
  | .unexpectedToken found expected _ => .unexpectedToken found expected nowhere
  | .missingRoot _ => .missingRoot nowhere
  | .extraRoot _ => .extraRoot nowhere
  | .emptyGroup group _ => .emptyGroup group nowhere
  | .rowOverflow group row count _ => .rowOverflow group row count nowhere
  | .emptyRow group row _ => .emptyRow group row nowhere
  | .tooManyRows group count _ => .tooManyRows group count nowhere
  | .illegalLabel label name fault _ => .illegalLabel label name fault nowhere
  | .misplacedBlank kind _ => .misplacedBlank kind nowhere
  | .duplicateName name kind previous _ => .duplicateName name kind previous nowhere
  | .duplicateLabel label _ _ => .duplicateLabel label nowhere.line nowhere
  | .idOverflow max label _ => .idOverflow max label nowhere
  | .nameIdOverflow max label _ => .nameIdOverflow max label nowhere.span
  | .invalidName name fault _ => .invalidName name fault nowhere

/-- What a registry knows apart from lines. -/
def Registry.unplaced (registry : Registry) : Registry :=
  { registry with
    labels := registry.labels.map fun entry => (entry.1, { entry.2 with line := nowhere.line }) }

/-- Compares a pass over a menu with the same pass without places. -/
def unplacing {σ : Type} (forget : σ → σ) : Comparison σ σ CompileError CompileError where
  state state state' := state' = forget state
  reason := CompileError.unplaced
  alone _ := False

/-- A change of the data of a node that does not look at its place can be made before or after the
place is forgotten. -/
theorem mapInfo_relocate (node : Node) {change change' : NodeInfo → NodeInfo}
    (h : ∀ info : NodeInfo, change' (info.relocate unplace) = (change info).relocate unplace) :
    (node.relocate unplace).mapInfo change' = (node.mapInfo change).relocate unplace := by
  cases node with
  | item info => simp [Node.mapInfo, h]
  | altItem info altName => simp [Node.mapInfo, h]
  | group info rows => simp [Node.mapInfo, h]

/-! ## Shape -/

/-- Whether a label is legal does not depend on where its node is declared. -/
theorem labelError?_relocate (node : Node) :
    (node.relocate unplace).labelError? = node.labelError?.map CompileError.unplaced := by
  unfold Node.labelError?
  simp only [Node.label_relocate, Node.name_relocate, Node.isBlank_relocate, Node.kind_relocate,
    Node.place_relocate]
  cases reservedStart? node.label with
  | some start => rfl
  | none =>
    dsimp only
    split_ifs <;> rfl

namespace Row

/-- Whether a row has a legal length does not depend on where it is declared. -/
theorem error?_relocate (group : String) (index : Nat) (row : Row Node) :
    (row.relocate unplace (Node.relocate unplace)).error? group index =
      (row.error? group index).map CompileError.unplaced := by
  unfold error? Row.relocate
  dsimp only
  rw [List.length_map, List.isEmpty_map]
  split_ifs <;> rfl

theorem missing_relocate (row : Row Node) :
    (row.relocate unplace (Node.relocate unplace)).missing = row.missing := by
  unfold missing Row.relocate
  rw [List.length_map]

/-- The blanks of a row are declared at the place of the row, so they lose theirs along with it. -/
theorem pad_relocate (row : Row Node) :
    (row.relocate unplace (Node.relocate unplace)).pad =
      row.pad.relocate unplace (Node.relocate unplace) := by
  have hblank : (Node.blank row.place).relocate unplace = .blank (unplace row.place) :=
    Node.relocate_item unplace _
  unfold pad
  rw [missing_relocate]
  unfold Row.relocate
  rw [List.map_append, List.map_replicate, hblank]

end Row

/-- Rows without places are filled up as the rows are, as far as the first illegal one. -/
theorem holds_padRows (group : String) (rows : List (Row Node)) (index padded : Nat) :
    (unplacing id).Holds (List.map (Row.relocate unplace (Node.relocate unplace)))
      (padRows group index rows padded)
      (padRows group index (rows.map (Row.relocate unplace (Node.relocate unplace))) padded) := by
  induction rows generalizing index padded with
  | nil => exact .together rfl rfl rfl
  | cons row rows ih =>
    rw [List.map_cons, padRows, padRows, Row.error?_relocate]
    cases row.error? group index with
    | some error => exact .together rfl rfl rfl
    | none =>
      dsimp only [Option.map_none]
      rw [Row.missing_relocate]
      refine (ih (index + 1) (padded + row.missing)).map fun rows => ?_
      rw [List.map_cons, Row.pad_relocate]

/-- The rows of a group without places are checked and filled up as the rows of the group are. -/
theorem holds_padGroup (info : NodeInfo) (rows : List (Row Node)) (padded : Nat) :
    (unplacing id).Holds (List.map (Row.relocate unplace (Node.relocate unplace)))
      (padGroup info rows padded)
      (padGroup (info.relocate unplace)
        (rows.map (Row.relocate unplace (Node.relocate unplace))) padded) := by
  unfold padGroup
  rw [List.isEmpty_map, List.length_map]
  split_ifs
  · exact .together rfl rfl rfl
  · exact .together rfl rfl rfl
  · exact holds_padRows info.name.text rows 0 padded

/-- At one node, the check of shapes decides nothing by places. -/
theorem holds_shapeVisitor (parentId : UInt8) (node : Node) (padded padded' : Nat)
    (h : (unplacing id).state padded padded') :
    (unplacing id).Holds (Node.relocate unplace) (shapeVisitor parentId node padded)
      (shapeVisitor parentId (node.relocate unplace) padded') := by
  obtain rfl : padded' = padded := h
  have hlabel := labelError?_relocate node
  cases herror : node.labelError? with
  | some error =>
    rw [herror] at hlabel
    rw [shapeVisitor_of_error herror, shapeVisitor_of_error hlabel]
    exact .together rfl rfl rfl
  | none =>
    rw [herror] at hlabel
    cases node with
    | item info =>
      rw [shapeVisitor_of_leaf herror (by simp [Node.kind]),
        shapeVisitor_of_leaf hlabel (by simp [Node.kind])]
      exact .together rfl rfl rfl
    | altItem info altName =>
      rw [shapeVisitor_of_leaf herror (by simp [Node.kind]),
        shapeVisitor_of_leaf hlabel (by simp [Node.kind])]
      exact .together rfl rfl rfl
    | group info rows =>
      rw [shapeVisitor_of_group herror rfl, shapeVisitor_of_group hlabel (by simp [Node.kind])]
      rw [Node.relocate_group]
      refine (holds_padGroup info rows padded').map fun rows => ?_
      exact (Node.relocate_group unplace info rows).symm

/-- The check of shapes does to a menu without places what it does to the menu. -/
theorem holds_validate (file : MenuFile) :
    (unplacing id).Holds (MenuFile.relocate unplace) (validate file)
      (validate (file.relocate unplace)) :=
  Comparison.holds_walkFile holds_shapeVisitor file rfl

/-! ## Ids -/

namespace Registry

variable (registry : Registry) (node : Node)

/-- A registry without lines knows the same labels. -/
theorem lookup_unplaced (label : String) : registry.unplaced.labels.lookup label =
    (registry.labels.lookup label).map fun use => { use with line := nowhere.line } := by
  rw [unplaced]
  induction registry.labels with
  | nil => rfl
  | cons entry entries ih =>
    rw [List.map_cons, List.lookup_cons, List.lookup_cons, ih]
    cases label == entry.1 <;> rfl

theorem idOfLabel?_unplaced (label : String) :
    registry.unplaced.idOfLabel? label = registry.idOfLabel? label := by
  rw [idOfLabel?, idOfLabel?, lookup_unplaced, Option.map_map]
  rfl

/-- Whether a label is taken does not depend on lines, but the error names one. -/
theorem labelClash?_unplaced : registry.unplaced.labelClash? (node.relocate unplace) =
    (registry.labelClash? node).map CompileError.unplaced := by
  rw [labelClash?, labelClash?, Node.label_relocate, Node.place_relocate, lookup_unplaced,
    Option.map_map, Option.map_map]
  rfl

/-- A node is noted, or refused for the same reason, whatever its place. -/
theorem note_unplaced : registry.unplaced.note (node.relocate unplace) =
    ((registry.note node).1.unplaced, (registry.note node).2.map CompileError.unplaced) := by
  unfold note
  have hkind : registry.unplaced.kindOfName? (node.relocate unplace).name =
      registry.kindOfName? node.name := by
    rw [Node.name_relocate]
    rfl
  rw [hkind, labelClash?_unplaced, Node.name_relocate, Node.kind_relocate, Node.place_relocate]
  cases registry.kindOfName? node.name with
  | none => rfl
  | some previous =>
    have hpolicy : registry.unplaced.policy = registry.policy := rfl
    dsimp only
    rw [hpolicy]
    split_ifs <;> rfl

/-- A node gets the same id whatever its place. -/
theorem holds_number_unplaced (parentId : UInt8) :
    (unplacing unplaced).Holds (Node.relocate unplace) (registry.number parentId node)
      (registry.unplaced.number parentId (node.relocate unplace)) := by
  have hnext : registry.unplaced.nextId = registry.nextId := rfl
  unfold number
  rw [hnext, Node.isBlank_relocate, Node.label_relocate, Node.place_relocate]
  split_ifs
  · exact .together rfl rfl rfl
  · exact .together (mapInfo_relocate node fun _ => rfl) rfl rfl
  · exact .together (mapInfo_relocate node fun _ => rfl) rfl rfl

/-- At one node, the assignment of ids decides nothing by places. -/
theorem holds_registryVisitor (parentId : UInt8) (node : Node) (registry registry' : Registry)
    (h : (unplacing unplaced).state registry registry') :
    (unplacing unplaced).Holds (Node.relocate unplace) (visitor parentId node registry)
      (visitor parentId (node.relocate unplace) registry') := by
  obtain rfl : registry' = registry.unplaced := h
  unfold visitor
  rw [Node.isBlank_relocate]
  by_cases hblank : node.isBlank
  · rw [if_pos hblank, if_pos hblank]
    exact registry.holds_number_unplaced node parentId
  · rw [if_neg hblank, if_neg hblank, note_unplaced]
    obtain ⟨noted, clash⟩ := registry.note node
    cases clash with
    | none => exact noted.holds_number_unplaced node parentId
    | some error => exact .together rfl rfl rfl

end Registry

/-- Ids are assigned to the nodes of a menu without places as they are to those of the menu. -/
theorem holds_assignIds_relocate (policy : DuplicatePolicy) (file : MenuFile) :
    (unplacing Registry.unplaced).Holds (MenuFile.relocate unplace) (assignIds policy file)
      (assignIds policy (file.relocate unplace)) :=
  Comparison.holds_walkFile Registry.holds_registryVisitor file rfl

/-! ## Names -/

/-- A name is spelled out alike at every place, which only an error makes use of. -/
theorem explodeName_unplace (place : Place) (name : DisplayName) (count : Nat) :
    explodeName (unplace place) name count =
      { explodeName place name count with
        halt := (explodeName place name count).halt.map CompileError.unplaced } := by
  unfold explodeName
  cases explode name.text with
  | error fault => rfl
  | ok operands =>
    dsimp only
    split_ifs <;> rfl

/-- At one node, the spelling of names decides nothing by places. -/
theorem holds_explodeVisitor (parentId : UInt8) (node : Node) (count count' : Nat)
    (h : (unplacing id).state count count') :
    (unplacing id).Holds (Node.relocate unplace) (explodeVisitor parentId node count)
      (explodeVisitor parentId (node.relocate unplace) count') := by
  obtain rfl : count' = count := h
  have hrelocated := Node.isBlank_relocate unplace node
  cases hblank : node.isBlank with
  | true =>
    rw [hblank] at hrelocated
    rw [explodeVisitor_of_blank hblank, explodeVisitor_of_blank hrelocated]
    exact .together rfl rfl rfl
  | false =>
    rw [hblank] at hrelocated
    cases haltName : node.altName? with
    | none =>
      have haltName' := (Node.altName?_relocate unplace node).trans haltName
      rw [explodeVisitor_of_altName?_eq_none hblank haltName,
        explodeVisitor_of_altName?_eq_none hrelocated haltName', Node.place_relocate,
        explodeName_unplace, Node.info_relocate]
      exact .together (mapInfo_relocate node fun _ => rfl) rfl rfl
    | some altName =>
      cases node with
      | item info => cases haltName
      | group info rows => cases haltName
      | altItem info altName =>
        rw [Node.relocate_altItem] at hrelocated ⊢
        rw [explodeVisitor_altItem hblank, explodeVisitor_altItem hrelocated]
        have hplace : (info.relocate unplace).place = unplace info.place := rfl
        have hname : (info.relocate unplace).name = info.name := rfl
        rw [hplace, hname, explodeName_unplace]
        obtain ⟨name, count, halt⟩ := explodeName info.place info.name count'
        cases halt with
        | some error =>
          exact .together (Node.relocate_altItem unplace { info with name } altName).symm rfl rfl
        | none =>
          dsimp only [Option.map_none]
          rw [explodeName_unplace]
          exact .together (Node.relocate_altItem unplace { info with name }
            (explodeName info.place altName count).value).symm rfl rfl

/-- The names of a menu without places are spelled out as those of the menu are. -/
theorem holds_explodeNames (file : MenuFile) :
    (unplacing id).Holds (MenuFile.relocate unplace) (explodeNames file)
      (explodeNames (file.relocate unplace)) :=
  Comparison.holds_walkFile holds_explodeVisitor file rfl

/-! ## The table -/

section Table

variable (move : Place → Place)

/-- A step of a tour through a tree that is declared at other places. -/
def Event.relocate : Event → Event
  | .visit node parent => .visit (node.relocate move) (parent.map (Node.relocate move))
  | .enterGroup group => .enterGroup (group.relocate move)
  | .enterRow group row index =>
    .enterRow (group.relocate move) (row.relocate move (Node.relocate move)) index

theorem rowEvents_relocate (group : Node) (rows : List (Row Node)) (index : Nat) :
    rowEvents (group.relocate move) index (rows.map (Row.relocate move (Node.relocate move))) =
      (rowEvents group index rows).map (Event.relocate move) := by
  induction rows generalizing index with
  | nil => rfl
  | cons row rows ih =>
    rw [List.map_cons, rowEvents, rowEvents, ih, List.map_append, List.map_cons, List.map_map,
      Row.relocate, List.map_map]
    rfl

theorem listing_relocate (node : Node) :
    (node.relocate move).listing = node.listing.map (Event.relocate move) := by
  cases node with
  | item info => rw [Node.relocate_item]; rfl
  | altItem info altName => rw [Node.relocate_altItem]; rfl
  | group info rows =>
    have hrows := rowEvents_relocate move (.group info rows) rows 0
    rw [Node.listing, List.map_cons, ← hrows, Event.relocate, Node.relocate_group]
    rfl

/-- A tour below a node goes the same way if the tree is declared at other places. -/
theorem eventsBelow_relocate (node : Node) :
    (node.relocate move).eventsBelow = node.eventsBelow.map (Event.relocate move) := by
  induction node using Node.slotInduction with
  | step node ih =>
    rw [Node.eventsBelow_eq, Node.eventsBelow_eq, listing_relocate, Node.slots_relocate,
      List.map_append, List.map_flatMap, List.flatMap_map]
    exact congrArg _ (List.flatMap_congr fun slot hslot => ih slot hslot)

theorem events_relocate (root : Node) :
    (root.relocate move).events = root.events.map (Event.relocate move) := by
  rw [Node.events, Node.events, eventsBelow_relocate]
  rfl

theorem flatten_relocate (root : Node) :
    (root.relocate move).flatten = root.flatten.map (Node.relocate move) := by
  rw [Node.flatten, Node.flatten, events_relocate, List.filterMap_map, List.map_filterMap]
  refine List.filterMap_congr fun event _ => ?_
  cases event <;> rfl

/-- What a group refers to as its first slot has no place in it. -/
theorem ofGroup_relocate (group : Node) :
    RowBegin.ofGroup (group.relocate move) = RowBegin.ofGroup group := by
  have hfirst : (group.relocate move).firstSlot? = group.firstSlot?.map (Node.relocate move) := by
    rw [Node.firstSlot?, Node.firstSlot?, Node.rows_relocate]
    cases group.rows with
    | nil => rfl
    | cons row rows => exact List.head?_map
  rw [RowBegin.ofGroup, RowBegin.ofGroup, hfirst]
  cases group.firstSlot? with
  | none => rfl
  | some slot => simp

/-- The record of a node has no place in it. -/
theorem ofNode_relocate (config : Config) (node : Node) (parent : Option Node) :
    NodeRecord.ofNode config (node.relocate move) (parent.map (Node.relocate move)) =
      NodeRecord.ofNode config node parent := by
  have hlabel : (parent.map (Node.relocate move)).map Node.label = parent.map Node.label := by
    cases parent <;> simp
  have hid : (parent.map (Node.relocate move)).map Node.id = parent.map Node.id := by
    cases parent <;> simp
  cases node with
  | item info =>
    rw [Node.relocate_item, NodeRecord.ofNode, hlabel, hid]
    rfl
  | altItem info altName =>
    rw [Node.relocate_altItem, NodeRecord.ofNode, hlabel, hid]
    rfl
  | group info rows =>
    have hfirst := ofGroup_relocate move (.group info rows)
    rw [Node.relocate_group] at hfirst ⊢
    rw [NodeRecord.ofNode, hlabel, hid, hfirst, List.length_map]
    rfl

/-- No entry of a table has a place in it. -/
theorem entry_relocate (config : Config) (event : Event) :
    (event.relocate move).entry config = event.entry config := by
  cases event with
  | visit node parent => exact congrArg Entry.node (ofNode_relocate move config node parent)
  | enterGroup group => simp [Event.relocate, Event.entry]
  | enterRow group row index => simp [Event.relocate, Event.entry]

/-- A name of a node that is declared at another place. -/
def PoolName.relocate (name : PoolName) : PoolName :=
  { name with node := name.node.relocate move }

theorem poolNames_relocate (node : Node) :
    (node.relocate move).poolNames = node.poolNames.map (PoolName.relocate move) := by
  unfold Node.poolNames
  rw [Node.isBlank_relocate, Node.altName?_relocate, Node.info_relocate]
  split_ifs with hblank
  · rfl
  · cases node.altName? <;> rfl

end Table

/-- Names are numbered alike whatever the places of their nodes, and run out of numbers alike. -/
theorem numberNames_relocate (names : List PoolName) (next : Nat) :
    numberNames next (names.map (PoolName.relocate unplace)) =
      (numberNames next names).mapError CompileError.unplaced := by
  induction names generalizing next with
  | nil => rfl
  | cons name names ih =>
    obtain ⟨node, slot, name⟩ := name
    rw [List.map_cons, PoolName.relocate, numberNames, numberNames, ih, Node.label_relocate,
      Node.place_relocate]
    split_ifs with hnext
    · rfl
    · cases numberNames (next + 1) names <;> rfl

/-- The table of a menu without places is the table of the menu. -/
theorem ofFile_relocate (file : MenuFile) :
    Table.ofFile (file.relocate unplace) =
      (Table.ofFile file).mapError CompileError.unplaced := by
  have hpool : namePool (file.root.relocate unplace) =
      (namePool file.root).mapError CompileError.unplaced := by
    rw [namePool, namePool, flatten_relocate, ← numberNames_relocate, List.map_flatMap,
      List.flatMap_map]
    exact congrArg _ (List.flatMap_congr fun node _ => poolNames_relocate unplace node)
  have hentries : (file.root.relocate unplace).events.map (Event.entry file.config) =
      file.root.events.map (Event.entry file.config) := by
    rw [events_relocate, List.map_map]
    exact List.map_congr_left fun event _ => entry_relocate unplace file.config event
  unfold Table.ofFile MenuFile.relocate
  dsimp only
  rw [hpool, hentries]
  cases namePool file.root <;> rfl

end SoftMenu
