import SoftMenu.Menu.Shape
import SoftMenu.Proofs.Walk

/-!
# Checking and padding a menu

`validate` goes through exactly if every node of the tree keeps the rules (`validate_halt_iff`). The
rules are stated node by node and do not depend on any order.

What it leaves is a tree in which every row of every group has five slots (`full_of_mem_validate`).
Apart from filling blanks it has the same nodes as before, with the same rows
(`frame_validate`), so its size follows from the number of rows (`length_flatten_validate`).
-/

namespace SoftMenu

/-! ## The rules -/

/-- The label of a node is legal: a node marked as blank is an item with the label of blank items,
and any other label begins with a letter and not like a generated symbol. -/
def LegalLabel (kind : Kind) (name label : String) : Prop :=
  if name = blankMark then kind = .item ∧ label = blankMark
  else beginsWithLetter label ∧ ∀ start ∈ reservedStarts, ¬ start.toList <+: label.toList

/-- A node keeps the rules of the shape of a menu. -/
structure Node.WellShaped (node : Node) : Prop where
  label : LegalLabel node.kind node.name node.label
  rows : node.kind = .group → node.rows ≠ [] ∧ node.rows.length ≤ maxRows ∧
    ∀ row ∈ node.rows, 0 < row.slots.length ∧ row.slots.length ≤ rowSlots

theorem Node.WellShaped.length_slots_le {node : Node} (h : node.WellShaped) {row : Row Node}
    (hrow : row ∈ node.rows) : row.slots.length ≤ rowSlots := by
  by_cases hkind : node.kind = .group
  · exact ((h.rows hkind).2.2 row hrow).2
  · rw [Node.rows_eq_nil_of_kind hkind] at hrow
    cases hrow

theorem reservedStart?_eq_none_iff {label : String} :
    reservedStart? label = none ↔ ∀ start ∈ reservedStarts, ¬ start.toList <+: label.toList := by
  simp only [reservedStart?, List.find?_eq_none, List.isPrefixOf_iff_prefix]

theorem Node.labelError?_eq_none_iff (node : Node) :
    node.labelError? = none ↔ LegalLabel node.kind node.name node.label := by
  unfold Node.labelError? LegalLabel
  by_cases hblank : node.name = blankMark
  · have hisBlank : node.isBlank = true := by simp [Node.isBlank, hblank]
    by_cases hlabel : node.label = blankMark
    · have hfree : reservedStart? blankMark = none := by decide
      simp [hblank, hisBlank, hlabel, hfree]
    · simp only [hblank, hisBlank, hlabel, if_true, and_false, iff_false]
      split
      · simp
      · split_ifs <;> simp_all
  · have hisBlank : node.isBlank = false := by simp [Node.isBlank, hblank]
    rw [if_neg hblank, ← reservedStart?_eq_none_iff]
    cases hreserved : reservedStart? node.label with
    | some start => simp
    | none =>
      have hmark : beginsWithLetter blankMark = false := by decide +kernel
      by_cases hlabel : node.label = blankMark
      · simp [hisBlank, hlabel, hmark]
      · simp [hisBlank, hlabel]

/-! ## Rows -/

theorem Row.error?_eq_none_iff (group : String) (index : Nat) (row : Row Node) :
    row.error? group index = none ↔ 0 < row.slots.length ∧ row.slots.length ≤ rowSlots := by
  unfold Row.error?
  split_ifs with hmany hempty
  · simp only [false_iff]
    omega
  · rw [List.isEmpty_iff] at hempty
    simp [hempty]
  · rw [List.isEmpty_iff, ← List.length_eq_zero_iff] at hempty
    simp only [true_iff]
    omega

theorem Row.length_slots_pad {row : Row Node} (h : row.slots.length ≤ rowSlots) :
    row.pad.slots.length = rowSlots := by
  simp only [Row.pad, Row.missing, List.length_append, List.length_replicate]
  omega

theorem padRows_halt_iff (group : String) (index : Nat) (rows : List (Row Node)) (padded : Nat) :
    (padRows group index rows padded).halt = none ↔
      ∀ row ∈ rows, 0 < row.slots.length ∧ row.slots.length ≤ rowSlots := by
  induction rows generalizing index padded with
  | nil => simp [padRows, Outcome.done]
  | cons row rows ih =>
    unfold padRows
    rw [List.forall_mem_cons, ← Row.error?_eq_none_iff group index]
    cases row.error? group index with
    | some error => simp
    | none =>
      rw [← ih (index + 1) (padded + row.missing)]
      exact ⟨fun h => ⟨rfl, h⟩, And.right⟩

theorem padRows_value {group : String} {index : Nat} {rows : List (Row Node)} {padded : Nat}
    (h : (padRows group index rows padded).halt = none) :
    (padRows group index rows padded).value = rows.map Row.pad := by
  induction rows generalizing index padded with
  | nil => rfl
  | cons row rows ih =>
    unfold padRows at h ⊢
    cases hrow : row.error? group index with
    | some error => rw [hrow] at h; cases h
    | none =>
      rw [hrow] at h
      exact congrArg (row.pad :: ·) (ih h)

/-- A blank as it is declared, or as it fills up a row. -/
def Node.isFiller (node : Node) : Bool :=
  node.kind = .item && node.name = blankMark && node.label = blankMark

theorem isFiller_blank (place : Place) : (Node.blank place).isFiller = true := rfl

theorem active_slots_pad (row : Row Node) :
    active Node.isFiller row.pad.slots = active Node.isFiller row.slots := by
  have hfill : active Node.isFiller (List.replicate row.missing (.blank row.place)) = [] := by
    refine List.filter_eq_nil_iff.2 fun node hnode => ?_
    rw [List.eq_of_mem_replicate hnode, isFiller_blank]
    simp
  rw [Row.pad, active_append, hfill, List.append_nil]

/-- Padding adds blanks and nothing else, also where it stops. -/
theorem active_padRows (group : String) (index : Nat) (rows : List (Row Node)) (padded : Nat) :
    active Node.isFiller ((padRows group index rows padded).value.flatMap Row.slots) =
        active Node.isFiller (rows.flatMap Row.slots) ∧
      (padRows group index rows padded).value.map Row.place = rows.map Row.place := by
  induction rows generalizing index padded with
  | nil => exact ⟨rfl, rfl⟩
  | cons row rows ih =>
    unfold padRows
    cases row.error? group index with
    | some error => exact ⟨rfl, rfl⟩
    | none =>
      obtain ⟨hactive, hplaces⟩ := ih (index + 1) (padded + row.missing)
      refine ⟨?_, congrArg (row.place :: ·) hplaces⟩
      simp only [Outcome.map, List.flatMap_cons, active_append, active_slots_pad, hactive]

/-! ## Nodes -/

theorem shapeVisitor_of_error {node : Node} {error : CompileError}
    (h : node.labelError? = some error) (parentId : UInt8) (padded : Nat) :
    shapeVisitor parentId node padded = ⟨node, padded, some error⟩ := by
  unfold shapeVisitor
  rw [h]

theorem shapeVisitor_of_leaf {node : Node} (h : node.labelError? = none)
    (hkind : node.kind ≠ .group) (parentId : UInt8) (padded : Nat) :
    shapeVisitor parentId node padded = .done node padded := by
  unfold shapeVisitor
  rw [h]
  cases node with
  | item info => rfl
  | altItem info altName => rfl
  | group info rows => exact absurd rfl hkind

theorem shapeVisitor_of_group {node : Node} (h : node.labelError? = none)
    (hkind : node.kind = .group) (parentId : UInt8) (padded : Nat) :
    shapeVisitor parentId node padded =
      (padGroup node.info node.rows padded).map (.group node.info) := by
  unfold shapeVisitor
  rw [h]
  cases node with
  | item info => cases hkind
  | altItem info altName => cases hkind
  | group info rows => rfl

theorem padGroup_halt_iff {info : NodeInfo} {rows : List (Row Node)} {padded : Nat} :
    (padGroup info rows padded).halt = none ↔ rows ≠ [] ∧ rows.length ≤ maxRows ∧
      ∀ row ∈ rows, 0 < row.slots.length ∧ row.slots.length ≤ rowSlots := by
  unfold padGroup
  split_ifs with hempty hmany
  · rw [List.isEmpty_iff] at hempty
    simp [hempty]
  · simp only [false_iff]
    omega
  · rw [List.isEmpty_iff] at hempty
    rw [padRows_halt_iff]
    exact ⟨fun h => ⟨hempty, by omega, h⟩, fun h => h.2.2⟩

theorem padGroup_value {info : NodeInfo} {rows : List (Row Node)} {padded : Nat}
    (h : (padGroup info rows padded).halt = none) :
    (padGroup info rows padded).value = rows.map Row.pad := by
  unfold padGroup at h ⊢
  split_ifs at h ⊢
  exact padRows_value h

theorem active_padGroup (info : NodeInfo) (rows : List (Row Node)) (padded : Nat) :
    active Node.isFiller ((padGroup info rows padded).value.flatMap Row.slots) =
        active Node.isFiller (rows.flatMap Row.slots) ∧
      (padGroup info rows padded).value.map Row.place = rows.map Row.place := by
  unfold padGroup
  split_ifs
  · exact ⟨rfl, rfl⟩
  · exact ⟨rfl, rfl⟩
  · exact active_padRows ..

theorem shapeVisitor_halt_iff (parentId : UInt8) (node : Node) (padded : Nat) :
    (shapeVisitor parentId node padded).halt = none ↔ node.WellShaped := by
  cases hlabel : node.labelError? with
  | some error =>
    rw [shapeVisitor_of_error hlabel]
    refine iff_of_false (by simp) fun h => ?_
    rw [node.labelError?_eq_none_iff.2 h.label] at hlabel
    cases hlabel
  | none =>
    have hlegal := node.labelError?_eq_none_iff.1 hlabel
    by_cases hkind : node.kind = .group
    · rw [shapeVisitor_of_group hlabel hkind]
      exact padGroup_halt_iff.trans ⟨fun h => ⟨hlegal, fun _ => h⟩, fun h => h.rows hkind⟩
    · rw [shapeVisitor_of_leaf hlabel hkind]
      exact iff_of_true rfl ⟨hlegal, fun h => absurd h hkind⟩

/-- What padding keeps of a node: all but the slots. -/
def Node.frame (node : Node) : NodeInfo × Kind × Option DisplayName × List Place :=
  (node.info, node.kind, node.altName?, node.rows.map Row.place)

/-- A visit adds blanks to a node and nothing else. -/
theorem shapeVisitor_value (parentId : UInt8) (node : Node) (padded : Nat) :
    (shapeVisitor parentId node padded).value.frame = node.frame ∧
      active Node.isFiller (shapeVisitor parentId node padded).value.slots =
        active Node.isFiller node.slots := by
  cases hlabel : node.labelError? with
  | some error => rw [shapeVisitor_of_error hlabel]; exact ⟨rfl, rfl⟩
  | none =>
    by_cases hkind : node.kind = .group
    · rw [shapeVisitor_of_group hlabel hkind]
      obtain ⟨hactive, hplaces⟩ := active_padGroup node.info node.rows padded
      refine ⟨?_, hactive⟩
      rw [Node.eq_group_of_kind hkind]
      exact congrArg (fun places => (node.info, Kind.group, (none : Option DisplayName), places))
        hplaces
    · rw [shapeVisitor_of_leaf hlabel hkind]
      exact ⟨rfl, rfl⟩

/-! ## Menus -/

theorem Node.kind_eq_of_isFiller {node : Node} (h : node.isFiller) : node.kind = .item := by
  simp only [Node.isFiller, Bool.and_eq_true, decide_eq_true_eq] at h
  exact h.1.1

theorem Node.kind_ne_group_of_isFiller {node : Node} (h : node.isFiller) : node.kind ≠ .group := by
  rw [Node.kind_eq_of_isFiller h]
  simp

theorem Node.isFiller_congr {first second : Node} (hinfo : first.info = second.info)
    (hkind : first.kind = second.kind) : first.isFiller = second.isFiller := by
  unfold Node.isFiller Node.name Node.label
  rw [hinfo, hkind]

theorem Node.wellShaped_of_isFiller {node : Node} (h : node.isFiller) : node.WellShaped := by
  have hkind := Node.kind_eq_of_isFiller h
  simp only [Node.isFiller, Bool.and_eq_true, decide_eq_true_eq] at h
  refine ⟨?_, fun hgroup => ?_⟩
  · rw [LegalLabel, if_pos h.1.2]
    exact ⟨hkind, h.2⟩
  · rw [hkind] at hgroup
    cases hgroup

theorem isFiller_eq_of_frame {first second : Node} (h : first.frame = second.frame) :
    first.isFiller = second.isFiller :=
  Node.isFiller_congr (congrArg Prod.fst h) (congrArg (fun frame => frame.2.1) h)

theorem frame_eq_of_face {first second : Node} (h : first.face = second.face) :
    first.frame = second.frame := by
  have hplaces : ∀ node : Node, node.rows.map Row.place = node.face.layout.map Prod.snd := by
    intro node
    simp [Node.face]
  have hinfo : first.info = second.info := congrArg Face.info h
  have hkind : first.kind = second.kind := congrArg Face.kind h
  have haltName : first.altName? = second.altName? := congrArg Face.altName h
  simp only [Node.frame, hplaces, h, hinfo, hkind, haltName]

/-- To the checks a tree is the list of its nodes. -/
theorem flat_shapeVisitor : shapeVisitor.Flat Node.isFiller Node.frame where
  idle_depth node h := by
    rw [Node.depth_eq_zero_iff, Node.kind_eq_of_isFiller h]
    simp
  idle_visit parentId node padded h := by
    have hlabel := node.labelError?_eq_none_iff.2 (Node.wellShaped_of_isFiller h).label
    exact shapeVisitor_of_leaf hlabel (Node.kind_ne_group_of_isFiller h) parentId padded
  idle_face _ _ h := isFiller_eq_of_frame (frame_eq_of_face h)
  view_face _ _ h := frame_eq_of_face h
  visit_kind parentId node padded :=
    congrArg (fun frame => frame.2.1) (shapeVisitor_value parentId node padded).1
  visit_slots parentId node padded := (shapeVisitor_value parentId node padded).2
  visit_idle parentId node padded :=
    isFiller_eq_of_frame (shapeVisitor_value parentId node padded).1
  visit_state _ _ _ := rfl
  visit_halt _ _ _ := rfl
  visit_view _ _ _ := rfl

/-- The checks go through exactly if every node keeps the rules. -/
theorem validate_halt_iff (file : MenuFile) :
    (validate file).halt = none ↔ ∀ node ∈ file.root.flatten, node.WellShaped := by
  have hwalk := (flat_shapeVisitor.alike_walk file.root 0).halt_eq
  have hsweep := sweep_halt_iff (shapeVisitor_halt_iff nullId)
    (active Node.isFiller file.root.flatten) 0
  rw [← hwalk] at hsweep
  refine hsweep.trans ⟨fun h node hnode => ?_, fun h node hnode => h node (mem_active.1 hnode).1⟩
  by_cases hfiller : node.isFiller
  · exact Node.wellShaped_of_isFiller hfiller
  · exact h node (mem_active.2 ⟨hnode, by simpa using hfiller⟩)

/-- Apart from blanks the nodes of a menu are the same before and after, in the same order. -/
theorem frame_validate (file : MenuFile) :
    (active Node.isFiller (validate file).value.root.flatten).map Node.frame =
      (active Node.isFiller file.root.flatten).map Node.frame :=
  (flat_shapeVisitor.alike_walk file.root 0).view_eq.trans
    (map_sweep (fun node padded => (shapeVisitor_value nullId node padded).1) _ _)

theorem Node.isBlank_of_isFiller {node : Node} (h : node.isFiller) : node.isBlank = true := by
  simp only [Node.isFiller, Bool.and_eq_true, decide_eq_true_eq] at h
  exact Node.isBlank_iff.2 h.1.2

/-- A node that keeps the rules is a blank if it is marked as one. -/
theorem Node.WellShaped.isFiller_eq {node : Node} (h : node.WellShaped) :
    node.isFiller = node.isBlank := by
  cases hblank : node.isBlank with
  | false =>
    by_contra hfiller
    rw [Bool.not_eq_false] at hfiller
    rw [Node.isBlank_of_isFiller hfiller] at hblank
    cases hblank
  | true =>
    have hname := Node.isBlank_iff.1 hblank
    have hlabel := h.label
    rw [LegalLabel, if_pos hname] at hlabel
    simp [Node.isFiller, hname, hlabel]

/-- Apart from nodes marked as blank, checking a menu changes nothing but the slots of its nodes. -/
theorem frame_validate_of_halt {file : MenuFile} (h : (validate file).halt = none) :
    (active Node.isBlank (validate file).value.root.flatten).map Node.frame =
      (active Node.isBlank file.root.flatten).map Node.frame := by
  have hframes := frame_validate file
  have hdeclared :
      active Node.isFiller file.root.flatten = active Node.isBlank file.root.flatten := by
    refine List.filter_congr fun node hnode => ?_
    rw [((validate_halt_iff file).1 h node hnode).isFiller_eq]
  have hpadded : active Node.isFiller (validate file).value.root.flatten =
      active Node.isBlank (validate file).value.root.flatten := by
    refine List.filter_congr fun node hnode => ?_
    cases hfiller : node.isFiller with
    | true => rw [Node.isBlank_of_isFiller hfiller]
    | false =>
      -- A node that is not a blank has been declared, and there no other node is marked as blank.
      have hmem := List.mem_map_of_mem (f := Node.frame) (mem_active.2 ⟨hnode, hfiller⟩)
      rw [hframes, hdeclared, List.mem_map] at hmem
      obtain ⟨original, horiginal, hframe⟩ := hmem
      have hname : original.name = node.name :=
        congrArg (fun frame => frame.1.name.text) hframe
      rw [Node.isBlank, ← hname]
      exact congrArg not (mem_active.1 horiginal).2.symm
  rwa [hdeclared, hpadded] at hframes

/-- What can be seen of a node whose rows are finished: a group has rows, and every row has a slot
for each button. -/
structure Face.Full (face : Face) : Prop where
  rows : face.kind = .group → face.layout ≠ []
  slots : ∀ entry ∈ face.layout, entry.1 = rowSlots

theorem Face.Full.length_slots {node : Node} (h : node.face.Full) :
    ∀ row ∈ node.rows, row.slots.length = rowSlots := fun _ hrow =>
  h.slots _ (List.mem_map_of_mem hrow)

theorem full_shapeVisitor {parentId : UInt8} {node : Node} {padded : Nat}
    (h : (shapeVisitor parentId node padded).halt = none) :
    (shapeVisitor parentId node padded).value.face.Full := by
  have hshape := (shapeVisitor_halt_iff parentId node padded).1 h
  have hlabel := node.labelError?_eq_none_iff.2 hshape.label
  by_cases hkind : node.kind = .group
  · obtain ⟨hrows, -, hslots⟩ := hshape.rows hkind
    rw [shapeVisitor_of_group hlabel hkind] at h ⊢
    have hlayout : (Node.group node.info (padGroup node.info node.rows padded).value).face.layout =
        node.rows.map fun row => (row.pad.slots.length, row.place) := by
      rw [padGroup_value h]
      exact List.map_map
    refine ⟨fun _ => ?_, fun entry hentry => ?_⟩
    · rw [Outcome.map, hlayout]
      simpa using hrows
    · rw [Outcome.map, hlayout] at hentry
      obtain ⟨row, hrow, rfl⟩ := List.mem_map.1 hentry
      exact Row.length_slots_pad (hslots row hrow).2
  · rw [shapeVisitor_of_leaf hlabel hkind]
    refine ⟨fun hgroup => absurd hgroup hkind, fun entry hentry => ?_⟩
    simp [Node.face, Outcome.done, Node.rows_eq_nil_of_kind hkind] at hentry

/-- In a menu that has been checked, all rows are finished. -/
theorem full_of_mem_validate {file : MenuFile} (h : (validate file).halt = none) :
    ∀ node ∈ (validate file).value.root.flatten, node.face.Full :=
  Visitor.forall_mem_walk Face.Full (fun _ _ _ => full_shapeVisitor)
    flat_shapeVisitor.depth_visit_le h

/-- In a menu that has been checked, all labels are legal, those of filling blanks included. -/
theorem legalLabel_of_mem_validate {file : MenuFile} (h : (validate file).halt = none) :
    ∀ node ∈ (validate file).value.root.flatten, LegalLabel node.kind node.name node.label := by
  refine Visitor.forall_mem_walk
    (fun face => LegalLabel face.kind face.info.name.text face.info.label) ?_
    flat_shapeVisitor.depth_visit_le h
  intro parentId node padded hvisit
  have hlabel := ((shapeVisitor_halt_iff parentId node padded).1 hvisit).label
  have hframe := (shapeVisitor_value parentId node padded).1
  have hinfo : (shapeVisitor parentId node padded).value.info = node.info :=
    congrArg Prod.fst hframe
  have hkind : (shapeVisitor parentId node padded).value.kind = node.kind :=
    congrArg (fun frame => frame.2.1) hframe
  rw [Node.face, hinfo, hkind]
  exact hlabel

/-- Blanks have no rows, so rows can be counted without them. -/
theorem sum_length_rows_active (nodes : List Node) :
    ((active Node.isFiller nodes).map fun node => node.rows.length).sum =
      (nodes.map fun node => node.rows.length).sum := by
  induction nodes with
  | nil => rfl
  | cons node nodes ih =>
    by_cases hfiller : node.isFiller
    · have hrows := Node.rows_eq_nil_of_kind (Node.kind_ne_group_of_isFiller hfiller)
      simpa [active, hfiller, hrows] using ih
    · simpa [active, hfiller] using ih

theorem Node.rowCount_eq_active (root : Node) :
    root.rowCount = ((active Node.isFiller root.flatten).map fun node => node.rows.length).sum := by
  rw [sum_length_rows_active, Node.rowCount, (root.flatten_perm_nodes.map _).sum_eq]

theorem rowCount_validate (file : MenuFile) :
    (validate file).value.root.rowCount = file.root.rowCount := by
  have hcounts := map_part (frame_validate file) fun frame => frame.2.2.2.length
  simp only [Node.frame, List.length_map] at hcounts
  rw [Node.rowCount_eq_active, Node.rowCount_eq_active, hcounts]

/-- After padding the rows of a menu determine its size. -/
theorem length_flatten_validate {file : MenuFile} (h : (validate file).halt = none) :
    (validate file).value.root.flatten.length = 1 + rowSlots * file.root.rowCount := by
  rw [(Node.flatten_perm_nodes _).length_eq, ← rowCount_validate]
  refine Node.length_nodes fun node hnode => ?_
  exact (full_of_mem_validate h node (Node.mem_flatten_iff.2 hnode)).length_slots

end SoftMenu
