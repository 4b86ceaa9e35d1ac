import SoftMenu.Proofs.PassLaws

/-!
# Filled menus

What a menu becomes when all its rows are filled up can be said without any walk: `Node.filled` goes
through the declared tree and puts blanks behind the slots of each row. A check that goes through
leaves exactly this tree (`Node.filled_eq_of_yields`), although it comes to the blanks as well, and
the tree has grown by what the declared rows lacked (`length_flatten_validate_eq`).
-/

namespace SoftMenu

/-! ## Filled trees -/

mutual

/-- A tree with blanks behind the slots of each row, so that every row has five. -/
def Node.filled : Node → Node
  | .group info rows => .group info (filledRows rows)
  | leaf => leaf

/-- Rows with all trees in them filled, and blanks behind the slots. -/
def filledRows : List (Row Node) → List (Row Node)
  | [] => []
  | row :: rows => filledRow row :: filledRows rows

/-- A row with all trees in it filled, and blanks behind the slots. They carry the place of the
row. -/
def filledRow : Row Node → Row Node
  | ⟨slots, place⟩ =>
    ⟨filledSlots slots ++ List.replicate (5 - slots.length)
      (.item { name := ⟨"*", none⟩, label := "*", id := 0, parentId := 0, place }), place⟩

/-- Slots with all trees in them filled. -/
def filledSlots : List Node → List Node
  | [] => []
  | slot :: slots => slot.filled :: filledSlots slots

end

theorem filledSlots_eq (slots : List Node) : filledSlots slots = slots.map Node.filled := by
  induction slots with
  | nil => rfl
  | cons slot slots ih => rw [filledSlots, ih, List.map_cons]

theorem filledRow_eq (row : Row Node) : filledRow row =
    { row with slots := row.slots.map Node.filled ++
        List.replicate row.missing (.blank row.place) } := by
  obtain ⟨slots, place⟩ := row
  rw [filledRow, filledSlots_eq]
  rfl

theorem filledRows_eq (rows : List (Row Node)) : filledRows rows = rows.map filledRow := by
  induction rows with
  | nil => rfl
  | cons row rows ih => rw [filledRows, ih, List.map_cons]

theorem Node.rows_filled (node : Node) : node.filled.rows = node.rows.map filledRow := by
  cases node with
  | item info => rfl
  | altItem info altName => rfl
  | group info rows => exact filledRows_eq rows

@[simp] theorem Node.filled_blank (place : Place) : (Node.blank place).filled = .blank place := rfl

/-- The slots are those of the padded rows, filled in their turn. -/
theorem Node.slots_filled (node : Node) :
    node.filled.slots = ((node.rows.map Row.pad).flatMap Row.slots).map Node.filled := by
  rw [Node.slots, Node.rows_filled, List.flatMap_map, List.flatMap_map, List.map_flatMap]
  refine List.flatMap_congr fun row _ => ?_
  rw [filledRow_eq, Row.pad, List.map_append, List.map_replicate, Node.filled_blank]

/-- Filling changes nothing of a node but the lengths of its rows. -/
theorem Node.face_filled (node : Node) : node.filled.face = node.face.padded := by
  have hlayout : node.filled.rows.map (fun row => (row.slots.length, row.place)) =
      node.rows.map fun row =>
        (row.slots.length + (rowSlots - row.slots.length), row.place) := by
    rw [Node.rows_filled, List.map_map]
    refine List.map_congr_left fun row _ => ?_
    simp [filledRow_eq, Row.missing]
  rw [Node.face, hlayout, Face.padded, Node.face, List.map_map]
  cases node <;> rfl

/-- What the checks leave of a tree if they go through. -/
theorem Node.filled_eq_of_yields {node final : Node} (h : shapeVisitor.Yields node final) :
    final = node.filled := by
  induction node using Node.slotInduction generalizing final with
  | step node ih =>
    obtain ⟨parentId, padded, hhalt, hface, hrows⟩ := h
    rw [face_shapeVisitor hhalt] at hface
    rw [rows_shapeVisitor hhalt] at hrows
    -- A slot of a padded row was declared, or it is a blank.
    have hslot : ∀ slot ∈ (node.rows.map Row.pad).flatMap Row.slots, ∀ final,
        shapeVisitor.Yields slot final → slot.filled = final := by
      intro slot hslot final hyields
      rw [List.flatMap_map, List.mem_flatMap] at hslot
      obtain ⟨row, hrow, hslot⟩ := hslot
      rcases List.mem_append.1 hslot with hdeclared | hblank
      · exact (ih slot (Node.mem_slots_of_mem_rows hrow hdeclared) hyields).symm
      · obtain rfl := List.eq_of_mem_replicate hblank
        exact (eq_blank_of_yields.1 hyields).symm
    refine Node.eq_of_face (hface.trans node.face_filled.symm) ?_
    have hslots := ((List.forall₂_and_left _ _).2 ⟨hslot, forall₂_slots_of_pairs hrows⟩).imp
      fun slot left h => h.1 left h.2
    rw [← List.forall₂_map_left_iff, List.forall₂_eq_eq_eq, ← Node.slots_filled] at hslots
    exact hslots.symm

/-! ## Sizes -/

/-- Every node but the root is a slot of a row. -/
theorem Node.length_nodes_eq (root : Node) : root.nodes.length =
    1 + ((root.nodes.flatMap Node.rows).map fun row => row.slots.length).sum := by
  induction root using Node.slotInduction with
  | step root ih =>
    have hown : (root.rows.map fun row => row.slots.length).sum = root.slots.length := by
      rw [Node.slots, List.length_flatMap]
    have hbelow : (root.slots.flatMap Node.nodes).length = root.slots.length +
        (((root.slots.flatMap Node.nodes).flatMap Node.rows).map fun row =>
          row.slots.length).sum := by
      rw [List.length_flatMap, List.map_congr_left ih, List.sum_map_add, List.map_const',
        List.sum_replicate_nat, Nat.mul_one, List.flatMap_assoc, List.map_flatMap, List.flatMap,
        List.sum_flatten, List.map_map]
      rfl
    rw [Node.nodes_eq, List.length_cons, List.flatMap_cons, List.map_append, List.sum_append, hown,
      hbelow, Nat.add_comm]

theorem sum_lacking_add {rows : List (Row Node)} (h : ∀ row ∈ rows, row.slots.length ≤ rowSlots) :
    (rows.map fun row => rowSlots - row.slots.length).sum +
      (rows.map fun row => row.slots.length).sum = rowSlots * rows.length := by
  have hfull : ∀ row ∈ rows, rowSlots - row.slots.length + row.slots.length = rowSlots :=
    fun row hrow => Nat.sub_add_cancel (h row hrow)
  rw [← List.sum_map_add, List.map_congr_left hfull, List.map_const', List.sum_replicate_nat,
    Nat.mul_comm]

/-- A menu that has been checked has grown by what its rows lacked. -/
theorem length_flatten_validate_eq {file : MenuFile} (h : (validate file).halt = none) :
    (validate file).value.root.flatten.length = file.root.flatten.length +
      ((file.root.flatten.flatMap Node.rows).map fun row => rowSlots - row.slots.length).sum := by
  have hle : ∀ row ∈ file.root.nodes.flatMap Node.rows, row.slots.length ≤ rowSlots := by
    intro row hrow
    obtain ⟨node, hnode, hrow⟩ := List.mem_flatMap.1 hrow
    have hshape := (validate_halt_iff file).1 h node (Node.mem_flatten_iff.2 hnode)
    exact hshape.length_slots_le hrow
  have hcount : file.root.rowCount = (file.root.nodes.flatMap Node.rows).length := by
    rw [Node.rowCount, List.length_flatMap]
  have hperm := file.root.flatten_perm_nodes
  have hsum := sum_lacking_add hle
  have hnodes := file.root.length_nodes_eq
  rw [length_flatten_validate h, hcount, hperm.length_eq,
    ((hperm.flatMap_right Node.rows).map _).sum_eq]
  omega

/-! ## Menus -/

/-- The checks go through exactly if every node keeps the rules, and then they leave the filled
menu: every row has five slots, the declared ones first, and nothing else is changed. -/
theorem validate_fills_wellShaped (file : MenuFile) :
    ((validate file).halt = none ↔ ∀ node ∈ file.root.flatten, node.WellShaped) ∧
    ((validate file).halt = none →
      (validate file).value = { file with root := file.root.filled } ∧
      (∀ node ∈ (validate file).value.root.flatten, ∀ row ∈ node.rows, row.slots.length = 5) ∧
      (validate file).value.root.flatten.length = file.root.flatten.length +
        ((file.root.flatten.flatMap Node.rows).map fun row => 5 - row.slots.length).sum) := by
  refine ⟨validate_halt_iff file, fun h => ⟨?_, fun node hnode => ?_, ?_⟩⟩
  · have hroot : (validate file).value.root = file.root.filled :=
      Node.filled_eq_of_yields (Visitor.yields_walk flat_shapeVisitor.depth_visit_le h)
    rw [← hroot]
    rfl
  · exact (full_of_mem_validate h node hnode).length_slots
  · exact length_flatten_validate_eq h

/-- Two groups of two rows, none of them full. One node has got numbers already. -/
def unevenMenu : MenuFile :=
  let info (name label : String) (line : Nat) : NodeInfo :=
    { name := ⟨name, none⟩, label, place := ⟨line, .empty line⟩ }
  let place (line : Nat) : Place := ⟨line, .empty line⟩
  let sub := Node.group (info "Sub" "mSub" 4)
    [⟨[.item (info "B" "mB" 6)], place 5⟩, ⟨[.item (info "C" "mC" 8), .blank (place 9)], place 7⟩]
  ⟨{}, .group (info "Top" "mTop" 1)
    [⟨[.item { info "A" "mA" 3 with id := 7, parentId := 9 }, sub], place 2⟩,
      ⟨[.item (info "D" "mD" 11)], place 10⟩]⟩

theorem validate_fills_wellShaped_uneven :
    (validate unevenMenu).halt = none ∧
    (validate unevenMenu).value = { unevenMenu with root := unevenMenu.root.filled } ∧
    unevenMenu.root.flatten.length = 7 ∧
    (validate unevenMenu).value.root.flatten.length = 21 := by
  have hhalt : (validate unevenMenu).halt = none := by decide +kernel
  obtain ⟨hvalue, -, hlength⟩ := (validate_fills_wellShaped unevenMenu).2 hhalt
  exact ⟨hhalt, hvalue, by decide +kernel, hlength.trans (by decide +kernel)⟩

end SoftMenu
