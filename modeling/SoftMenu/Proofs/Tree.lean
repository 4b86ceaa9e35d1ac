import Mathlib.Algebra.BigOperators.Ring.List
import Mathlib.Algebra.Ring.Nat
import Mathlib.Data.List.Infix
import Mathlib.Data.List.Perm.Basic
import Mathlib.Order.Nat
import SoftMenu.Menu.Order

/-!
# Menu trees as lists of nodes

A menu tree can be taken apart in one way for all kinds of node: a node has slots, which are the
members of its rows, and a leaf has none. `Node.slotInduction` is induction in this form, and the
functions that were defined by recursion through rows get one equation each in terms of
`Node.slots`.

Two lists hold all nodes of a tree. `Node.nodes` is the order in which they are declared, and
`Node.flatten` is the hybrid order. They are rearrangements of each other (`flatten_perm_nodes`),
and in the second one the slots of any node stand next to each other (`exists_run_flatten`).
-/

namespace SoftMenu

open scoped List

/-! ## Slots -/

@[simp] theorem Node.slots_item (info : NodeInfo) : (Node.item info).slots = [] := rfl

@[simp] theorem Node.slots_altItem (info : NodeInfo) (altName : DisplayName) :
    (Node.altItem info altName).slots = [] := rfl

@[simp] theorem Node.slots_group (info : NodeInfo) (rows : List (Row Node)) :
    (Node.group info rows).slots = rows.flatMap Row.slots := rfl

theorem Node.mem_slots_of_mem_rows {node slot : Node} {row : Row Node} (hrow : row ∈ node.rows)
    (hslot : slot ∈ row.slots) : slot ∈ node.slots :=
  List.mem_flatMap.2 ⟨row, hrow, hslot⟩

theorem depth_le_depthOfSlots {slots : List Node} {slot : Node} (h : slot ∈ slots) :
    slot.depth ≤ depthOfSlots slots := by
  induction slots with
  | nil => cases h
  | cons first rest ih =>
    rcases List.mem_cons.1 h with rfl | h
    · exact Nat.le_max_left _ _
    · exact (ih h).trans (Nat.le_max_right _ _)

theorem depthOfSlots_le {slots : List Node} {bound : Nat} (h : ∀ slot ∈ slots, slot.depth ≤ bound) :
    depthOfSlots slots ≤ bound := by
  induction slots with
  | nil => exact Nat.zero_le _
  | cons first rest ih =>
    refine Nat.max_le.2 ⟨h first List.mem_cons_self, ih fun slot hslot => ?_⟩
    exact h slot (List.mem_cons_of_mem _ hslot)

theorem depthOfRows_le_iff {rows : List (Row Node)} {bound : Nat} :
    depthOfRows rows ≤ bound ↔ ∀ slot ∈ rows.flatMap Row.slots, slot.depth ≤ bound := by
  induction rows with
  | nil => simp [depthOfRows]
  | cons row rows ih =>
    obtain ⟨slots, place⟩ := row
    simp only [depthOfRows, depthOfRow, Nat.max_le, ih, List.flatMap_cons, List.forall_mem_append]
    refine and_congr_left fun _ => ⟨fun h slot hslot => ?_, depthOfSlots_le⟩
    exact (depth_le_depthOfSlots hslot).trans h

/-- A node is at most one level deeper than its slots. -/
theorem Node.depth_le_succ_iff {node : Node} {levels : Nat} :
    node.depth ≤ levels + 1 ↔ ∀ slot ∈ node.slots, slot.depth ≤ levels := by
  cases node with
  | item info => simp [Node.depth]
  | altItem info altName => simp [Node.depth]
  | group info rows =>
    rw [Node.depth, Nat.add_le_add_iff_right, depthOfRows_le_iff]
    rfl

/-- A slot is not as deep as its group. -/
theorem Node.depth_lt_of_mem_slots {node slot : Node} (h : slot ∈ node.slots) :
    slot.depth < node.depth := by
  cases hd : node.depth with
  | zero =>
    cases node with
    | item info => cases h
    | altItem info altName => cases h
    | group info rows => simp [Node.depth] at hd
  | succ levels => exact Nat.lt_succ_of_le (Node.depth_le_succ_iff.1 hd.le slot h)

theorem Node.slots_eq_nil_of_depth {node : Node} (h : node.depth ≤ 0) : node.slots = [] := by
  refine List.eq_nil_iff_forall_not_mem.2 fun slot hslot => ?_
  have := Node.depth_lt_of_mem_slots hslot
  omega

/-- What holds of a node whenever it holds of all its slots holds of every tree. -/
@[elab_as_elim]
theorem Node.slotInduction {P : Node → Prop}
    (step : ∀ node, (∀ slot ∈ node.slots, P slot) → P node) (node : Node) : P node := by
  induction hd : node.depth using Nat.strong_induction_on generalizing node with
  | _ depth ih =>
    subst hd
    exact step node fun slot hslot => ih slot.depth (Node.depth_lt_of_mem_slots hslot) slot rfl

theorem Node.eq_group_of_kind {node : Node} (h : node.kind = .group) :
    node = .group node.info node.rows := by
  cases node with
  | item info => cases h
  | altItem info altName => cases h
  | group info rows => rfl

theorem Node.rows_eq_nil_of_kind {node : Node} (h : node.kind ≠ .group) : node.rows = [] := by
  cases node with
  | item info => rfl
  | altItem info altName => rfl
  | group info rows => exact absurd rfl h

theorem Node.isBlank_iff {node : Node} : node.isBlank = true ↔ node.name = blankMark := by
  simp [Node.isBlank]

theorem Node.isBlank_eq_false_iff {node : Node} : node.isBlank = false ↔ node.name ≠ blankMark := by
  simp [Node.isBlank]

/-- Only items with two names have an alternate name. -/
theorem Node.eq_altItem_of_altName? {node : Node} (h : node.altName? ≠ none) :
    ∃ info altName, node = .altItem info altName := by
  cases node with
  | item info => exact absurd rfl h
  | altItem info altName => exact ⟨info, altName, rfl⟩
  | group info rows => exact absurd rfl h

@[simp] theorem Node.info_mapInfo (change : NodeInfo → NodeInfo) (node : Node) :
    (node.mapInfo change).info = change node.info := by
  cases node <;> rfl

@[simp] theorem Node.kind_mapInfo (change : NodeInfo → NodeInfo) (node : Node) :
    (node.mapInfo change).kind = node.kind := by
  cases node <;> rfl

@[simp] theorem Node.altName?_mapInfo (change : NodeInfo → NodeInfo) (node : Node) :
    (node.mapInfo change).altName? = node.altName? := by
  cases node <;> rfl

@[simp] theorem Node.rows_mapInfo (change : NodeInfo → NodeInfo) (node : Node) :
    (node.mapInfo change).rows = node.rows := by
  cases node <;> rfl

/-! ## The order of declaration -/

mutual

/-- All nodes of a tree, in the order in which they are declared. -/
def Node.nodes : Node → List Node
  | .item info => [.item info]
  | .altItem info altName => [.altItem info altName]
  | .group info rows => .group info rows :: nodesOfRows rows

/-- All nodes of the trees in some rows. -/
def nodesOfRows : List (Row Node) → List Node
  | [] => []
  | row :: rows => nodesOfRow row ++ nodesOfRows rows

/-- All nodes of the trees in a row. -/
def nodesOfRow : Row Node → List Node
  | ⟨slots, _⟩ => nodesOfSlots slots

/-- All nodes of some trees. -/
def nodesOfSlots : List Node → List Node
  | [] => []
  | slot :: slots => slot.nodes ++ nodesOfSlots slots

end

theorem nodesOfSlots_eq (slots : List Node) : nodesOfSlots slots = slots.flatMap Node.nodes := by
  induction slots with
  | nil => rfl
  | cons slot slots ih => rw [nodesOfSlots, ih, List.flatMap_cons]

theorem nodesOfRows_eq (rows : List (Row Node)) :
    nodesOfRows rows = (rows.flatMap Row.slots).flatMap Node.nodes := by
  induction rows with
  | nil => rfl
  | cons row rows ih =>
    obtain ⟨slots, place⟩ := row
    rw [nodesOfRows, ih, nodesOfRow, nodesOfSlots_eq, List.flatMap_cons, List.flatMap_append]

theorem Node.nodes_eq (node : Node) : node.nodes = node :: node.slots.flatMap Node.nodes := by
  cases node with
  | item info => simp [Node.nodes]
  | altItem info altName => simp [Node.nodes]
  | group info rows => rw [Node.nodes, nodesOfRows_eq, Node.slots_group]

/-! ## The hybrid order -/

/-- The nodes below a node, in hybrid order. -/
def Node.descendants (node : Node) : List Node := node.eventsBelow.filterMap Event.node?

theorem Node.flatten_eq (node : Node) : node.flatten = node :: node.descendants := rfl

theorem eventsBelowSlots_eq (slots : List Node) :
    eventsBelowSlots slots = slots.flatMap Node.eventsBelow := by
  induction slots with
  | nil => rfl
  | cons slot slots ih => rw [eventsBelowSlots, ih, List.flatMap_cons]

theorem eventsBelowRows_eq (rows : List (Row Node)) :
    eventsBelowRows rows = (rows.flatMap Row.slots).flatMap Node.eventsBelow := by
  induction rows with
  | nil => rfl
  | cons row rows ih =>
    obtain ⟨slots, place⟩ := row
    rw [eventsBelowRows, ih, eventsBelowRow, eventsBelowSlots_eq, List.flatMap_cons,
      List.flatMap_append]

/-- The steps of a tour that list the slots of a node. -/
def Node.listing : Node → List Event
  | .group info rows => .enterGroup (.group info rows) :: rowEvents (.group info rows) 0 rows
  | _ => []

/-- Below a node a tour lists its slots, then it goes on below them. -/
theorem Node.eventsBelow_eq (node : Node) :
    node.eventsBelow = node.listing ++ node.slots.flatMap Node.eventsBelow := by
  cases node with
  | item info => rfl
  | altItem info altName => rfl
  | group info rows =>
    rw [Node.eventsBelow, eventsBelowRows_eq, Node.listing, Node.slots_group]

theorem filterMap_rowEvents (group : Node) (index : Nat) (rows : List (Row Node)) :
    (rowEvents group index rows).filterMap Event.node? = rows.flatMap Row.slots := by
  induction rows generalizing index with
  | nil => rfl
  | cons row rows ih =>
    have hrow : (row.slots.map fun slot => Event.visit slot (some group)).filterMap Event.node? =
        row.slots := by
      rw [List.filterMap_map]
      exact List.filterMap_some
    rw [rowEvents, List.cons_append, List.filterMap_cons_none rfl, List.filterMap_append, hrow, ih,
      List.flatMap_cons]

theorem Node.filterMap_listing (node : Node) :
    node.listing.filterMap Event.node? = node.slots := by
  cases node with
  | item info => rfl
  | altItem info altName => rfl
  | group info rows =>
    rw [Node.listing, List.filterMap_cons_none rfl, filterMap_rowEvents, Node.slots_group]

/-- Below a node stand all its slots, then all that stands below the slots. -/
theorem Node.descendants_eq (node : Node) :
    node.descendants = node.slots ++ node.slots.flatMap Node.descendants := by
  rw [Node.descendants, Node.eventsBelow_eq, List.filterMap_append, Node.filterMap_listing,
    List.filterMap_flatMap]
  rfl

/-- The hybrid order is a rearrangement of the order of declaration. -/
theorem Node.flatten_perm_nodes (node : Node) : node.flatten.Perm node.nodes := by
  induction node using Node.slotInduction with
  | step node ih =>
    rw [Node.flatten_eq, Node.nodes_eq, Node.descendants_eq]
    refine List.Perm.cons _ ?_
    -- The slots of a node come first, so the trees below them are moved over by the later slots.
    generalize node.slots = slots at ih
    induction slots with
    | nil => exact List.Perm.refl _
    | cons slot slots ihs =>
      have hfirst := ih slot List.mem_cons_self
      have hrest := ihs fun other hother => ih other (List.mem_cons_of_mem _ hother)
      rw [Node.flatten_eq] at hfirst
      simp only [List.flatMap_cons, List.cons_append]
      calc slot :: (slots ++ (slot.descendants ++ slots.flatMap Node.descendants))
        _ ~ slot :: (slot.descendants ++ (slots ++ slots.flatMap Node.descendants)) := by
          refine List.Perm.cons _ ?_
          rw [← List.append_assoc, ← List.append_assoc]
          exact List.Perm.append_right _ List.perm_append_comm
        _ ~ slot.nodes ++ slots.flatMap Node.nodes := hfirst.append hrest

/-- The nodes in hybrid order are the nodes in the order of the text. -/
theorem Node.mem_flatten_iff {node root : Node} : node ∈ root.flatten ↔ node ∈ root.nodes :=
  root.flatten_perm_nodes.mem_iff

theorem Node.self_mem_flatten (root : Node) : root ∈ root.flatten := List.mem_cons_self

/-- A node of a tree is its root or a node of a tree in one of its slots. -/
theorem Node.mem_flatten_iff_slots {node root : Node} :
    node ∈ root.flatten ↔ node = root ∨ ∃ slot ∈ root.slots, node ∈ slot.flatten := by
  rw [Node.mem_flatten_iff, Node.nodes_eq, List.mem_cons, List.mem_flatMap]
  simp only [Node.mem_flatten_iff]

theorem Node.mem_flatten_of_slot {root slot node : Node} (hslot : slot ∈ root.slots)
    (hnode : node ∈ slot.flatten) : node ∈ root.flatten :=
  Node.mem_flatten_iff_slots.2 (Or.inr ⟨slot, hslot, hnode⟩)

theorem Node.mem_flatten_of_mem_slots {root node slot : Node} (hnode : node ∈ root.flatten)
    (hslot : slot ∈ node.slots) : slot ∈ root.flatten := by
  induction root using Node.slotInduction with
  | step root ih =>
    rcases Node.mem_flatten_iff_slots.1 hnode with rfl | ⟨child, hchild, hnode⟩
    · exact Node.mem_flatten_of_slot hslot slot.self_mem_flatten
    · exact Node.mem_flatten_of_slot hchild (ih child hchild hnode)

/-- Every node of a tree is the root or a slot of a node of the tree. -/
theorem Node.eq_or_mem_slots_of_mem_flatten {root node : Node} (h : node ∈ root.flatten) :
    node = root ∨ ∃ group ∈ root.flatten, node ∈ group.slots := by
  induction root using Node.slotInduction with
  | step root ih =>
    rcases Node.mem_flatten_iff_slots.1 h with rfl | ⟨child, hchild, hnode⟩
    · exact Or.inl rfl
    · rcases ih child hchild hnode with rfl | ⟨group, hgroup, hslot⟩
      · exact Or.inr ⟨root, root.self_mem_flatten, hchild⟩
      · exact Or.inr ⟨group, Node.mem_flatten_of_slot hchild hgroup, hslot⟩

/-- A visit in a row of a group is a visit of a slot of that group. -/
theorem rowEvents_visit {group node : Node} {parent : Option Node} {index : Nat}
    {rows : List (Row Node)} (h : Event.visit node parent ∈ rowEvents group index rows) :
    parent = some group ∧ node ∈ rows.flatMap Row.slots := by
  induction rows generalizing index with
  | nil => cases h
  | cons row rows ih =>
    rw [List.flatMap_cons, List.mem_append]
    rw [rowEvents, List.cons_append, List.mem_cons, List.mem_append, List.mem_map] at h
    rcases h with h | ⟨slot, hslot, hvisit⟩ | h
    · cases h
    · cases hvisit
      exact ⟨rfl, Or.inl hslot⟩
    · exact ⟨(ih h).1, Or.inr (ih h).2⟩

/-- A tour meets every node below the root as a slot of a group of the tree. -/
theorem Node.eventsBelow_visit {root node : Node} {parent : Option Node}
    (h : Event.visit node parent ∈ root.eventsBelow) :
    ∃ group ∈ root.flatten, parent = some group ∧ node ∈ group.slots := by
  induction root using Node.slotInduction with
  | step root ih =>
    rw [Node.eventsBelow_eq, List.mem_append, List.mem_flatMap] at h
    rcases h with h | ⟨slot, hslot, h⟩
    · refine ⟨root, root.self_mem_flatten, ?_⟩
      cases root with
      | item info => cases h
      | altItem info altName => cases h
      | group info rows =>
        rw [Node.listing, List.mem_cons] at h
        rcases h with h | h
        · cases h
        · exact rowEvents_visit h
    · obtain ⟨group, hgroup, hparent⟩ := ih slot hslot h
      exact ⟨group, Node.mem_flatten_of_slot hslot hgroup, hparent⟩

/-! ## Sizes -/

/-- The number of all rows in a tree. -/
def Node.rowCount (root : Node) : Nat := (root.nodes.map fun node => node.rows.length).sum

theorem Node.rowCount_eq (root : Node) :
    root.rowCount = root.rows.length + (root.slots.map Node.rowCount).sum := by
  rw [Node.rowCount, Node.nodes_eq, List.map_cons, List.sum_cons, List.map_flatMap, List.flatMap,
    List.sum_flatten, List.map_map]
  rfl

/-- A group with rows of one length has that many slots for each row. -/
theorem Node.length_slots {node : Node} {width : Nat}
    (h : ∀ row ∈ node.rows, row.slots.length = width) :
    node.slots.length = width * node.rows.length := by
  rw [Node.slots, List.length_flatMap, List.map_congr_left h, List.map_const',
    List.sum_replicate_nat, Nat.mul_comm]

/-- If all rows have the same number of slots, the rows of a tree determine its size. -/
theorem Node.length_nodes {root : Node} {width : Nat}
    (h : ∀ node ∈ root.nodes, ∀ row ∈ node.rows, row.slots.length = width) :
    root.nodes.length = 1 + width * root.rowCount := by
  induction root using Node.slotInduction with
  | step root ih =>
    rw [Node.nodes_eq, List.forall_mem_cons] at h
    have hbelow : ∀ slot ∈ root.slots, slot.nodes.length = 1 + width * slot.rowCount := by
      intro slot hslot
      refine ih slot hslot fun node hnode => h.2 node ?_
      exact List.mem_flatMap.2 ⟨slot, hslot, hnode⟩
    have hsum : (root.slots.flatMap Node.nodes).length =
        root.slots.length + width * (root.slots.map Node.rowCount).sum := by
      rw [List.length_flatMap, List.map_congr_left hbelow, List.sum_map_add, List.sum_map_mul_left,
        List.map_const', List.sum_replicate_nat, Nat.mul_one]
    rw [Node.nodes_eq, List.length_cons, hsum, Node.length_slots h.1, Node.rowCount_eq, Nat.mul_add]
    omega

/-! ## Runs of slots -/

/-- In hybrid order the slots of a node stand side by side, somewhere behind the node. -/
theorem Node.exists_run_descendants {root node : Node} (h : node ∈ root.descendants) :
    ∃ before middle after,
      root.descendants = before ++ node :: (middle ++ (node.slots ++ after)) := by
  induction root using Node.slotInduction with
  | step root ih =>
    rw [Node.descendants_eq, List.mem_append, List.mem_flatMap] at h
    rw [Node.descendants_eq]
    rcases h with hslot | ⟨child, hchild, hnode⟩
    · -- The slots of a slot come after the later slots and what stands below the earlier ones.
      obtain ⟨first, last, hslots⟩ := List.append_of_mem hslot
      refine ⟨first, last ++ first.flatMap Node.descendants,
        node.slots.flatMap Node.descendants ++ last.flatMap Node.descendants, ?_⟩
      rw [hslots, List.flatMap_append, List.flatMap_cons, Node.descendants_eq node]
      simp only [List.append_assoc, List.cons_append]
    · obtain ⟨before, middle, after, hrun⟩ := ih child hchild hnode
      obtain ⟨first, last, hslots⟩ := List.append_of_mem hchild
      refine ⟨root.slots ++ (first.flatMap Node.descendants ++ before), middle,
        after ++ last.flatMap Node.descendants, ?_⟩
      have hbelow : root.slots.flatMap Node.descendants = first.flatMap Node.descendants ++
          (child.descendants ++ last.flatMap Node.descendants) := by
        rw [hslots, List.flatMap_append, List.flatMap_cons]
      rw [hbelow, hrun]
      simp only [List.append_assoc, List.cons_append]

/-- In the hybrid order the slots of every node stand next to each other, somewhere after the
node. -/
theorem Node.exists_run_flatten {root node : Node} (h : node ∈ root.flatten) :
    ∃ before middle after, root.flatten = before ++ node :: (middle ++ (node.slots ++ after)) := by
  rw [Node.flatten_eq] at h ⊢
  rcases List.mem_cons.1 h with rfl | h
  · refine ⟨[], [], node.slots.flatMap Node.descendants, ?_⟩
    rw [Node.descendants_eq]
    rfl
  · obtain ⟨before, middle, after, hrun⟩ := Node.exists_run_descendants h
    exact ⟨root :: before, middle, after, congrArg (root :: ·) hrun⟩

end SoftMenu
