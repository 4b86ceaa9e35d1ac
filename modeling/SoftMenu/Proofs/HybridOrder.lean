import SoftMenu.Proofs.Spots
import SoftMenu.Proofs.Stages

/-!
# The hybrid order, block by block

A tour through a menu tree goes through the slots of a group twice, once to list them and once to go
down into them. It comes to one flat list of blocks: after the root, each group in depth-first order
lists its rows with their slots (`Node.events_eq`). The table of a menu is laid out in this order
(`entries_of_ofFile`).
-/

namespace SoftMenu

/-! ## Blocks -/

/-- The groups of a tree in depth-first order: a group, then those in its slots. -/
def Node.groups (root : Node) : List Node := root.nodes.filter Node.isGroup

/-- The steps of a tour that list the slots of a group. -/
def Node.block (group : Node) : List Event :=
  .enterGroup group :: group.rows.zipIdx.flatMap fun row =>
    .enterRow group row.1 row.2 :: row.1.slots.map fun slot => .visit slot (some group)

theorem rowEvents_eq (group : Node) (index : Nat) (rows : List (Row Node)) :
    rowEvents group index rows = (rows.zipIdx index).flatMap fun row =>
      .enterRow group row.1 row.2 :: row.1.slots.map fun slot => .visit slot (some group) := by
  induction rows generalizing index with
  | nil => rfl
  | cons row rows ih => rw [rowEvents, ih, List.zipIdx_cons, List.flatMap_cons]

theorem Node.listing_of_isGroup {node : Node} (h : node.isGroup = true) :
    node.listing = node.block := by
  cases node with
  | item info => cases h
  | altItem info altName => cases h
  | group info rows =>
    rw [Node.listing, rowEvents_eq]
    rfl

theorem Node.listing_of_not_isGroup {node : Node} (h : node.isGroup = false) :
    node.listing = [] := by
  cases node with
  | item info => rfl
  | altItem info altName => rfl
  | group info rows => cases h

/-- Below a node a tour lists one block for each group. -/
theorem Node.eventsBelow_eq_blocks (node : Node) :
    node.eventsBelow = node.groups.flatMap Node.block := by
  induction node using Node.slotInduction with
  | step node ih =>
    have hslots : node.slots.flatMap Node.eventsBelow =
        (node.slots.flatMap Node.groups).flatMap Node.block := by
      rw [List.flatMap_assoc]
      exact List.flatMap_congr ih
    have hgroups : (node.slots.flatMap Node.nodes).filter Node.isGroup =
        node.slots.flatMap Node.groups := List.filter_flatMap
    rw [Node.eventsBelow_eq, hslots, Node.groups, Node.nodes_eq]
    cases hgroup : node.isGroup with
    | true =>
      rw [List.filter_cons_of_pos hgroup, hgroups, List.flatMap_cons,
        Node.listing_of_isGroup hgroup]
    | false =>
      rw [List.filter_cons_of_neg (by simp [hgroup]), hgroups, Node.listing_of_not_isGroup hgroup,
        List.nil_append]

theorem Node.events_eq (root : Node) :
    root.events = .visit root none :: root.groups.flatMap Node.block := by
  rw [Node.events, Node.eventsBelow_eq_blocks]

/-! ## Tables -/

/-- The entries for a block of a tour. -/
def Node.blockEntries (config : Config) (group : Node) : List Entry :=
  .groupChildren group.name :: group.rows.zipIdx.flatMap fun row =>
    .groupRow group.name row.2 ::
      row.1.slots.map fun slot => .node (.ofNode config slot (some group))

theorem Node.map_entry_block (config : Config) (group : Node) :
    group.block.map (Event.entry config) = group.blockEntries config := by
  rw [Node.block, Node.blockEntries, List.map_cons, List.map_flatMap]
  simp only [List.map_cons, List.map_map]
  rfl

theorem entries_of_ofFile {file : MenuFile} {table : Table} (h : Table.ofFile file = .ok table) :
    table.entries = .node (.ofNode file.config file.root none) ::
      file.root.groups.flatMap (Node.blockEntries file.config) := by
  rw [(ofFile_eq_ok_iff.1 h).2, Node.events_eq, List.map_cons, List.map_flatMap]
  refine congrArg (_ :: ·) (List.flatMap_congr fun group _ => ?_)
  exact group.map_entry_block file.config

/-- The hybrid order of a tree: a tour meets the root, then it goes through the blocks of all groups
in depth-first order. The nodes that it meets are those that paths lead to, each path once, with the
slots of every node next to each other. The entries of a table are the steps of the tour. -/
theorem Node.hybridOrder_eq_blocks (root : Node) :
    root.events = .visit root none :: root.groups.flatMap Node.block ∧
    root.flatten = root.spots.map Prod.snd ∧
    (∀ path found, (path, found) ∈ root.spots ↔ root.at? path = some found) ∧
    (root.spots.map Prod.fst).Nodup ∧
    (∀ path group, root.at? path = some group →
      ∃ before after, root.spots = before ++ group.slotSpots path ++ after) ∧
    ∀ config table, Table.ofFile ⟨config, root⟩ = .ok table →
      table.entries = .node (.ofNode config root none) ::
        root.groups.flatMap (Node.blockEntries config) := by
  refine ⟨root.events_eq, root.map_snd_spots.symm, ?_, root.nodup_paths_spots, ?_, ?_⟩
  · intro path found
    exact Node.mem_spots_iff
  · intro path group hgroup
    exact Node.exists_run_spots hgroup
  · intro config table htable
    exact entries_of_ofFile htable

end SoftMenu
