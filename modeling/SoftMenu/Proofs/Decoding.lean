import Mathlib.Data.List.Nodup
import SoftMenu.Proofs.Stages

/-!
# Reading a table back

A table is a list of records that refer to each other by ids. `decode` rebuilds a menu tree from the
records alone: the record of a group gives the id of its first slot and the number of its rows, and
the ids of all its slots follow from these by arithmetic. `readsBack_of_compile` says that for the
table of a compiled menu this comes to an end with the tree of the menu.

The arithmetic is right because the slots of a group have been numbered one after the other
(`slots_ids`) and every row has five of them (`slotIds_eq`).
-/

namespace SoftMenu

/-! ## Skeletons -/

/-- A menu tree, as far as the records of a table can tell. -/
inductive Skeleton where
  /-- A node with its rows of slots. -/
  | node (kind : Kind) (label : String) (id parentId : Nat) (rows : List (List Skeleton))
deriving Repr

namespace Skeleton

/-- The id of the root. -/
def id : Skeleton → Nat
  | .node _ _ id _ _ => id

/-- The rows of the root. -/
def rows : Skeleton → List (List Skeleton)
  | .node _ _ _ _ rows => rows

end Skeleton

mutual

/-- All nodes of a skeleton, from the first to the last. -/
def Skeleton.nodes : Skeleton → List Skeleton
  | .node kind label id parentId rows =>
    .node kind label id parentId rows :: skeletonsOfRows rows

/-- All nodes of the skeletons in some rows. -/
def skeletonsOfRows : List (List Skeleton) → List Skeleton
  | [] => []
  | row :: rows => skeletonsOfSlots row ++ skeletonsOfRows rows

/-- All nodes of some skeletons. -/
def skeletonsOfSlots : List Skeleton → List Skeleton
  | [] => []
  | slot :: slots => slot.nodes ++ skeletonsOfSlots slots

end

mutual

/-- The skeleton of a menu tree. -/
def Node.skeleton : Node → Skeleton
  | .item info => .node .item info.label info.id.toNat info.parentId.toNat []
  | .altItem info _ => .node .altItem info.label info.id.toNat info.parentId.toNat []
  | .group info rows =>
    .node .group info.label info.id.toNat info.parentId.toNat (skeletonRows rows)

/-- The skeletons of some rows. -/
def skeletonRows : List (Row Node) → List (List Skeleton)
  | [] => []
  | row :: rows => skeletonRow row :: skeletonRows rows

/-- The skeletons of the slots of a row. -/
def skeletonRow : Row Node → List Skeleton
  | ⟨slots, _⟩ => skeletonSlots slots

/-- The skeletons of some slots. -/
def skeletonSlots : List Node → List Skeleton
  | [] => []
  | slot :: slots => slot.skeleton :: skeletonSlots slots

end

theorem skeletonsOfSlots_eq (slots : List Skeleton) :
    skeletonsOfSlots slots = slots.flatMap Skeleton.nodes := by
  induction slots with
  | nil => rfl
  | cons slot slots ih => rw [skeletonsOfSlots, ih, List.flatMap_cons]

theorem skeletonsOfRows_eq (rows : List (List Skeleton)) :
    skeletonsOfRows rows = rows.flatten.flatMap Skeleton.nodes := by
  induction rows with
  | nil => rfl
  | cons row rows ih =>
    rw [skeletonsOfRows, skeletonsOfSlots_eq, ih, List.flatten_cons, List.flatMap_append]

theorem Skeleton.nodes_eq (skeleton : Skeleton) :
    skeleton.nodes = skeleton :: skeleton.rows.flatten.flatMap Skeleton.nodes := by
  cases skeleton with
  | node kind label id parentId rows => rw [Skeleton.nodes, skeletonsOfRows_eq, Skeleton.rows]

theorem skeletonSlots_eq (slots : List Node) : skeletonSlots slots = slots.map Node.skeleton := by
  induction slots with
  | nil => rfl
  | cons slot slots ih => rw [skeletonSlots, ih, List.map_cons]

theorem skeletonRows_eq (rows : List (Row Node)) :
    skeletonRows rows = rows.map fun row => row.slots.map Node.skeleton := by
  induction rows with
  | nil => rfl
  | cons row rows ih =>
    obtain ⟨slots, place⟩ := row
    rw [skeletonRows, ih, skeletonRow, skeletonSlots_eq, List.map_cons]

theorem Node.skeleton_eq (node : Node) : node.skeleton =
    .node node.kind node.label node.id.toNat node.parentId.toNat
      (node.rows.map fun row => row.slots.map Node.skeleton) := by
  cases node with
  | item info => rfl
  | altItem info altName => rfl
  | group info rows => rw [Node.skeleton, skeletonRows_eq]; rfl

theorem Node.id_skeleton (node : Node) : node.skeleton.id = node.id.toNat := by
  rw [Node.skeleton_eq, Skeleton.id]

theorem Node.nodes_skeleton (node : Node) : node.skeleton.nodes = node.nodes.map Node.skeleton := by
  induction node using Node.slotInduction with
  | step node ih =>
    have hslots : node.skeleton.rows.flatten = node.slots.map Node.skeleton := by
      rw [Node.skeleton_eq, Skeleton.rows, Node.slots, List.map_flatMap, List.flatMap]
    rw [Skeleton.nodes_eq, Node.nodes_eq, hslots, List.map_cons, List.flatMap_map, List.map_flatMap]
    exact congrArg (_ :: ·) (List.flatMap_congr ih)

theorem Node.ids_skeleton (node : Node) :
    node.skeleton.nodes.map Skeleton.id = node.nodes.map fun node => node.id.toNat := by
  rw [Node.nodes_skeleton, List.map_map]
  exact List.map_congr_left fun member _ => member.id_skeleton

/-! ## The decoder -/

/-- Why a table cannot be read back. -/
inductive DecodeFault where
  /-- There is no record with the given id. -/
  | missing (id : Nat)
  /-- There is no end to it. -/
  | endless
deriving DecidableEq, Repr

/-- The record with the given id. -/
def recordAt? (records : List NodeRecord) (id : Nat) : Option NodeRecord :=
  records.find? fun record => record.id.toNat = id

/-- The ids of the slots of a group, row by row, computed from the id of the first one. -/
def slotIds (first rows : Nat) : List (List Nat) :=
  (List.range rows).map fun row => (List.range 5).map fun slot => first + 5 * row + slot

/-- Rebuilds the tree whose root has the given id, down to so many levels. The decoder looks at
records only, and every id that it looks up becomes the id of a node of the tree. -/
def decode (records : List NodeRecord) : Nat → Nat → Except DecodeFault Skeleton
  | 0, _ => .error .endless
  | levels + 1, id =>
    match recordAt? records id with
    | none => .error (.missing id)
    | some record =>
      match record.rowBegin with
      | .nothing => .ok (.node .item record.label id record.parentId.toNat [])
      | .altName _ => .ok (.node .altItem record.label id record.parentId.toNat [])
      | .firstSlot _ first => do
        let rows ← (slotIds first.toNat record.numRows.toNat).mapM fun row : List Nat =>
          row.mapM (decode records levels)
        return .node .group record.label id record.parentId.toNat rows

/-! ## Records -/

/-- A record tells the truth about a node. -/
structure NodeRecord.Describes (record : NodeRecord) (node : Node) : Prop where
  label_eq : record.label = node.label
  id_eq : record.id = node.id
  parentId_eq : record.parentId = node.parentId
  item : node.kind = .item → record.rowBegin = .nothing
  altItem : node.kind = .altItem → ∃ symbol, record.rowBegin = .altName symbol
  group : node.kind = .group → record.rowBegin = .ofGroup node ∧
    record.numRows = .ofNat (min node.rows.length 255)

theorem describes_ofNode {config : Config} {node : Node} {parent : Option Node}
    (h : ∀ group ∈ parent, node.parentId = group.id) :
    (NodeRecord.ofNode config node parent).Describes node := by
  have hparent : (parent.map Node.id).getD node.parentId = node.parentId := by
    cases parent with
    | none => rfl
    | some group => exact (h group rfl).symm
  cases node with
  | item info =>
    rw [NodeRecord.ofNode]
    split_ifs
    · exact ⟨rfl, rfl, hparent, fun _ => rfl, nofun, nofun⟩
    · exact ⟨rfl, rfl, hparent, fun _ => rfl, nofun, nofun⟩
  | altItem info altName => exact ⟨rfl, rfl, hparent, nofun, fun _ => ⟨_, rfl⟩, nofun⟩
  | group info rows => exact ⟨rfl, rfl, hparent, nofun, nofun, fun _ => ⟨rfl, rfl⟩⟩

theorem id_ofNode (config : Config) (node : Node) (parent : Option Node) :
    (NodeRecord.ofNode config node parent).id = node.id := by
  cases node with
  | item info => rw [NodeRecord.ofNode]; split_ifs <;> rfl
  | altItem info altName => rfl
  | group info rows => rfl

section Records

variable {config : Config} {root : Node}

theorem records_eq {table : Table} (h : table.entries = root.events.map (Event.entry config)) :
    table.records = root.events.filterMap fun event => (event.entry config).record? := by
  rw [Table.records, h, List.filterMap_map]
  rfl

theorem describes_of_mem_records {table : Table} {record : NodeRecord}
    (htable : table.entries = root.events.map (Event.entry config)) (hlinked : root.Linked)
    (h : record ∈ table.records) : ∃ node ∈ root.flatten, record.Describes node := by
  rw [records_eq htable, List.mem_filterMap] at h
  obtain ⟨event, hevent, hrecord⟩ := h
  cases event with
  | visit node parent =>
    obtain rfl : NodeRecord.ofNode config node parent = record := Option.some.inj hrecord
    have hnode : node ∈ root.flatten := List.mem_filterMap.2 ⟨_, hevent, rfl⟩
    refine ⟨node, hnode, describes_ofNode fun group hgroup => ?_⟩
    obtain rfl : parent = some group := hgroup
    rcases List.mem_cons.1 hevent with hroot | hbelow
    · cases hroot
    · obtain ⟨other, hother, hparent, hslot⟩ := Node.eventsBelow_visit hbelow
      obtain rfl := Option.some.inj hparent
      exact hlinked group hother node hslot
  | enterGroup group => cases hrecord
  | enterRow group row index => cases hrecord

/-- There is one record for each node. -/
theorem ids_records {table : Table} (h : table.entries = root.events.map (Event.entry config)) :
    (table.records.map fun record => record.id.toNat) =
      root.flatten.map fun node => node.id.toNat := by
  rw [records_eq h, Node.flatten, List.map_filterMap, List.map_filterMap]
  refine List.filterMap_congr fun event _ => ?_
  cases event with
  | visit node parent =>
    exact congrArg (fun id => some (UInt8.toNat id)) (id_ofNode config node parent)
  | enterGroup group => rfl
  | enterRow group row index => rfl

end Records

/-- If there is one record for each of some nodes with different ids, the record with the id of a
node is the record of that node. -/
theorem exists_recordAt {records : List NodeRecord} {nodes : List Node} {node : Node}
    (hids : (records.map fun record => record.id.toNat) = nodes.map fun node => node.id.toNat)
    (hnodup : (nodes.map fun node => node.id.toNat).Nodup)
    (hdescribes : ∀ record ∈ records, ∃ node ∈ nodes, record.Describes node)
    (hnode : node ∈ nodes) :
    ∃ record, recordAt? records node.id.toNat = some record ∧ record.Describes node := by
  have hsome : (recordAt? records node.id.toNat).isSome := by
    have hmem := List.mem_map_of_mem (f := fun node : Node => node.id.toNat) hnode
    rw [← hids, List.mem_map] at hmem
    obtain ⟨record, hrecord, hid⟩ := hmem
    exact List.find?_isSome.2 ⟨record, hrecord, by simpa using hid⟩
  obtain ⟨record, hrecord⟩ := Option.isSome_iff_exists.1 hsome
  obtain ⟨other, hother, hother'⟩ := hdescribes record (List.mem_of_find?_eq_some hrecord)
  have hid : other.id.toNat = node.id.toNat := by
    rw [← hother'.id_eq]
    simpa using List.find?_some hrecord
  obtain rfl := List.inj_on_of_nodup_map hnodup hother hnode hid
  exact ⟨record, hrecord, hother'⟩

/-! ## Runs of ids -/

theorem map_eq_range'_of_append {α : Type} {f : α → Nat} {start count : Nat}
    {first second : List α} (h : (first ++ second).map f = List.range' start count) :
    first.map f = List.range' start first.length ∧
      second.map f = List.range' (start + first.length) second.length := by
  have hcount : first.length + second.length = count := by
    simpa using congrArg List.length h
  rw [List.map_append, ← hcount, ← List.range'_append_1] at h
  exact List.append_inj h (by simp)

theorem slotIds_succ (first rows : Nat) :
    slotIds first (rows + 1) = List.range' first 5 :: slotIds (first + 5) rows := by
  have hrange : List.range (rows + 1) = 0 :: (List.range rows).map Nat.succ :=
    List.range_succ_eq_map
  rw [slotIds, hrange, List.map_cons, List.map_map, List.range'_eq_map_range]
  refine congrArg₂ List.cons rfl (List.map_congr_left fun row _ => ?_)
  refine List.map_congr_left fun slot _ => ?_
  rw [Nat.succ_eq_add_one]
  omega

/-- If slots are numbered one after the other, five to a row, their ids can be computed. -/
theorem slotIds_eq {rows : List (Row Node)} {first : Nat}
    (hfull : ∀ row ∈ rows, row.slots.length = 5)
    (hids : (rows.flatMap Row.slots).map (fun slot => slot.id.toNat) =
      List.range' first (rows.flatMap Row.slots).length) :
    slotIds first rows.length = rows.map fun row => row.slots.map fun slot => slot.id.toNat := by
  induction rows generalizing first with
  | nil => rfl
  | cons row rows ih =>
    obtain ⟨hrow, hrows⟩ := List.forall_mem_cons.1 hfull
    rw [List.flatMap_cons] at hids
    obtain ⟨hfirst, hrest⟩ := map_eq_range'_of_append hids
    rw [hrow] at hfirst hrest
    rw [List.length_cons, slotIds_succ, ih hrows hrest, List.map_cons, hfirst]

/-! ## Decoding -/

theorem mapM_map_eq_ok {ε α β γ : Type} {f : β → Except ε γ} {g : α → β} {result : α → γ}
    {members : List α} (h : ∀ member ∈ members, f (g member) = .ok (result member)) :
    (members.map g).mapM f = .ok (members.map result) := by
  induction members with
  | nil => rfl
  | cons member members ih =>
    obtain ⟨hmember, hmembers⟩ := List.forall_mem_cons.1 h
    rw [List.map_cons, List.mapM_cons, hmember, ih hmembers]
    rfl

/-- A group with finished rows has a first slot. -/
theorem Face.Full.exists_firstSlot {node : Node} (h : node.face.Full) (hkind : node.kind = .group) :
    ∃ slot slots, node.firstSlot? = some slot ∧ node.slots = slot :: slots := by
  have hrows := h.rows hkind
  have hslots := h.length_slots
  rw [Node.firstSlot?, Node.slots]
  cases hnode : node.rows with
  | nil => simp [Node.face, hnode] at hrows
  | cons row rows =>
    have hrow := hslots row (by rw [hnode]; exact List.mem_cons_self)
    cases hslot : row.slots with
    | nil => simp [hslot, rowSlots] at hrow
    | cons slot slots =>
      exact ⟨slot, slots ++ rows.flatMap Row.slots, by simp [hslot], by simp [hslot]⟩

/-- The records describe the nodes of a tree with finished rows that are numbered in hybrid
order. -/
structure Tabulated (records : List NodeRecord) (root : Node) (count : Nat) : Prop where
  count_le : count ≤ 251
  ids_eq : root.flatten.map (fun node => node.id.toNat) = List.range' 1 count
  full : ∀ node ∈ root.flatten, node.face.Full
  record : ∀ node ∈ root.flatten,
    ∃ record, recordAt? records node.id.toNat = some record ∧ record.Describes node

namespace Tabulated

variable {records : List NodeRecord} {root node : Node} {count : Nat}

theorem root_id (h : Tabulated records root count) : root.id.toNat = 1 := by
  have hids := h.ids_eq
  rw [Node.flatten_eq, List.map_cons] at hids
  exact (List.range'_eq_cons_iff.1 hids.symm).1.symm

theorem id_le (h : Tabulated records root count) (hnode : node ∈ root.flatten) :
    node.id.toNat ≤ count := by
  have hmem := List.mem_map_of_mem (f := fun node : Node => node.id.toNat) hnode
  rw [h.ids_eq] at hmem
  have hbound := (List.mem_range'_1.1 hmem).2
  omega

/-- The slots of a node are numbered one after the other, with greater ids than the node. -/
theorem slots_ids (h : Tabulated records root count) (hnode : node ∈ root.flatten) :
    ∃ first, node.id.toNat < first ∧
      node.slots.map (fun slot => slot.id.toNat) = List.range' first node.slots.length := by
  obtain ⟨before, middle, after, hrun⟩ := Node.exists_run_flatten hnode
  have hids := h.ids_eq
  rw [hrun] at hids
  obtain ⟨-, hids⟩ := map_eq_range'_of_append hids
  rw [List.map_cons, List.length_cons, List.range'_succ] at hids
  obtain ⟨hid, hids⟩ := List.cons.inj hids
  obtain ⟨-, hids⟩ := map_eq_range'_of_append hids
  obtain ⟨hids, -⟩ := map_eq_range'_of_append hids
  exact ⟨_, by omega, hids⟩

theorem length_rows_le (h : Tabulated records root count) (hnode : node ∈ root.flatten) :
    node.rows.length ≤ 255 := by
  obtain ⟨before, middle, after, hrun⟩ := Node.exists_run_flatten hnode
  have hlength := congrArg List.length h.ids_eq
  rw [hrun] at hlength
  simp only [List.map_append, List.map_cons, List.length_append, List.length_cons, List.length_map,
    List.length_range'] at hlength
  have hslots := Node.length_slots (h.full node hnode).length_slots
  have hcount := h.count_le
  rw [rowSlots] at hslots
  omega

theorem id_lt_of_mem_slots (h : Tabulated records root count) {slot : Node}
    (hnode : node ∈ root.flatten) (hslot : slot ∈ node.slots) : node.id.toNat < slot.id.toNat := by
  obtain ⟨first, hgt, hids⟩ := h.slots_ids hnode
  have hmem := List.mem_map_of_mem (f := fun slot : Node => slot.id.toNat) hslot
  rw [hids, List.mem_range'_1] at hmem
  omega

/-- The ids computed from the record of a group are those of its slots. -/
theorem slotIds_of_describes (h : Tabulated records root count) {record : NodeRecord}
    (hnode : node ∈ root.flatten) (hkind : node.kind = .group) (hrecord : record.Describes node) :
    ∃ label first, record.rowBegin = .firstSlot label first ∧
      slotIds first.toNat record.numRows.toNat =
        node.rows.map fun row => row.slots.map fun slot => slot.id.toNat := by
  obtain ⟨hbegin, hnumRows⟩ := hrecord.group hkind
  obtain ⟨slot, slots, hslot, hslots⟩ := (h.full node hnode).exists_firstSlot hkind
  obtain ⟨first, -, hids⟩ := h.slots_ids hnode
  refine ⟨slot.label, slot.id, by rw [hbegin, RowBegin.ofGroup, hslot], ?_⟩
  have hfirst : slot.id.toNat = first := by
    rw [hslots, List.length_cons, List.range'_succ, List.map_cons] at hids
    exact (List.cons.inj hids).1
  have hcount : record.numRows.toNat = node.rows.length := by
    have hle := h.length_rows_le hnode
    rw [hnumRows, Nat.min_eq_left hle]
    exact UInt8.toNat_ofNat_of_lt' (Nat.lt_succ_of_le hle)
  rw [hcount, hfirst]
  exact slotIds_eq (h.full node hnode).length_slots hids

/-- The decoder rebuilds every node of the tree if it is given as many levels as there are greater
ids. -/
theorem decode_eq (h : Tabulated records root count) {levels : Nat} (hnode : node ∈ root.flatten)
    (hlevels : count < node.id.toNat + levels) :
    decode records levels node.id.toNat = .ok node.skeleton := by
  induction levels generalizing node with
  | zero =>
    have hle := h.id_le hnode
    omega
  | succ levels ih =>
    obtain ⟨record, hrecord, hdescribes⟩ := h.record node hnode
    rw [decode, hrecord, Node.skeleton_eq, ← hdescribes.label_eq, ← hdescribes.parentId_eq]
    cases hkind : node.kind with
    | item =>
      have hrows : node.rows = [] := Node.rows_eq_nil_of_kind (by simp [hkind])
      simp [hdescribes.item hkind, hrows]
    | altItem =>
      obtain ⟨symbol, hsymbol⟩ := hdescribes.altItem hkind
      have hrows : node.rows = [] := Node.rows_eq_nil_of_kind (by simp [hkind])
      simp [hsymbol, hrows]
    | group =>
      obtain ⟨label, first, hbegin, hslotIds⟩ := h.slotIds_of_describes hnode hkind hdescribes
      -- A slot has a greater id than the group, so one level less is enough for it.
      have hdecode : ∀ row ∈ node.rows, (row.slots.map fun slot => slot.id.toNat).mapM
          (decode records levels) = .ok (row.slots.map Node.skeleton) := by
        intro row hrow
        refine mapM_map_eq_ok fun slot hslot => ?_
        have hmem := Node.mem_slots_of_mem_rows hrow hslot
        have hgreater := h.id_lt_of_mem_slots hnode hmem
        exact ih (Node.mem_flatten_of_mem_slots hnode hmem) (by omega)
      dsimp only
      rw [hbegin]
      dsimp only
      rw [hslotIds, mapM_map_eq_ok hdecode]
      rfl

end Tabulated

/-- A compiled menu is tabulated in its table. -/
theorem tabulated_of_compile {options : CompileOptions} {source : String}
    {compilation : Compilation} (h : compile options source = .ok compilation) :
    ∃ count, Tabulated compilation.table.records compilation.file.root count ∧
      (compilation.table.records.map fun record => record.id.toNat) =
        compilation.file.root.flatten.map fun node => node.id.toNat := by
  obtain ⟨parsed, -, hpasses, hfile, -, htable⟩ := passes_of_compile h
  obtain ⟨count, hcount, hids⟩ := ids_finishedMenu hpasses
  have hfull := full_finishedMenu hpasses
  obtain ⟨-, hlinked⟩ := linked_finishedMenu hpasses
  have hentries := (ofFile_eq_ok_iff.1 htable).2
  rw [← hfile] at hids hfull hlinked
  have hrecords := ids_records hentries
  have hnodup : (compilation.file.root.flatten.map fun node => node.id.toNat).Nodup := by
    rw [hids]
    exact List.nodup_range'
  have hdescribes : ∀ record ∈ compilation.table.records,
      ∃ node ∈ compilation.file.root.flatten, record.Describes node :=
    fun record => describes_of_mem_records hentries hlinked
  exact ⟨count, ⟨hcount, hids, hfull, fun node => exists_recordAt hrecords hnodup hdescribes⟩,
    hrecords⟩

/-- The decoder rebuilds a tree from records, beginning with id 1. As many levels as there are
records are enough for it, and more make no difference: it finds a record for every id that it
computes and comes to an end, as slots have greater ids than their group. It uses every record
exactly once, and it never goes beyond id 251. -/
structure ReadsBack (records : List NodeRecord) (root : Node) : Prop where
  decode_eq : ∀ levels, records.length ≤ levels → decode records levels 1 = .ok root.skeleton
  id_lt : ∀ group ∈ root.skeleton.nodes, ∀ row ∈ group.rows, ∀ slot ∈ row, group.id < slot.id
  nodup : (root.skeleton.nodes.map Skeleton.id).Nodup
  perm : (root.skeleton.nodes.map Skeleton.id).Perm (records.map fun record => record.id.toNat)
  id_le : ∀ node ∈ root.skeleton.nodes, node.id ≤ 251

/-- The table of a compiled menu can be read back as the menu. -/
theorem readsBack_of_compile {options : CompileOptions} {source : String}
    {compilation : Compilation} (h : compile options source = .ok compilation) :
    ReadsBack compilation.table.records compilation.file.root := by
  obtain ⟨count, htabulated, hrecords⟩ := tabulated_of_compile h
  generalize compilation.file.root = root at htabulated hrecords ⊢
  have hlength : compilation.table.records.length = count := by
    simpa [htabulated.ids_eq] using congrArg List.length hrecords
  have hperm : (root.skeleton.nodes.map Skeleton.id).Perm
      (compilation.table.records.map fun record => record.id.toNat) := by
    rw [root.ids_skeleton, hrecords]
    exact (root.flatten_perm_nodes.map _).symm
  refine ⟨fun levels hlevels => ?_, ?_, ?_, hperm, ?_⟩
  · rw [← htabulated.root_id]
    refine htabulated.decode_eq root.self_mem_flatten ?_
    rw [htabulated.root_id]
    omega
  · rw [Node.nodes_skeleton, List.forall_mem_map]
    intro group hgroup row hrow slot hslot
    rw [Node.skeleton_eq, Skeleton.rows, List.mem_map] at hrow
    obtain ⟨declared, hdeclared, rfl⟩ := hrow
    obtain ⟨node, hnode, rfl⟩ := List.mem_map.1 hslot
    rw [Node.id_skeleton, Node.id_skeleton]
    exact htabulated.id_lt_of_mem_slots (Node.mem_flatten_iff.2 hgroup)
      (Node.mem_slots_of_mem_rows hdeclared hnode)
  · rw [hperm.nodup_iff, hrecords, htabulated.ids_eq]
    exact List.nodup_range'
  · rw [Node.nodes_skeleton, List.forall_mem_map]
    intro node hnode
    rw [Node.id_skeleton]
    exact (htabulated.id_le (Node.mem_flatten_iff.2 hnode)).trans htabulated.count_le

/-- A menu with two rows, and with a group between items in the first of them. -/
def nestedMenu : String :=
  "MenuConfig [ ] MenuGroup Top Top [ MenuRow [ MenuItem A A MenuGroup B B [" ++
    " MenuRow [ MenuItemAlt C D C ] ] MenuItem E E ] MenuRow [ MenuItem * * MenuItem F F ] ]"

theorem exists_compile_nestedMenu :
    ∃ compilation, compile ⟨"menu", .strict, false⟩ nestedMenu = .ok compilation :=
  exists_ok_of_isSome (by decide +kernel)

theorem readsBack_of_compile_nested :
    ∃ compilation, compile ⟨"menu", .strict, false⟩ nestedMenu = .ok compilation ∧
      ReadsBack compilation.table.records compilation.file.root := by
  obtain ⟨compilation, hcompile⟩ := exists_compile_nestedMenu
  exact ⟨compilation, hcompile, readsBack_of_compile hcompile⟩

end SoftMenu
