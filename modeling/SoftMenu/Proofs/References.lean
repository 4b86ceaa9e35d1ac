import Mathlib.Data.List.Forall2
import SoftMenu.Proofs.Decoding
import SoftMenu.Proofs.Finished

/-!
# What a table refers to

Records refer to each other by label and id, and to names by symbols that are made from labels. The
records come from a tour through the tree that knows the group of every node, the names from a list
of all nodes that leaves out blanks. `consistent_of_compile` says that nevertheless every reference
leads to what it should: the labels are all different, so a record or a name is found by its label.
-/

namespace SoftMenu

/-! ## Visits -/

/-- The node that a step of a tour meets, with the group that it is a slot of. -/
def Event.visit? : Event → Option (Node × Option Node)
  | .visit node parent => some (node, parent)
  | _ => none

/-- The nodes of a tree in hybrid order, each with its group. -/
def Node.visits (root : Node) : List (Node × Option Node) := root.events.filterMap Event.visit?

theorem Node.visits_eq (root : Node) :
    root.visits = (root, none) :: root.eventsBelow.filterMap Event.visit? := rfl

theorem Node.map_fst_visits (root : Node) : root.visits.map Prod.fst = root.flatten := by
  rw [Node.visits, Node.flatten, List.map_filterMap]
  refine List.filterMap_congr fun event _ => ?_
  cases event <;> rfl

theorem Node.mem_flatten_of_visit {root node : Node} {parent : Option Node}
    (h : (node, parent) ∈ root.visits) : node ∈ root.flatten := by
  rw [← Node.map_fst_visits]
  exact List.mem_map_of_mem h

theorem Node.exists_group_of_visit {root : Node} {visit : Node × Option Node}
    (h : visit ∈ root.eventsBelow.filterMap Event.visit?) :
    ∃ group ∈ root.flatten, visit.2 = some group ∧ visit.1 ∈ group.slots := by
  obtain ⟨event, hevent, hvisit⟩ := List.mem_filterMap.1 h
  cases event with
  | visit node parent =>
    cases hvisit
    exact Node.eventsBelow_visit hevent
  | enterGroup group => cases hvisit
  | enterRow group row index => cases hvisit

/-- The group that a tour meets a node in is a group of the tree, and the node is a slot of it. -/
theorem Node.parent_of_visit {root : Node} {visit : Node × Option Node}
    (h : visit ∈ root.visits) :
    ∀ group ∈ visit.2, group ∈ root.flatten ∧ visit.1 ∈ group.slots := by
  intro group hgroup
  rw [Node.visits_eq] at h
  rcases List.mem_cons.1 h with rfl | hbelow
  · cases hgroup
  · obtain ⟨other, hother, hparent, hslot⟩ := Node.exists_group_of_visit hbelow
    obtain rfl := Option.some.inj (hgroup.symm.trans hparent)
    exact ⟨hother, hslot⟩

/-! ## The name pool -/

/-- The entry of a name that has got the given id. -/
def PoolName.entry (name : PoolName) (id : Nat) : NameEntry :=
  ⟨name.node.label, name.slot, UInt8.ofNat id, .ofName name.name⟩

/-- The entries of some names with the ids from `next` on. -/
def numberedNames (next : Nat) : List PoolName → List NameEntry
  | [] => []
  | name :: names => name.entry next :: numberedNames (next + 1) names

theorem eq_numberedNames {next : Nat} {names : List PoolName} {entries : List NameEntry}
    (h : numberNames next names = .ok entries) : entries = numberedNames next names := by
  induction names generalizing next entries with
  | nil => exact (Except.ok.inj h).symm
  | cons name names ih =>
    rw [numberNames] at h
    split_ifs at h with hnext
    obtain ⟨rest, hrest, rfl⟩ := map_eq_ok_iff.1 h
    rw [ih hrest]
    rfl

theorem numberedNames_append (next : Nat) (first second : List PoolName) :
    numberedNames next (first ++ second) =
      numberedNames next first ++ numberedNames (next + first.length) second := by
  induction first generalizing next with
  | nil => rfl
  | cons name names ih =>
    have hnext : next + (name :: names).length = next + 1 + names.length := by
      rw [List.length_cons]
      omega
    rw [List.cons_append, numberedNames, numberedNames, ih, hnext, List.cons_append]

theorem length_numberedNames (next : Nat) (names : List PoolName) :
    (numberedNames next names).length = names.length := by
  induction names generalizing next with
  | nil => rfl
  | cons name names ih => rw [numberedNames, List.length_cons, List.length_cons, ih]

/-- What does not depend on the ids can be read off the names. -/
theorem map_numberedNames {β : Type} {f : NameEntry → β} {g : PoolName → β}
    (h : ∀ name id, f (name.entry id) = g name) (next : Nat) (names : List PoolName) :
    (numberedNames next names).map f = names.map g := by
  induction names generalizing next with
  | nil => rfl
  | cons name names ih => rw [numberedNames, List.map_cons, List.map_cons, h, ih]

theorem exists_of_mem_numberedNames {next : Nat} {names : List PoolName} {entry : NameEntry}
    (h : entry ∈ numberedNames next names) :
    ∃ name ∈ names, ∃ id, entry = name.entry id := by
  induction names generalizing next with
  | nil => cases h
  | cons name names ih =>
    rcases List.mem_cons.1 h with rfl | h
    · exact ⟨name, List.mem_cons_self, next, rfl⟩
    · obtain ⟨other, hother, hentry⟩ := ih h
      exact ⟨other, List.mem_cons_of_mem _ hother, hentry⟩

theorem id_entry (name : PoolName) {id : Nat} (h : id ≤ 255) : (name.entry id).id.toNat = id :=
  UInt8.toNat_ofNat_of_lt' (Nat.lt_succ_of_le h)

theorem ids_numberedNames {next : Nat} {names : List PoolName} (h : next + names.length ≤ 255) :
    (numberedNames next names).map (fun entry => entry.id.toNat) =
      List.range' next names.length := by
  induction names generalizing next with
  | nil => rfl
  | cons name names ih =>
    rw [List.length_cons] at h
    rw [numberedNames, List.map_cons, id_entry name (by omega), ih (by omega), List.length_cons,
      List.range'_succ]

theorem idSymbol_entry (name : PoolName) (id : Nat) :
    (name.entry id).idSymbol = name.node.label ++ (name.slot.ending ++ "Id") :=
  String.append_assoc

theorem Node.poolNames_of_blank {node : Node} (h : node.isBlank = true) : node.poolNames = [] :=
  if_pos h

theorem Node.poolNames_eq {node : Node} (h : node.isBlank = false) : node.poolNames =
    ⟨node, .primary, node.info.name⟩ ::
      (node.altName?.map fun altName => ⟨node, .alternate, altName⟩).toList :=
  if_neg (by simp [h])

theorem node_of_mem_poolNames {node : Node} {name : PoolName} (h : name ∈ node.poolNames) :
    name.node = node ∧ node.isBlank = false := by
  cases hblank : node.isBlank with
  | true =>
    rw [Node.poolNames_of_blank hblank] at h
    cases h
  | false =>
    refine ⟨?_, rfl⟩
    rw [Node.poolNames_eq hblank] at h
    rcases List.mem_cons.1 h with rfl | h
    · rfl
    · rw [Option.mem_toList, Option.map_eq_some_iff] at h
      obtain ⟨altName, -, rfl⟩ := h
      rfl

/-- The entries of the pool with the given label. -/
def Table.namesOf (table : Table) (label : String) : List NameEntry :=
  table.names.filter fun entry => entry.label = label

/-! ## Tables of finished menus -/

/-- A table has been laid out for a finished menu. -/
structure Table.LaidOut (table : Table) (file : MenuFile) : Prop where
  finished : file.Finished
  pool : namePool file.root = .ok table.names
  entries_eq : table.entries = file.root.events.map (Event.entry file.config)

theorem laidOut_of_compile {options : CompileOptions} {source : String} {compilation : Compilation}
    (h : compile options source = .ok compilation) :
    compilation.table.LaidOut compilation.file := by
  obtain ⟨parsed, -, hpasses, hfile, -, htable⟩ := passes_of_compile h
  obtain ⟨hpool, hentries⟩ := ofFile_eq_ok_iff.1 htable
  refine ⟨?_, hpool, hentries⟩
  rw [hfile]
  exact finished_of_passes hpasses

namespace Table.LaidOut

variable {table : Table} {file : MenuFile} {node slot : Node}

theorem records_eq (h : table.LaidOut file) : table.records =
    file.root.visits.map fun visit => NodeRecord.ofNode file.config visit.1 visit.2 := by
  rw [SoftMenu.records_eq h.entries_eq, Node.visits, List.map_filterMap]
  refine List.filterMap_congr fun event _ => ?_
  cases event <;> rfl

/-- The group that a tour meets a node in is the group whose id the node carries. -/
theorem parentId_of_visit (h : table.LaidOut file) {visit : Node × Option Node}
    (hvisit : visit ∈ file.root.visits) : ∀ group ∈ visit.2, visit.1.parentId = group.id := by
  intro group hgroup
  obtain ⟨hmem, hslot⟩ := Node.parent_of_visit hvisit group hgroup
  exact h.finished.linked group hmem visit.1 hslot

theorem describes_of_visit (h : table.LaidOut file) {visit : Node × Option Node}
    (hvisit : visit ∈ file.root.visits) :
    (NodeRecord.ofNode file.config visit.1 visit.2).Describes visit.1 :=
  describes_ofNode (h.parentId_of_visit hvisit)

theorem labels_eq (h : table.LaidOut file) :
    table.records.map NodeRecord.label = file.root.flatten.map Node.label := by
  rw [h.records_eq, ← Node.map_fst_visits, List.map_map, List.map_map]
  exact List.map_congr_left fun visit hvisit => (h.describes_of_visit hvisit).label_eq

theorem labels_nodup (h : table.LaidOut file) : (table.records.map NodeRecord.label).Nodup := by
  rw [h.labels_eq]
  exact h.finished.labels_nodup

theorem id_ne_nullId (h : table.LaidOut file) (hnode : node ∈ file.root.flatten) :
    node.id ≠ nullId := by
  have hmem := List.mem_map_of_mem (f := fun node : Node => node.id.toNat) hnode
  rw [h.finished.ids_eq, List.mem_range'_1] at hmem
  intro hid
  rw [hid] at hmem
  exact absurd hmem.1 (by decide)

theorem label_ne_nullLabel (h : table.LaidOut file) (hnode : node ∈ file.root.flatten) :
    node.label ≠ nullLabel :=
  h.finished.label_ne hnode (by decide) (by decide)

/-- A tour meets every slot in the group that it is a slot of. -/
theorem visit_of_mem_slots (h : table.LaidOut file) (hnode : node ∈ file.root.flatten)
    (hslot : slot ∈ node.slots) : (slot, some node) ∈ file.root.visits := by
  have hmem := Node.mem_flatten_of_mem_slots hnode hslot
  have hid := h.finished.linked node hnode slot hslot
  rw [← Node.map_fst_visits, List.mem_map] at hmem
  obtain ⟨⟨_, parent⟩, hvisit, rfl⟩ := hmem
  have hcopy := hvisit
  rw [Node.visits_eq] at hcopy
  rcases List.mem_cons.1 hcopy with hroot | hbelow
  · -- The root carries the null id, which no group has.
    cases hroot
    rw [h.finished.root_parentId] at hid
    exact absurd hid.symm (h.id_ne_nullId hnode)
  · obtain ⟨group, hgroup, hparent, hother⟩ := Node.exists_group_of_visit hbelow
    have hsame := h.finished.eq_of_id hgroup hnode
      ((h.finished.linked group hgroup _ hother).symm.trans hid)
    rw [← hsame, ← hparent]
    exact hvisit

theorem names_eq (h : table.LaidOut file) :
    table.names = numberedNames 1 (file.root.flatten.flatMap Node.poolNames) :=
  eq_numberedNames h.pool

/-- What depends on the label and the slot only can be listed node by node. -/
theorem map_names {β : Type} (h : table.LaidOut file) {f : NameEntry → β}
    {g : String → NameSlot → β} (hf : ∀ entry, f entry = g entry.label entry.slot) :
    table.names.map f = file.root.flatten.flatMap fun node =>
      node.poolNames.map fun name => g node.label name.slot := by
  have hentry : ∀ (name : PoolName) (id : Nat),
      f (name.entry id) = g name.node.label name.slot := fun name id => hf (name.entry id)
  rw [h.names_eq, map_numberedNames hentry, List.map_flatMap]
  refine List.flatMap_congr fun node _ => List.map_congr_left fun name hname => ?_
  rw [(node_of_mem_poolNames hname).1]

theorem length_poolNames_le (h : table.LaidOut file) :
    (file.root.flatten.flatMap Node.poolNames).length ≤ 254 :=
  (namePool_eq_ok_iff file.root).1 ⟨_, h.pool⟩

theorem ids_names (h : table.LaidOut file) : (table.names.map fun entry => entry.id.toNat) =
    List.range' 1 table.names.length := by
  have hroom := h.length_poolNames_le
  rw [h.names_eq, length_numberedNames]
  exact ids_numberedNames (by omega)

/-- The entries with the label of a node are those of its names, with ids in a row. -/
theorem namesOf_eq (h : table.LaidOut file) (hnode : node ∈ file.root.flatten) :
    ∃ next, next + node.poolNames.length ≤ 255 ∧
      table.namesOf node.label = numberedNames next node.poolNames := by
  obtain ⟨before, after, hflatten⟩ := List.append_of_mem hnode
  have hnodup := h.finished.labels_nodup
  have hlength := h.length_poolNames_le
  have hnames := h.names_eq
  rw [hflatten] at hnodup hlength hnames
  rw [List.map_append, List.map_cons, List.nodup_middle, List.nodup_cons, ← List.map_append]
    at hnodup
  rw [List.flatMap_append, List.flatMap_cons] at hlength hnames
  rw [numberedNames_append, numberedNames_append] at hnames
  -- Entries for other nodes have other labels.
  have hothers : ∀ others next, others ⊆ before ++ after →
      (numberedNames next (others.flatMap Node.poolNames)).filter
        (fun entry => entry.label = node.label) = [] := by
    intro others next hothers
    refine List.filter_eq_nil_iff.2 fun entry hentry hlabel => hnodup.1 ?_
    obtain ⟨name, hname, id, rfl⟩ := exists_of_mem_numberedNames hentry
    obtain ⟨other, hother, hname⟩ := List.mem_flatMap.1 hname
    refine List.mem_map.2 ⟨other, hothers hother, ?_⟩
    rw [← (node_of_mem_poolNames hname).1]
    exact of_decide_eq_true hlabel
  have hown : ∀ next, (numberedNames next node.poolNames).filter
      (fun entry => entry.label = node.label) = numberedNames next node.poolNames := by
    intro next
    refine List.filter_eq_self.2 fun entry hentry => ?_
    obtain ⟨name, hname, id, rfl⟩ := exists_of_mem_numberedNames hentry
    rw [PoolName.entry, (node_of_mem_poolNames hname).1]
    exact decide_eq_true rfl
  refine ⟨1 + (before.flatMap Node.poolNames).length, ?_, ?_⟩
  · rw [List.length_append, List.length_append] at hlength
    omega
  · rw [Table.namesOf, hnames, List.filter_append, List.filter_append,
      hothers before _ (List.subset_append_left _ _), hown,
      hothers after _ (List.subset_append_right _ _), List.nil_append, List.append_nil]

/-- Every name is that of a node which is not blank. -/
theorem exists_node_of_name (h : table.LaidOut file) {entry : NameEntry}
    (hentry : entry ∈ table.names) :
    ∃ node ∈ file.root.flatten, node.isBlank = false ∧ entry.label = node.label := by
  rw [h.names_eq] at hentry
  obtain ⟨name, hname, id, rfl⟩ := exists_of_mem_numberedNames hentry
  obtain ⟨node, hnode, hname⟩ := List.mem_flatMap.1 hname
  obtain ⟨rfl, hblank⟩ := node_of_mem_poolNames hname
  exact ⟨name.node, hnode, hblank, rfl⟩

end Table.LaidOut

/-! ## References -/

/-- What the record of a node refers to is there. A record is looked up by label and id, the names
of a record are those with its label. -/
structure Table.Resolves (table : Table) (record : NodeRecord) (node : Node) : Prop where
  label_eq : record.label = node.label
  id_eq : record.id = node.id
  parentId_eq : record.parentId = node.parentId
  firstSlot : node.kind = .group → ∃ slot ∈ table.records,
    record.rowBegin = .firstSlot slot.label slot.id ∧
      slot.parentLabel = record.label ∧ slot.parentId = record.id
  blank : node.isBlank = true → table.namesOf record.label = []
  single : node.isBlank = false → node.kind ≠ .altItem → ∃ primary,
    table.namesOf record.label = [primary] ∧ primary.slot = .primary ∧
      record.nameId = primary.idSymbol
  double : node.kind = .altItem → ∃ primary alternate,
    table.namesOf record.label = [primary, alternate] ∧ primary.slot = .primary ∧
      alternate.slot = .alternate ∧ record.nameId = primary.idSymbol ∧
      record.rowBegin = .altName alternate.idSymbol ∧
      alternate.id.toNat = primary.id.toNat + 1

theorem parentLabel_ofNode (config : Config) (node : Node) (parent : Option Node) :
    (NodeRecord.ofNode config node parent).parentLabel =
      (parent.map Node.label).getD nullLabel := by
  cases node with
  | item info => rw [NodeRecord.ofNode]; split_ifs <;> rfl
  | altItem info altName => rfl
  | group info rows => rfl

theorem nameId_ofNode {config : Config} {node : Node} {parent : Option Node}
    (h : node.isBlank = false) :
    (NodeRecord.ofNode config node parent).nameId = node.label ++ "NameId" := by
  cases node with
  | item info => rw [NodeRecord.ofNode, if_neg (by simp [h])]
  | altItem info altName => rfl
  | group info rows => rfl

namespace Table.LaidOut

variable {table : Table} {file : MenuFile} {node slot : Node} {parent : Option Node}

theorem mem_records_of_visit (h : table.LaidOut file) (hvisit : (node, parent) ∈ file.root.visits) :
    .ofNode file.config node parent ∈ table.records := by
  rw [h.records_eq]
  exact List.mem_map_of_mem hvisit

theorem exists_record (h : table.LaidOut file) (hnode : node ∈ file.root.flatten) :
    ∃ record ∈ table.records, record.label = node.label ∧ record.id = node.id := by
  rw [← Node.map_fst_visits, List.mem_map] at hnode
  obtain ⟨⟨_, parent⟩, hvisit, rfl⟩ := hnode
  have hdescribes := h.describes_of_visit hvisit
  exact ⟨_, h.mem_records_of_visit hvisit, hdescribes.label_eq, hdescribes.id_eq⟩

/-- The record of a group refers to the record of its first slot, which refers to the group. -/
theorem exists_firstSlot_of_visit (h : table.LaidOut file)
    (hvisit : (node, parent) ∈ file.root.visits) (hkind : node.kind = .group) :
    ∃ slot ∈ table.records,
      (NodeRecord.ofNode file.config node parent).rowBegin = .firstSlot slot.label slot.id ∧
        slot.parentLabel = node.label ∧ slot.parentId = node.id := by
  have hnode := Node.mem_flatten_of_visit hvisit
  obtain ⟨slot, slots, hfirst, hslots⟩ := (h.finished.full node hnode).exists_firstSlot hkind
  have hslot : slot ∈ node.slots := by
    rw [hslots]
    exact List.mem_cons_self
  have hslotVisit := h.visit_of_mem_slots hnode hslot
  have hslotDescribes := h.describes_of_visit hslotVisit
  refine ⟨_, h.mem_records_of_visit hslotVisit, ?_, parentLabel_ofNode _ _ _, ?_⟩
  · rw [((h.describes_of_visit hvisit).group hkind).1, RowBegin.ofGroup, hfirst,
      hslotDescribes.label_eq, hslotDescribes.id_eq]
  · rw [hslotDescribes.parentId_eq]
    exact h.finished.linked node hnode slot hslot

theorem resolves_of_visit (h : table.LaidOut file) (hvisit : (node, parent) ∈ file.root.visits) :
    table.Resolves (.ofNode file.config node parent) node := by
  have hnode := Node.mem_flatten_of_visit hvisit
  have hdescribes := h.describes_of_visit hvisit
  obtain ⟨next, hnext, hnames⟩ := h.namesOf_eq hnode
  rw [← hdescribes.label_eq] at hnames
  refine ⟨hdescribes.label_eq, hdescribes.id_eq, hdescribes.parentId_eq, ?_, ?_, ?_, ?_⟩
  · intro hkind
    rw [hdescribes.label_eq, hdescribes.id_eq]
    exact h.exists_firstSlot_of_visit hvisit hkind
  · intro hblank
    rw [hnames, Node.poolNames_of_blank hblank, numberedNames]
  · intro hblank hkind
    have haltName : node.altName? = none := by
      by_contra haltName
      obtain ⟨info, altName, rfl⟩ := Node.eq_altItem_of_altName? haltName
      exact hkind rfl
    rw [Node.poolNames_eq hblank, haltName] at hnames
    refine ⟨_, hnames, rfl, ?_⟩
    rw [nameId_ofNode hblank, idSymbol_entry]
    rfl
  · intro hkind
    have hblank := h.finished.isBlank_eq_false hnode (by simp [hkind])
    cases node with
    | item info => cases hkind
    | group info rows => cases hkind
    | altItem info altName =>
      rw [Node.poolNames_eq hblank] at hnames hnext
      have hroom : next + 2 ≤ 255 := hnext
      refine ⟨_, _, hnames, rfl, rfl, ?_, ?_, ?_⟩
      · rw [nameId_ofNode hblank, idSymbol_entry]
        rfl
      · rw [idSymbol_entry]
        rfl
      · rw [id_entry _ (by omega), id_entry _ (by omega)]

/-- The root belongs to no group. Every other node belongs to one, and that has a record. -/
theorem exists_parent_of_visit (h : table.LaidOut file)
    (hvisit : (node, parent) ∈ file.root.eventsBelow.filterMap Event.visit?) :
    ∃ group ∈ table.records, group.label ≠ nullLabel ∧ group.id ≠ nullId ∧
      (NodeRecord.ofNode file.config node parent).parentLabel = group.label ∧
      (NodeRecord.ofNode file.config node parent).parentId = group.id := by
  obtain ⟨group, hgroup, rfl, hslot⟩ := Node.exists_group_of_visit hvisit
  obtain ⟨record, hrecord, hlabel, hid⟩ := h.exists_record hgroup
  have hdescribes := h.describes_of_visit (h.visit_of_mem_slots hgroup hslot)
  refine ⟨record, hrecord, ?_, ?_, ?_, ?_⟩
  · rw [hlabel]
    exact h.label_ne_nullLabel hgroup
  · rw [hid]
    exact h.id_ne_nullId hgroup
  · rw [parentLabel_ofNode, hlabel]
    rfl
  · rw [hdescribes.parentId_eq, hid]
    exact h.finished.linked group hgroup node hslot

end Table.LaidOut

/-- All references of a table lead to what they should, for a table with one record for each node of
a tree in hybrid order. The first record is that of the root; it alone has no group. -/
structure Table.Consistent (table : Table) (root : Node) : Prop where
  labels_nodup : (table.records.map NodeRecord.label).Nodup
  resolves : List.Forall₂ table.Resolves table.records root.flatten
  parents : ∃ first others, table.records = first :: others ∧
    first.parentLabel = nullLabel ∧ first.parentId = nullId ∧
      ∀ record ∈ others, record.parentLabel ≠ nullLabel ∧ record.parentId ≠ nullId ∧
        ∃ group ∈ table.records, record.parentLabel = group.label ∧ record.parentId = group.id
  names : ∀ entry ∈ table.names, ∃ record,
    (table.records.filter fun record => record.label = entry.label) = [record]

/-- The table of a compiled menu is consistent. -/
theorem consistent_of_compile {options : CompileOptions} {source : String}
    {compilation : Compilation} (h : compile options source = .ok compilation) :
    compilation.table.Consistent compilation.file.root := by
  have hlaid := laidOut_of_compile h
  generalize compilation.table = table at hlaid ⊢
  generalize compilation.file = file at hlaid ⊢
  refine ⟨hlaid.labels_nodup, ?_, ?_, ?_⟩
  · rw [← Node.map_fst_visits, hlaid.records_eq, List.forall₂_map_left_iff,
      List.forall₂_map_right_iff, List.forall₂_same]
    exact fun visit hvisit => hlaid.resolves_of_visit hvisit
  · have hvisit : (file.root, none) ∈ file.root.visits := List.mem_cons_self
    have hroot := hlaid.describes_of_visit hvisit
    refine ⟨_, _, hlaid.records_eq, parentLabel_ofNode _ _ _, ?_, ?_⟩
    · rw [hroot.parentId_eq]
      exact hlaid.finished.root_parentId
    · rw [List.forall_mem_map]
      intro visit hvisit
      obtain ⟨group, hgroup, hlabelNe, hidNe, hlabel, hid⟩ := hlaid.exists_parent_of_visit hvisit
      rw [hlabel, hid]
      exact ⟨hlabelNe, hidNe, group, hgroup, rfl, rfl⟩
  · intro entry hentry
    obtain ⟨node, hnode, -, hlabel⟩ := hlaid.exists_node_of_name hentry
    obtain ⟨record, hrecord, hrecordLabel, -⟩ := hlaid.exists_record hnode
    -- The labels are different, so to have the label of the record is to be the record.
    have hsame : ∀ other ∈ table.records,
        decide (other.label = entry.label) = decide (other = record) := by
      intro other hother
      refine decide_eq_decide.2 ⟨fun hother' => ?_, fun heq => ?_⟩
      · refine List.inj_on_of_nodup_map hlaid.labels_nodup hother hrecord ?_
        rw [hother', hlabel, hrecordLabel]
      · rw [heq, hrecordLabel, hlabel]
    have hnodup := List.Nodup.of_map _ hlaid.labels_nodup
    refine ⟨record, ?_⟩
    rw [List.filter_congr hsame, List.filter_eq, List.count_eq_one_of_mem hnodup hrecord]
    rfl

/-- A menu with groups, with both kinds of items, and with blanks that were declared or filled
in. -/
theorem consistent_of_compile_nested :
    ∃ compilation, compile ⟨"menu", .strict, false⟩ nestedMenu = .ok compilation ∧
      compilation.table.Consistent compilation.file.root := by
  obtain ⟨compilation, hcompile⟩ := exists_compile_nestedMenu
  exact ⟨compilation, hcompile, consistent_of_compile hcompile⟩

end SoftMenu
