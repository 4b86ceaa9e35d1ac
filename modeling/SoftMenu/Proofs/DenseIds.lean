import SoftMenu.Proofs.Decoding
import SoftMenu.Proofs.Finished
import SoftMenu.Proofs.RegistryRuns

/-!
# Dense numbering

Ids are handed out from one counter, so a menu that has been numbered can be described in one line:
each node is the declared one, stamped with its position in hybrid order (`Registry.sweep_value`).
The slots of a group stand next to each other in this order and therefore have ids in a row. The
registry has noted the label of every node that is not blank, with the id of the node
(`Registry.sweep_labels`).

All this holds for any tree that can be numbered, with rows of any length.
-/

namespace SoftMenu

/-! ## Sweeps -/

/-- What is noted about the label of a node. -/
def Node.labelEntry (node : Node) : String × LabelUse := (node.label, ⟨node.id, node.place.line⟩)

theorem Node.isBlank_stamp (id parentId : UInt8) (node : Node) :
    (node.stamp id parentId).isBlank = node.isBlank := by
  unfold Node.isBlank Node.name Node.stamp
  rw [Node.info_mapInfo]

theorem Node.labelEntry_stamp {id parentId : UInt8} {node : Node} (h : node.isBlank = false) :
    (node.stamp id parentId).labelEntry = (node.label, ⟨id, node.place.line⟩) := by
  simp [Node.stamp, Node.labelEntry, Node.label, Node.id, Node.place, h]

theorem map_mapIdx {α β γ : Type} (f : Nat → α → β) (g : β → γ) (members : List α) :
    (members.mapIdx f).map g = members.mapIdx fun i member => g (f i member) := by
  refine List.ext_getElem? fun i => ?_
  simp [List.getElem?_mapIdx, Function.comp_def]

namespace Registry

variable {registry : Registry} {nodes : List Node}

/-- The nodes are stamped with the ids that follow each other. -/
theorem sweep_value (h : (sweep (visitor nullId) nodes registry).halt = none) :
    (sweep (visitor nullId) nodes registry).value =
      nodes.mapIdx fun i node => node.stamp (.ofNat (i + registry.nextId)) nullId := by
  induction nodes generalizing registry with
  | nil => rfl
  | cons node nodes ih =>
    cases hnode : (visitor nullId node registry).halt with
    | none =>
      have hnext : (visitor nullId node registry).state.nextId = registry.nextId + 1 := by
        rw [visitor_state hnode]
      rw [sweep_cons_of_none hnode] at h ⊢
      rw [List.mapIdx_cons, Nat.zero_add, ← visitor_value hnode]
      refine congrArg (_ :: ·) ((ih h).trans ?_)
      simp only [hnext, Nat.add_right_comm, Nat.add_assoc]
    | some error =>
      rw [sweep_cons_of_some hnode] at h
      exact absurd (hnode.symm.trans h) (by simp)

/-- The labels of the nodes that are not blank have been noted, the last one first. -/
theorem sweep_labels (h : (sweep (visitor nullId) nodes registry).halt = none) :
    (sweep (visitor nullId) nodes registry).state.labels =
      ((active Node.isBlank (sweep (visitor nullId) nodes registry).value).map
        Node.labelEntry).reverse ++ registry.labels := by
  induction nodes generalizing registry with
  | nil => rfl
  | cons node nodes ih =>
    cases hnode : (visitor nullId node registry).halt with
    | none =>
      have hstate := visitor_state hnode
      have hvalue := visitor_value hnode
      rw [sweep_cons_of_none hnode] at h ⊢
      refine (ih h).trans ?_
      simp only [Outcome.map, hstate]
      cases hblank : node.isBlank with
      | true =>
        have hidle : (visitor nullId node registry).value.isBlank = true := by
          rw [hvalue, Node.isBlank_stamp, hblank]
        simp [active, hidle]
      | false =>
        have hidle : (visitor nullId node registry).value.isBlank = false := by
          rw [hvalue, Node.isBlank_stamp, hblank]
        have hentry : (visitor nullId node registry).value.labelEntry =
            (node.label, ⟨.ofNat registry.nextId, node.place.line⟩) := by
          rw [hvalue, Node.labelEntry_stamp hblank]
        simp [active, hidle, hentry]
    | some error =>
      rw [sweep_cons_of_some hnode] at h
      exact absurd (hnode.symm.trans h) (by simp)

end Registry

/-! ## Labels and names of a numbered menu -/

section AssignIds

variable {policy : DuplicatePolicy} {file : MenuFile}

/-- Apart from the ids of the groups, the nodes are stamped with their positions. -/
theorem stamped_assignIds (h : (assignIds policy file).halt = none) :
    (assignIds policy file).value.root.flatten.map Node.unlinked =
      file.root.flatten.mapIdx fun i node =>
        (node.stamp (.ofNat (i + rootId)) nullId).unlinked := by
  have hview := (alike_assignIds policy file).view_eq
  rw [active_false] at hview
  rw [(alike_assignIds policy file).halt_eq] at h
  rw [hview, Registry.sweep_value h, map_mapIdx]

/-- The labels of a numbered menu are known, with the ids and lines of their nodes. -/
theorem labels_assignIds (h : (assignIds policy file).halt = none) :
    (assignIds policy file).state.labels =
      ((active Node.isBlank (assignIds policy file).value.root.flatten).map
        Node.labelEntry).reverse := by
  have hview := (alike_assignIds policy file).view_eq
  rw [active_false] at hview
  have hactive := map_active_isBlank_of_map (fun face => face.info.name.text = blankMark)
    (fun _ => rfl) (fun _ => rfl) hview
  have hentries := map_part hactive fun face =>
    ((face.info.label, ⟨face.info.id, face.info.place.line⟩) : String × LabelUse)
  rw [(alike_assignIds policy file).halt_eq] at h
  rw [(alike_assignIds policy file).state_eq, Registry.sweep_labels h, List.append_nil]
  exact congrArg List.reverse hentries.symm

/-- A label is found in a registry exactly if it has been noted. -/
theorem idOfLabel?_assignIds (h : (assignIds policy file).halt = none) (label : String)
    (id : UInt8) :
    (assignIds policy file).state.idOfLabel? label = some id ↔
      ∃ node ∈ (assignIds policy file).value.root.flatten,
        node.isBlank = false ∧ node.label = label ∧ node.id = id := by
  have hlabels := labels_assignIds h
  have hnodup : ((assignIds policy file).state.labels.map Prod.fst).Nodup := by
    have hknows := knows_assignIds h
    rw [hknows.labels_eq, List.nodup_reverse, List.nodup_iff_pairwise_ne, List.pairwise_map]
    exact hknows.registrable.pairwise.imp fun hpair => hpair.label
  rw [Registry.idOfLabel?, Option.map_eq_some_iff]
  constructor
  · rintro ⟨use, huse, rfl⟩
    have hmem := mem_of_lookup huse
    rw [hlabels, List.mem_reverse, List.mem_map] at hmem
    obtain ⟨node, hnode, hentry⟩ := hmem
    obtain ⟨hnode, hblank⟩ := mem_active.1 hnode
    cases hentry
    exact ⟨node, hnode, hblank, rfl, rfl⟩
  · rintro ⟨node, hnode, hblank, rfl, rfl⟩
    have hentry : node.labelEntry ∈ (assignIds policy file).state.labels := by
      rw [hlabels, List.mem_reverse]
      exact List.mem_map_of_mem (mem_active.2 ⟨hnode, hblank⟩)
    cases huse : (assignIds policy file).state.labels.lookup node.label with
    | none => exact absurd (List.lookup_eq_none_iff.1 huse _ hentry) (by simp [Node.labelEntry])
    | some use =>
      have hsame := List.inj_on_of_nodup_map hnodup (mem_of_lookup huse) hentry rfl
      exact ⟨use, rfl, congrArg (fun entry => entry.2.id) hsame⟩

/-- A name is known by the kind of its first user. -/
theorem kindOfName?_assignIds (h : (assignIds policy file).halt = none) (name : String) :
    (assignIds policy file).state.kindOfName? name =
      ((active Node.isBlank (assignIds policy file).value.root.flatten).find? fun node =>
        node.name = name).map Node.kind := by
  have hactive := map_active_isBlank_of_map (fun content => content.1.text = blankMark)
    (fun _ => rfl) (fun _ => rfl) (content_assignIds policy file)
  have hfind : ∀ nodes : List Node, (nodes.find? fun node => node.name = name).map Node.kind =
      ((nodes.map Node.content).find? fun content => content.1.text = name).map
        fun content => content.2.1 := by
    intro nodes
    rw [List.find?_map, Option.map_map]
    rfl
  rw [(knows_assignIds h).kindOfName_eq, hfind, hfind, hactive]

end AssignIds

/-! ## Runs of ids -/

/-- If the ids of a tree follow the hybrid order, those of the slots of a node follow each other. -/
theorem exists_run_ids {root group : Node} {start : Nat}
    (h : root.flatten.map (fun node => node.id.toNat) = List.range' start root.flatten.length)
    (hgroup : group ∈ root.flatten) :
    ∃ first, group.slots.map (fun slot => slot.id.toNat) =
      List.range' first group.slots.length := by
  obtain ⟨before, middle, after, hrun⟩ := Node.exists_run_flatten hgroup
  rw [hrun] at h
  obtain ⟨-, hrest⟩ := map_eq_range'_of_append h
  rw [← List.singleton_append] at hrest
  obtain ⟨-, hrest⟩ := map_eq_range'_of_append hrest
  obtain ⟨-, hrest⟩ := map_eq_range'_of_append hrest
  obtain ⟨hslots, -⟩ := map_eq_range'_of_append hrest
  exact ⟨_, hslots⟩

/-- In a group with five slots in every row the ids of the slots can be computed. -/
theorem id_eq_of_rowSlots {group : Node} {first : Nat}
    (h : group.slots.map (fun slot => slot.id.toNat) = List.range' first group.slots.length)
    (hfull : ∀ row ∈ group.rows, row.slots.length = 5) {r k : Nat} {row : Row Node}
    {slot : Node} (hrow : group.rows[r]? = some row) (hslot : row.slots[k]? = some slot) :
    slot.id.toNat = group.rowBeginId.toNat + 5 * r + k := by
  have hids := slotIds_eq hfull h
  have hat : ∀ {r k : Nat} {row : Row Node} {slot : Node}, group.rows[r]? = some row →
      row.slots[k]? = some slot → slot.id.toNat = first + 5 * r + k := by
    intro r k row slot hrow hslot
    have hr := (List.getElem?_eq_some_iff.1 hrow).1
    have hk := (List.getElem?_eq_some_iff.1 hslot).1
    rw [hfull row (List.mem_of_getElem? hrow)] at hk
    have hrowIds : (slotIds first group.rows.length)[r]? =
        some (row.slots.map fun slot => slot.id.toNat) := by
      rw [hids, List.getElem?_map, hrow]
      rfl
    rw [slotIds, List.getElem?_map, List.getElem?_range hr, Option.map_some] at hrowIds
    have hslotId := congrArg (fun ids => ids[k]?) (Option.some.inj hrowIds)
    simp only [List.getElem?_map, List.getElem?_range hk, hslot, Option.map_some] at hslotId
    exact (Option.some.inj hslotId).symm
  have hbegin : group.rowBeginId.toNat = first := by
    obtain ⟨hr, -⟩ := List.getElem?_eq_some_iff.1 hrow
    obtain ⟨top, htop⟩ : ∃ top, group.rows[0]? = some top :=
      ⟨_, List.getElem?_eq_getElem (by omega)⟩
    have hwidth := hfull top (List.mem_of_getElem? htop)
    obtain ⟨head, hhead⟩ : ∃ head, top.slots[0]? = some head :=
      ⟨_, List.getElem?_eq_getElem (by omega)⟩
    have hfirst : group.rowBeginId = head.id := by
      rw [Node.rowBeginId, Node.firstSlot?, List.head?_eq_getElem?, htop, Option.bind_some,
        List.head?_eq_getElem?, hhead]
      rfl
    rw [hfirst]
    exact hat htop hhead
  rw [hbegin]
  exact hat hrow hslot

/-! ## Numbered menus -/

/-- A tree is numbered without gaps in hybrid order, and the registry answers for its nodes. -/
structure Registry.Numbers (registry : Registry) (root : Node) : Prop where
  id : ∀ i node, root.flatten[i]? = some node → node.id.toNat = i + 1
  root_parentId : root.parentId = nullId
  parentId : ∀ group ∈ root.flatten, ∀ slot ∈ group.slots, slot.parentId = group.id
  /-- The slots of a group have ids in a row. -/
  run : ∀ group ∈ root.flatten, ∃ first,
    group.slots.map (fun slot => slot.id.toNat) = List.range' first group.slots.length
  grid : ∀ group ∈ root.flatten, (∀ row ∈ group.rows, row.slots.length = 5) →
    ∀ r k row slot, group.rows[r]? = some row → row.slots[k]? = some slot →
      slot.id.toNat = group.rowBeginId.toNat + 5 * r + k
  nodeCount : registry.nodeCount = root.flatten.length
  /-- A label is known exactly by the id of a node that is not blank. -/
  idOfLabel : ∀ label id, registry.idOfLabel? label = some id ↔
    ∃ node ∈ root.flatten, node.isBlank = false ∧ node.label = label ∧ node.id = id
  /-- A name is known by the kind of the first node with the name that is not blank. -/
  kindOfName : ∀ name, registry.kindOfName? name =
    ((active Node.isBlank root.flatten).find? fun node => node.name = name).map Node.kind

/-- Numbering is dense on any tree: with rows of any length, and also if the root is a leaf. Apart
from the ids of the groups, each node is the declared one with the stamp of its position. -/
theorem numbers_of_assignIds {policy : DuplicatePolicy} {file : MenuFile}
    (h : (assignIds policy file).halt = none) :
    (assignIds policy file).state.Numbers (assignIds policy file).value.root ∧
    (assignIds policy file).value.config = file.config ∧
    (assignIds policy file).value.root.flatten.map Node.unlinked =
      file.root.flatten.mapIdx fun i node =>
        (node.stamp (.ofNat (i + 1)) nullId).unlinked := by
  obtain ⟨hroot, hlinked⟩ := linked_assignIds h
  have hids := toNat_ids_assignIds h
  have hlength : (assignIds policy file).value.root.flatten.length = file.root.flatten.length := by
    simpa using congrArg List.length hids
  rw [← hlength] at hids
  refine ⟨⟨fun i node hnode => ?_, hroot, hlinked, fun group => exists_run_ids hids, ?_, ?_,
    idOfLabel?_assignIds h, kindOfName?_assignIds h⟩, rfl, stamped_assignIds h⟩
  · have hid := congrArg (fun ids => ids[i]?) hids
    have hi := (List.getElem?_eq_some_iff.1 hnode).1
    simp only [List.getElem?_map, hnode, Option.map_some, List.getElem?_range' hi] at hid
    rw [Option.some.inj hid, rootId]
    omega
  · intro group hgroup hfull r k row slot hrow hslot
    obtain ⟨first, hfirst⟩ := exists_run_ids hids hgroup
    exact id_eq_of_rowSlots hfirst hfull hrow hslot
  · rw [nodeCount_assignIds h, hlength]

/-- Rows with two slots, none and two, a group among them with a row of five, and two blanks. -/
def raggedMenu : MenuFile :=
  let place : Place := ⟨1, .empty 0⟩
  let item (name label : String) : Node := .item { name := ⟨name, none⟩, label, place }
  let group (name label : String) (rows : List (List Node)) : Node :=
    .group { name := ⟨name, none⟩, label, place } (rows.map fun slots => ⟨slots, place⟩)
  let five := [item "A" "m1", item "B" "m2", item "C" "m3", .blank place, item "A" "m4"]
  ⟨{}, group "Top" "mTop" [[item "A" "mA", .blank place], [], [group "Sub" "mSub" [five],
    .altItem { name := ⟨"D", none⟩, label := "mD", place } ⟨"E", none⟩]]⟩

theorem numbers_of_assignIds_ragged :
    (assignIds .sameKindLeaves raggedMenu).halt = none ∧
    raggedMenu.root.flatten.length = 10 ∧
    (assignIds .sameKindLeaves raggedMenu).state.Numbers
      (assignIds .sameKindLeaves raggedMenu).value.root := by
  have hhalt : (assignIds .sameKindLeaves raggedMenu).halt = none := by decide +kernel
  exact ⟨hhalt, by decide +kernel, (numbers_of_assignIds hhalt).1⟩

end SoftMenu
