import Mathlib.Data.List.Nodup
import Mathlib.Data.List.Sigma
import SoftMenu.Proofs.Tree

/-!
# Where the nodes of a tree stand

The same node may stand at several places of a tree. The places are told apart by paths: `Node.at?`
follows a path of slot numbers down from the root, and `Node.spots` are the nodes in hybrid order,
each with its path. Every path of the tree occurs there exactly once (`Node.mem_spots_iff`,
`Node.nodup_paths_spots`), no path comes before one that leads to it (`Node.pairwise_spots`), and
the paths of the slots of one node follow each other (`Node.exists_run_spots`).
-/

namespace SoftMenu

/-! ## Paths -/

/-- The node that a path leads to: each number of a path is that of a slot, rows concatenated. -/
def Node.at? (node : Node) : List Nat → Option Node
  | [] => some node
  | k :: path => node.slots[k]?.bind fun slot => slot.at? path

@[simp] theorem Node.at?_nil (node : Node) : node.at? [] = some node := rfl

theorem Node.at?_cons (node : Node) (k : Nat) (path : List Nat) :
    node.at? (k :: path) = node.slots[k]?.bind fun slot => slot.at? path := rfl

theorem Node.at?_cons_eq_some_iff {node found : Node} {k : Nat} {path : List Nat} :
    node.at? (k :: path) = some found ↔
      ∃ slot, node.slots[k]? = some slot ∧ slot.at? path = some found := by
  rw [Node.at?_cons, Option.bind_eq_some_iff]

theorem Node.at?_append (node : Node) (first second : List Nat) :
    node.at? (first ++ second) = (node.at? first).bind fun found => found.at? second := by
  induction first generalizing node with
  | nil => rfl
  | cons k first ih =>
    rw [List.cons_append, Node.at?_cons, Node.at?_cons, Option.bind_assoc]
    simp only [ih]

theorem Node.at?_concat {node group : Node} {path : List Nat} (h : node.at? path = some group)
    (k : Nat) : node.at? (path ++ [k]) = group.slots[k]? := by
  rw [Node.at?_append, h, Option.bind_some, Node.at?_cons]
  exact Option.bind_fun_some _

/-- Puts a node with a path below the slot with the given number. -/
def underSlot (k : Nat) (spot : List Nat × Node) : List Nat × Node := (k :: spot.1, spot.2)

mutual

/-- The nodes below a node in hybrid order, each with its path. -/
def Node.spotsBelow : Node → List (List Nat × Node)
  | .group _ rows =>
    (rows.flatMap Row.slots).zipIdx.map (fun slot => ([slot.2], slot.1)) ++ spotsBelowRows 0 rows
  | _ => []

/-- The nodes below the slots of some rows, the first of which has the number `index`. -/
def spotsBelowRows (index : Nat) : List (Row Node) → List (List Nat × Node)
  | [] => []
  | row :: rows => spotsBelowRow index row ++ spotsBelowRows (index + row.slots.length) rows

/-- The nodes below the slots of a row, the first of which has the number `index`. -/
def spotsBelowRow (index : Nat) : Row Node → List (List Nat × Node)
  | ⟨slots, _⟩ => spotsBelowSlots index slots

/-- The nodes below some slots, the first of which has the number `index`. -/
def spotsBelowSlots (index : Nat) : List Node → List (List Nat × Node)
  | [] => []
  | slot :: slots => slot.spotsBelow.map (underSlot index) ++ spotsBelowSlots (index + 1) slots

end

/-- The nodes of a tree in hybrid order, each with its path. -/
def Node.spots (root : Node) : List (List Nat × Node) := ([], root) :: root.spotsBelow

theorem spotsBelowSlots_eq (index : Nat) (slots : List Node) :
    spotsBelowSlots index slots =
      (slots.zipIdx index).flatMap fun slot => slot.1.spotsBelow.map (underSlot slot.2) := by
  induction slots generalizing index with
  | nil => rfl
  | cons slot slots ih => rw [spotsBelowSlots, ih, List.zipIdx_cons, List.flatMap_cons]

theorem spotsBelowRows_eq (index : Nat) (rows : List (Row Node)) :
    spotsBelowRows index rows =
      ((rows.flatMap Row.slots).zipIdx index).flatMap fun slot =>
        slot.1.spotsBelow.map (underSlot slot.2) := by
  induction rows generalizing index with
  | nil => rfl
  | cons row rows ih =>
    obtain ⟨slots, place⟩ := row
    rw [spotsBelowRows, ih, spotsBelowRow, spotsBelowSlots_eq, List.flatMap_cons,
      List.zipIdx_append, List.flatMap_append]

theorem Node.spotsBelow_eq (node : Node) :
    node.spotsBelow = node.slots.zipIdx.map (fun slot => ([slot.2], slot.1)) ++
      node.slots.zipIdx.flatMap fun slot => slot.1.spotsBelow.map (underSlot slot.2) := by
  cases node with
  | item info => rfl
  | altItem info altName => rfl
  | group info rows => rw [Node.spotsBelow, spotsBelowRows_eq, Node.slots_group]

/-- Without the paths, these are the nodes in hybrid order. -/
theorem Node.map_snd_spotsBelow (node : Node) :
    node.spotsBelow.map Prod.snd = node.descendants := by
  induction node using Node.slotInduction with
  | step node ih =>
    have hslots : (node.slots.zipIdx.map fun slot => ([slot.2], slot.1)).map Prod.snd =
        node.slots := by
      rw [List.map_map]
      exact List.zipIdx_map_fst 0 node.slots
    have hbelow : (node.slots.zipIdx.flatMap fun slot =>
        slot.1.spotsBelow.map (underSlot slot.2)).map Prod.snd =
          node.slots.flatMap Node.descendants := by
      have hzip := List.zipIdx_map_fst 0 node.slots
      rw [List.map_flatMap]
      conv_rhs => rw [← hzip, List.flatMap_map]
      refine List.flatMap_congr fun slot hslot => ?_
      have hmem : slot.1 ∈ node.slots := (List.mem_zipIdx hslot).2.2 ▸ List.getElem_mem _
      rw [← ih slot.1 hmem, List.map_map]
      rfl
    rw [Node.spotsBelow_eq, List.map_append, hslots, hbelow, Node.descendants_eq]

theorem Node.map_snd_spots (root : Node) : root.spots.map Prod.snd = root.flatten := by
  rw [Node.spots, List.map_cons, Node.map_snd_spotsBelow, Node.flatten_eq]

theorem Node.nil_notMem_spotsBelow (node found : Node) : ([], found) ∉ node.spotsBelow := by
  rw [Node.spotsBelow_eq, List.mem_append, List.mem_map, List.mem_flatMap]
  rintro (⟨slot, -, hslot⟩ | ⟨slot, -, hslot⟩)
  · cases hslot
  · obtain ⟨spot, -, hspot⟩ := List.mem_map.1 hslot
    cases hspot

theorem Node.cons_mem_spotsBelow_iff {node found : Node} {k : Nat} {path : List Nat} :
    (k :: path, found) ∈ node.spotsBelow ↔
      ∃ slot, node.slots[k]? = some slot ∧ (path, found) ∈ slot.spots := by
  rw [Node.spotsBelow_eq, List.mem_append, List.mem_map, List.mem_flatMap]
  constructor
  · rintro (⟨⟨slot, index⟩, hslot, heq⟩ | ⟨⟨slot, index⟩, hslot, hmem⟩)
    · cases heq
      exact ⟨slot, List.mem_zipIdx_iff_getElem?.1 hslot, List.mem_cons_self⟩
    · obtain ⟨spot, hspot, heq⟩ := List.mem_map.1 hmem
      cases heq
      exact ⟨slot, List.mem_zipIdx_iff_getElem?.1 hslot, List.mem_cons_of_mem _ hspot⟩
  · rintro ⟨slot, hslot, hmem⟩
    have hzip : (slot, k) ∈ node.slots.zipIdx := List.mem_zipIdx_iff_getElem?.2 hslot
    rcases List.mem_cons.1 hmem with heq | hmem
    · cases heq
      exact Or.inl ⟨(found, k), hzip, rfl⟩
    · exact Or.inr ⟨(slot, k), hzip, List.mem_map_of_mem (f := underSlot k) hmem⟩

/-- The list holds what the paths lead to. -/
theorem Node.mem_spots_iff {root found : Node} {path : List Nat} :
    (path, found) ∈ root.spots ↔ root.at? path = some found := by
  induction path generalizing root with
  | nil =>
    rw [Node.spots, List.mem_cons, Node.at?_nil]
    constructor
    · rintro (heq | hmem)
      · cases heq
        rfl
      · exact absurd hmem (root.nil_notMem_spotsBelow found)
    · intro h
      cases h
      exact Or.inl rfl
  | cons k path ih =>
    have hhead : (k :: path, found) ≠ ([], root) := by simp
    rw [Node.spots, List.mem_cons, or_iff_right hhead, Node.cons_mem_spotsBelow_iff,
      Node.at?_cons_eq_some_iff]
    simp only [ih]

/-- No path occurs twice. -/
theorem Node.nodup_paths_spotsBelow (node : Node) : (node.spotsBelow.map Prod.fst).Nodup := by
  induction node using Node.slotInduction with
  | step node ih =>
    rw [Node.spotsBelow_eq, List.map_append, List.nodup_append]
    refine ⟨?_, ?_, ?_⟩
    · have hpaths : (node.slots.zipIdx.map fun slot => ([slot.2], slot.1)).map Prod.fst =
          (node.slots.zipIdx.map Prod.snd).map fun k => [k] := by
        rw [List.map_map, List.map_map]
        rfl
      rw [hpaths]
      exact (List.nodup_zipIdx_map_snd node.slots).map fun _ _ h => List.head_eq_of_cons_eq h
    · rw [List.map_flatMap, List.nodup_flatMap]
      constructor
      · rintro ⟨slot, k⟩ hslot
        have hmem : slot ∈ node.slots :=
          List.mem_of_getElem? (List.mem_zipIdx_iff_getElem?.1 hslot)
        have hpaths : (slot.spotsBelow.map (underSlot k)).map Prod.fst =
            (slot.spotsBelow.map Prod.fst).map (k :: ·) := by
          rw [List.map_map, List.map_map]
          rfl
        rw [hpaths]
        exact (ih slot hmem).map fun _ _ h => List.tail_eq_of_cons_eq h
      · -- Paths below different slots begin with different numbers.
        have hnumbers := List.nodup_zipIdx_map_snd node.slots
        refine (List.pairwise_map.1 hnumbers).imp ?_
        intro first second hne path hfirst hsecond
        obtain ⟨_, hspot, rfl⟩ := List.mem_map.1 hfirst
        obtain ⟨spot, -, rfl⟩ := List.mem_map.1 hspot
        obtain ⟨_, hspot', heq⟩ := List.mem_map.1 hsecond
        obtain ⟨spot', -, rfl⟩ := List.mem_map.1 hspot'
        exact hne (List.head_eq_of_cons_eq heq).symm
    · -- A path below a slot is longer than that of a slot.
      intro path hpath other hother heq
      obtain ⟨spot, hspot, rfl⟩ := List.mem_map.1 hpath
      obtain ⟨slot, -, rfl⟩ := List.mem_map.1 hspot
      obtain ⟨spot', hspot', rfl⟩ := List.mem_map.1 hother
      obtain ⟨slot', -, hspot'⟩ := List.mem_flatMap.1 hspot'
      obtain ⟨⟨rest, found⟩, hmem, rfl⟩ := List.mem_map.1 hspot'
      obtain rfl : [] = rest := List.tail_eq_of_cons_eq heq
      exact slot'.1.nil_notMem_spotsBelow found hmem

theorem Node.nodup_paths_spots (root : Node) : (root.spots.map Prod.fst).Nodup := by
  rw [Node.spots, List.map_cons, List.nodup_cons]
  refine ⟨fun hmem => ?_, root.nodup_paths_spotsBelow⟩
  obtain ⟨⟨path, found⟩, hspot, heq⟩ := List.mem_map.1 hmem
  obtain rfl : path = [] := heq
  exact root.nil_notMem_spotsBelow found hspot

/-- The paths below a node in hybrid order, given those below each of its slots. -/
def pathsBelow (below : List (List (List Nat))) : List (List Nat) :=
  below.zipIdx.map (fun slot => [slot.2]) ++
    below.zipIdx.flatMap fun slot => slot.1.map (slot.2 :: ·)

theorem Node.paths_spotsBelow (node : Node) : node.spotsBelow.map Prod.fst =
    pathsBelow (node.slots.map fun slot => slot.spotsBelow.map Prod.fst) := by
  rw [Node.spotsBelow_eq, pathsBelow, List.zipIdx_map, List.map_append, List.map_flatMap,
    List.flatMap_map, List.map_map, List.map_map]
  simp only [List.map_map, Prod.map]
  rfl

/-- A node comes after the nodes on the way down to it. -/
theorem Node.pairwise_spotsBelow (node : Node) :
    node.spotsBelow.Pairwise fun first second => ¬ second.1 <+: first.1 := by
  induction node using Node.slotInduction with
  | step node ih =>
    have hnumbers : node.slots.zipIdx.Pairwise fun first second => first.2 ≠ second.2 :=
      List.pairwise_map.1 (List.nodup_zipIdx_map_snd node.slots)
    rw [Node.spotsBelow_eq, List.pairwise_append]
    refine ⟨?_, ?_, ?_⟩
    · refine List.pairwise_map.2 (hnumbers.imp fun hne hprefix => ?_)
      exact hne (List.cons_prefix_cons.1 hprefix).1.symm
    · rw [List.pairwise_flatMap]
      constructor
      · rintro ⟨slot, k⟩ hslot
        have hmem : slot ∈ node.slots :=
          List.mem_of_getElem? (List.mem_zipIdx_iff_getElem?.1 hslot)
        refine List.pairwise_map.2 ((ih slot hmem).imp fun hnot hprefix => ?_)
        exact hnot (List.cons_prefix_cons.1 hprefix).2
      · refine hnumbers.imp ?_
        intro first second hne spot hspot spot' hspot' hprefix
        obtain ⟨below, -, rfl⟩ := List.mem_map.1 hspot
        obtain ⟨below', -, rfl⟩ := List.mem_map.1 hspot'
        exact hne (List.cons_prefix_cons.1 hprefix).1.symm
    · -- A path below a slot is longer than that of a slot.
      intro spot hspot spot' hspot' hprefix
      obtain ⟨slot, -, rfl⟩ := List.mem_map.1 hspot
      obtain ⟨slot', -, hspot'⟩ := List.mem_flatMap.1 hspot'
      obtain ⟨⟨rest, found⟩, hmem, rfl⟩ := List.mem_map.1 hspot'
      obtain rfl : rest = [] := List.prefix_nil.1 (List.cons_prefix_cons.1 hprefix).2
      exact slot'.1.nil_notMem_spotsBelow found hmem

theorem Node.pairwise_spots (root : Node) :
    root.spots.Pairwise fun first second => ¬ second.1 <+: first.1 := by
  refine List.pairwise_cons.2 ⟨fun spot hspot hprefix => ?_, root.pairwise_spotsBelow⟩
  obtain ⟨path, found⟩ := spot
  obtain rfl : path = [] := List.prefix_nil.1 hprefix
  exact root.nil_notMem_spotsBelow found hspot

theorem Node.index_lt_of_slot {root group slot : Node} {path : List Nat} {i j k : Nat}
    (hgroup : root.spots[i]? = some (path, group))
    (hslot : root.spots[j]? = some (path ++ [k], slot)) : i < j := by
  obtain ⟨hi, hgroup⟩ := List.getElem?_eq_some_iff.1 hgroup
  obtain ⟨hj, hslot⟩ := List.getElem?_eq_some_iff.1 hslot
  rcases Nat.lt_trichotomy i j with hlt | rfl | hlt
  · exact hlt
  · rw [hgroup] at hslot
    exact absurd (congrArg Prod.fst hslot) (by simp)
  · have hnot := List.pairwise_iff_getElem.1 root.pairwise_spots j i hj hi hlt
    rw [hgroup, hslot] at hnot
    exact absurd (List.prefix_append path [k]) hnot

/-- The slots of a node as they stand below the node that a path leads to. -/
def Node.slotSpots (path : List Nat) (group : Node) : List (List Nat × Node) :=
  group.slots.zipIdx.map fun slot => (path ++ [slot.2], slot.1)

/-- The slots of one node follow each other. -/
theorem Node.exists_run_spotsBelow {root group : Node} {path : List Nat}
    (h : root.at? path = some group) :
    ∃ before after, root.spotsBelow = before ++ group.slotSpots path ++ after := by
  induction path generalizing root with
  | nil =>
    obtain rfl : root = group := Option.some.inj h
    exact ⟨[], _, root.spotsBelow_eq⟩
  | cons k path ih =>
    obtain ⟨slot, hslot, hgroup⟩ := Node.at?_cons_eq_some_iff.1 h
    obtain ⟨before, after, hrun⟩ := ih hgroup
    have hzip : (slot, k) ∈ root.slots.zipIdx := List.mem_zipIdx_iff_getElem?.2 hslot
    obtain ⟨first, last, hsplit⟩ := List.append_of_mem hzip
    have hrun' : slot.spotsBelow.map (underSlot k) = before.map (underSlot k) ++
        (group.slotSpots (k :: path) ++ after.map (underSlot k)) := by
      rw [hrun, List.map_append, List.map_append, List.append_assoc, Node.slotSpots, List.map_map]
      rfl
    let below (slots : List (Node × Nat)) : List (List Nat × Node) :=
      slots.flatMap fun slot => slot.1.spotsBelow.map (underSlot slot.2)
    refine ⟨root.slotSpots [] ++ below first ++ before.map (underSlot k),
      after.map (underSlot k) ++ below last, ?_⟩
    rw [Node.spotsBelow_eq, hsplit, List.flatMap_append, List.flatMap_cons, hrun', ← hsplit]
    simp only [List.append_assoc]
    rfl

theorem Node.exists_run_spots {root group : Node} {path : List Nat}
    (h : root.at? path = some group) :
    ∃ before after, root.spots = before ++ group.slotSpots path ++ after := by
  obtain ⟨before, after, hrun⟩ := Node.exists_run_spotsBelow h
  exact ⟨([], root) :: before, after, congrArg (([], root) :: ·) hrun⟩

end SoftMenu
