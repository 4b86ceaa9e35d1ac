import Mathlib.Algebra.Order.BigOperators.Group.List
import Mathlib.Algebra.Order.Ring.Nat
import SoftMenu.Proofs.Parsing
import SoftMenu.Proofs.Stages

/-!
# Which menu definitions compile

`FileTree.Acceptable` lists all conditions on a derivation. They speak of the nodes that were
declared and do not depend on the order in which a compilation comes to them: a node is compared
with every other node, and the limits on ids and on name ids are limits on numbers of rows and
names. A definition compiles exactly if it has a derivation that meets them
(`compile_iff_acceptable`).
-/

namespace SoftMenu

/-! ## Nodes of a derivation -/

namespace SlotTree

/-- The kind of node that is declared. -/
def kind : SlotTree → Kind
  | .item .. => .item
  | .altItem .. => .altItem
  | .group .. => .group

/-- The name that is declared. -/
def name : SlotTree → String
  | .item name _ | .altItem name _ _ | .group name _ _ => name

/-- The label that is declared. -/
def label : SlotTree → String
  | .item _ label | .altItem _ _ label | .group _ label _ => label

/-- The alternate name that is declared. -/
def altName? : SlotTree → Option String
  | .altItem _ altName _ => some altName
  | _ => none

/-- The rows that are declared. -/
def rows : SlotTree → List (List SlotTree)
  | .group _ _ rows => rows
  | _ => []

end SlotTree

mutual

/-- All nodes that are declared, from the first to the last. -/
def SlotTree.nodes : SlotTree → List SlotTree
  | .item name label => [.item name label]
  | .altItem name altName label => [.altItem name altName label]
  | .group name label rows => .group name label rows :: treesOfRows rows

/-- All nodes that are declared in some rows. -/
def treesOfRows : List (List SlotTree) → List SlotTree
  | [] => []
  | row :: rows => treesOfSlots row ++ treesOfRows rows

/-- All nodes that are declared in some slots. -/
def treesOfSlots : List SlotTree → List SlotTree
  | [] => []
  | slot :: slots => slot.nodes ++ treesOfSlots slots

end

theorem treesOfSlots_eq (slots : List SlotTree) :
    treesOfSlots slots = slots.flatMap SlotTree.nodes := by
  induction slots with
  | nil => rfl
  | cons slot slots ih => rw [treesOfSlots, ih, List.flatMap_cons]

theorem treesOfRows_eq (rows : List (List SlotTree)) :
    treesOfRows rows = rows.flatten.flatMap SlotTree.nodes := by
  induction rows with
  | nil => rfl
  | cons row rows ih =>
    rw [treesOfRows, treesOfSlots_eq, ih, List.flatten_cons, List.flatMap_append]

theorem SlotTree.nodes_eq (tree : SlotTree) :
    tree.nodes = tree :: tree.rows.flatten.flatMap SlotTree.nodes := by
  cases tree with
  | item name label => rfl
  | altItem name altName label => rfl
  | group name label rows => rw [SlotTree.nodes, treesOfRows_eq, SlotTree.rows]

namespace Node

@[simp] theorem kind_outline (node : Node) : node.outline.kind = node.kind := by
  cases node <;> rfl

@[simp] theorem name_outline (node : Node) : node.outline.name = node.name := by
  cases node <;> rfl

@[simp] theorem label_outline (node : Node) : node.outline.label = node.label := by
  cases node <;> rfl

@[simp] theorem altName?_outline (node : Node) :
    node.outline.altName? = node.altName?.map DisplayName.text := by
  cases node <;> rfl

@[simp] theorem rows_outline (node : Node) :
    node.outline.rows = node.rows.map fun row => row.slots.map Node.outline := by
  cases node with
  | item info => rfl
  | altItem info altName => rfl
  | group info rows => exact outlineOfRows_eq rows

/-- The nodes of an outline are the outlines of the nodes. -/
theorem nodes_outline (node : Node) : node.outline.nodes = node.nodes.map Node.outline := by
  induction node using Node.slotInduction with
  | step node ih =>
    have hslots : node.outline.rows.flatten = node.slots.map Node.outline := by
      rw [rows_outline, Node.slots, List.map_flatMap, List.flatMap]
    rw [SlotTree.nodes_eq, Node.nodes_eq, hslots, List.map_cons, List.flatMap_map, List.map_flatMap]
    exact congrArg (_ :: ·) (List.flatMap_congr ih)

end Node

/-! ## Acceptable derivations -/

namespace FileTree

/-- All nodes that are declared. -/
def nodes (tree : FileTree) : List SlotTree := tree.root.nodes

/-- The nodes that are not marked as blank. -/
def namedNodes (tree : FileTree) : List SlotTree :=
  tree.nodes.filter fun node => node.name ≠ blankMark

/-- The number of rows that are declared. -/
def rowCount (tree : FileTree) : Nat := (tree.nodes.map fun node => node.rows.length).sum

/-- The conditions for a menu definition to compile. -/
structure Acceptable (policy : DuplicatePolicy) (tree : FileTree) : Prop where
  rows : ∀ node ∈ tree.nodes, node.kind = .group →
    node.rows ≠ [] ∧ ∀ row ∈ node.rows, 1 ≤ row.length ∧ row.length ≤ 5
  rowCount_le : tree.rowCount ≤ 50
  label : ∀ node ∈ tree.nodes, LegalLabel node.kind node.name node.label
  label_ne : tree.namedNodes.Pairwise fun first second => first.label ≠ second.label
  mayShare : tree.namedNodes.Pairwise fun first second =>
    first.name = second.name → policy.MayShare first.kind second.kind
  name : ∀ node ∈ tree.namedNodes, Spellable node.name
  altName : ∀ node ∈ tree.nodes, ∀ altName ∈ node.altName?, Spellable altName
  names_le : tree.namedNodes.length + tree.nodes.countP (fun node => node.kind = .altItem) ≤ 254

end FileTree

section Outline

variable {policy : DuplicatePolicy} {tree : FileTree} {root : Node}

theorem nodes_of_root (h : tree.root = root.outline) :
    tree.nodes = root.nodes.map Node.outline := by
  rw [FileTree.nodes, h, Node.nodes_outline]

/-- The nodes that are not marked as blank in the text are those that are not blank in the tree. -/
theorem namedNodes_of_root (h : tree.root = root.outline) :
    tree.namedNodes = (active Node.isBlank root.nodes).map Node.outline := by
  rw [FileTree.namedNodes, nodes_of_root h, List.filter_map, active]
  refine congrArg _ (List.filter_congr fun node _ => ?_)
  by_cases hname : node.name = blankMark <;> simp [Node.isBlank, hname]

theorem rowCount_of_root (h : tree.root = root.outline) : tree.rowCount = root.rowCount := by
  rw [FileTree.rowCount, nodes_of_root h, List.map_map]
  refine congrArg List.sum (List.map_congr_left fun node _ => ?_)
  simp

/-- What is true of all nodes of a derivation is true of the outlines of all nodes of the tree. -/
theorem forall_mem_nodes_iff (h : tree.root = root.outline) {P : SlotTree → Prop} :
    (∀ node ∈ tree.nodes, P node) ↔ ∀ node ∈ root.flatten, P node.outline := by
  rw [nodes_of_root h, List.forall_mem_map]
  exact forall_congr' fun node => by rw [Node.mem_flatten_iff]

/-- With so few rows in all, nodes have a legal shape if their rows have legal lengths and their
labels are legal. -/
theorem wellShaped_iff (h : tree.root = root.outline) (hcount : tree.rowCount ≤ 50) :
    (∀ node ∈ root.flatten, node.WellShaped) ↔
      (∀ node ∈ tree.nodes, node.kind = .group →
        node.rows ≠ [] ∧ ∀ row ∈ node.rows, 1 ≤ row.length ∧ row.length ≤ 5) ∧
      ∀ node ∈ tree.nodes, LegalLabel node.kind node.name node.label := by
  rw [forall_mem_nodes_iff h, forall_mem_nodes_iff h, ← forall₂_and]
  refine forall₂_congr fun node hnode => ?_
  -- The limit on the rows of one group is met by every tree with so few rows.
  have hrows : node.rows.length ≤ maxRows := by
    have hle : node.rows.length ≤ root.rowCount :=
      List.le_sum_of_mem (List.mem_map_of_mem (Node.mem_flatten_iff.1 hnode))
    rw [← rowCount_of_root h] at hle
    exact (hle.trans hcount).trans (by decide)
  simp only [Node.kind_outline, Node.name_outline, Node.label_outline, Node.rows_outline,
    List.forall_mem_map, List.length_map, ne_eq, List.map_eq_nil_iff]
  constructor
  · intro hshape
    exact ⟨fun hkind => ⟨(hshape.rows hkind).1, (hshape.rows hkind).2.2⟩, hshape.label⟩
  · rintro ⟨hgroup, hlabel⟩
    exact ⟨hlabel, fun hkind => ⟨(hgroup hkind).1, hrows, (hgroup hkind).2⟩⟩

/-- Nodes can stand together in hybrid order exactly if they can in the order of the text. -/
theorem compatible_iff (h : tree.root = root.outline) :
    (active Node.isBlank root.flatten).Pairwise (Compatible policy) ↔
      tree.namedNodes.Pairwise (fun first second => first.label ≠ second.label) ∧
      tree.namedNodes.Pairwise fun first second =>
        first.name = second.name → policy.MayShare first.kind second.kind := by
  have hperm : (active Node.isBlank root.flatten).Perm (active Node.isBlank root.nodes) :=
    root.flatten_perm_nodes.filter _
  rw [hperm.pairwise_iff Compatible.symm, namedNodes_of_root h, List.pairwise_map,
    List.pairwise_map, ← List.pairwise_and_iff]
  refine List.Pairwise.iff fun first second => ?_
  simp only [Node.label_outline, Node.name_outline, Node.kind_outline]
  exact ⟨fun hpair => ⟨hpair.label, hpair.name⟩, fun hpair => ⟨hpair.1, hpair.2⟩⟩

/-- Only items are marked as blank. -/
theorem isBlank_eq_false {node : Node} (hlabel : LegalLabel node.kind node.name node.label)
    (hkind : node.kind ≠ .item) : node.isBlank = false := by
  rw [Node.isBlank_eq_false_iff]
  intro hname
  rw [LegalLabel, if_pos hname] at hlabel
  exact hkind hlabel.1

/-- Items with two names are the nodes that have an alternate name. -/
theorem altName?_isSome_iff (node : Node) : node.altName?.isSome ↔ node.kind = .altItem := by
  cases node <;> simp [Node.altName?, Node.kind]

/-- The names that have to be spelled are those of the nodes that are not blank, and all alternate
names: no blank has one. -/
theorem spelled_iff (h : tree.root = root.outline)
    (hlabel : ∀ node ∈ tree.nodes, LegalLabel node.kind node.name node.label) :
    (∀ node ∈ root.flatten, node.wording.Spelled) ↔
      (∀ node ∈ tree.namedNodes, Spellable node.name) ∧
      ∀ node ∈ tree.nodes, ∀ altName ∈ node.altName?, Spellable altName := by
  rw [forall_mem_nodes_iff h] at hlabel ⊢
  rw [namedNodes_of_root h, List.forall_mem_map]
  simp only [Node.kind_outline, Node.name_outline, Node.label_outline,
    Node.altName?_outline] at hlabel ⊢
  constructor
  · intro hspelled
    refine ⟨fun node hnode => ?_, fun node hnode altName haltName => ?_⟩
    · obtain ⟨hmem, hblank⟩ := mem_active.1 hnode
      exact (hspelled node (Node.mem_flatten_iff.2 hmem)).name (Node.isBlank_eq_false_iff.1 hblank)
    · have hkind : node.kind = .altItem := by
        rw [← altName?_isSome_iff, ← Option.isSome_map]
        exact Option.isSome_of_mem haltName
      have hblank := isBlank_eq_false (hlabel node hnode) (by simp [hkind])
      exact (hspelled node hnode).altName (Node.isBlank_eq_false_iff.1 hblank) altName haltName
  · rintro ⟨hname, haltName⟩ node hnode
    refine ⟨fun hne => hname node (mem_active.2 ⟨Node.mem_flatten_iff.1 hnode, ?_⟩), fun _ => ?_⟩
    · exact Node.isBlank_eq_false_iff.2 hne
    · exact haltName node hnode

/-- There is one name for each node that is not blank, and one more for each alternate name. -/
theorem length_names (h : tree.root = root.outline)
    (hlabel : ∀ node ∈ tree.nodes, LegalLabel node.kind node.name node.label) :
    (root.flatten.flatMap Node.poolNames).length =
      tree.namedNodes.length + tree.nodes.countP fun node => node.kind = .altItem := by
  have hcount : (active Node.isBlank root.nodes).countP (fun node => node.wording.altName.isSome) =
      root.nodes.countP fun node => node.outline.kind = .altItem := by
    rw [active, List.countP_filter]
    refine List.countP_congr fun node hnode => ?_
    rw [nodes_of_root h, List.forall_mem_map] at hlabel
    have hlabel := hlabel node hnode
    rw [Node.kind_outline, Node.name_outline, Node.label_outline] at hlabel
    rw [Bool.and_eq_true, Node.wording, Option.isSome_map, altName?_isSome_iff, Node.kind_outline,
      decide_eq_true_eq, and_iff_left_iff_imp]
    intro hkind
    rw [isBlank_eq_false hlabel (by simp [hkind])]
    rfl
  rw [(root.flatten_perm_nodes.flatMap_right _).length_eq, length_poolNames, ← map_active_isBlank,
    List.length_map, List.countP_map, namedNodes_of_root h, List.length_map, nodes_of_root h,
    List.countP_map]
  exact congrArg (_ + ·) hcount

/-- The conditions on a derivation are the conditions on the tree that is read from it. -/
theorem acceptable_iff (h : tree.root = root.outline) :
    tree.Acceptable policy ↔ root.Acceptable policy := by
  constructor
  · intro htree
    have hcount := htree.rowCount_le
    rw [rowCount_of_root h, ← size_le_iff] at hcount
    exact ⟨(wellShaped_iff h htree.rowCount_le).2 ⟨htree.rows, htree.label⟩, hcount,
      (compatible_iff h).2 ⟨htree.label_ne, htree.mayShare⟩,
      (spelled_iff h htree.label).2 ⟨htree.name, htree.altName⟩,
      (length_names h htree.label).trans_le htree.names_le⟩
  · intro hroot
    have hcount : tree.rowCount ≤ 50 := by
      rw [rowCount_of_root h]
      exact size_le_iff.1 hroot.size_le
    obtain ⟨hrows, hlabel⟩ := (wellShaped_iff h hcount).1 hroot.wellShaped
    obtain ⟨hne, hshare⟩ := (compatible_iff h).1 hroot.compatible
    obtain ⟨hname, haltName⟩ := (spelled_iff h hlabel).1 hroot.spelled
    exact ⟨hrows, hcount, hlabel, hne, hshare, hname, haltName,
      (length_names h hlabel).symm.trans_le hroot.names_le⟩

end Outline

/-- A menu definition compiles exactly if its words have an acceptable derivation, and then it has a
node for the root and five for each row. -/
theorem compile_iff_acceptable (options : CompileOptions) (source : String) (count : Nat) :
    (∃ compilation, compile options source = .ok compilation ∧
        compilation.registry.nodeCount = count) ↔
      ∃ tree : FileTree, tree.words = (tokenize source).map Token.text ∧
        tree.Acceptable options.duplicateNames ∧ count = 1 + 5 * tree.rowCount := by
  have hcount : ∀ {parsed : Parsed} {tree : FileTree}, tree.root = parsed.file.root.outline →
      Passes options.duplicateNames parsed.file →
      (assignIds options.duplicateNames (validate parsed.file).value).state.nodeCount =
        1 + 5 * tree.rowCount := by
    intro parsed tree hroot hpasses
    rw [nodeCount_assignIds hpasses.ids, length_flatten_validate hpasses.shape,
      rowCount_of_root hroot]
    rfl
  constructor
  · rintro ⟨compilation, hcompile, rfl⟩
    obtain ⟨parsed, hparsed, hpasses, -, hregistry, -⟩ := passes_of_compile hcompile
    obtain ⟨tree, hwords, hroot⟩ := words_of_parse hparsed
    refine ⟨tree, hwords, (acceptable_iff hroot).2 (passes_iff_acceptable.1 hpasses), ?_⟩
    rw [hregistry, hcount hroot hpasses]
  · rintro ⟨tree, hwords, hacceptable, rfl⟩
    obtain ⟨parsed, hparsed, hroot, -⟩ := parse_of_words hwords
    have hpasses := passes_iff_acceptable.2 ((acceptable_iff hroot.symm).1 hacceptable)
    obtain ⟨compilation, hcompile⟩ := exists_compile_of_passes hparsed hpasses
    obtain ⟨parsed', hparsed', -, -, hregistry, -⟩ := passes_of_compile hcompile
    obtain rfl := Except.ok.inj (hparsed.symm.trans hparsed')
    exact ⟨compilation, hcompile, hregistry ▸ hcount hroot.symm hpasses⟩

end SoftMenu
