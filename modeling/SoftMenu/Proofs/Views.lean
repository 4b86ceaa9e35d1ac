import SoftMenu.Proofs.Numbering

/-!
# Trees and what can be seen of them

A face shows how many slots each row of a node has, so the faces of all nodes in hybrid order
determine a tree (`Node.eq_of_faces`). If every slot carries the id of its group, the parent ids
need not be seen (`Node.eq_of_unlinked`).
-/

namespace SoftMenu

theorem rows_eq_of_layout {first second : List (Row Node)}
    (hlayout : first.map (fun row => (row.slots.length, row.place)) =
      second.map fun row => (row.slots.length, row.place))
    (hslots : first.flatMap Row.slots = second.flatMap Row.slots) : first = second := by
  induction first generalizing second with
  | nil => exact (List.map_eq_nil_iff.1 hlayout.symm).symm
  | cons row rows ih =>
    cases second with
    | nil => cases hlayout
    | cons row' rows' =>
      obtain ⟨hrow, hrows⟩ := List.cons.inj hlayout
      obtain ⟨hlength, hplace⟩ := Prod.mk.inj hrow
      rw [List.flatMap_cons, List.flatMap_cons] at hslots
      obtain ⟨hslots, hrest⟩ := List.append_inj hslots hlength
      obtain ⟨slots, place⟩ := row
      obtain ⟨slots', place'⟩ := row'
      obtain rfl : slots = slots' := hslots
      obtain rfl : place = place' := hplace
      exact congrArg _ (ih hrows hrest)

/-- A node is its face and its slots. -/
theorem Node.eq_of_face {first second : Node} (hface : first.face = second.face)
    (hslots : first.slots = second.slots) : first = second := by
  have hinfo : first.info = second.info := congrArg Face.info hface
  have hkind : first.kind = second.kind := congrArg Face.kind hface
  have haltName : first.altName? = second.altName? := congrArg Face.altName hface
  have hrows : first.rows = second.rows := rows_eq_of_layout (congrArg Face.layout hface) hslots
  cases first with
  | item info =>
    cases second with
    | item info' => exact congrArg Node.item hinfo
    | altItem info' altName' => cases hkind
    | group info' rows' => cases hkind
  | altItem info altName =>
    cases second with
    | item info' => cases hkind
    | altItem info' altName' => exact congrArg₂ Node.altItem hinfo (Option.some.inj haltName)
    | group info' rows' => cases hkind
  | group info rows =>
    cases second with
    | item info' => cases hkind
    | altItem info' altName' => cases hkind
    | group info' rows' => exact congrArg₂ Node.group hinfo hrows

theorem Node.length_slots_of_face {first second : Node} (h : first.face = second.face) :
    first.slots.length = second.slots.length := by
  have hlength : ∀ node : Node, node.slots.length = (node.face.layout.map Prod.fst).sum := by
    intro node
    rw [Node.slots, List.length_flatMap, Node.face, List.map_map]
    rfl
  rw [hlength, hlength, h]

section Views

variable {γ : Type} {view : Node → γ}

/-- If what is below each slot can be told from its views, so can what is below all of them. -/
theorem eq_of_descendants_slots {first second : List Node} {rest rest' : List γ}
    (hslot : ∀ slot ∈ first, ∀ slot' ∈ second, view slot = view slot' → ∀ rest rest' : List γ,
      slot.descendants.map view ++ rest = slot'.descendants.map view ++ rest' →
      slot = slot' ∧ rest = rest')
    (hviews : first.map view = second.map view)
    (h : (first.flatMap Node.descendants).map view ++ rest =
      (second.flatMap Node.descendants).map view ++ rest') : first = second ∧ rest = rest' := by
  induction first generalizing second with
  | nil =>
    obtain rfl := List.map_eq_nil_iff.1 hviews.symm
    exact ⟨rfl, h⟩
  | cons slot slots ih =>
    cases second with
    | nil => cases hviews
    | cons slot' slots' =>
      obtain ⟨hhead, htail⟩ := List.cons.inj hviews
      rw [List.flatMap_cons, List.flatMap_cons, List.map_append, List.map_append,
        List.append_assoc, List.append_assoc] at h
      obtain ⟨rfl, hbelow⟩ := hslot slot List.mem_cons_self slot' List.mem_cons_self hhead _ _ h
      obtain ⟨rfl, hrest⟩ := ih (fun other hother other' hother' => hslot other
        (List.mem_cons_of_mem _ hother) other' (List.mem_cons_of_mem _ hother')) htail hbelow
      exact ⟨rfl, hrest⟩

/-- Two trees of a kind in which a view, together with the face of the group, shows the face of a
slot: if the roots look the same and what is below them has the same views, they are the same
tree. -/
theorem eq_of_descendants (good : Node → Prop)
    (hgood : ∀ node, good node → ∀ slot ∈ node.slots, good slot)
    (hface : ∀ first second, good first → good second → first.face = second.face →
      ∀ slot ∈ first.slots, ∀ slot' ∈ second.slots, view slot = view slot' → slot.face = slot'.face)
    {first second : Node} (hfirst : good first) (hsecond : good second)
    (h : first.face = second.face) {rest rest' : List γ}
    (hviews : first.descendants.map view ++ rest = second.descendants.map view ++ rest') :
    first = second ∧ rest = rest' := by
  -- On the first tree. The rest stands for what comes after the tree in hybrid order, where its end
  -- cannot be seen.
  induction first using Node.slotInduction generalizing second rest rest' with
  | step first ih =>
    rw [Node.descendants_eq, Node.descendants_eq, List.map_append, List.map_append,
      List.append_assoc, List.append_assoc] at hviews
    have hlength : (first.slots.map view).length = (second.slots.map view).length := by
      rw [List.length_map, List.length_map, Node.length_slots_of_face h]
    obtain ⟨hslots, hbelow⟩ := List.append_inj hviews hlength
    have hslot : ∀ slot ∈ first.slots, ∀ slot' ∈ second.slots, view slot = view slot' →
        ∀ rest rest' : List γ,
        slot.descendants.map view ++ rest = slot'.descendants.map view ++ rest' →
        slot = slot' ∧ rest = rest' := by
      intro slot hslot slot' hslot' hview rest rest'
      exact ih slot hslot (hgood first hfirst slot hslot) (hgood second hsecond slot' hslot')
        (hface first second hfirst hsecond h slot hslot slot' hslot' hview)
    obtain ⟨hsame, hrest⟩ := eq_of_descendants_slots hslot hslots hbelow
    exact ⟨Node.eq_of_face h hsame, hrest⟩

end Views

/-- The faces of all nodes in hybrid order determine a tree. -/
theorem Node.eq_of_faces {first second : Node}
    (h : first.flatten.map Node.face = second.flatten.map Node.face) : first = second := by
  obtain ⟨hface, hbelow⟩ := List.cons.inj h
  have hviews := congrArg (· ++ []) hbelow
  refine (eq_of_descendants (fun _ => True) ?_ ?_ trivial trivial hface hviews).1
  · exact fun _ _ _ _ => trivial
  · exact fun _ _ _ _ _ _ _ _ _ hface => hface

/-- In a tree whose slots carry the ids of their groups the other data determine the tree. -/
theorem Node.eq_of_unlinked {first second : Node} (hfirst : first.Linked) (hsecond : second.Linked)
    (hparentId : first.parentId = second.parentId)
    (h : first.flatten.map Node.unlinked = second.flatten.map Node.unlinked) : first = second := by
  have hface : ∀ a b : Node, a.parentId = b.parentId → a.unlinked = b.unlinked →
      a.face = b.face := by
    intro a b hparentId hunlinked
    have hrelinked : ∀ node : Node, node.face = { node.unlinked with
        info := { node.unlinked.info with parentId := node.parentId } } := fun _ => rfl
    rw [hrelinked, hrelinked, hunlinked, hparentId]
  obtain ⟨hroot, hbelow⟩ := List.cons.inj h
  have hviews := congrArg (· ++ []) hbelow
  refine (eq_of_descendants Node.Linked ?_ ?_ hfirst hsecond (hface _ _ hparentId hroot) hviews).1
  · exact fun node hnode slot hslot => (Node.linked_iff.1 hnode slot hslot).2
  · intro a b ha hb hab slot hslot slot' hslot' hview
    refine hface slot slot' ?_ hview
    rw [(Node.linked_iff.1 ha slot hslot).1, (Node.linked_iff.1 hb slot' hslot').1,
      Node.id_eq_of_face hab]

end SoftMenu
