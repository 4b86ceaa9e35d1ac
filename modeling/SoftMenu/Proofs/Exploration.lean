import SoftMenu.Proofs.Levels
import SoftMenu.Proofs.Records
import SoftMenu.Proofs.Spots

/-!
# What a walk has visited

A visitor may change the node that it visits in any way, the slots of the node included, and it may
give up. The walk reads the slots after the visit, so its visits have to be compared with the tree
that it leaves behind, not with the one it began with.

The visits go through the places of that tree in hybrid order, one after the other, as far as the
walk comes (`Explored`). A node that has been visited looks as its own visit left it; a node that
has not is the one that the visit of the nearest visited node above it left there.
-/

namespace SoftMenu

variable {σ ε : Type}

/-! ## Visits and places -/

/-- The visits of a walk, each with the place that it has in the tree that the walk left. -/
def Node.tale (final : Node) (visits : List (Visit σ ε)) :
    List ((List Nat × Node) × Visit σ ε) :=
  final.spots.zip visits

/-- The visits of a walk agree with the tree that it left. -/
structure Explored (final : Node) (visits : List (Visit σ ε)) : Prop where
  length_le : visits.length ≤ final.flatten.length
  /-- A node that has been visited looks as its visit left it. -/
  face_eq : ∀ path node visit, ((path, node), visit) ∈ final.tale visits →
    node.face = visit.outcome.value.face
  /-- A visit is told the id that the group has in the end, and meets what the visit of the group
  has left in the slot. -/
  met : ∀ path k node visit, ((path ++ [k], node), visit) ∈ final.tale visits →
    ∃ group above, ((path, group), above) ∈ final.tale visits ∧ visit.parentId = group.id ∧
      above.outcome.value.slots[k]? = some visit.node
  /-- A node that has not been visited is as the visit of the nearest node above left it. -/
  left : ∀ path node, final.at? path = some node →
    (∀ visit, ((path, node), visit) ∉ final.tale visits) →
    ∃ above rest group visit, path = above ++ rest ∧ ((above, group), visit) ∈ final.tale visits ∧
      visit.outcome.value.at? rest = some node ∧
      ∀ other node' visit', ((other, node'), visit') ∈ final.tale visits → other <+: path →
        other <+: above

/-- A slot that has been visited: the visit, the visits below the slot, and the tree that the walk
left in it. -/
structure Part (σ ε : Type) where
  visit : Visit σ ε
  below : List (Visit σ ε)
  final : Node

/-- The visits of some slots, then those below them. -/
def visitsOfParts (parts : List (Part σ ε)) : List (Visit σ ε) :=
  parts.map Part.visit ++ parts.flatMap Part.below

/-- The walk goes down into slots that have been visited from left to right: it begins with a slot
when it is through with the slots before. -/
structure InTurn (parts : List (Part σ ε)) : Prop where
  explored : ∀ part ∈ parts, Explored part.final (part.visit :: part.below)
  in_order : parts.Pairwise fun first second =>
    first.below.length = first.final.descendants.length ∨ second.below = []

/-- A node that has been visited, and the first of its slots too. The walk goes down into the slots
when it is through with visiting them. -/
structure Assembled (own : Visit σ ε) (final : Node) (parts : List (Part σ ε)) (rest : List Node) :
    Prop where
  face_eq : final.face = own.outcome.value.face
  met : own.outcome.value.slots = parts.map (fun part => part.visit.node) ++ rest
  slots_eq : final.slots = parts.map Part.final ++ rest
  told : ∀ part ∈ parts, part.visit.parentId = own.outcome.value.id
  inTurn : InTurn parts
  slots_first : rest = [] ∨ ∀ part ∈ parts, part.below = []

theorem zip_append_of_length_le {α β : Type} {first : List α} {list : List β}
    (h : list.length ≤ first.length) (second : List α) :
    (first ++ second).zip list = first.zip list := by
  induction first generalizing list with
  | nil =>
    obtain rfl := List.length_eq_zero_iff.1 (Nat.le_zero.1 h)
    simp
  | cons a first ih =>
    cases list with
    | nil => simp
    | cons b list => simpa using ih (by simpa using h)

theorem zip_flatMap {α β γ : Type} {f : γ → List α} {g : γ → List β} {parts : List γ}
    (hle : ∀ part ∈ parts, (g part).length ≤ (f part).length)
    (horder : parts.Pairwise fun first second =>
      (g first).length = (f first).length ∨ g second = []) :
    (parts.flatMap f).zip (parts.flatMap g) = parts.flatMap fun part => (f part).zip (g part) := by
  induction parts with
  | nil => rfl
  | cons part parts ih =>
    obtain ⟨hpart, hparts⟩ := List.forall_mem_cons.1 hle
    obtain ⟨hfirst, hrest⟩ := List.pairwise_cons.1 horder
    simp only [List.flatMap_cons]
    by_cases hlength : (g part).length = (f part).length
    · rw [List.zip_append hlength.symm, ih hparts hrest]
    · have hnone : ∀ other ∈ parts, g other = [] := fun other hother =>
        (hfirst other hother).resolve_left hlength
      have hrest' : parts.flatMap g = [] := List.flatMap_eq_nil_iff.2 hnone
      have hzips : (parts.flatMap fun part => (f part).zip (g part)) = [] := by
        refine List.flatMap_eq_nil_iff.2 fun other hother => ?_
        rw [hnone other hother, List.zip_nil_right]
      rw [hrest', hzips, List.append_nil, List.append_nil, zip_append_of_length_le hpart]

namespace Assembled

variable {own : Visit σ ε} {final : Node} {parts : List (Part σ ε)} {rest : List Node}

theorem length_below_le (h : Assembled own final parts rest) :
    ∀ part ∈ parts, part.below.length ≤ part.final.spotsBelow.length := by
  intro part hpart
  have hlength := (h.inTurn.explored part hpart).length_le
  rw [Node.flatten_eq, ← Node.map_snd_spotsBelow] at hlength
  simpa using hlength

theorem zipIdx_slots (h : Assembled own final parts rest) :
    final.slots.zipIdx = parts.zipIdx.map (Prod.map Part.final id) ++ rest.zipIdx parts.length := by
  rw [h.slots_eq, List.zipIdx_append, List.zipIdx_map, List.length_map, Nat.zero_add]

/-- The places of the slots: those that have been visited, then the others. -/
theorem map_zipIdx_slots (h : Assembled own final parts rest) :
    final.slots.zipIdx.map (fun slot => ([slot.2], slot.1)) =
      (parts.zipIdx.map fun part => ([part.2], part.1.final)) ++
        (rest.zipIdx parts.length).map fun slot => ([slot.2], slot.1) := by
  rw [h.zipIdx_slots, List.map_append, List.map_map]
  rfl

theorem zip_slots (h : Assembled own final parts rest) :
    (final.slots.zipIdx.map fun slot => ([slot.2], slot.1)).zip (parts.map Part.visit) =
      parts.zipIdx.map fun part => (([part.2], part.1.final), part.1.visit) := by
  have hvisits : parts.map Part.visit = parts.zipIdx.map fun part => part.1.visit := by
    conv_lhs => rw [← List.zipIdx_map_fst 0 parts, List.map_map]
    rfl
  rw [h.map_zipIdx_slots, zip_append_of_length_le (by simp), hvisits, List.zip_map']

theorem zip_below (h : Assembled own final parts rest) (hrest : rest = []) :
    (final.slots.zipIdx.flatMap fun slot => slot.1.spotsBelow.map (underSlot slot.2)).zip
        (parts.flatMap Part.below) =
      parts.zipIdx.flatMap fun part =>
        (part.1.final.spotsBelow.zip part.1.below).map (Prod.map (underSlot part.2) id) := by
  have hbelow : parts.flatMap Part.below = parts.zipIdx.flatMap fun part => part.1.below := by
    conv_lhs => rw [← List.zipIdx_map_fst 0 parts, List.flatMap_map]
  have hplaces : (final.slots.zipIdx.flatMap fun slot =>
        slot.1.spotsBelow.map (underSlot slot.2)) =
      parts.zipIdx.flatMap fun part => part.1.final.spotsBelow.map (underSlot part.2) := by
    rw [h.zipIdx_slots, hrest, List.zipIdx_nil, List.append_nil, List.flatMap_map]
    rfl
  rw [hplaces, hbelow, zip_flatMap]
  · refine List.flatMap_congr fun part _ => ?_
    rw [List.zip_map_left]
  · intro part hpart
    rw [List.length_map]
    exact h.length_below_le part.1 (List.fst_mem_of_mem_zipIdx hpart)
  · have hpairs := h.inTurn.in_order
    rw [← List.zipIdx_map_fst 0 parts, List.pairwise_map] at hpairs
    refine hpairs.imp fun {first second} hpair => ?_
    rwa [List.length_map, ← List.length_map Prod.snd, Node.map_snd_spotsBelow]

/-- The visits of a node: its own, those of its slots, and those below the slots. -/
theorem tale_eq (h : Assembled own final parts rest) :
    final.tale (own :: visitsOfParts parts) =
      (([], final), own) ::
        (parts.zipIdx.map (fun part => (([part.2], part.1.final), part.1.visit)) ++
          parts.zipIdx.flatMap fun part =>
            (part.1.final.spotsBelow.zip part.1.below).map (Prod.map (underSlot part.2) id)) := by
  have hspots : final.tale (own :: visitsOfParts parts) =
      (([], final), own) ::
        final.spotsBelow.zip (parts.map Part.visit ++ parts.flatMap Part.below) := rfl
  rw [hspots, Node.spotsBelow_eq]
  refine congrArg (_ :: ·) ?_
  rcases h.slots_first with hrest | hnone
  · have hlength : (final.slots.zipIdx.map fun slot => ([slot.2], slot.1)).length =
        (parts.map Part.visit).length := by
      rw [h.map_zipIdx_slots, hrest]
      simp
    rw [List.zip_append hlength, h.zip_slots, h.zip_below hrest]
  · -- Nothing below the slots has been visited, and the last slots may not have been either.
    have hnil : parts.flatMap Part.below = [] := List.flatMap_eq_nil_iff.2 hnone
    have hzips : (parts.zipIdx.flatMap fun part =>
        (part.1.final.spotsBelow.zip part.1.below).map (Prod.map (underSlot part.2) id)) = [] := by
      refine List.flatMap_eq_nil_iff.2 fun part hpart => ?_
      rw [hnone part.1 (List.fst_mem_of_mem_zipIdx hpart), List.zip_nil_right, List.map_nil]
    have hlength : (parts.map Part.visit).length ≤
        (final.slots.zipIdx.map fun slot => ([slot.2], slot.1)).length := by
      rw [h.map_zipIdx_slots]
      simp
    rw [hnil, hzips, List.append_nil, List.append_nil, zip_append_of_length_le hlength, h.zip_slots]

theorem mem_tale_iff (h : Assembled own final parts rest) {path : List Nat} {node : Node}
    {visit : Visit σ ε} :
    ((path, node), visit) ∈ final.tale (own :: visitsOfParts parts) ↔
      (path = [] ∧ node = final ∧ visit = own) ∨ ∃ k part path', path = k :: path' ∧
        parts[k]? = some part ∧
        ((path', node), visit) ∈ part.final.tale (part.visit :: part.below) := by
  have htale : ∀ part : Part σ ε, part.final.tale (part.visit :: part.below) =
      (([], part.final), part.visit) :: part.final.spotsBelow.zip part.below := fun _ => rfl
  rw [h.tale_eq, List.mem_cons, List.mem_append, List.mem_map, List.mem_flatMap]
  constructor
  · rintro (heq | ⟨⟨part, k⟩, hpart, heq⟩ | ⟨⟨part, k⟩, hpart, hmem⟩)
    · cases heq
      exact Or.inl ⟨rfl, rfl, rfl⟩
    · cases heq
      refine Or.inr ⟨k, part, [], rfl, List.mem_zipIdx_iff_getElem?.1 hpart, ?_⟩
      rw [htale]
      exact List.mem_cons_self
    · obtain ⟨⟨spot, below⟩, hspot, heq⟩ := List.mem_map.1 hmem
      cases heq
      refine Or.inr ⟨k, part, spot.1, rfl, List.mem_zipIdx_iff_getElem?.1 hpart, ?_⟩
      rw [htale]
      exact List.mem_cons_of_mem _ hspot
  · rintro (⟨rfl, rfl, rfl⟩ | ⟨k, part, path', rfl, hpart, hmem⟩)
    · exact Or.inl rfl
    · have hzip : (part, k) ∈ parts.zipIdx := List.mem_zipIdx_iff_getElem?.2 hpart
      rw [htale, List.mem_cons] at hmem
      rcases hmem with heq | hmem
      · cases heq
        exact Or.inr (Or.inl ⟨(part, k), hzip, rfl⟩)
      · refine Or.inr (Or.inr ⟨(part, k), hzip, ?_⟩)
        exact List.mem_map_of_mem (f := Prod.map (underSlot k) id) hmem

theorem nil_mem_tale_iff {node : Node} {below : List (Visit σ ε)} {visit : Visit σ ε} :
    (([], node), visit) ∈ final.tale (own :: below) ↔ node = final ∧ visit = own := by
  have htale : final.tale (own :: below) = (([], final), own) :: final.spotsBelow.zip below := rfl
  rw [htale, List.mem_cons]
  constructor
  · rintro (heq | hmem)
    · cases heq
      exact ⟨rfl, rfl⟩
    · exact absurd (List.of_mem_zip hmem).1 (final.nil_notMem_spotsBelow node)
  · rintro ⟨rfl, rfl⟩
    exact Or.inl rfl

theorem getElem?_final_slots (h : Assembled own final parts rest) {k : Nat} {part : Part σ ε}
    (hpart : parts[k]? = some part) : final.slots[k]? = some part.final := by
  rw [h.slots_eq, List.getElem?_append_left, List.getElem?_map, hpart]
  · rfl
  · rw [List.length_map]
    exact (List.getElem?_eq_some_iff.1 hpart).1

theorem getElem?_left_slots (h : Assembled own final parts rest) {k : Nat} {part : Part σ ε}
    (hpart : parts[k]? = some part) : own.outcome.value.slots[k]? = some part.visit.node := by
  rw [h.met, List.getElem?_append_left, List.getElem?_map, hpart]
  · rfl
  · rw [List.length_map]
    exact (List.getElem?_eq_some_iff.1 hpart).1

/-- Slots that have not been visited are as the visit of the node left them. -/
theorem getElem?_rest (h : Assembled own final parts rest) {k : Nat} (hk : parts[k]? = none) :
    final.slots[k]? = own.outcome.value.slots[k]? := by
  have hlength := List.getElem?_eq_none_iff.1 hk
  rw [h.slots_eq, h.met, List.getElem?_append_right (by simpa using hlength),
    List.getElem?_append_right (by simpa using hlength), List.length_map, List.length_map]

theorem length_le (h : Assembled own final parts rest) :
    (own :: visitsOfParts parts).length ≤ final.flatten.length := by
  have hbelow : ∀ parts : List (Part σ ε),
      (∀ part ∈ parts, part.below.length ≤ part.final.spotsBelow.length) →
      (parts.flatMap Part.below).length ≤
        ((parts.map Part.final).flatMap Node.descendants).length := by
    intro parts hle
    induction parts with
    | nil => exact le_rfl
    | cons part parts ih =>
      obtain ⟨hpart, hparts⟩ := List.forall_mem_cons.1 hle
      have hrest := ih hparts
      rw [← List.length_map Prod.snd, Node.map_snd_spotsBelow] at hpart
      simp only [List.flatMap_cons, List.map_cons, List.length_append]
      omega
  have hsum := hbelow parts h.length_below_le
  rw [Node.flatten_eq, Node.descendants_eq, h.slots_eq]
  simp only [visitsOfParts, List.length_cons, List.length_append, List.length_map,
    List.flatMap_append]
  omega

theorem met_of_mem (h : Assembled own final parts rest) {path : List Nat} {k : Nat} {node : Node}
    {visit : Visit σ ε}
    (hmem : ((path ++ [k], node), visit) ∈ final.tale (own :: visitsOfParts parts)) :
    ∃ group above, ((path, group), above) ∈ final.tale (own :: visitsOfParts parts) ∧
      visit.parentId = group.id ∧ above.outcome.value.slots[k]? = some visit.node := by
  rcases h.mem_tale_iff.1 hmem with ⟨hpath, -, -⟩ | ⟨j, part, path', hpath, hpart, hmem'⟩
  · exact absurd hpath (by simp)
  · have hpart' := List.mem_of_getElem? hpart
    cases path with
    | nil =>
      obtain ⟨rfl, rfl⟩ : k = j ∧ [] = path' := by simpa using hpath
      obtain ⟨-, rfl⟩ := nil_mem_tale_iff.1 hmem'
      refine ⟨final, own, nil_mem_tale_iff.2 ⟨rfl, rfl⟩, ?_, h.getElem?_left_slots hpart⟩
      rw [Node.id_eq_of_face h.face_eq]
      exact h.told part hpart'
    | cons i path =>
      obtain ⟨rfl, rfl⟩ : i = j ∧ path ++ [k] = path' := by simpa using hpath
      obtain ⟨group, above, habove, hseen⟩ := (h.inTurn.explored part hpart').met _ _ _ _ hmem'
      exact ⟨group, above, h.mem_tale_iff.2 (Or.inr ⟨i, part, path, rfl, hpart, habove⟩), hseen⟩

theorem left_of_notMem (h : Assembled own final parts rest) {path : List Nat} {node : Node}
    (hat : final.at? path = some node)
    (hnot : ∀ visit, ((path, node), visit) ∉ final.tale (own :: visitsOfParts parts)) :
    ∃ above rest' group visit, path = above ++ rest' ∧
      ((above, group), visit) ∈ final.tale (own :: visitsOfParts parts) ∧
      visit.outcome.value.at? rest' = some node ∧
      ∀ other node' visit', ((other, node'), visit') ∈ final.tale (own :: visitsOfParts parts) →
        other <+: path → other <+: above := by
  cases path with
  | nil =>
    obtain rfl : final = node := Option.some.inj hat
    exact absurd (nil_mem_tale_iff.2 ⟨rfl, rfl⟩) (hnot own)
  | cons k path =>
    obtain ⟨slot, hslot, hnode⟩ := Node.at?_cons_eq_some_iff.1 hat
    cases hpart : parts[k]? with
    | none =>
      -- The slot has not been visited, so nothing has been visited below it either.
      refine ⟨[], k :: path, final, own, rfl, nil_mem_tale_iff.2 ⟨rfl, rfl⟩, ?_, ?_⟩
      · rw [h.getElem?_rest hpart] at hslot
        exact Node.at?_cons_eq_some_iff.2 ⟨slot, hslot, hnode⟩
      · intro other node' visit' hmem hprefix
        rcases h.mem_tale_iff.1 hmem with ⟨rfl, -, -⟩ | ⟨j, part, path', rfl, hpart', -⟩
        · exact List.nil_prefix
        · obtain rfl : j = k := (List.cons_prefix_cons.1 hprefix).1
          rw [hpart] at hpart'
          cases hpart'
    | some part =>
      obtain rfl : slot = part.final :=
        Option.some.inj (hslot.symm.trans (h.getElem?_final_slots hpart))
      have hnot' : ∀ visit,
          ((path, node), visit) ∉ part.final.tale (part.visit :: part.below) := by
        intro visit hmem
        exact hnot visit (h.mem_tale_iff.2 (Or.inr ⟨k, part, path, rfl, hpart, hmem⟩))
      obtain ⟨above, rest', group, visit, rfl, hmem, hleft, hnearest⟩ :=
        (h.inTurn.explored part (List.mem_of_getElem? hpart)).left path node hnode hnot'
      refine ⟨k :: above, rest', group, visit, rfl,
        h.mem_tale_iff.2 (Or.inr ⟨k, part, above, rfl, hpart, hmem⟩), hleft, ?_⟩
      intro other node' visit' hother hprefix
      rcases h.mem_tale_iff.1 hother with ⟨rfl, -, -⟩ | ⟨j, part', path', rfl, hpart', hother'⟩
      · exact List.nil_prefix
      · obtain ⟨rfl, hprefix'⟩ := List.cons_prefix_cons.1 hprefix
        obtain rfl : part = part' := Option.some.inj (hpart.symm.trans hpart')
        exact List.cons_prefix_cons.2 ⟨rfl, hnearest path' node' visit' hother' hprefix'⟩

/-- If the visits below the slots agree with the trees in the slots, all visits agree with the
tree. -/
theorem toExplored (h : Assembled own final parts rest) :
    Explored final (own :: visitsOfParts parts) where
  length_le := h.length_le
  face_eq path node visit hmem := by
    rcases h.mem_tale_iff.1 hmem with ⟨-, rfl, rfl⟩ | ⟨k, part, path', -, hpart, hmem⟩
    · exact h.face_eq
    · exact (h.inTurn.explored part (List.mem_of_getElem? hpart)).face_eq path' node visit hmem
  met path k node visit hmem := h.met_of_mem hmem
  left path node hat hnot := h.left_of_notMem hat hnot

end Assembled

/-- Right after a visit nothing below the node has been visited. -/
theorem explored_self (own : Visit σ ε) : Explored own.outcome.value [own] := by
  have h : Assembled own own.outcome.value [] own.outcome.value.slots := by
    refine ⟨rfl, rfl, rfl, ?_, ⟨?_, .nil⟩, Or.inr ?_⟩ <;> simp
  exact h.toExplored

/-- A slot that the walk has not gone down into. -/
def Part.ofVisit (visit : Visit σ ε) : Part σ ε := ⟨visit, [], visit.outcome.value⟩

section OfVisit

variable (visits : List (Visit σ ε))

theorem map_visit_ofVisit : (visits.map Part.ofVisit).map Part.visit = visits := by
  rw [List.map_map]
  exact List.map_id' visits

theorem map_final_ofVisit :
    (visits.map Part.ofVisit).map Part.final = visits.map fun visit => visit.outcome.value := by
  rw [List.map_map]
  rfl

theorem below_of_mem_ofVisit : ∀ part ∈ visits.map Part.ofVisit, part.below = [] := by
  intro part hpart
  obtain ⟨visit, -, rfl⟩ := List.mem_map.1 hpart
  rfl

theorem flatMap_below_ofVisit : (visits.map Part.ofVisit).flatMap Part.below = [] :=
  List.flatMap_eq_nil_iff.2 (below_of_mem_ofVisit visits)

theorem inTurn_ofVisit : InTurn (visits.map Part.ofVisit) := by
  constructor
  · intro part hpart
    obtain ⟨visit, -, rfl⟩ := List.mem_map.1 hpart
    exact explored_self visit
  · refine List.pairwise_of_forall_mem_list fun _ _ part hpart => Or.inr ?_
    exact below_of_mem_ofVisit visits part hpart

end OfVisit

theorem InTurn.cons {part : Part σ ε} {parts : List (Part σ ε)}
    (hpart : Explored part.final (part.visit :: part.below)) (hparts : InTurn parts)
    (horder : part.below.length = part.final.descendants.length ∨
      ∀ other ∈ parts, other.below = []) : InTurn (part :: parts) := by
  refine ⟨List.forall_mem_cons.2 ⟨hpart, hparts.explored⟩,
    List.pairwise_cons.2 ⟨fun other hother => ?_, hparts.in_order⟩⟩
  rcases horder with hlength | hnone
  · exact Or.inl hlength
  · exact Or.inr (hnone other hother)

/-! ## The end of a walk -/

/-- All visits went through if the walk did; otherwise the last one gave up, and no other. -/
def Ended (visits : List (Visit σ ε)) : Option ε → Prop
  | none => ∀ visit ∈ visits, visit.outcome.halt = none
  | some reason => ∃ earlier last, visits = earlier ++ [last] ∧
      (∀ visit ∈ earlier, visit.outcome.halt = none) ∧ last.outcome.halt = some reason

theorem Ended.append {first second : List (Visit σ ε)} {halt : Option ε} (h : Ended first none)
    (h' : Ended second halt) : Ended (first ++ second) halt := by
  cases halt with
  | none => exact List.forall_mem_append.2 ⟨h, h'⟩
  | some reason =>
    obtain ⟨earlier, last, rfl, hearlier, hlast⟩ := h'
    refine ⟨first ++ earlier, last, (List.append_assoc ..).symm, ?_, hlast⟩
    exact List.forall_mem_append.2 ⟨h, hearlier⟩

theorem ended_singleton (visit : Visit σ ε) : Ended [visit] visit.outcome.halt := by
  cases hhalt : visit.outcome.halt with
  | none => exact List.forall_mem_singleton.2 hhalt
  | some reason => exact ⟨[], visit, rfl, by simp, hhalt⟩

section Walk

variable {visitor : Visitor σ ε}

/-- A sweep visits the slots one after the other, up to the first visit that gives up. -/
theorem exists_visits_of_sweep (visitor : Visitor σ ε) (parentId : UInt8) (slots : List Node)
    (recorded : σ × List (Visit σ ε)) :
    ∃ visits rest, slots = visits.map Visit.node ++ rest ∧
      (∀ visit ∈ visits, visit.parentId = parentId) ∧
      (sweep (visitor.recorded parentId) slots recorded).value =
        visits.map (fun visit => visit.outcome.value) ++ rest ∧
      (sweep (visitor.recorded parentId) slots recorded).state.2 = recorded.2 ++ visits ∧
      Ended visits (sweep (visitor.recorded parentId) slots recorded).halt ∧
      ((sweep (visitor.recorded parentId) slots recorded).halt = none → rest = []) := by
  induction slots generalizing recorded with
  | nil =>
    refine ⟨[], [], rfl, by simp, rfl, (List.append_nil _).symm, ?_, fun _ => rfl⟩
    simp [Ended, Outcome.done]
  | cons slot slots ih =>
    let visit : Visit σ ε := ⟨parentId, slot, visitor parentId slot recorded.1⟩
    have hended := ended_singleton visit
    cases hhalt : (visitor.recorded parentId slot recorded).halt with
    | none =>
      have hvisit : visit.outcome.halt = none := hhalt
      obtain ⟨visits, rest, hslots, htold, hvalue, hstate, hended', hrest⟩ :=
        ih (visitor.recorded parentId slot recorded).state
      rw [hvisit] at hended
      rw [sweep_cons_of_none hhalt]
      refine ⟨visit :: visits, rest, ?_, ?_, ?_, ?_, hended.append hended', hrest⟩
      · exact congrArg (slot :: ·) hslots
      · exact List.forall_mem_cons.2 ⟨rfl, htold⟩
      · exact congrArg (visit.outcome.value :: ·) hvalue
      · exact hstate.trans (List.append_assoc recorded.2 [visit] visits)
    | some reason =>
      have hvisit : visit.outcome.halt = some reason := hhalt
      rw [sweep_cons_of_some hhalt]
      refine ⟨[visit], slots, rfl, List.forall_mem_singleton.2 rfl, rfl, rfl, hended, ?_⟩
      intro hnone
      exact absurd (hvisit.symm.trans hnone) (by simp)

/-- The visits below a node that has been visited, and the outcome of going down from it. -/
structure Reached (own : Visit σ ε) (earlier : List (Visit σ ε))
    (outcome : Outcome (σ × List (Visit σ ε)) ε Node) (below : List (Visit σ ε)) : Prop where
  explored : Explored outcome.value (own :: below)
  record_eq : outcome.state.2 = earlier ++ below
  ended : Ended below outcome.halt
  complete : outcome.halt = none → below.length = outcome.value.descendants.length

/-- The slots of a node after the walk has gone down into them, up to one where it gave up. -/
structure Swept (visits earlier : List (Visit σ ε))
    (outcome : Outcome (σ × List (Visit σ ε)) ε (List Node)) (parts : List (Part σ ε)) : Prop where
  visits_eq : parts.map Part.visit = visits
  finals_eq : outcome.value = parts.map Part.final
  record_eq : outcome.state.2 = earlier ++ parts.flatMap Part.below
  inTurn : InTurn parts
  ended : Ended (parts.flatMap Part.below) outcome.halt
  complete : outcome.halt = none →
    ∀ part ∈ parts, part.below.length = part.final.descendants.length

theorem exists_swept {pass : Node → σ × List (Visit σ ε) → Outcome (σ × List (Visit σ ε)) ε Node}
    (good : Node → Prop)
    (hpass : ∀ (own : Visit σ ε) recorded, good (pass own.outcome.value recorded).value →
      ∃ below, Reached own recorded.2 (pass own.outcome.value recorded) below)
    (visits : List (Visit σ ε)) (recorded : σ × List (Visit σ ε))
    (hgood : ∀ result ∈ (sweep pass (visits.map fun visit => visit.outcome.value) recorded).value,
      good result) :
    ∃ parts, Swept visits recorded.2
      (sweep pass (visits.map fun visit => visit.outcome.value) recorded) parts := by
  induction visits generalizing recorded with
  | nil =>
    refine ⟨[], rfl, rfl, (List.append_nil _).symm, ⟨by simp, .nil⟩, ?_, by simp⟩
    simp [Ended, Outcome.done]
  | cons visit visits ih =>
    rw [List.map_cons] at hgood ⊢
    cases hhalt : (pass visit.outcome.value recorded).halt with
    | none =>
      rw [sweep_cons_of_none hhalt] at hgood ⊢
      obtain ⟨hfirst, hrest⟩ := List.forall_mem_cons.1 hgood
      obtain ⟨below, hreached⟩ := hpass visit recorded hfirst
      obtain ⟨parts, hswept⟩ := ih _ hrest
      have hbelow := hreached.complete hhalt
      have hended := hreached.ended
      rw [hhalt] at hended
      refine ⟨⟨visit, below, (pass visit.outcome.value recorded).value⟩ :: parts, ?_, ?_, ?_, ?_,
        hended.append hswept.ended, fun hnone => ?_⟩
      · exact congrArg (visit :: ·) hswept.visits_eq
      · exact congrArg (_ :: ·) hswept.finals_eq
      · rw [List.flatMap_cons, ← List.append_assoc, ← hreached.record_eq]
        exact hswept.record_eq
      · exact hswept.inTurn.cons hreached.explored (Or.inl hbelow)
      · exact List.forall_mem_cons.2 ⟨hbelow, hswept.complete hnone⟩
    | some reason =>
      -- The slots after this one have been visited, but the walk does not go down into them.
      rw [sweep_cons_of_some hhalt] at hgood ⊢
      obtain ⟨below, hreached⟩ := hpass visit recorded (List.forall_mem_cons.1 hgood).1
      have hnil := flatMap_below_ofVisit visits
      refine ⟨⟨visit, below, (pass visit.outcome.value recorded).value⟩ ::
        visits.map Part.ofVisit, ?_, ?_, ?_, ?_, ?_, fun hnone => ?_⟩
      · exact congrArg (visit :: ·) (map_visit_ofVisit visits)
      · exact congrArg (_ :: ·) (map_final_ofVisit visits).symm
      · rw [List.flatMap_cons, hnil, List.append_nil]
        exact hreached.record_eq
      · exact (inTurn_ofVisit visits).cons hreached.explored (Or.inr (below_of_mem_ofVisit visits))
      · rw [List.flatMap_cons, hnil, List.append_nil]
        exact hreached.ended
      · exact absurd (hhalt.symm.trans hnone) (by simp)

/-- The slots of a node after they have been visited, up to one whose visit gave up. -/
structure Listed (own : Visit σ ε) (earlier : List (Visit σ ε))
    (outcome : Outcome (σ × List (Visit σ ε)) ε Node) (visits : List (Visit σ ε))
    (rest : List Node) : Prop where
  face_eq : outcome.value.face = own.outcome.value.face
  met : own.outcome.value.slots = visits.map Visit.node ++ rest
  slots_eq : outcome.value.slots = visits.map (fun visit => visit.outcome.value) ++ rest
  told : ∀ visit ∈ visits, visit.parentId = own.outcome.value.id
  record_eq : outcome.state.2 = earlier ++ visits
  ended : Ended visits outcome.halt
  complete : outcome.halt = none → rest = []

theorem exists_listed (visitor : Visitor σ ε) (own : Visit σ ε) (recorded : σ × List (Visit σ ε)) :
    ∃ visits rest, Listed own recorded.2
      (own.outcome.value.sweepSlots (visitor.recorded own.outcome.value.id) recorded) visits
      rest := by
  obtain ⟨visits, rest, hmet, htold, hvalue, hrecord, hended, hrest⟩ :=
    exists_visits_of_sweep visitor own.outcome.value.id own.outcome.value.slots recorded
  rw [← slots_sweepSlots] at hvalue
  rw [← sweepSlots_state] at hrecord
  rw [← sweepSlots_halt] at hended hrest
  exact ⟨visits, rest, face_sweepSlots _ _, hmet, hvalue, htold, hrecord, hended, hrest⟩

namespace Listed

variable {own : Visit σ ε} {earlier visits : List (Visit σ ε)} {rest : List Node}
  {outcome : Outcome (σ × List (Visit σ ε)) ε Node}

theorem assembled (h : Listed own earlier outcome visits rest) {parts : List (Part σ ε)}
    {final : Node} (hvisits : parts.map Part.visit = visits)
    (hface : final.face = outcome.value.face) (hslots : final.slots = parts.map Part.final ++ rest)
    (hturn : InTurn parts) (hfirst : rest = [] ∨ ∀ part ∈ parts, part.below = []) :
    Assembled own final parts rest := by
  refine ⟨hface.trans h.face_eq, ?_, hslots, fun part hpart => ?_, hturn, hfirst⟩
  · rw [h.met, ← hvisits, List.map_map]
    rfl
  · refine h.told part.visit ?_
    rw [← hvisits]
    exact List.mem_map_of_mem hpart

/-- If a slot gives up, the walk does not go down into any. -/
theorem reached (h : Listed own earlier outcome visits rest) (hhalt : outcome.halt ≠ none) :
    Reached own earlier outcome visits := by
  have hassembled : Assembled own outcome.value (visits.map Part.ofVisit) rest := by
    refine h.assembled (map_visit_ofVisit visits) rfl ?_ (inTurn_ofVisit visits)
      (Or.inr (below_of_mem_ofVisit visits))
    rw [map_final_ofVisit]
    exact h.slots_eq
  have hexplored := hassembled.toExplored
  rw [visitsOfParts, map_visit_ofVisit, flatMap_below_ofVisit, List.append_nil] at hexplored
  exact ⟨hexplored, h.record_eq, h.ended, fun hnone => absurd hnone hhalt⟩

/-- If all slots have been visited, the walk goes down into them. -/
theorem reached_sweepSlots (h : Listed own earlier outcome visits rest)
    (hhalt : outcome.halt = none)
    {pass : Node → σ × List (Visit σ ε) → Outcome (σ × List (Visit σ ε)) ε Node}
    {parts : List (Part σ ε)}
    (hswept : Swept visits outcome.state.2 (sweep pass outcome.value.slots outcome.state) parts) :
    Reached own earlier (outcome.value.sweepSlots pass outcome.state) (visitsOfParts parts) := by
  have hrest := h.complete hhalt
  have hended := h.ended
  rw [hhalt] at hended
  have hassembled :
      Assembled own (outcome.value.sweepSlots pass outcome.state).value parts rest := by
    refine h.assembled hswept.visits_eq (face_sweepSlots _ _) ?_ hswept.inTurn (Or.inl hrest)
    rw [slots_sweepSlots, hrest, List.append_nil]
    exact hswept.finals_eq
  refine ⟨hassembled.toExplored, ?_, ?_, fun hnone => ?_⟩
  · rw [sweepSlots_state, hswept.record_eq, h.record_eq, visitsOfParts, hswept.visits_eq,
      List.append_assoc]
  · rw [sweepSlots_halt, visitsOfParts, hswept.visits_eq]
    exact hended.append hswept.ended
  · rw [sweepSlots_halt] at hnone
    have hlengths := List.map_congr_left (hswept.complete hnone)
    rw [Node.descendants_eq, slots_sweepSlots, hswept.finals_eq, visitsOfParts, List.length_append,
      List.length_append, List.length_map, List.length_map, List.flatMap_map, List.length_flatMap,
      List.length_flatMap, hlengths]

end Listed

/-- A walk that goes down from a node that has been visited explores what is below it. -/
theorem exists_reached {levels : Nat} (own : Visit σ ε) (recorded : σ × List (Visit σ ε))
    (h : (visitor.recorded.descend levels own.outcome.value recorded).value.depth ≤ levels) :
    ∃ below, Reached own recorded.2
      (visitor.recorded.descend levels own.outcome.value recorded) below := by
  induction levels generalizing own recorded with
  | zero =>
    have hnone := Node.slots_eq_nil_of_depth h
    refine ⟨[], explored_self own, (List.append_nil _).symm, ?_, fun _ => ?_⟩
    · simp [Ended, Visitor.descend, Outcome.done]
    · rw [Node.descendants_eq, hnone]
      rfl
  | succ levels ih =>
    obtain ⟨visits, rest, hlisted⟩ := exists_listed visitor own recorded
    cases hfirst : (own.outcome.value.sweepSlots (visitor.recorded own.outcome.value.id)
        recorded).halt with
    | some reason =>
      rw [descend_succ_of_some hfirst]
      exact ⟨visits, hlisted.reached (by simp [hfirst])⟩
    | none =>
      rw [descend_succ_of_none hfirst] at h ⊢
      have hslots := hlisted.slots_eq
      rw [hlisted.complete hfirst, List.append_nil] at hslots
      have hdepths := Node.depth_le_succ_iff.1 h
      rw [slots_sweepSlots, hslots] at hdepths
      obtain ⟨parts, hswept⟩ := exists_swept (fun slot => slot.depth ≤ levels)
        (fun own recorded => ih own recorded) visits _ hdepths
      rw [← hslots] at hswept
      exact ⟨visitsOfParts parts, hlisted.reached_sweepSlots hfirst hswept⟩

end Walk

/-! ## Whole walks -/

/-- The visits that a walk has made, from the root on. -/
structure Visitor.Story (visitor : Visitor σ ε) (root : Node) (state : σ)
    (outcome : Outcome σ ε Node) (visits : List (Visit σ ε)) : Prop where
  recorded : visitor.recorded.Walks root (state, [])
    ⟨outcome.value, (outcome.state, visits), outcome.halt⟩
  traces : visitor.Traces state visits
  state_eq : outcome.state = stateAfter state visits
  /-- The root is visited first. It is told the null id. -/
  first : visits.head? = some ⟨nullId, root, visitor nullId root state⟩
  /-- The walk goes through if all visits do, and otherwise ends with the visit that gave up. -/
  ended : Ended visits outcome.halt
  infos_prefix : visits.map (fun visit => visit.outcome.value.info) <+:
    outcome.value.flatten.map Node.info
  infos_eq : outcome.halt = none →
    visits.map (fun visit => visit.outcome.value.info) = outcome.value.flatten.map Node.info
  explored : Explored outcome.value visits
  /-- A node that has not been visited, and that no visit above has touched, is as it was. -/
  untouched : ∀ path node, outcome.value.at? path = some node →
    (∀ visit, ((path, node), visit) ∉ outcome.value.tale visits) →
    (∀ above rest group visit, path = above ++ rest →
      ((above, group), visit) ∈ outcome.value.tale visits →
      visit.outcome.value.at? rest = visit.node.at? rest) →
    root.at? path = some node

/-- The visits leave the data of the nodes that there are in the end. -/
theorem Explored.infos_prefix {final : Node} {visits : List (Visit σ ε)}
    (h : Explored final visits) :
    visits.map (fun visit => visit.outcome.value.info) <+: final.flatten.map Node.info := by
  have hlength := h.length_le
  rw [← Node.map_snd_spots, List.length_map] at hlength
  have hvisited : final.tale visits = (final.spots.take visits.length).zip visits := by
    have htake : visits.length ≤ (final.spots.take visits.length).length := by
      rw [List.length_take]
      omega
    rw [← zip_append_of_length_le htake (final.spots.drop visits.length), List.take_append_drop]
    rfl
  have hinfos : (final.tale visits).map (fun member => member.2.outcome.value.info) =
      (final.tale visits).map fun member => member.1.2.info := by
    refine List.map_congr_left fun member hmember => ?_
    exact (congrArg Face.info (h.face_eq member.1.1 member.1.2 member.2 hmember)).symm
  have hleft : visits.map (fun visit => visit.outcome.value.info) =
      (final.tale visits).map fun member => member.2.outcome.value.info := by
    conv_lhs => rw [← List.map_snd_zip hlength, List.map_map]
    rfl
  have hright : (final.tale visits).map (fun member => member.1.2.info) =
      (final.spots.take visits.length).map fun spot => spot.2.info := by
    have htake : (final.tale visits).map Prod.fst = final.spots.take visits.length := by
      rw [hvisited]
      exact List.map_fst_zip (List.length_take_le ..)
    rw [← htake, List.map_map]
    rfl
  rw [hleft, hinfos, hright, ← Node.map_snd_spots, List.map_map]
  exact (List.take_prefix visits.length final.spots).map _

/-- What the visits above an unvisited node have not touched is as it was in the beginning. -/
theorem Explored.at?_root {final root : Node} {visits : List (Visit σ ε)}
    (h : Explored final visits) {own : Visit σ ε} (hroot : own.node = root)
    (hfirst : visits.head? = some own)
    {path : List Nat} {node : Node}
    (huntouched : ∀ above rest group visit, path = above ++ rest →
      ((above, group), visit) ∈ final.tale visits →
      visit.outcome.value.at? rest = visit.node.at? rest)
    {above rest : List Nat} {group : Node} {visit : Visit σ ε} (hpath : path = above ++ rest)
    (hmem : ((above, group), visit) ∈ final.tale visits)
    (hleft : visit.outcome.value.at? rest = some node) : root.at? path = some node := by
  induction above using List.reverseRecOn generalizing rest group visit with
  | nil =>
    obtain ⟨below, rfl⟩ : ∃ below, visits = own :: below := by
      cases visits with
      | nil => cases hfirst
      | cons visit below => exact ⟨below, congrArg (· :: below) (Option.some.inj hfirst)⟩
    obtain ⟨-, rfl⟩ := Assembled.nil_mem_tale_iff.1 hmem
    rw [huntouched [] rest group visit hpath hmem, hroot] at hleft
    rw [hpath]
    exact hleft
  | append_singleton above k ih =>
    obtain ⟨group', visit', hmem', -, hslot⟩ := h.met above k group visit hmem
    rw [huntouched _ rest group visit hpath hmem] at hleft
    have hpath' : path = above ++ k :: rest := hpath.trans (List.append_cons ..).symm
    exact ih hpath' hmem' (Node.at?_cons_eq_some_iff.2 ⟨visit.node, hslot, hleft⟩)

/-- The record of a walk that was given levels enough begins with the root and agrees with the tree
that the walk left. -/
theorem explored_walkLevels {visitor : Visitor σ ε} {root : Node} {state : σ} {levels : Nat}
    (h : (visitor.recorded.walkLevels levels root (state, [])).value.depth ≤ levels) :
    ∃ below, (visitor.recorded.walkLevels levels root (state, [])).state.2 =
        ⟨nullId, root, visitor nullId root state⟩ :: below ∧
      Ended (⟨nullId, root, visitor nullId root state⟩ :: below)
        (visitor.recorded.walkLevels levels root (state, [])).halt ∧
      Explored (visitor.recorded.walkLevels levels root (state, [])).value
        (⟨nullId, root, visitor nullId root state⟩ :: below) ∧
      ((visitor.recorded.walkLevels levels root (state, [])).halt = none →
        below.length =
          (visitor.recorded.walkLevels levels root (state, [])).value.descendants.length) := by
  let own : Visit σ ε := ⟨nullId, root, visitor nullId root state⟩
  have hended := ended_singleton own
  cases hfirst : (visitor.recorded nullId root (state, [])).halt with
  | some reason =>
    rw [walkLevels_of_some hfirst]
    refine ⟨[], rfl, hended, explored_self own, fun hnone => ?_⟩
    exact absurd (hfirst.symm.trans hnone) (by simp)
  | none =>
    have hown : own.outcome.halt = none := hfirst
    rw [hown] at hended
    rw [walkLevels_of_none hfirst] at h ⊢
    obtain ⟨below, hreached⟩ := exists_reached own (own.outcome.state, [own]) h
    exact ⟨below, hreached.record_eq, hended.append hreached.ended, hreached.explored,
      hreached.complete⟩

/-- The visits of a walk agree with the tree that it leaves, for every visitor: one that changes the
nodes and their rows in any way, deepens the tree, or gives up. A walk of a visitor that never
deepens a tree is `Visitor.walk`. -/
theorem Visitor.exists_story (visitor : Visitor σ ε) (root : Node) (state : σ) :
    (∀ outcome, visitor.Walks root state outcome →
      ∃ visits, visitor.Story root state outcome visits) ∧
    ((∀ parentId node state, (visitor parentId node state).value.depth ≤ node.depth) →
      visitor.Walks root state (visitor.walk root state)) := by
  refine ⟨fun outcome h => ?_, fun hdepth => Visitor.walks_walk hdepth root state⟩
  obtain ⟨levels, rfl, hdepth⟩ := h.exists_levels
  have hsame := visitor.recorded_walkLevels levels root state []
  rw [← hsame.1] at hdepth
  have htraces : visitor.Traces state
        (visitor.recorded.walkLevels levels root (state, [])).state.2 ∧
      (visitor.recorded.walkLevels levels root (state, [])).state.1 =
        stateAfter state (visitor.recorded.walkLevels levels root (state, [])).state.2 :=
    Visitor.traces_walkLevels levels root ⟨.nil, rfl⟩
  have hrecorded := Visitor.walks_of_depth hdepth
  obtain ⟨below, hbelow, hended, hexplored, hcomplete⟩ := explored_walkLevels hdepth
  generalize visitor.recorded.walkLevels levels root (state, []) = run at *
  generalize visitor.walkLevels levels root state = outcome at *
  obtain ⟨hvalue, hstate, hhalt⟩ := hsame
  obtain ⟨final, ⟨last, visits⟩, halt⟩ := run
  obtain ⟨final', last', halt'⟩ := outcome
  obtain rfl : visits = _ := hbelow
  obtain rfl : final = final' := hvalue
  obtain rfl : last = last' := hstate
  obtain rfl : halt = halt' := hhalt
  refine ⟨_, hrecorded, htraces.1, htraces.2, rfl, hended, hexplored.infos_prefix, fun hnone => ?_,
    hexplored, fun path node hat hnot hkeep => ?_⟩
  · refine hexplored.infos_prefix.eq_of_length ?_
    rw [List.length_map, List.length_map, Node.flatten_eq, List.length_cons, List.length_cons,
      hcomplete hnone]
  · obtain ⟨above, rest, group, visit, hpath, hmem, hleft, -⟩ := hexplored.left path node hat hnot
    exact hexplored.at?_root rfl rfl hkeep hpath hmem hleft

/-- Makes a plant with one leaf of every seed. It is given a number of visits, and gives up when
they are used up. -/
def sprouting : Visitor Nat String := fun _ node left =>
  if left = 0 then ⟨node, 0, some "no visit left"⟩
  else if node.label = "seed" then
    let leaf := Node.item { node.info with label := "leaf" }
    .done (.group { node.info with label := "plant" } [⟨[leaf], node.place⟩]) (left - 1)
  else .done node (left - 1)

/-- Two rows with a seed each, the second with a leaf beside it. -/
def seedbed : Node :=
  let info := { name := ⟨"A", none⟩, label := "bed", place := ⟨1, .empty 0⟩ }
  let leaf := Node.item { info with label := "leaf" }
  let seed := Node.item { info with label := "seed" }
  .group info [⟨[seed], ⟨2, .empty 9⟩⟩, ⟨[leaf, seed], ⟨3, .empty 9⟩⟩]

/-- All of the grown tree is visited if there are six visits to make, and the fifth gives up if
there are four. -/
theorem Visitor.exists_story_sprouting :
    seedbed.depth = 1 ∧
    ((sprouting.walkLevels 2 seedbed 6).halt = none ∧
      (sprouting.walkLevels 2 seedbed 6).value.depth = 2 ∧
      ∃ visits, sprouting.Story seedbed 6 (sprouting.walkLevels 2 seedbed 6) visits) ∧
    (sprouting.walkLevels 2 seedbed 4).halt = some "no visit left" ∧
      ∃ visits, sprouting.Story seedbed 4 (sprouting.walkLevels 2 seedbed 4) visits := by
  refine ⟨by decide +kernel, ⟨by decide +kernel, by decide +kernel, ?_⟩, by decide +kernel, ?_⟩
  · exact (Visitor.exists_story _ _ _).1 _ (Visitor.walks_of_depth (by decide +kernel))
  · exact (Visitor.exists_story _ _ _).1 _ (Visitor.walks_of_depth (by decide +kernel))

end SoftMenu
