import SoftMenu.Proofs.Completion
import SoftMenu.Proofs.Invariants
import SoftMenu.Proofs.Views

/-!
# Trees that grow

While a menu is checked its rows get blanks behind their slots, and nothing else happens to it
(`Node.GrownTo`), also if the checks do not come to an end (`grownTo_walk`).

Blanks move the slots of later rows on, so a slot is found again by its row and its number there.
`Node.pairs` are the nodes of the declared tree in hybrid order, each with the node that stands in
its place in the grown tree. All nodes of the grown tree are among them but the blanks that were
added (`Node.GrownTo.active_pairs`).
-/

namespace SoftMenu

/-! ## Growing -/

/-- A row has the slots of another one, each related to what it was, and then some blanks. -/
inductive Row.GrownTo (R : Node → Node → Prop) : Row Node → Row Node → Prop where
  | mk {slots grown : List Node} (place : Place) (count : Nat) (h : List.Forall₂ R slots grown) :
    Row.GrownTo R ⟨slots, place⟩ ⟨grown ++ List.replicate count (.blank place), place⟩

/-- A tree is another one with blanks behind the slots of some rows. -/
inductive Node.GrownTo : Node → Node → Prop where
  | mk {declared final : Node} (info : final.info = declared.info)
    (kind : final.kind = declared.kind) (altName : final.altName? = declared.altName?)
    (rows : List.Forall₂ (Row.GrownTo Node.GrownTo) declared.rows final.rows) :
    Node.GrownTo declared final

theorem Row.grownTo_iff {R : Node → Node → Prop} {first second : Row Node} :
    Row.GrownTo R first second ↔ second.place = first.place ∧ ∃ grown count,
      second.slots = grown ++ List.replicate count (.blank first.place) ∧
      List.Forall₂ R first.slots grown := by
  constructor
  · rintro ⟨place, count, h⟩
    exact ⟨rfl, _, count, rfl, h⟩
  · obtain ⟨slots, place⟩ := first
    obtain ⟨slots', place'⟩ := second
    rintro ⟨hplace, grown, count, hslots, h⟩
    obtain rfl : place' = place := hplace
    obtain rfl : slots' = _ := hslots
    exact .mk place' count h

/-- Rows of equal lengths, slot by slot. -/
theorem forall₂_grownTo_of_layout {R : Node → Node → Prop} {first second : List (Row Node)}
    (hlayout : first.map (fun row => (row.slots.length, row.place)) =
      second.map fun row => (row.slots.length, row.place))
    (hslots : List.Forall₂ R (first.flatMap Row.slots) (second.flatMap Row.slots)) :
    List.Forall₂ (Row.GrownTo R) first second := by
  induction first generalizing second with
  | nil =>
    obtain rfl := List.map_eq_nil_iff.1 hlayout.symm
    exact .nil
  | cons row rows ih =>
    cases second with
    | nil => cases hlayout
    | cons row' rows' =>
      obtain ⟨hrow, hrows⟩ := List.cons.inj hlayout
      obtain ⟨slots, place⟩ := row
      obtain ⟨slots', place'⟩ := row'
      obtain ⟨hlength, rfl⟩ := Prod.mk.inj hrow
      rw [List.flatMap_cons, List.flatMap_cons] at hslots
      have hfirst := List.forall₂_take_append _ _ _ hslots
      have hrest := List.forall₂_drop_append _ _ _ hslots
      rw [← hlength, List.take_left] at hfirst
      rw [← hlength, List.drop_left] at hrest
      have hgrown := Row.GrownTo.mk place 0 hfirst
      rw [List.replicate_zero, List.append_nil] at hgrown
      exact .cons hgrown (ih hrows hrest)

namespace Node.GrownTo

theorem of_face {first second : Node} (hface : first.face = second.face)
    (hslots : List.Forall₂ Node.GrownTo first.slots second.slots) : first.GrownTo second :=
  .mk (congrArg Face.info hface).symm (congrArg Face.kind hface).symm
    (congrArg Face.altName hface).symm
    (forall₂_grownTo_of_layout (congrArg Face.layout hface) hslots)

theorem refl (node : Node) : node.GrownTo node := by
  induction node using Node.slotInduction with
  | step node ih => exact of_face rfl (List.forall₂_same.2 ih)

/-- A leaf does not grow. -/
theorem eq_of_leaf {node final : Node} (h : node.GrownTo final) (hkind : node.kind ≠ .group) :
    final = node := by
  obtain ⟨hinfo, hkind', haltName, hrows⟩ := h
  rw [Node.rows_eq_nil_of_kind hkind] at hrows
  have hnil : final.rows = [] := List.forall₂_nil_left_iff.1 hrows
  refine Node.eq_of_face ?_ ?_
  · rw [Node.face, Node.face, hinfo, hkind', haltName, hnil, Node.rows_eq_nil_of_kind hkind]
  · rw [Node.slots, Node.slots, hnil, Node.rows_eq_nil_of_kind hkind]

theorem eq_replicate_blank {place : Place} {count : Nat} {grown : List Node}
    (h : List.Forall₂ Node.GrownTo (List.replicate count (.blank place)) grown) :
    grown = List.replicate count (.blank place) := by
  have hsame : List.Forall₂ (· = ·) (List.replicate count (.blank place)) grown := by
    refine ((List.forall₂_and_left _ _).2 ⟨fun _ hslot => List.eq_of_mem_replicate hslot, h⟩).imp ?_
    rintro _ slot ⟨rfl, hslot⟩
    exact (hslot.eq_of_leaf (by simp [Node.kind, Node.blank])).symm
  rw [List.forall₂_eq_eq_eq] at hsame
  exact hsame.symm

theorem row_trans {first second third : Row Node}
    (htrans : ∀ slot ∈ first.slots, ∀ middle final : Node, slot.GrownTo middle →
      middle.GrownTo final → slot.GrownTo final)
    (h : Row.GrownTo Node.GrownTo first second) (h' : Row.GrownTo Node.GrownTo second third) :
    Row.GrownTo Node.GrownTo first third := by
  obtain ⟨hplace, grown, count, hslots, hpairs⟩ := Row.grownTo_iff.1 h
  obtain ⟨hplace', grown', count', hslots', hpairs'⟩ := Row.grownTo_iff.1 h'
  rw [hslots] at hpairs'
  have hkept := List.forall₂_take grown.length hpairs'
  have hblanks := List.forall₂_drop grown.length hpairs'
  rw [List.take_left] at hkept
  rw [List.drop_left] at hblanks
  refine Row.grownTo_iff.2 ⟨hplace'.trans hplace, grown'.take grown.length, count + count', ?_, ?_⟩
  · rw [hslots', hplace, ← List.replicate_append_replicate, ← eq_replicate_blank hblanks,
      ← List.append_assoc, List.take_append_drop]
  · have hpairs := (List.forall₂_and_left _ _).2 ⟨fun _ hslot => hslot, hpairs⟩
    exact forall₂_comp (fun slot middle final hslot => htrans slot hslot.1 middle final hslot.2)
      hpairs hkept

theorem trans {first second third : Node} (h : first.GrownTo second) (h' : second.GrownTo third) :
    first.GrownTo third := by
  induction first using Node.slotInduction generalizing second third with
  | step first ih =>
    obtain ⟨hinfo, hkind, haltName, hrows⟩ := h
    obtain ⟨hinfo', hkind', haltName', hrows'⟩ := h'
    refine .mk (hinfo'.trans hinfo) (hkind'.trans hkind) (haltName'.trans haltName) ?_
    have hrows := (List.forall₂_and_left _ _).2 ⟨fun _ hrow => hrow, hrows⟩
    refine forall₂_comp (fun row middle final hrow hfinal => ?_) hrows hrows'
    refine row_trans (fun slot hslot middle final hmiddle => ?_) hrow.2 hfinal
    exact ih slot (Node.mem_slots_of_mem_rows hrow.1 hslot) hmiddle

end Node.GrownTo

/-! ## Checks let trees grow -/

theorem forall₂_grownTo_self (slots : List Node) : List.Forall₂ Node.GrownTo slots slots :=
  List.forall₂_same.2 fun slot _ => .refl slot

theorem forall₂_grownTo_padRows (group : String) (index : Nat) (rows : List (Row Node))
    (padded : Nat) :
    List.Forall₂ (Row.GrownTo Node.GrownTo) rows (padRows group index rows padded).value := by
  induction rows generalizing index padded with
  | nil => exact .nil
  | cons row rows ih =>
    unfold padRows
    cases row.error? group index with
    | some error => exact forall₂_grownTo_of_layout rfl (forall₂_grownTo_self _)
    | none =>
      refine .cons (Row.grownTo_iff.2 ⟨rfl, row.slots, row.missing, rfl, ?_⟩)
        (ih (index + 1) (padded + row.missing))
      exact forall₂_grownTo_self row.slots

theorem forall₂_grownTo_padGroup (info : NodeInfo) (rows : List (Row Node)) (padded : Nat) :
    List.Forall₂ (Row.GrownTo Node.GrownTo) rows (padGroup info rows padded).value := by
  unfold padGroup
  split_ifs with hempty hmany
  · exact forall₂_grownTo_of_layout rfl (forall₂_grownTo_self _)
  · exact forall₂_grownTo_of_layout rfl (forall₂_grownTo_self _)
  · exact forall₂_grownTo_padRows ..

theorem grownTo_shapeVisitor (parentId : UInt8) (node : Node) (padded : Nat) :
    node.GrownTo (shapeVisitor parentId node padded).value := by
  cases hlabel : node.labelError? with
  | some error =>
    rw [shapeVisitor_of_error hlabel]
    exact .refl node
  | none =>
    by_cases hkind : node.kind = .group
    · rw [shapeVisitor_of_group hlabel hkind]
      have hrows := forall₂_grownTo_padGroup node.info node.rows padded
      cases node with
      | item info => cases hkind
      | altItem info altName => cases hkind
      | group info rows => exact .mk rfl rfl rfl hrows
    · rw [shapeVisitor_of_leaf hlabel hkind]
      exact .refl node

/-- Whatever the checks leave of a tree has grown out of it. -/
theorem grownTo_walk (root : Node) (padded : Nat) :
    root.GrownTo (shapeVisitor.walk root padded).value :=
  Visitor.relates_walk .refl (fun _ _ _ => .trans) (fun _ _ => .of_face) grownTo_shapeVisitor root
    padded

/-! ## What has become of each node -/

/-- The slots of some rows, each with the slot that has its place in other rows. -/
def slotPairs (rows rows' : List (Row Node)) : List (Node × Node) :=
  (rows.zip rows').flatMap fun pair => pair.1.slots.zip pair.2.slots

mutual

/-- The nodes below a node in hybrid order, each with the node that has its place below another
node. -/
def Node.pairsBelow : Node → Node → List (Node × Node)
  | .group _ rows, final => slotPairs rows final.rows ++ pairsBelowRows rows final.rows
  | _, _ => []

/-- The nodes below the slots of some rows, each with the node that has its place in other rows. -/
def pairsBelowRows : List (Row Node) → List (Row Node) → List (Node × Node)
  | row :: rows, row' :: rows' => pairsBelowRow row row' ++ pairsBelowRows rows rows'
  | _, _ => []

/-- The nodes below the slots of a row, each with the node that has its place in another row. -/
def pairsBelowRow : Row Node → Row Node → List (Node × Node)
  | ⟨slots, _⟩, row' => pairsBelowSlots slots row'.slots

/-- The nodes below some slots, each with the node that has its place below other slots. -/
def pairsBelowSlots : List Node → List Node → List (Node × Node)
  | slot :: slots, slot' :: slots' => slot.pairsBelow slot' ++ pairsBelowSlots slots slots'
  | _, _ => []

end

/-- The nodes of a tree in hybrid order, each with the node that has its place in another tree. -/
def Node.pairs (declared final : Node) : List (Node × Node) :=
  (declared, final) :: declared.pairsBelow final

theorem pairsBelowSlots_eq (slots slots' : List Node) : pairsBelowSlots slots slots' =
    (slots.zip slots').flatMap fun pair => pair.1.pairsBelow pair.2 := by
  induction slots generalizing slots' with
  | nil => simp [pairsBelowSlots]
  | cons slot slots ih =>
    cases slots' with
    | nil => simp [pairsBelowSlots]
    | cons slot' slots' => rw [pairsBelowSlots, ih, List.zip_cons_cons, List.flatMap_cons]

theorem pairsBelowRows_eq (rows rows' : List (Row Node)) : pairsBelowRows rows rows' =
    (slotPairs rows rows').flatMap fun pair => pair.1.pairsBelow pair.2 := by
  induction rows generalizing rows' with
  | nil => simp [pairsBelowRows, slotPairs]
  | cons row rows ih =>
    cases rows' with
    | nil => simp [pairsBelowRows, slotPairs]
    | cons row' rows' =>
      obtain ⟨slots, place⟩ := row
      rw [pairsBelowRows, ih, pairsBelowRow, pairsBelowSlots_eq, slotPairs, slotPairs,
        List.zip_cons_cons, List.flatMap_cons, List.flatMap_append]

theorem Node.pairsBelow_eq (declared final : Node) : declared.pairsBelow final =
    slotPairs declared.rows final.rows ++
      (slotPairs declared.rows final.rows).flatMap fun pair => pair.1.pairsBelow pair.2 := by
  cases declared with
  | item info => simp [Node.pairsBelow, slotPairs, Node.rows]
  | altItem info altName => simp [Node.pairsBelow, slotPairs, Node.rows]
  | group info rows => rw [Node.pairsBelow, pairsBelowRows_eq, Node.rows]

section SlotPairs

variable {R : Node → Node → Prop} {rows rows' : List (Row Node)}

/-- The slots of a grown row that stand in the place of declared ones. -/
theorem Row.GrownTo.zip_slots {first second : Row Node} (h : Row.GrownTo R first second) :
    ∃ grown count, second.slots = grown ++ List.replicate count (.blank first.place) ∧
      List.Forall₂ R first.slots grown ∧ first.slots.zip second.slots = first.slots.zip grown := by
  obtain ⟨-, grown, count, hslots, hpairs⟩ := Row.grownTo_iff.1 h
  refine ⟨grown, count, hslots, hpairs, ?_⟩
  have hzip : (first.slots ++ []).zip (grown ++ List.replicate count (Node.blank first.place)) =
      first.slots.zip grown ++ _ := List.zip_append hpairs.length_eq
  rwa [List.append_nil, List.zip_nil_left, List.append_nil, ← hslots] at hzip

theorem slotPairs_cons (row row' : Row Node) (rows rows' : List (Row Node)) :
    slotPairs (row :: rows) (row' :: rows') =
      row.slots.zip row'.slots ++ slotPairs rows rows' := rfl

theorem map_fst_slotPairs (h : List.Forall₂ (Row.GrownTo R) rows rows') :
    (slotPairs rows rows').map Prod.fst = rows.flatMap Row.slots := by
  induction h with
  | nil => rfl
  | cons hrow _ ih =>
    obtain ⟨grown, count, -, hpairs, hzip⟩ := hrow.zip_slots
    rw [slotPairs_cons, List.map_append, ih, hzip, List.map_fst_zip hpairs.length_eq.le,
      List.flatMap_cons]

theorem fst_mem_of_mem_slotPairs (h : List.Forall₂ (Row.GrownTo R) rows rows')
    {pair : Node × Node} (hpair : pair ∈ slotPairs rows rows') :
    pair.1 ∈ rows.flatMap Row.slots := by
  rw [← map_fst_slotPairs h]
  exact List.mem_map_of_mem hpair

theorem forall_mem_slotPairs (h : List.Forall₂ (Row.GrownTo R) rows rows') :
    ∀ pair ∈ slotPairs rows rows', R pair.1 pair.2 := by
  induction h with
  | nil => simp [slotPairs]
  | cons hrow _ ih =>
    obtain ⟨grown, count, -, hpairs, hzip⟩ := hrow.zip_slots
    rw [slotPairs_cons, List.forall_mem_append, hzip]
    exact ⟨fun pair hpair => (List.forall₂_iff_zip.1 hpairs).2 hpair, ih⟩

/-- Blanks that were added do not count in what is gathered from slots if blanks give nothing. -/
theorem flatMap_slots_of_grownTo {β : Type} {f : Node → List β}
    (hblank : ∀ place, f (.blank place) = []) (h : List.Forall₂ (Row.GrownTo R) rows rows') :
    (rows'.flatMap Row.slots).flatMap f = (slotPairs rows rows').flatMap fun pair => f pair.2 := by
  induction h with
  | nil => rfl
  | @cons row row' rows rows' hrow _ ih =>
    obtain ⟨grown, count, hslots, hpairs, hzip⟩ := hrow.zip_slots
    have hblanks : (List.replicate count (.blank row.place)).flatMap f = [] := by
      refine List.flatMap_eq_nil_iff.2 fun slot hslot => ?_
      rw [List.eq_of_mem_replicate hslot, hblank]
    have hgrown : grown.flatMap f = (row.slots.zip grown).flatMap fun pair => f pair.2 := by
      conv_lhs => rw [← List.map_snd_zip hpairs.length_eq.ge, List.flatMap_map]
    rw [slotPairs_cons, List.flatMap_cons, List.flatMap_append, List.flatMap_append, ih, hzip,
      hslots, List.flatMap_append, hblanks, List.append_nil, hgrown]

end SlotPairs

theorem active_flatMap {α : Type} (idle : Node → Bool) (members : List α) (f : α → List Node) :
    active idle (members.flatMap f) = members.flatMap fun member => active idle (f member) :=
  List.filter_flatMap ..

namespace Node.GrownTo

variable {declared final : Node}

theorem forall₂_rows (h : declared.GrownTo final) :
    List.Forall₂ (Row.GrownTo Node.GrownTo) declared.rows final.rows := by
  obtain ⟨-, -, -, hrows⟩ := h
  exact hrows

/-- Induction over a tree and the one that it has grown to: what holds for all slots and what has
become of them holds for the nodes that they are slots of. -/
theorem pairInduction {motive : (declared final : Node) → declared.GrownTo final → Prop}
    (step : ∀ {declared final : Node} (h : declared.GrownTo final),
      (∀ pair ∈ slotPairs declared.rows final.rows, ∃ h, motive pair.1 pair.2 h) →
      motive declared final h)
    (h : declared.GrownTo final) : motive declared final h := by
  induction declared using Node.slotInduction generalizing final with
  | step declared ih =>
    refine step h fun pair hpair => ?_
    have hgrown := forall_mem_slotPairs h.forall₂_rows pair hpair
    exact ⟨hgrown, ih pair.1 (fst_mem_of_mem_slotPairs h.forall₂_rows hpair) hgrown⟩

theorem map_fst_pairsBelow (h : declared.GrownTo final) :
    (declared.pairsBelow final).map Prod.fst = declared.descendants := by
  induction h using pairInduction with
  | @step declared final h ih =>
    have hslots := map_fst_slotPairs h.forall₂_rows
    have hbelow : ∀ pair ∈ slotPairs declared.rows final.rows,
        (pair.1.pairsBelow pair.2).map Prod.fst = pair.1.descendants :=
      fun pair hpair => (ih pair hpair).2
    rw [Node.pairsBelow_eq, List.map_append, hslots, List.map_flatMap, List.flatMap_congr hbelow,
      Node.descendants_eq, Node.slots, ← hslots, List.flatMap_map]

/-- The nodes of the declared tree are all there, in hybrid order. -/
theorem map_fst_pairs (h : declared.GrownTo final) :
    (declared.pairs final).map Prod.fst = declared.flatten :=
  congrArg (declared :: ·) h.map_fst_pairsBelow

theorem active_pairsBelow (h : declared.GrownTo final) :
    active Node.isFiller ((declared.pairsBelow final).map Prod.snd) =
      active Node.isFiller final.descendants := by
  induction h using pairInduction with
  | @step declared final h ih =>
    have hrows := h.forall₂_rows
    have hbelow : ∀ pair ∈ slotPairs declared.rows final.rows,
        active Node.isFiller ((pair.1.pairsBelow pair.2).map Prod.snd) =
          active Node.isFiller pair.2.descendants := fun pair hpair => (ih pair hpair).2
    have hslots := flatMap_slots_of_grownTo (f := fun node => active Node.isFiller [node])
      (fun _ => rfl) hrows
    rw [← active_flatMap, ← active_flatMap, List.flatMap_singleton'] at hslots
    have hdescendants := flatMap_slots_of_grownTo
      (f := fun node => active Node.isFiller node.descendants) (fun _ => rfl) hrows
    rw [Node.pairsBelow_eq, List.map_append, active_append, List.map_flatMap, active_flatMap,
      List.flatMap_congr hbelow, ← hdescendants, Node.descendants_eq, active_append,
      active_flatMap, Node.slots, hslots, List.map_eq_flatMap]

/-- Apart from blanks the nodes of the grown tree are all there, in hybrid order. -/
theorem active_pairs (h : declared.GrownTo final) :
    active Node.isFiller ((declared.pairs final).map Prod.snd) =
      active Node.isFiller final.flatten := by
  rw [Node.pairs, List.map_cons, Node.flatten_eq, ← List.singleton_append, active_append,
    h.active_pairsBelow, ← active_append, List.singleton_append]

/-- What has become of a node has grown out of it. -/
theorem forall_mem_pairs (h : declared.GrownTo final) :
    ∀ pair ∈ declared.pairs final, pair.1.GrownTo pair.2 := by
  induction h using pairInduction with
  | step h ih =>
    refine List.forall_mem_cons.2 ⟨h, ?_⟩
    rw [Node.pairsBelow_eq, List.forall_mem_append]
    refine ⟨forall_mem_slotPairs h.forall₂_rows, fun pair hpair => ?_⟩
    obtain ⟨slot, hslot, hpair⟩ := List.mem_flatMap.1 hpair
    obtain ⟨-, hbelow⟩ := ih slot hslot
    exact hbelow pair (List.mem_cons_of_mem _ hpair)

end Node.GrownTo

end SoftMenu
