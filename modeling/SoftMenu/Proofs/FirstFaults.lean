import SoftMenu.Proofs.Growth
import SoftMenu.Proofs.PassLaws
import SoftMenu.Proofs.Spots

/-!
# Where checking stops

A node may break several rules. `Node.Breaks` says which of them is reported: that of the label
comes first, then those of the number of rows, then the rows one by one. It also tells how many rows
have been filled up by then (`exists_breaks_of_halt`).

Checking stops at the first node in hybrid order that breaks a rule. All nodes before it are full,
the rows of this node are filled up to the one that breaks a rule, and all else is as it was
declared (`Node.PaddedUpTo`).
-/

namespace SoftMenu

/-! ## Broken rules -/

/-- The rule of labels that a node breaks, and the error for it. -/
inductive Node.BreaksLabel (node : Node) : CompileError → Prop where
  | reserved (start : String) (hstart : start ∈ reservedStarts)
    (h : start.toList <+: node.label.toList) :
    BreaksLabel node (.illegalLabel node.label node.name (.reserved start) node.place)
  | misplacedBlank (hfree : ∀ start ∈ reservedStarts, ¬ start.toList <+: node.label.toList)
    (hname : node.name = blankMark) (h : node.kind ≠ .item) :
    BreaksLabel node (.misplacedBlank node.kind node.place)
  | labelledBlank (hfree : ∀ start ∈ reservedStarts, ¬ start.toList <+: node.label.toList)
    (hname : node.name = blankMark) (hkind : node.kind = .item) (h : node.label ≠ blankMark) :
    BreaksLabel node (.illegalLabel node.label node.name .labelledBlank node.place)
  | blankLabel (hname : node.name ≠ blankMark) (h : node.label = blankMark) :
    BreaksLabel node (.illegalLabel node.label node.name .blankLabel node.place)
  | noLetter (hfree : ∀ start ∈ reservedStarts, ¬ start.toList <+: node.label.toList)
    (hname : node.name ≠ blankMark) (hlabel : node.label ≠ blankMark)
    (h : beginsWithLetter node.label = false) :
    BreaksLabel node (.illegalLabel node.label node.name .noLetter node.place)

/-- The first rule that a node breaks, after so many rows that are in order, and the error for
it. -/
inductive Node.Breaks (node : Node) : Nat → CompileError → Prop where
  | label {error : CompileError} (h : node.BreaksLabel error) : Breaks node 0 error
  | emptyGroup (hlabel : LegalLabel node.kind node.name node.label) (hkind : node.kind = .group)
    (h : node.rows = []) : Breaks node 0 (.emptyGroup node.name node.place)
  | tooManyRows (hlabel : LegalLabel node.kind node.name node.label) (hkind : node.kind = .group)
    (h : 255 < node.rows.length) :
    Breaks node 0 (.tooManyRows node.name node.rows.length node.place)
  | rowOverflow (hlabel : LegalLabel node.kind node.name node.label) (hkind : node.kind = .group)
    (hle : node.rows.length ≤ 255) {before after : List (Row Node)} {row : Row Node}
    (hrows : node.rows = before ++ row :: after)
    (hbefore : ∀ row ∈ before, 0 < row.slots.length ∧ row.slots.length ≤ 5)
    (h : 5 < row.slots.length) :
    Breaks node before.length (.rowOverflow node.name before.length row.slots.length row.place)
  | emptyRow (hlabel : LegalLabel node.kind node.name node.label) (hkind : node.kind = .group)
    (hle : node.rows.length ≤ 255) {before after : List (Row Node)} {row : Row Node}
    (hrows : node.rows = before ++ row :: after)
    (hbefore : ∀ row ∈ before, 0 < row.slots.length ∧ row.slots.length ≤ 5)
    (h : row.slots = []) : Breaks node before.length (.emptyRow node.name before.length row.place)

theorem Node.breaksLabel_of_labelError? {node : Node} {error : CompileError}
    (h : node.labelError? = some error) : node.BreaksLabel error := by
  unfold Node.labelError? at h
  cases hreserved : reservedStart? node.label with
  | some start =>
    rw [hreserved] at h
    obtain rfl := Option.some.inj h
    refine .reserved start (List.mem_of_find?_eq_some hreserved) ?_
    simpa [List.isPrefixOf_iff_prefix] using List.find?_some hreserved
  | none =>
    have hfree := reservedStart?_eq_none_iff.1 hreserved
    rw [hreserved] at h
    cases hblank : node.isBlank with
    | true =>
      have hname := Node.isBlank_iff.1 hblank
      simp only [hblank, if_true] at h
      split_ifs at h with hkind hlabel
      · obtain rfl := Option.some.inj h
        exact .misplacedBlank hfree hname hkind
      · obtain rfl := Option.some.inj h
        exact .labelledBlank hfree hname (not_not.1 hkind) hlabel
    | false =>
      have hname := Node.isBlank_eq_false_iff.1 hblank
      simp only [hblank, Bool.false_eq_true, if_false] at h
      split_ifs at h with hlabel hletter
      · obtain rfl := Option.some.inj h
        exact .blankLabel hname hlabel
      · obtain rfl := Option.some.inj h
        exact .noLetter hfree hname hlabel (by simpa using hletter)

/-! ## Rows that have been filled up -/

/-- A face with five slots in each of its first rows, so many of them. -/
def Face.paddedTo (rows : Nat) (face : Face) : Face :=
  { face with
    layout := (face.layout.take rows).map (fun entry => (5, entry.2)) ++ face.layout.drop rows }

@[simp] theorem Face.paddedTo_zero (face : Face) : face.paddedTo 0 = face := by
  simp [Face.paddedTo]

theorem Node.paddedTo_of_isFiller {node : Node} (h : node.isFiller) :
    node.face.paddedTo node.rows.length = node.face := by
  have hrows := Node.rows_eq_nil_of_kind (Node.kind_ne_group_of_isFiller h)
  rw [hrows, List.length_nil, Face.paddedTo_zero]

theorem Node.WellShaped.face_padded {node : Node} (h : node.WellShaped) :
    node.face.padded = node.face.paddedTo node.rows.length := by
  have hlayout : node.face.layout.length = node.rows.length := List.length_map _
  have hfive : ∀ entry ∈ node.face.layout, (entry.1 + (rowSlots - entry.1), entry.2) =
      (5, entry.2) := by
    intro entry hentry
    obtain ⟨row, hrow, rfl⟩ := List.mem_map.1 hentry
    rw [Nat.add_sub_cancel' (h.length_slots_le hrow)]
    rfl
  rw [Face.padded, Face.paddedTo, ← hlayout, List.take_length, List.drop_length, List.append_nil,
    List.map_congr_left hfive]

theorem padRows_of_halt {group : String} {index : Nat} {rows : List (Row Node)} {padded : Nat}
    {error : CompileError} (h : (padRows group index rows padded).halt = some error) :
    ∃ before row after, rows = before ++ row :: after ∧
      (∀ row ∈ before, 0 < row.slots.length ∧ row.slots.length ≤ rowSlots) ∧
      row.error? group (index + before.length) = some error ∧
      (padRows group index rows padded).value = before.map Row.pad ++ row :: after := by
  induction rows generalizing index padded with
  | nil => cases h
  | cons row rows ih =>
    unfold padRows at h ⊢
    cases herror : row.error? group index with
    | some reason =>
      rw [herror] at h
      obtain rfl := Option.some.inj h
      exact ⟨[], row, rows, rfl, by simp, herror, rfl⟩
    | none =>
      rw [herror] at h
      obtain ⟨before, bad, after, rfl, hbefore, hbad, hvalue⟩ := ih h
      refine ⟨row :: before, bad, after, rfl, ?_, ?_, congrArg (row.pad :: ·) hvalue⟩
      · exact List.forall_mem_cons.2 ⟨(Row.error?_eq_none_iff group index row).1 herror, hbefore⟩
      · have hindex : index + 1 + before.length = index + (row :: before).length := by
          rw [List.length_cons]
          omega
        rwa [← hindex]

theorem Row.error?_of_some {group : String} {index : Nat} {row : Row Node} {error : CompileError}
    (h : row.error? group index = some error) :
    (5 < row.slots.length ∧ error = .rowOverflow group index row.slots.length row.place) ∨
      (row.slots = [] ∧ error = .emptyRow group index row.place) := by
  unfold Row.error? at h
  split_ifs at h with hmany hempty
  · exact Or.inl ⟨hmany, (Option.some.inj h).symm⟩
  · exact Or.inr ⟨List.isEmpty_iff.1 hempty, (Option.some.inj h).symm⟩

theorem Node.face_group_padRows (info : NodeInfo) {before : List (Row Node)}
    (h : ∀ row ∈ before, 0 < row.slots.length ∧ row.slots.length ≤ rowSlots) (row : Row Node)
    (after : List (Row Node)) :
    (Node.group info (before.map Row.pad ++ row :: after)).face =
      (Node.group info (before ++ row :: after)).face.paddedTo before.length := by
  have hfive : ∀ row ∈ before, (row.pad.slots.length, row.pad.place) = (5, row.place) := by
    intro row hrow
    rw [Row.length_slots_pad (h row hrow).2]
    rfl
  have hlength : (before.map fun row => (row.slots.length, row.place)).length = before.length :=
    List.length_map _
  simp only [Node.face, Face.paddedTo, Node.rows, List.map_append, List.map_map, Function.comp_def,
    List.map_congr_left hfive, List.take_left' hlength, List.drop_left' hlength]
  rfl

/-- Why a visit gives up, and what it has done to the node by then. -/
theorem exists_breaks_of_halt {parentId : UInt8} {node : Node} {padded : Nat} {error : CompileError}
    (h : (shapeVisitor parentId node padded).halt = some error) :
    ∃ rows, node.Breaks rows error ∧
      (shapeVisitor parentId node padded).value.face = node.face.paddedTo rows := by
  cases hlabel : node.labelError? with
  | some reason =>
    rw [shapeVisitor_of_error hlabel] at h ⊢
    obtain rfl := Option.some.inj h
    exact ⟨0, .label (Node.breaksLabel_of_labelError? hlabel), (Face.paddedTo_zero _).symm⟩
  | none =>
    have hlegal := node.labelError?_eq_none_iff.1 hlabel
    by_cases hkind : node.kind = .group
    · rw [shapeVisitor_of_group hlabel hkind] at h ⊢
      cases node with
      | item info => cases hkind
      | altItem info altName => cases hkind
      | group info rows =>
        unfold padGroup at h ⊢
        split_ifs at h ⊢ with hempty hmany
        · obtain rfl := Option.some.inj h
          exact ⟨0, .emptyGroup hlegal hkind (List.isEmpty_iff.1 hempty),
            (Face.paddedTo_zero _).symm⟩
        · obtain rfl := Option.some.inj h
          exact ⟨0, .tooManyRows hlegal hkind hmany, (Face.paddedTo_zero _).symm⟩
        · obtain ⟨before, row, after, rfl, hbefore, hrow, hvalue⟩ := padRows_of_halt h
          have hle : (before ++ row :: after).length ≤ 255 := Nat.le_of_not_lt hmany
          have hface := Node.face_group_padRows info hbefore row after
          rw [← hvalue] at hface
          rw [Nat.zero_add] at hrow
          rcases Row.error?_of_some hrow with ⟨hoverflow, rfl⟩ | ⟨hnone, rfl⟩
          · exact ⟨before.length, .rowOverflow hlegal hkind hle rfl hbefore hoverflow, hface⟩
          · exact ⟨before.length, .emptyRow hlegal hkind hle rfl hbefore hnone, hface⟩
    · rw [shapeVisitor_of_leaf hlabel hkind] at h
      cases h

/-! ## Trees that have been filled up in part -/

/-- The first nodes of a tree in hybrid order, so many of them, have five slots in every row, and
the next one in its first rows, so many of them. These slots are the declared ones, then blanks. All
else is as it was declared. -/
structure Node.PaddedUpTo (count rows : Nat) (declared final : Node) : Prop where
  grown : declared.GrownTo final
  nodes_eq : (declared.pairs final).map Prod.fst = declared.flatten
  full : ∀ j node left, (declared.pairs final)[j]? = some (node, left) → j < count →
    left.face = node.face.paddedTo node.rows.length
  partly : ∀ node left, (declared.pairs final)[count]? = some (node, left) →
    left.face = node.face.paddedTo rows
  untouched : ∀ j node left, (declared.pairs final)[j]? = some (node, left) → count < j →
    left.face = node.face

theorem flat_shapeVisitor_face : shapeVisitor.Flat Node.isFiller Node.face :=
  { flat_shapeVisitor with
    view_face := fun _ _ h => h
    visit_view := fun _ _ _ => rfl }

/-- The first node that breaks a rule, and what can be seen of the nodes that are not blanks after
the checks have stopped there. -/
theorem exists_fault {file : MenuFile} {error : CompileError}
    (h : (validate file).halt = some error) :
    ∃ before bad after rows, file.root.flatten = before ++ bad :: after ∧
      (∀ node ∈ before, node.WellShaped) ∧ bad.Breaks rows error ∧ bad.isFiller = false ∧
      (active Node.isFiller (validate file).value.root.flatten).map Node.face =
        (active Node.isFiller before).map (fun node => node.face.paddedTo node.rows.length) ++
          bad.face.paddedTo rows :: (active Node.isFiller after).map Node.face := by
  have halike := flat_shapeVisitor_face.alike_walk file.root 0
  have hsweep : (sweep (shapeVisitor nullId) (active Node.isFiller file.root.flatten) 0).halt =
      some error := halike.halt_eq.symm.trans h
  obtain ⟨before, bad, after, hactive, hbefore, hbad, -, hvalue⟩ := exists_split_of_sweep hsweep
  obtain ⟨rows, hbreaks, hface⟩ := exists_breaks_of_halt hbad
  -- The checks do not look at blanks; these are put back between the nodes.
  obtain ⟨first, rest, hflatten, rfl, hrest⟩ := List.filter_eq_append_iff.1 hactive
  obtain ⟨middle, last, rfl, hmiddle, hnot, rfl⟩ := List.filter_eq_cons_iff.1 hrest
  have hblanks : active Node.isFiller middle = [] := List.filter_eq_nil_iff.2 hmiddle
  refine ⟨first ++ middle, bad, last, rows, by rw [hflatten, List.append_assoc], ?_, hbreaks,
    by simpa using hnot, ?_⟩
  · intro node hnode
    by_cases hfiller : node.isFiller
    · exact Node.wellShaped_of_isFiller hfiller
    · have hmem : node ∈ active Node.isFiller (first ++ middle) :=
        mem_active.2 ⟨hnode, by simpa using hfiller⟩
      rw [active_append, hblanks, List.append_nil] at hmem
      exact (sweep_halt_iff (shapeVisitor_halt_iff nullId) _ 0).1 hbefore node hmem
  · have hfull : (sweep (shapeVisitor nullId) (active Node.isFiller first) 0).value.map Node.face =
        (active Node.isFiller first).map fun node => node.face.paddedTo node.rows.length := by
      refine map_sweep_of_halt (fun node padded hhalt => ?_) hbefore
      have hshape := (shapeVisitor_halt_iff nullId node padded).1 hhalt
      exact (face_shapeVisitor hhalt).trans hshape.face_padded
    have hview : (active Node.isFiller (validate file).value.root.flatten).map Node.face = _ :=
      halike.view_eq
    rw [hview, hvalue, List.map_append, List.map_cons, hface, active_append, hblanks,
      List.append_nil]
    exact congrArg (· ++ _) hfull

section Faces

variable {pairs : List (Node × Node)} (h : ∀ pair ∈ pairs, pair.1.GrownTo pair.2)

include h

theorem isFiller_of_mem_pairs : ∀ pair ∈ pairs, pair.2.isFiller = pair.1.isFiller := by
  intro pair hpair
  obtain ⟨hinfo, hkind, -, -⟩ := h pair hpair
  exact Node.isFiller_congr hinfo hkind

theorem active_map_snd : active Node.isFiller (pairs.map Prod.snd) =
    (pairs.filter fun pair => !pair.1.isFiller).map Prod.snd := by
  rw [active, List.filter_map]
  refine congrArg (List.map Prod.snd) (List.filter_congr fun pair hpair => ?_)
  exact congrArg not (isFiller_of_mem_pairs h pair hpair)

/-- If all nodes but blanks look as they should, the blanks do too. -/
theorem face_of_mem_pairs {face : Node → Face}
    (hleaf : ∀ node, node.isFiller → face node = node.face)
    (hfaces : ((pairs.filter fun pair => !pair.1.isFiller).map fun pair => pair.2.face) =
      (pairs.filter fun pair => !pair.1.isFiller).map fun pair => face pair.1) :
    ∀ pair ∈ pairs, pair.2.face = face pair.1 := by
  intro pair hpair
  by_cases hfiller : pair.1.isFiller
  · rw [hleaf _ hfiller, (h pair hpair).eq_of_leaf (Node.kind_ne_group_of_isFiller hfiller)]
  · exact List.map_inj_left.1 hfaces pair (List.mem_filter.2 ⟨hpair, by simpa using hfiller⟩)

end Faces

theorem paddedUpTo_of_faces {declared final bad : Node} {before after : List Node} {rows : Nat}
    (h : declared.GrownTo final) (hflatten : declared.flatten = before ++ bad :: after)
    (hbad : bad.isFiller = false)
    (hfaces : (active Node.isFiller final.flatten).map Node.face =
      (active Node.isFiller before).map (fun node => node.face.paddedTo node.rows.length) ++
        bad.face.paddedTo rows :: (active Node.isFiller after).map Node.face) :
    declared.PaddedUpTo before.length rows final := by
  have hfst := h.map_fst_pairs
  have hgrown := h.forall_mem_pairs
  rw [hflatten] at hfst
  obtain ⟨first, rest, hpairs, rfl, hrest⟩ := List.map_eq_append_iff.1 hfst
  obtain ⟨⟨node, left⟩, last, rfl, rfl, rfl⟩ := List.map_eq_cons_iff.1 hrest
  rw [← h.active_pairs, active_map_snd hgrown, hpairs, List.filter_append,
    List.filter_cons_of_pos (by simpa using hbad), List.map_append, List.map_append, List.map_cons,
    List.map_cons, active, active, List.filter_map, List.filter_map] at hfaces
  rw [hpairs, List.forall_mem_append, List.forall_mem_cons] at hgrown
  obtain ⟨hfirst, hnext⟩ := List.append_inj hfaces (by simp [Function.comp_def])
  obtain ⟨hleft, hlast⟩ := List.cons.inj hnext
  rw [List.map_map, List.map_map] at hfirst hlast
  have hfull := face_of_mem_pairs hgrown.1 (fun node hfiller => Node.paddedTo_of_isFiller hfiller)
    hfirst
  have huntouched := face_of_mem_pairs hgrown.2.2 (fun _ _ => rfl) hlast
  rw [List.length_map]
  refine ⟨h, h.map_fst_pairs, fun j node' left' hpair hj => ?_, fun node' left' hpair => ?_,
    fun j node' left' hpair hj => ?_⟩
  · rw [hpairs, List.getElem?_append_left hj] at hpair
    exact hfull _ (List.mem_of_getElem? hpair)
  · rw [hpairs, List.getElem?_append_right le_rfl, Nat.sub_self] at hpair
    obtain ⟨rfl, rfl⟩ := Prod.mk.inj (Option.some.inj hpair)
    exact hleft
  · rw [hpairs, List.getElem?_append_right hj.le] at hpair
    obtain ⟨k, hk⟩ : ∃ k, j - first.length = k + 1 := ⟨j - first.length - 1, by omega⟩
    rw [hk, List.getElem?_cons_succ] at hpair
    exact huntouched _ (List.mem_of_getElem? hpair)

/-! ## The first fault -/

/-- The group that the node with the given index is a slot of comes before it. -/
theorem Node.group_mem_of_slot {root group node : Node} {path : List Nat} {k : Nat}
    {before rest : List Node} (hflatten : root.flatten = before ++ rest)
    (hslot : root.spots[before.length]? = some (path ++ [k], node))
    (hgroup : root.at? path = some group) : group ∈ before := by
  obtain ⟨i, hi⟩ := List.getElem?_of_mem (Node.mem_spots_iff.2 hgroup)
  have hlt := Node.index_lt_of_slot hi hslot
  have hnode : root.flatten[i]? = some group := by
    rw [← Node.map_snd_spots, List.getElem?_map, hi]
    rfl
  rw [hflatten, List.getElem?_append_left hlt] at hnode
  exact List.mem_of_getElem? hnode

/-- If the checks stop, they do so at the first node that breaks a rule, and report the first rule
that it breaks. If this node is a slot, its group keeps all rules, those of rows included. The nodes
before it are full, its own rows are as far as they are in order, and all else is as it was. -/
theorem validate_stops_at_first_fault {file : MenuFile} {error : CompileError}
    (h : (validate file).halt = some error) :
    ∃ before bad after rows, file.root.flatten = before ++ bad :: after ∧
      (∀ node ∈ before, node.WellShaped) ∧ bad.Breaks rows error ∧
      (∀ path k group, file.root.spots[before.length]? = some (path ++ [k], bad) →
        file.root.at? path = some group → group.WellShaped) ∧
      file.root.PaddedUpTo before.length rows (validate file).value.root ∧
      (validate file).value.config = file.config := by
  obtain ⟨before, bad, after, rows, hflatten, hbefore, hbreaks, hbad, hfaces⟩ := exists_fault h
  have hgrown : file.root.GrownTo (validate file).value.root := grownTo_walk file.root 0
  refine ⟨before, bad, after, rows, hflatten, hbefore, hbreaks, fun path k group hslot hgroup => ?_,
    paddedUpTo_of_faces hgrown hflatten hbad hfaces, rfl⟩
  exact hbefore group (Node.group_mem_of_slot hflatten hslot hgroup)

/-- The second row of a group of the second level has six slots. A slot of its first row has a label
that does not begin with a letter, and so has a slot of the second row. -/
def crowdedMenu : MenuFile :=
  let info (name label : String) (line : Nat) : NodeInfo :=
    { name := ⟨name, none⟩, label, place := ⟨line, .empty line⟩ }
  let place (line : Nat) : Place := ⟨line, .empty line⟩
  let six := ["m1", "m2", "3", "m4", "m5", "m6"].map fun label => Node.item (info label label 8)
  let sub := Node.group (info "Sub" "mSub" 4) [⟨[.item (info "B" "9" 6)], place 5⟩, ⟨six, place 7⟩]
  ⟨{}, .group (info "Top" "mTop" 1) [⟨[.item (info "A" "mA" 3), sub], place 2⟩]⟩

/-- The row is reported. The root and the first row of the group are full. -/
theorem validate_stops_at_first_fault_crowded :
    (validate crowdedMenu).halt = some (.rowOverflow "Sub" 1 6 ⟨7, .empty 7⟩) ∧
    ∃ before bad after rows, crowdedMenu.root.flatten = before ++ bad :: after ∧
      (∀ node ∈ before, node.WellShaped) ∧
      bad.Breaks rows (.rowOverflow "Sub" 1 6 ⟨7, .empty 7⟩) ∧
      (∀ path k group, crowdedMenu.root.spots[before.length]? = some (path ++ [k], bad) →
        crowdedMenu.root.at? path = some group → group.WellShaped) ∧
      crowdedMenu.root.PaddedUpTo before.length rows (validate crowdedMenu).value.root ∧
      (validate crowdedMenu).value.config = crowdedMenu.config := by
  have hhalt : (validate crowdedMenu).halt = some (.rowOverflow "Sub" 1 6 ⟨7, .empty 7⟩) := by
    decide +kernel
  exact ⟨hhalt, validate_stops_at_first_fault hhalt⟩

end SoftMenu
