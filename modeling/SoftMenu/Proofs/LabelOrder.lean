import SoftMenu.Proofs.Clashes
import SoftMenu.Proofs.FirstFaults
import SoftMenu.Proofs.TextOrder

/-!
# Which use of a label is the first

Labels are registered in hybrid order, and a label that is used again is reported at the node that
comes second in this order, with the line of the node that comes first. That line need not be the
earlier one. In the text the two nodes stand the other way round exactly if the second one is below
a group that is declared before the first one, in the same group as it
(`duplicateLabel_in_hybrid_order`). `overtakenLabel` is such a menu.
-/

namespace SoftMenu

open scoped List

/-! ## The stage that reports a label -/

theorem syntaxFault_of_parse {source : String} {error : CompileError}
    (h : parse source = .error error) :
    SyntaxFault (tokenize source) (endPlace source) error := by
  cases hrun : Reader.run {} (tokenize source) with
  | error fault =>
    rw [parse, parseTokens_of_error hrun] at h
    obtain rfl := Except.error.inj h
    exact (syntaxFault_of_run hrun _).1
  | ok reader =>
    rw [parse, parseTokens_of_run hrun] at h
    exact (syntaxFault_of_finish hrun h).1

section Report

variable {options : CompileOptions} {source label : String} {firstLine : Nat} {place : Place}

/-- Only numbering reports that a label is used again. -/
theorem exists_halt_of_duplicateLabel
    (h : compile options source = .error (.duplicateLabel label firstLine place)) :
    ∃ parsed, parse source = .ok parsed ∧ (validate parsed.file).halt = none ∧
      (assignIds options.duplicateNames (validate parsed.file).value).halt =
        some (.duplicateLabel label firstLine place) := by
  simp only [compile, bind_eq_error_iff, toExcept_eq_error_iff, toExcept_eq_ok_iff] at h
  rcases h with hparse | ⟨parsed, hparsed, hshape | ⟨_, ⟨hshape, rfl⟩, h⟩⟩
  · exact absurd (syntaxFault_of_parse hparse) id
  · obtain ⟨before, bad, after, rows, -, -, hbreaks, -⟩ := exists_fault hshape
    cases hbreaks with
    | label hlabel => cases hlabel
  rcases h with hids | ⟨_, -, hnames | ⟨_, -, htable | ⟨table, -, h⟩⟩⟩
  · exact ⟨parsed, hparsed, hshape, hids⟩
  · obtain ⟨node, -, -, text, fault, herror⟩ := exists_of_explodeNames hnames
    cases herror
  · rw [ofFile_eq_error_iff, namePool, numberNames_eq_error_iff (by omega)] at htable
    obtain ⟨pooled, -, herror⟩ := htable
    cases herror
  · cases h

theorem exists_first_of_refusal {policy : DuplicatePolicy} {earlier : List Node} {node : Node}
    (h : node.refusal? policy earlier = some (.duplicateLabel label firstLine place)) :
    node.isBlank = false ∧ node.label = label ∧ node.place = place ∧
      ∃ first ∈ earlier, first.isBlank = false ∧ first.label = label ∧
        first.place.line = firstLine := by
  unfold Node.refusal? at h
  rcases Option.or_eq_some_iff.1 h with hclash | ⟨-, hoverflow⟩
  · split_ifs at hclash with hblank
    rcases Option.or_eq_some_iff.1 hclash with hname | ⟨-, hlabel⟩
    · obtain ⟨first, -, hname⟩ := Option.bind_eq_some_iff.1 hname
      split_ifs at hname
      cases hname
    · obtain ⟨first, hfirst, herror⟩ := Option.map_eq_some_iff.1 hlabel
      obtain ⟨rfl, rfl, rfl⟩ := CompileError.duplicateLabel.inj herror
      have hfound : first.isBlank = false ∧ first.label = node.label := by
        simpa using List.find?_some hfirst
      exact ⟨by simpa using hblank, rfl, rfl, first, List.mem_of_find?_eq_some hfirst, hfound.1,
        hfound.2, rfl⟩
  · unfold Node.overflow? at hoverflow
    split_ifs at hoverflow
    cases hoverflow

/-! ## The two nodes -/

/-- What an error about a label says of the tree that has been read: two of its nodes have the
label, the error has the place of the one that comes second in hybrid order and the line of the
other. -/
structure LabelClash (root : Node) (label : String) (firstLine : Nat) (place : Place)
    (first second : List Nat × Node) : Prop where
  sublist : [first, second] <+ root.spots
  label_first : first.2.label = label
  label_second : second.2.label = label
  line_first : first.2.place.line = firstLine
  place_second : second.2.place = place

namespace LabelClash

variable {root : Node} {first second : List Nat × Node}

theorem at?_first (h : LabelClash root label firstLine place first second) :
    root.at? first.1 = some first.2 :=
  Node.mem_spots_iff.1 (h.sublist.subset List.mem_cons_self)

theorem at?_second (h : LabelClash root label firstLine place first second) :
    root.at? second.1 = some second.2 :=
  Node.mem_spots_iff.1 (h.sublist.subset (List.mem_cons_of_mem _ List.mem_cons_self))

theorem path_ne (h : LabelClash root label firstLine place first second) : first.1 ≠ second.1 := by
  have hnodup := root.nodup_paths_spots.sublist (h.sublist.map Prod.fst)
  exact List.pairwise_pair.1 hnodup

theorem overtakes_iff (h : LabelClash root label firstLine place first second) :
    Overtakes first.1 second.1 ↔ second.1 < first.1 := by
  refine ⟨Overtakes.lt, fun hlt => ?_⟩
  rcases List.pairwise_pair.1 (root.lt_or_overtakes_spots.sublist h.sublist) with hle | hovertakes
  · exact absurd hlt (lt_asymm hle)
  · exact hovertakes

theorem not_overtakes_iff (h : LabelClash root label firstLine place first second) :
    ¬ Overtakes first.1 second.1 ↔ first.1 < second.1 := by
  rw [h.overtakes_iff, not_lt]
  exact ⟨fun hle => lt_of_le_of_ne hle h.path_ne, le_of_lt⟩

end LabelClash

theorem sublist_of_frames {file : MenuFile} {before after : List Node}
    {first node : Node} (hhalt : (validate file).halt = none)
    (hflatten : (validate file).value.root.flatten = before ++ node :: after)
    (hfirst : first ∈ before) (hblank : first.isBlank = false) (hnode : node.isBlank = false) :
    ∃ a b, [a, b] <+ file.root.spots ∧ a.2.frame = first.frame ∧ b.2.frame = node.frame := by
  -- The padded tree has the two nodes in this order, and padding keeps what is not blank.
  have hpair : [first, node] <+ active Node.isBlank (validate file).value.root.flatten := by
    rw [hflatten, active, List.filter_append, List.filter_cons_of_pos (by simp [hnode])]
    exact pair_sublist_append (mem_active.2 ⟨hfirst, hblank⟩) List.mem_cons_self
  have hframes : [first.frame, node.frame] <+ file.root.spots.map fun spot => spot.2.frame := by
    have hdeclared := hpair.map Node.frame
    rw [frame_validate_of_halt hhalt] at hdeclared
    refine hdeclared.trans ?_
    have hall : file.root.spots.map (fun spot => spot.2.frame) =
        file.root.flatten.map Node.frame := by
      rw [← Node.map_snd_spots, List.map_map]
      rfl
    rw [hall]
    exact List.filter_sublist.map Node.frame
  obtain ⟨found, hfound, heq⟩ := List.sublist_map_iff.1 hframes
  obtain ⟨a, rest, rfl, ha, hrest⟩ := List.map_eq_cons_iff.1 heq.symm
  obtain ⟨b, rest, rfl, hb, hend⟩ := List.map_eq_cons_iff.1 hrest
  obtain rfl := List.map_eq_nil_iff.1 hend
  exact ⟨a, b, hfound, ha, hb⟩

theorem exists_labelClash
    (h : compile options source = .error (.duplicateLabel label firstLine place)) :
    ∃ parsed, parse source = .ok parsed ∧
      ∃ first second, LabelClash parsed.file.root label firstLine place first second := by
  obtain ⟨parsed, hparsed, hshape, hids⟩ := exists_halt_of_duplicateLabel h
  obtain ⟨before, node, after, hflatten, hrefusal, -⟩ := exists_refused hids
  obtain ⟨hnode, hlabel, hplace, first, hfirst, hblank, hfirstLabel, hline⟩ :=
    exists_first_of_refusal hrefusal
  obtain ⟨a, b, hspots, ha, hb⟩ := sublist_of_frames hshape hflatten hfirst hblank hnode
  have hinfoA : a.2.info = first.info := congrArg Prod.fst ha
  have hinfoB : b.2.info = node.info := congrArg Prod.fst hb
  refine ⟨parsed, hparsed, a, b, hspots, ?_, ?_, ?_, ?_⟩
  · rw [Node.label, hinfoA]
    exact hfirstLabel
  · rw [Node.label, hinfoB]
    exact hlabel
  · rw [Node.place, hinfoA]
    exact hline
  · rw [Node.place, hinfoB]
    exact hplace

end Report

/-- A label that is used again is reported at one of two nodes with this label, with the line of the
other one, which comes first in hybrid order. The span of the error belongs to no other node. The
other node also stands first in the text, and on no later line, unless it overtakes: if it does, it
stands after the node that the error is reported for. -/
theorem duplicateLabel_in_hybrid_order (options : CompileOptions) (source label : String)
    (firstLine : Nat) (place : Place)
    (h : compile options source = .error (.duplicateLabel label firstLine place)) :
    ∃ parsed, parse source = .ok parsed ∧ ∃ first second,
      LabelClash parsed.file.root label firstLine place first second ∧ first.1 ≠ second.1 ∧
      (∀ path node, parsed.file.root.at? path = some node → node.place.span = place.span →
        path = second.1) ∧
      (first.2.place.Before place ↔ ¬ Overtakes first.1 second.1) ∧
      (place.Before first.2.place ↔ Overtakes first.1 second.1) ∧
      (¬ Overtakes first.1 second.1 → firstLine ≤ place.line) ∧
      (Overtakes first.1 second.1 → place.line ≤ firstLine) := by
  obtain ⟨parsed, hparsed, first, second, hclash⟩ := exists_labelClash h
  have hbefore : first.2.place.Before place ↔ ¬ Overtakes first.1 second.1 := by
    rw [hclash.not_overtakes_iff, ← hclash.place_second]
    exact before_iff_lt hparsed hclash.at?_first hclash.at?_second
  have hafter : place.Before first.2.place ↔ Overtakes first.1 second.1 := by
    rw [hclash.overtakes_iff, ← hclash.place_second]
    exact before_iff_lt hparsed hclash.at?_second hclash.at?_first
  refine ⟨parsed, hparsed, first, second, hclash, hclash.path_ne, ?_, hbefore, hafter, ?_, ?_⟩
  · intro path node hnode hspan
    rw [← hclash.place_second] at hspan
    exact path_eq_of_span_eq hparsed hnode hclash.at?_second hspan
  · intro hnot
    rw [← hclash.line_first]
    exact (hbefore.2 hnot).line_le
  · intro hovertakes
    rw [← hclash.line_first]
    exact (hafter.2 hovertakes).line_le

/-! ## Menus with a label that is used again -/

/-- An item and, below a group after it, another item with its label. -/
def repeatedLabel : String :=
  "MenuConfig [ ]\nMenuGroup Top mTop [\nMenuRow [ MenuItem A mX\n" ++
    "MenuGroup Sub mSub [ MenuRow [ MenuItem B mX ] ] ] ]"

/-- An item below a group and, after the group, another item with its label. -/
def overtakenLabel : String :=
  "MenuConfig [ ]\nMenuGroup Top mTop [\nMenuRow [\nMenuGroup Sub mSub [ MenuRow [\n" ++
    "MenuItem A mX ] ]\nMenuItem B mX ] ]"

theorem eq_error_of_map {ε α β : Type} {f : α → β} {result : Except ε α} {error : ε}
    (h : result.map f = .error error) : result = .error error := by
  cases result with
  | ok a => cases h
  | error fault => exact congrArg Except.error (Except.error.inj h)

theorem compile_repeatedLabel : compile ⟨"menu", .strict, false⟩ repeatedLabel =
    .error (.duplicateLabel "mX" 3 ⟨4, 91, 99⟩) :=
  eq_error_of_map (f := fun _ => ()) (by decide +kernel)

theorem compile_overtakenLabel : compile ⟨"menu", .strict, false⟩ overtakenLabel =
    .error (.duplicateLabel "mX" 6 ⟨5, 77, 85⟩) :=
  eq_error_of_map (f := fun _ => ()) (by decide +kernel)

/-- The node with the line of the error stands before the other one in the first of the two menus,
and after it in the second. -/
theorem duplicateLabel_in_hybrid_order_twice :
    (∃ parsed first second, parse repeatedLabel = .ok parsed ∧
      LabelClash parsed.file.root "mX" 3 ⟨4, 91, 99⟩ first second ∧
      first.2.place.Before ⟨4, 91, 99⟩) ∧
    ∃ parsed first second, parse overtakenLabel = .ok parsed ∧
      LabelClash parsed.file.root "mX" 6 ⟨5, 77, 85⟩ first second ∧
      Place.Before ⟨5, 77, 85⟩ first.2.place := by
  constructor
  · obtain ⟨parsed, hparsed, first, second, hclash, -, -, hbefore, -, -, hline⟩ :=
      duplicateLabel_in_hybrid_order _ _ _ _ _ compile_repeatedLabel
    refine ⟨parsed, first, second, hparsed, hclash, hbefore.2 fun hovertakes => ?_⟩
    exact absurd (hline hovertakes) (by decide)
  · obtain ⟨parsed, hparsed, first, second, hclash, -, -, -, hafter, hline, -⟩ :=
      duplicateLabel_in_hybrid_order _ _ _ _ _ compile_overtakenLabel
    refine ⟨parsed, first, second, hparsed, hclash, hafter.2 ?_⟩
    by_contra hnot
    exact absurd (hline hnot) (by decide)

/-- The line that is called that of the first use may be the later one. -/
theorem duplicateLabel_first_on_later_line :
    compile ⟨"menu", .strict, false⟩ overtakenLabel =
      .error (.duplicateLabel "mX" 6 ⟨5, 77, 85⟩) ∧
    ¬ ∀ options source label firstLine place,
      compile options source = .error (.duplicateLabel label firstLine place) →
        firstLine ≤ place.line := by
  refine ⟨compile_overtakenLabel, fun hall => ?_⟩
  exact absurd (hall _ _ _ _ _ compile_overtakenLabel) (by decide)

end SoftMenu
