import Mathlib.Data.List.Nodup
import SoftMenu.Proofs.Words

/-!
# Finished menus

`MenuFile.Finished` is what can be relied on when a table is laid out: how the nodes are numbered
and linked, and how they are labelled. All labels are different (`labels_nodup`): those that were
declared have been compared with each other, those of blanks are made from their ids, and no
declared label begins like the label of a blank.
-/

namespace SoftMenu

/-! ## Labels of blanks -/

theorem toList_blankLabel (id : UInt8) : (blankLabel id).toList = "mBlank".toList ++
    [Nat.digitChar (id.toNat / 100), Nat.digitChar (id.toNat / 10 % 10),
      Nat.digitChar (id.toNat % 10)] := by
  simp [blankLabel]

theorem digitChar_inj {a b : Nat} (ha : a < 10) (hb : b < 10)
    (h : Nat.digitChar a = Nat.digitChar b) : a = b := by
  have hall : ∀ a < 10, ∀ b < 10, Nat.digitChar a = Nat.digitChar b → a = b := by decide
  exact hall a ha b hb h

theorem blankLabel_injective : Function.Injective blankLabel := by
  intro first second h
  have hchars := congrArg String.toList h
  rw [toList_blankLabel, toList_blankLabel] at hchars
  have hdigits := List.append_cancel_left hchars
  simp only [List.cons.injEq, and_true] at hdigits
  obtain ⟨hhundreds, htens, hones⟩ := hdigits
  have hfirst := first.toNat_lt
  have hsecond := second.toNat_lt
  have hhundreds := digitChar_inj (by omega) (by omega) hhundreds
  have htens := digitChar_inj (by omega) (by omega) htens
  have hones := digitChar_inj (by omega) (by omega) hones
  exact UInt8.toNat_inj.1 (by omega)

theorem length_blankLabel (id : UInt8) : (blankLabel id).toList.length = 9 := by
  rw [toList_blankLabel]
  rfl

theorem reserved_blankLabel (id : UInt8) : "mBlank".toList <+: (blankLabel id).toList := by
  rw [toList_blankLabel]
  exact List.prefix_append _ _

theorem beginsWithLetter_blankLabel (id : UInt8) : beginsWithLetter (blankLabel id) = true := by
  rw [beginsWithLetter, toList_blankLabel]
  exact isAlphabetic_of_isAlpha (by decide)

theorem unbroken_blankLabel (id : UInt8) : Unbroken (blankLabel id).toList := by
  have hdigit : ∀ digit < 10, isWhiteSpace (Nat.digitChar digit) = false := by decide
  have hid := id.toNat_lt
  rw [toList_blankLabel, unbroken_append]
  refine ⟨by decide, ?_⟩
  simp only [Unbroken, List.forall_mem_cons]
  exact ⟨hdigit _ (by omega), hdigit _ (by omega), hdigit _ (by omega), List.forall_mem_nil _⟩

/-! ## What is declared about a node -/

/-- What is declared about a node once its names are settled. -/
def Tag.settled (tag : Tag) : Tag :=
  if tag.name.text = blankMark then tag
  else { tag with name := tag.name.settled, altName := tag.altName.map DisplayName.settled }

@[simp] theorem DisplayName.text_settled (name : DisplayName) : name.settled.text = name.text := by
  rw [DisplayName.settled]
  split_ifs <;> rfl

theorem Face.tag_settled (face : Face) : face.settled.tag = face.tag.settled := by
  by_cases hname : face.info.name.text = blankMark
  · simp [Face.tag, Tag.settled, Face.settled, hname]
  · simp [Face.tag, Tag.settled, Face.settled, hname]

/-- If whether a node is blank can be seen in a view, lists that look the same look the same without
their blanks. -/
theorem map_active_isBlank_of_map {γ : Type} {view view' : Node → γ} (blank : γ → Bool)
    (hview : ∀ node, blank (view node) = node.isBlank)
    (hview' : ∀ node, blank (view' node) = node.isBlank) {first second : List Node}
    (h : first.map view = second.map view') :
    (active Node.isBlank first).map view = (active Node.isBlank second).map view' := by
  have hfilter : ∀ {view : Node → γ}, (∀ node, blank (view node) = node.isBlank) →
      ∀ nodes : List Node, (active Node.isBlank nodes).map view =
        (nodes.map view).filter fun seen => !blank seen := by
    intro view hview nodes
    rw [List.filter_map, active]
    refine congrArg _ (List.filter_congr fun node _ => ?_)
    rw [Function.comp_apply, hview]
  rw [hfilter hview, hfilter hview', h]

section Tags

variable {policy : DuplicatePolicy} {file : MenuFile}

theorem tags_validate (h : (validate file).halt = none) :
    (active Node.isBlank (validate file).value.root.flatten).map (fun node => node.face.tag) =
      (active Node.isBlank file.root.flatten).map fun node => node.face.tag :=
  map_part (frame_validate_of_halt h) fun frame =>
    Tag.mk frame.1.name frame.2.1 frame.2.2.1
      (if frame.1.name.text = blankMark then none else some frame.1.label)

/-- Apart from blanks, a finished menu says what was declared, with its names settled. -/
theorem tags_finishedMenu (h : Passes policy file) :
    (active Node.isBlank (finishedMenu policy file).root.flatten).map (fun node => node.face.tag) =
      (active Node.isBlank file.root.flatten).map fun node => node.face.tag.settled := by
  have hsettled : ∀ node : Node,
      decide (node.face.tag.settled.name.text = blankMark) = node.isBlank := by
    intro node
    rw [Tag.settled]
    split_ifs with hname
    · rfl
    · simp only [DisplayName.text_settled]
      rfl
  have hfaces : (finishedMenu policy file).root.flatten.map (fun node => node.face.tag) =
      (assignIds policy (validate file).value).value.root.flatten.map
        fun node => node.face.tag.settled := by
    have hmap := congrArg (List.map Face.tag) (face_explodeNames h.names)
    simp only [List.map_map, Function.comp_def, Face.tag_settled] at hmap
    exact hmap
  have htags : (finishedMenu policy file).root.flatten.map (fun node => node.face.tag) =
      (validate file).value.root.flatten.map fun node => node.face.tag.settled :=
    hfaces.trans (map_part (tag_assignIds policy _) Tag.settled)
  exact (map_active_isBlank_of_map (fun tag => decide (tag.name.text = blankMark))
    (fun _ => rfl) hsettled htags).trans (map_part (tags_validate h.shape) Tag.settled)

/-- A node of a finished menu that is not blank goes back to one that was declared. -/
theorem exists_declared (h : Passes policy file) {node : Node}
    (hnode : node ∈ (finishedMenu policy file).root.flatten) (hblank : node.isBlank = false) :
    ∃ declared ∈ file.root.flatten, declared.isBlank = false ∧
      node.label = declared.label ∧ node.kind = declared.kind ∧
      node.info.name = declared.info.name.settled ∧
      node.altName? = declared.altName?.map DisplayName.settled := by
  have hmem := List.mem_map_of_mem (f := fun node : Node => node.face.tag)
    (mem_active.2 ⟨hnode, hblank⟩)
  rw [tags_finishedMenu h, List.mem_map] at hmem
  obtain ⟨declared, hdeclared, htag⟩ := hmem
  obtain ⟨hdeclared, hdeclaredBlank⟩ := mem_active.1 hdeclared
  have hname : declared.info.name.text ≠ blankMark := Node.isBlank_eq_false_iff.1 hdeclaredBlank
  have hnodeName : node.info.name.text ≠ blankMark := Node.isBlank_eq_false_iff.1 hblank
  simp only [Face.tag, Node.face, Tag.settled, hname, hnodeName, if_false, Tag.mk.injEq,
    Option.some.injEq] at htag
  obtain ⟨hnames, hkind, haltName, hlabel⟩ := htag
  exact ⟨declared, hdeclared, hdeclaredBlank, hlabel.symm, hkind.symm, hnames.symm, haltName.symm⟩

/-- The labels of nodes that are not blank are those that were declared. -/
theorem labels_active_finishedMenu (h : Passes policy file) :
    (active Node.isBlank (finishedMenu policy file).root.flatten).map Node.label =
      (active Node.isBlank file.root.flatten).map Node.label := by
  have hlabels := map_part (tags_finishedMenu h) Tag.label
  have hsome : ∀ node : Node, node.isBlank = false →
      node.face.tag.label = some node.label ∧ node.face.tag.settled.label = some node.label := by
    intro node hblank
    have hname : node.info.name.text ≠ blankMark := Node.isBlank_eq_false_iff.1 hblank
    simp [Face.tag, Node.face, Tag.settled, hname, Node.label]
  refine List.map_injective_iff.2 (Option.some_injective _) ?_
  rw [List.map_map, List.map_map]
  calc (active Node.isBlank (finishedMenu policy file).root.flatten).map (some ∘ Node.label)
    _ = (active Node.isBlank (finishedMenu policy file).root.flatten).map
        fun node => node.face.tag.label :=
      List.map_congr_left fun node hnode => ((hsome node (mem_active.1 hnode).2).1).symm
    _ = (active Node.isBlank file.root.flatten).map fun node => node.face.tag.settled.label :=
      hlabels
    _ = (active Node.isBlank file.root.flatten).map (some ∘ Node.label) :=
      List.map_congr_left fun node hnode => (hsome node (mem_active.1 hnode).2).2

/-- Blanks of a finished menu are items, and their labels are made from their ids. -/
theorem blank_finishedMenu (h : Passes policy file) {node : Node}
    (hnode : node ∈ (finishedMenu policy file).root.flatten) (hblank : node.isBlank = true) :
    node.kind = .item ∧ node.label = blankLabel node.id := by
  -- Back to the numbered menu, where the label was made.
  have hbare := List.mem_map_of_mem (f := fun node : Node => node.face.bare) hnode
  rw [finishedMenu, bare_explodeNames, List.mem_map] at hbare
  obtain ⟨numbered, hnumbered, hbare⟩ := hbare
  have hname : numbered.name = node.name := congrArg (fun face => face.info.name.text) hbare
  have hlabel : numbered.label = node.label := congrArg (fun face => face.info.label) hbare
  have hid : numbered.id = node.id := congrArg (fun face => face.info.id) hbare
  have hkind : numbered.kind = node.kind := congrArg Face.kind hbare
  have hnumberedBlank : numbered.isBlank = true := by
    rw [Node.isBlank_iff, hname]
    exact Node.isBlank_iff.1 hblank
  have hblankLabel := blankLabel_of_mem_assignIds h.ids numbered hnumbered hnumberedBlank
  -- Back to the checked menu, where only items are marked as blank.
  have htag := List.mem_map_of_mem (f := fun node : Node => node.face.tag) hnumbered
  rw [tag_assignIds, List.mem_map] at htag
  obtain ⟨padded, hpadded, htag⟩ := htag
  have hpaddedName : padded.name = numbered.name := congrArg (fun tag => tag.name.text) htag
  have hpaddedKind : padded.kind = numbered.kind := congrArg Tag.kind htag
  have hlegal := legalLabel_of_mem_validate h.shape padded hpadded
  rw [LegalLabel, hpaddedName, if_pos (Node.isBlank_iff.1 hnumberedBlank)] at hlegal
  exact ⟨by rw [← hkind, ← hpaddedKind, hlegal.1], by rw [← hlabel, hblankLabel, hid]⟩

end Tags

/-! ## What can be relied on -/

/-- A menu whose nodes have been numbered and labelled, and whose rows are full. -/
structure MenuFile.Finished (file : MenuFile) : Prop where
  length_le : file.root.flatten.length ≤ 251
  ids_eq : file.root.flatten.map (fun node => node.id.toNat) =
    List.range' 1 file.root.flatten.length
  full : ∀ node ∈ file.root.flatten, node.face.Full
  root_parentId : file.root.parentId = nullId
  linked : file.root.Linked
  blank : ∀ node ∈ file.root.flatten, node.isBlank = true →
    node.kind = .item ∧ node.label = blankLabel node.id
  letter : ∀ node ∈ file.root.flatten, beginsWithLetter node.label = true
  unreserved : ∀ node ∈ file.root.flatten, node.isBlank = false →
    ∀ start ∈ reservedStarts, ¬ start.toList <+: node.label.toList
  declared_nodup : ((active Node.isBlank file.root.flatten).map Node.label).Nodup

theorem finished_of_passes {policy : DuplicatePolicy} {file : MenuFile} (h : Passes policy file) :
    (finishedMenu policy file).Finished := by
  obtain ⟨count, hcount, hids⟩ := ids_finishedMenu h
  obtain ⟨hroot, hlinked⟩ := linked_finishedMenu h
  have hlength : (finishedMenu policy file).root.flatten.length = count := by
    simpa using congrArg List.length hids
  have hlegal : ∀ node ∈ (finishedMenu policy file).root.flatten, node.isBlank = false →
      beginsWithLetter node.label = true ∧
        ∀ start ∈ reservedStarts, ¬ start.toList <+: node.label.toList := by
    intro node hnode hblank
    obtain ⟨declared, hdeclared, hdeclaredBlank, hlabel, -⟩ := exists_declared h hnode hblank
    have hshape := (validate_halt_iff file).1 h.shape declared hdeclared
    have hlegal := hshape.label
    rw [LegalLabel, if_neg (Node.isBlank_eq_false_iff.1 hdeclaredBlank)] at hlegal
    rw [hlabel]
    exact hlegal
  refine ⟨by omega, by rw [hids, hlength], full_finishedMenu h, hroot, hlinked,
    fun node => blank_finishedMenu h, fun node hnode => ?_,
    fun node hnode hblank => (hlegal node hnode hblank).2, ?_⟩
  · cases hblank : node.isBlank with
    | true =>
      rw [(blank_finishedMenu h hnode hblank).2]
      exact beginsWithLetter_blankLabel node.id
    | false => exact (hlegal node hnode hblank).1
  · rw [labels_active_finishedMenu h]
    have hcompatible := ((assignIds_validate_halt_iff h.shape).1 h.ids).2
    exact List.pairwise_map.2 (hcompatible.imp fun hpair => hpair.label)

/-- A menu that is finished has no blanks other than items. -/
theorem MenuFile.Finished.isBlank_eq_false {file : MenuFile} (h : file.Finished) {node : Node}
    (hnode : node ∈ file.root.flatten) (hkind : node.kind ≠ .item) : node.isBlank = false := by
  rw [← Bool.not_eq_true]
  intro hblank
  exact hkind (h.blank node hnode hblank).1

namespace MenuFile.Finished

variable {file : MenuFile} {first second : Node}

theorem ids_nodup (h : file.Finished) :
    (file.root.flatten.map fun node => node.id.toNat).Nodup := by
  rw [h.ids_eq]
  exact List.nodup_range'

theorem eq_of_id (h : file.Finished) (hfirst : first ∈ file.root.flatten)
    (hsecond : second ∈ file.root.flatten) (hid : first.id = second.id) : first = second :=
  List.inj_on_of_nodup_map h.ids_nodup hfirst hsecond (congrArg UInt8.toNat hid)

theorem eq_of_label (h : file.Finished) (hfirst : first ∈ file.root.flatten)
    (hsecond : second ∈ file.root.flatten) (hlabel : first.label = second.label) :
    first = second := by
  -- A blank has a label of its own kind, which no declared label looks like.
  have hmixed : ∀ {blank other : Node}, blank ∈ file.root.flatten → other ∈ file.root.flatten →
      blank.isBlank = true → other.isBlank = false → blank.label ≠ other.label := by
    intro blank other hmem hother hblank hotherBlank hsame
    refine h.unreserved other hother hotherBlank "mBlank" (by decide) ?_
    rw [← hsame, (h.blank blank hmem hblank).2]
    exact reserved_blankLabel blank.id
  cases hfirstBlank : first.isBlank with
  | true =>
    cases hsecondBlank : second.isBlank with
    | true =>
      rw [(h.blank first hfirst hfirstBlank).2, (h.blank second hsecond hsecondBlank).2] at hlabel
      exact h.eq_of_id hfirst hsecond (blankLabel_injective hlabel)
    | false => exact absurd hlabel (hmixed hfirst hsecond hfirstBlank hsecondBlank)
  | false =>
    cases hsecondBlank : second.isBlank with
    | true => exact absurd hlabel.symm (hmixed hsecond hfirst hsecondBlank hfirstBlank)
    | false =>
      exact List.inj_on_of_nodup_map h.declared_nodup (mem_active.2 ⟨hfirst, hfirstBlank⟩)
        (mem_active.2 ⟨hsecond, hsecondBlank⟩) hlabel

/-- A symbol that begins like a generated one is not the label of a node, unless it begins like the
label of a blank. -/
theorem label_ne (h : file.Finished) {node : Node} (hnode : node ∈ file.root.flatten)
    {symbol : String} (hreserved : ∃ start ∈ reservedStarts, start.toList <+: symbol.toList)
    (hblank : ¬ "mBlank".toList <+: symbol.toList) : node.label ≠ symbol := by
  intro hlabel
  cases hnodeBlank : node.isBlank with
  | true =>
    refine hblank ?_
    rw [← hlabel, (h.blank node hnode hnodeBlank).2]
    exact reserved_blankLabel node.id
  | false =>
    obtain ⟨start, hstart, hbegins⟩ := hreserved
    refine h.unreserved node hnode hnodeBlank start hstart ?_
    rw [hlabel]
    exact hbegins

/-- No two nodes of a finished menu have the same label. -/
theorem labels_nodup (h : file.Finished) : (file.root.flatten.map Node.label).Nodup := by
  have hnodup : file.root.flatten.Nodup := List.Nodup.of_map _ h.ids_nodup
  exact hnodup.map_on fun first hfirst second hsecond => h.eq_of_label hfirst hsecond

end MenuFile.Finished

/-! ## Operands -/

theorem unbroken_of_explode {name : String} {operands : List String}
    (h : explode name = .ok operands) (hname : Unbroken name.toList) :
    ∀ operand ∈ operands, Unbroken operand.toList := by
  obtain ⟨segments, hsegments, rfl⟩ := map_eq_ok_iff.1 h
  have hspells := segments?_eq_ok_iff.1 hsegments
  intro operand hoperand
  obtain ⟨segment, hsegment, rfl⟩ := List.mem_map.1 hoperand
  have hchars : Unbroken segment.chars := by
    intro c hc
    refine hname c ?_
    rw [← hspells.chars_eq]
    exact List.mem_flatMap.2 ⟨segment, hsegment, hc⟩
  cases segment with
  | letter c =>
    have hc : isWhiteSpace c = false := hchars c List.mem_cons_self
    simp only [Segment.operand, String.toList_ofList, Unbroken, List.forall_mem_cons]
    exact ⟨by decide, hc, by decide, List.forall_mem_nil _⟩
  | glyph tag =>
    rw [Segment.operand, String.toList_ofList]
    intro c hc
    exact hchars c (by simp [Segment.chars, hc])

/-- What is stored for a settled name is without white space if the name is. -/
theorem unbroken_operands_settled {name : DisplayName} (hfresh : name.exploded = none)
    (hname : Unbroken name.text.toList) :
    ∀ operand ∈ (NameText.ofName name.settled).operands, Unbroken operand.toList := by
  have hliteral : ∀ operand ∈ (NameText.literal name.text).operands, Unbroken operand.toList := by
    intro operand hoperand
    obtain rfl := List.mem_singleton.1 hoperand
    simp only [String.toList_append, unbroken_append]
    exact ⟨⟨by decide, hname⟩, by decide⟩
  rw [DisplayName.settled]
  split_ifs with hspecial
  · cases hexplode : explode name.text with
    | error fault => exact hliteral
    | ok operands =>
      have hoperands := unbroken_of_explode hexplode hname
      cases operands with
      | nil =>
        intro operand hoperand
        obtain rfl := List.mem_singleton.1 hoperand
        exact List.forall_mem_nil _
      | cons operand operands => exact hoperands
  · rw [NameText.ofName, hfresh]
    exact hliteral

/-- All that a table takes from a menu is without white space. -/
structure MenuFile.Printable (file : MenuFile) : Prop where
  label : ∀ node ∈ file.root.flatten, Unbroken node.label.toList
  name : ∀ node ∈ file.root.flatten, node.isBlank = false → Unbroken node.name.toList
  operand : ∀ node ∈ file.root.flatten, ∀ pooled ∈ node.poolNames,
    ∀ operand ∈ (NameText.ofName pooled.name).operands, Unbroken operand.toList
  setting : ∀ key, ∀ value ∈ file.config.get? key, Unbroken value.toList

theorem fresh_of_parse {source : String} {parsed : Parsed} (h : parse source = .ok parsed) :
    ∀ node ∈ parsed.file.root.flatten, node.Fresh := by
  obtain ⟨tree, hwords, -⟩ := words_of_parse h
  obtain ⟨parsed', hparsed', -, before, after, -, -, hdeclared⟩ := parse_of_words hwords
  obtain rfl := Except.ok.inj (h.symm.trans hparsed')
  intro node hnode
  exact hdeclared.fresh node (Node.mem_flatten_iff.1 hnode)

theorem printable_of_passes {source : String} {parsed : Parsed} {policy : DuplicatePolicy}
    (hparse : parse source = .ok parsed) (h : Passes policy parsed.file) :
    (finishedMenu policy parsed.file).Printable := by
  have hworded := worded_of_parse hparse
  have hfresh := fresh_of_parse hparse
  refine ⟨fun node hnode => ?_, fun node hnode hblank => ?_, fun node hnode pooled hpooled => ?_,
    hworded.setting⟩
  · cases hblank : node.isBlank with
    | true =>
      rw [(blank_finishedMenu h hnode hblank).2]
      exact unbroken_blankLabel node.id
    | false =>
      obtain ⟨declared, hdeclared, -, hlabel, -⟩ := exists_declared h hnode hblank
      rw [hlabel]
      exact hworded.label declared hdeclared
  · obtain ⟨declared, hdeclared, -, -, -, hname, -⟩ := exists_declared h hnode hblank
    rw [Node.name, hname, DisplayName.text_settled]
    exact hworded.name declared hdeclared
  · rw [Node.poolNames] at hpooled
    split_ifs at hpooled with hblank
    · cases hpooled
    · rw [Bool.not_eq_true] at hblank
      obtain ⟨declared, hdeclared, -, -, -, hname, haltName⟩ := exists_declared h hnode hblank
      have hdeclaredFresh := hfresh declared hdeclared
      rcases List.mem_cons.1 hpooled with rfl | hpooled
      · rw [hname]
        exact unbroken_operands_settled hdeclaredFresh.name_eq (hworded.name declared hdeclared)
      · rw [Option.mem_toList, haltName, Option.map_map, Option.map_eq_some_iff] at hpooled
        obtain ⟨altName, hdeclaredAlt, rfl⟩ := hpooled
        exact unbroken_operands_settled (hdeclaredFresh.altName_eq altName hdeclaredAlt)
          (hworded.altName declared hdeclared altName hdeclaredAlt)

end SoftMenu
