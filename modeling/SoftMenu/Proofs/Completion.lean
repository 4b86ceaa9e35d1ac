import SoftMenu.Proofs.Finished

/-!
# The finished menu completes the declared one

Three passes rewrite the tree of a menu, one of them while it adds slots to it. A walk that goes
through leaves the tree that its visits make, node by node (`Visitor.yields_walk`). The three walks
can therefore be followed at one node at a time, and what they do together is this: the finished
tree has the declared nodes at the declared positions, and blank items after them in rows that are
not full (`Node.CompletedBy`).
-/

namespace SoftMenu

/-! ## Rows that go together -/

theorem forall₂_comp {α β γ : Type} {R : α → β → Prop} {S : β → γ → Prop} {T : α → γ → Prop}
    (h : ∀ a b c, R a b → S b c → T a c) {first : List α} {second : List β} {third : List γ}
    (hfirst : List.Forall₂ R first second) (hsecond : List.Forall₂ S second third) :
    List.Forall₂ T first third := by
  induction hfirst generalizing third with
  | nil =>
    cases hsecond
    exact .nil
  | cons hhead _ ih =>
    cases hsecond with
    | cons hhead' htail' => exact .cons (h _ _ _ hhead hhead') (ih htail')

/-- Two rows are declared at one place and their slots go together. -/
inductive Row.Pairs (R : Node → Node → Prop) : Row Node → Row Node → Prop where
  | mk {slots slots' : List Node} (place : Place) (h : List.Forall₂ R slots slots') :
    Row.Pairs R ⟨slots, place⟩ ⟨slots', place⟩

theorem Row.Pairs.comp {R S T : Node → Node → Prop} (h : ∀ a b c, R a b → S b c → T a c)
    (first second third : Row Node) (hfirst : Row.Pairs R first second)
    (hsecond : Row.Pairs S second third) : Row.Pairs T first third := by
  obtain ⟨place, hslots⟩ := hfirst
  cases hsecond with
  | mk _ hslots' => exact .mk place (forall₂_comp h hslots hslots')

/-! ## What a walk leaves -/

section Yields

variable {σ ε : Type}

theorem forall₂_sweep_of_halt {α : Type} {pass : α → σ → Outcome σ ε α} {R : α → α → Prop}
    {members : List α} {state : σ}
    (hpass : ∀ member ∈ members, ∀ state, (pass member state).halt = none →
      R member (pass member state).value)
    (h : (sweep pass members state).halt = none) :
    List.Forall₂ R members (sweep pass members state).value := by
  induction members generalizing state with
  | nil => exact .nil
  | cons member members ih =>
    obtain ⟨hmember, hmembers⟩ := List.forall_mem_cons.1 hpass
    cases hm : (pass member state).halt with
    | none =>
      rw [sweep_cons_of_none hm] at h ⊢
      exact .cons (hmember state hm) (ih hmembers h)
    | some reason =>
      rw [sweep_cons_of_some hm] at h
      exact absurd (hm.symm.trans h) (by simp)

theorem pairs_sweepSlots {pass : Node → σ → Outcome σ ε Node} {R : Node → Node → Prop}
    {node : Node} {state : σ}
    (hpass : ∀ slot ∈ node.slots, ∀ state, (pass slot state).halt = none →
      R slot (pass slot state).value)
    (h : (node.sweepSlots pass state).halt = none) :
    List.Forall₂ (Row.Pairs R) node.rows (node.sweepSlots pass state).value.rows := by
  cases node with
  | item info => exact .nil
  | altItem info altName => exact .nil
  | group info rows =>
    rw [Node.slots_group] at hpass
    refine forall₂_sweep_of_halt (fun row hrow state hhalt => .mk row.place ?_) h
    refine forall₂_sweep_of_halt (fun slot hslot => hpass slot ?_) hhalt
    exact List.mem_flatMap.2 ⟨row, hrow, hslot⟩

/-- A tree is what visits make of another one: its root is what a visit left, and so are its slots
of the slots that the visit left. -/
inductive Visitor.Yields (visitor : Visitor σ ε) : Node → Node → Prop where
  | visit {node final : Node} (parentId : UInt8) (state : σ)
    (halt : (visitor parentId node state).halt = none)
    (face : final.face = (visitor parentId node state).value.face)
    (rows : List.Forall₂ (Row.Pairs (Visitor.Yields visitor))
      (visitor parentId node state).value.rows final.rows) : Visitor.Yields visitor node final

variable {visitor : Visitor σ ε}
  (hdepth : ∀ parentId node state, (visitor parentId node state).value.depth ≤ node.depth)

include hdepth

theorem Visitor.yields_descend {levels : Nat} {node : Node} {state : σ}
    (hlevels : node.depth ≤ levels) (h : (visitor.descend levels node state).halt = none) :
    List.Forall₂ (Row.Pairs visitor.Yields) node.rows
      (visitor.descend levels node state).value.rows := by
  induction levels generalizing node state with
  | zero =>
    have hrows : node.rows = [] := by
      cases node with
      | item info => rfl
      | altItem info altName => rfl
      | group info rows => exact absurd hlevels (by simp [Node.depth])
    rw [Visitor.descend, Outcome.done, hrows]
    exact .nil
  | succ levels ih =>
    cases hfirst : (node.sweepSlots (visitor node.id) state).halt with
    | some reason =>
      rw [descend_succ_of_some hfirst] at h
      exact absurd (hfirst.symm.trans h) (by simp)
    | none =>
      rw [descend_succ_of_none hfirst] at h ⊢
      -- The slots are visited, then the walk goes down from what the visits left.
      have hvisits := pairs_sweepSlots
        (R := fun slot result => ∃ before, (visitor node.id slot before).halt = none ∧
          result = (visitor node.id slot before).value)
        (fun slot _ before hbefore => ⟨before, hbefore, rfl⟩) hfirst
      have hdescents := pairs_sweepSlots
        (R := fun slot result => result.face = slot.face ∧
          List.Forall₂ (Row.Pairs visitor.Yields) slot.rows result.rows)
        (fun slot hslot before hbefore => ⟨face_descend levels slot before, ih ?_ hbefore⟩) h
      · refine forall₂_comp (Row.Pairs.comp ?_) hvisits hdescents
        rintro slot _ final ⟨before, hbefore, rfl⟩ ⟨hface, hrows⟩
        exact .visit node.id before hbefore hface hrows
      · obtain ⟨original, horiginal, start, -, rfl⟩ := exists_of_mem_sweepSlots hfirst hslot
        exact (hdepth _ _ _).trans (Node.depth_le_succ_iff.1 hlevels original horiginal)

/-- A walk that goes through leaves what its visits make of the tree. -/
theorem Visitor.yields_walk {root : Node} {state : σ} (h : (visitor.walk root state).halt = none) :
    visitor.Yields root (visitor.walk root state).value := by
  cases hfirst : (visitor nullId root state).halt with
  | some reason =>
    rw [walk_of_some hfirst] at h
    exact absurd (hfirst.symm.trans h) (by simp)
  | none =>
    rw [walk_of_none hfirst] at h ⊢
    refine .visit nullId state hfirst (face_descend ..) ?_
    exact Visitor.yields_descend hdepth (hdepth nullId root state) h

end Yields

/-! ## Completed menus -/

/-- A name keeps its text, and its operands are noted if it refers to glyphs. -/
structure DisplayName.SettledBy (declared finished : DisplayName) : Prop where
  text : finished.text = declared.text
  special : declared.isSpecial = true →
    ∃ operands, explode declared.text = .ok operands ∧ finished.exploded = some operands
  plain : declared.isSpecial = false → finished.exploded = declared.exploded

/-- What a finished node keeps of the declared one. A blank gets a label made from its id, and every
other node keeps its label. -/
structure Node.KeptBy (declared finished : Node) : Prop where
  kind : finished.kind = declared.kind
  name : declared.info.name.SettledBy finished.info.name
  altName : Option.Rel DisplayName.SettledBy declared.altName? finished.altName?
  label : finished.label = if declared.isBlank then blankLabel finished.id else declared.label
  place : finished.place = declared.place

/-- A slot holds a blank item that was not declared, in the row declared at `place`. -/
def Node.Fills (place : Place) (slot : Node) : Prop :=
  ∃ id parentId, slot =
    .item { name := ⟨blankMark, none⟩, label := blankLabel id, id, parentId, place }

/-- A finished row has five slots: those of the declared row, then blank items. -/
inductive Row.CompletedBy (R : Node → Node → Prop) : Row Node → Row Node → Prop where
  | mk {declared kept fillers : List Node} {place : Place}
    (length_eq : (kept ++ fillers).length = rowSlots) (hkept : List.Forall₂ R declared kept)
    (hfillers : ∀ filler ∈ fillers, filler.Fills place) :
    Row.CompletedBy R ⟨declared, place⟩ ⟨kept ++ fillers, place⟩

/-- A finished tree keeps the declared one, node by node, and fills up its rows. -/
inductive Node.CompletedBy : Node → Node → Prop where
  | mk {declared finished : Node} (kept : declared.KeptBy finished)
    (rows : List.Forall₂ (Row.CompletedBy Node.CompletedBy) declared.rows finished.rows) :
    Node.CompletedBy declared finished

/-- A finished menu has the declared settings and completes the declared tree. The declared tree has
no numbers and no operands; the ids of the finished one are 1, 2, 3, … in hybrid order, and its
slots carry the ids of their groups. -/
structure MenuFile.CompletedBy (declared finished : MenuFile) : Prop where
  config : finished.config = declared.config
  fresh : ∀ node ∈ declared.root.flatten, node.Fresh
  root : declared.root.CompletedBy finished.root
  ids : finished.root.flatten.map (fun node => node.id.toNat) =
    List.range' 1 finished.root.flatten.length
  root_parentId : finished.root.parentId = nullId
  linked : finished.root.Linked

/-! ## The three stages at one node -/

namespace DisplayName

theorem settledBy_settled {name : DisplayName} (h : Spellable name.text) :
    name.SettledBy name.settled := by
  obtain ⟨operands, hoperands⟩ := explode_eq_ok_iff.2 h
  refine ⟨name.text_settled, fun hspecial => ⟨operands, hoperands, ?_⟩, fun hplain => ?_⟩
  · rw [settled, if_pos hspecial, hoperands]
    rfl
  · rw [settled, if_neg (by simp [hplain])]

theorem settledBy_self {name : DisplayName} (h : name.isSpecial = false) : name.SettledBy name :=
  ⟨rfl, fun hspecial => absurd (h.symm.trans hspecial) (by simp), fun _ => rfl⟩

theorem isSpecial_of_text_eq_blankMark {name : DisplayName} (h : name.text = blankMark) :
    name.isSpecial = false := by
  rw [isSpecial, h]
  rfl

end DisplayName

theorem rows_shapeVisitor {parentId : UInt8} {node : Node} {padded : Nat}
    (h : (shapeVisitor parentId node padded).halt = none) :
    (shapeVisitor parentId node padded).value.rows = node.rows.map Row.pad := by
  cases hlabel : node.labelError? with
  | some error =>
    rw [shapeVisitor_of_error hlabel] at h
    cases h
  | none =>
    cases node with
    | item info => rw [shapeVisitor_of_leaf hlabel (by simp [Node.kind])]; rfl
    | altItem info altName => rw [shapeVisitor_of_leaf hlabel (by simp [Node.kind])]; rfl
    | group info rows =>
      rw [shapeVisitor_of_group hlabel rfl] at h ⊢
      exact padGroup_value h

section Yields

variable {node final : Node}

theorem frame_of_yields (h : shapeVisitor.Yields node final) : final.frame = node.frame := by
  obtain ⟨parentId, padded, -, hface, -⟩ := h
  exact (frame_eq_of_face hface).trans (shapeVisitor_value parentId node padded).1

theorem stamped_of_yields (h : Registry.visitor.Yields node final) :
    final.kind = node.kind ∧ final.info.name = node.info.name ∧ final.altName? = node.altName? ∧
      final.label = (if node.isBlank then blankLabel final.id else node.label) ∧
      final.place = node.place := by
  obtain ⟨parentId, registry, hhalt, hface, -⟩ := h
  rw [Registry.visitor_value hhalt, Node.stamp] at hface
  have hinfo : final.info = _ := (congrArg Face.info hface).trans (Node.info_mapInfo _ node)
  refine ⟨(congrArg Face.kind hface).trans (Node.kind_mapInfo _ node), ?_,
    (congrArg Face.altName hface).trans (Node.altName?_mapInfo _ node), ?_, ?_⟩
  · rw [hinfo]
  · rw [Node.label, Node.id, hinfo]
    rfl
  · rw [Node.place, hinfo]
    rfl

theorem kept_of_yields (h : explodeVisitor.Yields node final) :
    final.kind = node.kind ∧ final.label = node.label ∧ final.id = node.id ∧
      final.place = node.place := by
  obtain ⟨parentId, count, -, hface, -⟩ := h
  have hbare := (congrArg Face.bare hface).trans (bare_explodeVisitor parentId node count).1
  exact ⟨congrArg Face.kind hbare, congrArg (fun face => face.info.label) hbare,
    congrArg (fun face => face.info.id) hbare, congrArg (fun face => face.info.place) hbare⟩

/-- A node that is not an item with an alternate name under the name of a blank has its names
settled. -/
theorem names_of_yields (h : explodeVisitor.Yields node final)
    (hblank : node.isBlank = true → node.altName? = none) :
    node.info.name.SettledBy final.info.name ∧
      Option.Rel DisplayName.SettledBy node.altName? final.altName? := by
  obtain ⟨parentId, count, hhalt, hface, -⟩ := h
  have hspelled := (explodeVisitor_halt_iff parentId node count).1 hhalt
  rw [face_explodeVisitor hhalt, Face.settled] at hface
  split_ifs at hface with hname
  · have hinfo : final.info = node.info := congrArg Face.info hface
    have haltName : final.altName? = node.altName? := congrArg Face.altName hface
    rw [hinfo, haltName, hblank (Node.isBlank_iff.2 hname)]
    exact ⟨DisplayName.settledBy_self (DisplayName.isSpecial_of_text_eq_blankMark hname), .none⟩
  · have hinfo : final.info.name = node.info.name.settled :=
      congrArg (fun face => face.info.name) hface
    have haltName : final.altName? = node.altName?.map DisplayName.settled :=
      congrArg Face.altName hface
    rw [hinfo, haltName]
    refine ⟨DisplayName.settledBy_settled (hspelled.name hname), ?_⟩
    cases halt : node.altName? with
    | none => exact .none
    | some altName =>
      refine .some (DisplayName.settledBy_settled (hspelled.altName hname altName.text ?_))
      exact congrArg (Option.map DisplayName.text) halt

end Yields

/-- The three stages lead from one node to another. -/
def Node.Becomes (declared finished : Node) : Prop :=
  ∃ padded numbered, shapeVisitor.Yields declared padded ∧
    Registry.visitor.Yields padded numbered ∧ explodeVisitor.Yields numbered finished

namespace Node.Becomes

variable {declared finished : Node}

theorem wellShaped (h : declared.Becomes finished) : declared.WellShaped := by
  obtain ⟨_, _, ⟨parentId, state, hhalt, -, -⟩, -, -⟩ := h
  exact (shapeVisitor_halt_iff parentId declared state).1 hhalt

theorem rows (h : declared.Becomes finished) :
    List.Forall₂ (Row.Pairs Node.Becomes) (declared.rows.map Row.pad) finished.rows := by
  obtain ⟨padded, numbered, ⟨_, _, hshape, -, hpadded⟩, ⟨_, _, -, -, hnumbered⟩,
    ⟨_, _, -, -, hfinished⟩⟩ := h
  rw [rows_shapeVisitor hshape] at hpadded
  rw [rows_visitor] at hnumbered
  rw [(bare_explodeVisitor ..).2] at hfinished
  have hlast := forall₂_comp (Row.Pairs.comp (T := fun slot final => ∃ numbered,
    Registry.visitor.Yields slot numbered ∧ explodeVisitor.Yields numbered final)
    fun _ numbered _ hfirst hsecond => ⟨numbered, hfirst, hsecond⟩) hnumbered hfinished
  refine forall₂_comp (Row.Pairs.comp ?_) hpadded hlast
  rintro slot padded final hslot ⟨numbered, hnumbered, hfinal⟩
  exact ⟨padded, numbered, hslot, hnumbered, hfinal⟩

theorem keptBy (h : declared.Becomes finished) : declared.KeptBy finished := by
  have hlegal := h.wellShaped.label
  obtain ⟨padded, numbered, hpadded, hnumbered, hfinished⟩ := h
  have hframe := frame_of_yields hpadded
  have hinfo : padded.info = declared.info := congrArg Prod.fst hframe
  have hkind : padded.kind = declared.kind := congrArg (fun frame => frame.2.1) hframe
  have haltName : padded.altName? = declared.altName? := congrArg (fun frame => frame.2.2.1) hframe
  obtain ⟨hkind', hname, haltName', hlabel, hplace⟩ := stamped_of_yields hnumbered
  obtain ⟨hkind'', hlabel', hid, hplace'⟩ := kept_of_yields hfinished
  rw [hinfo] at hname
  rw [haltName] at haltName'
  have hnoAlt : numbered.isBlank = true → numbered.altName? = none := by
    intro hblank
    have hmark : declared.name = blankMark := by
      rw [Node.name, ← hname]
      exact Node.isBlank_iff.1 hblank
    rw [LegalLabel, if_pos hmark] at hlegal
    rw [haltName']
    cases declared with
    | item info => rfl
    | altItem info altName => exact absurd hlegal.1 (by simp [Node.kind])
    | group info rows => rfl
  obtain ⟨hsettled, hsettledAlt⟩ := names_of_yields hfinished hnoAlt
  rw [hname] at hsettled
  rw [haltName'] at hsettledAlt
  refine ⟨hkind''.trans (hkind'.trans hkind), hsettled, hsettledAlt, ?_, ?_⟩
  · rw [hlabel', hlabel, hid, Node.isBlank, Node.name, Node.label, hinfo]
    rfl
  · rw [hplace', hplace, Node.place, hinfo]
    rfl

/-- A blank that was not declared stays a blank and gets its numbers and its label. -/
theorem fills {place : Place} (h : (Node.blank place).Becomes finished) : finished.Fills place := by
  have hkept := h.keptBy
  have hname := hkept.name
  cases finished with
  | altItem info altName => exact absurd hkept.kind (by simp [Node.kind, Node.blank])
  | group info rows => exact absurd hkept.kind (by simp [Node.kind, Node.blank])
  | item info =>
    obtain ⟨⟨text, exploded⟩, label, id, parentId, place'⟩ := info
    obtain rfl : text = blankMark := hname.text
    obtain rfl : exploded = none := hname.plain (DisplayName.isSpecial_of_text_eq_blankMark rfl)
    obtain rfl : label = blankLabel id := hkept.label
    obtain rfl : place' = place := hkept.place
    exact ⟨id, parentId, rfl⟩

/-- The slots of a padded row become those of the finished row. -/
theorem row_completedBy {row finished : Row Node} (hlength : row.slots.length ≤ rowSlots)
    (hslots : ∀ slot ∈ row.slots, ∀ final : Node, slot.Becomes final → slot.CompletedBy final)
    (h : Row.Pairs Node.Becomes row.pad finished) :
    Row.CompletedBy Node.CompletedBy row finished := by
  have hfull := Row.length_slots_pad hlength
  obtain ⟨slots, place⟩ := row
  cases h with
  | @mk _ slots' _ hpairs =>
    have hlength' : slots'.length = rowSlots := by rw [← hpairs.length_eq, ← hfull]; rfl
    have hkept := List.forall₂_take slots.length hpairs
    have hfillers := List.forall₂_drop slots.length hpairs
    rw [List.take_left] at hkept
    rw [List.drop_left] at hfillers
    rw [← List.take_append_drop slots.length slots'] at hlength' ⊢
    refine .mk hlength' ?_ ?_
    · refine ((List.forall₂_and_left _ _).2 ⟨hslots, hkept⟩).imp ?_
      rintro slot final ⟨hslot, hbecomes⟩
      exact hslot final hbecomes
    · have hall : ∀ slot ∈ List.replicate (Row.missing ⟨slots, place⟩) (Node.blank place),
          slot = .blank place := fun slot hslot => List.eq_of_mem_replicate hslot
      have hfills := ((List.forall₂_and_left _ _).2 ⟨hall, hfillers⟩).flip.imp
        (S := fun filler _ => filler.Fills place ∧ True) ?_
      · exact ((List.forall₂_and_left _ _).1 hfills).1
      · rintro filler _ ⟨rfl, hbecomes⟩
        exact ⟨hbecomes.fills, trivial⟩

/-- What the three stages make of a tree completes it. -/
theorem completedBy (h : declared.Becomes finished) : declared.CompletedBy finished := by
  induction declared using Node.slotInduction generalizing finished with
  | step declared ih =>
    have hrows := List.forall₂_map_left_iff.1 h.rows
    refine .mk h.keptBy (((List.forall₂_and_left _ _).2 ⟨fun _ hrow => hrow, hrows⟩).imp ?_)
    rintro row final ⟨hrow, hpairs⟩
    refine row_completedBy ?_ (fun slot hslot final => ih slot ?_) hpairs
    · have hkind : declared.kind = .group := by
        cases declared with
        | item info => cases hrow
        | altItem info altName => cases hrow
        | group info rows => rfl
      exact ((h.wellShaped.rows hkind).2.2 row hrow).2
    · exact List.mem_flatMap.2 ⟨row, hrow, hslot⟩

end Node.Becomes

/-! ## Compilations -/

theorem completedBy_of_passes {policy : DuplicatePolicy} {declared : MenuFile}
    (h : Passes policy declared) :
    declared.root.CompletedBy (finishedMenu policy declared).root := by
  refine Node.Becomes.completedBy ⟨(validate declared).value.root,
    (assignIds policy (validate declared).value).value.root, ?_, ?_, ?_⟩
  · exact Visitor.yields_walk flat_shapeVisitor.depth_visit_le h.shape
  · exact Visitor.yields_walk flat_registryVisitor.depth_visit_le h.ids
  · exact Visitor.yields_walk flat_explodeVisitor.depth_visit_le h.names

theorem parsed_of_compile {options : CompileOptions} {source : String} {compilation : Compilation}
    {parsed : Parsed} (hparsed : parse source = .ok parsed)
    (h : compile options source = .ok compilation) :
    compilation.parsed = if options.snapshotParsed then some parsed.file else none := by
  simp only [compile, hparsed, bind_eq_ok_iff] at h
  obtain ⟨_, hsame, _, -, _, -, _, -, table, -, h⟩ := h
  obtain rfl := Except.ok.inj hsame
  obtain rfl := Except.ok.inj h
  rfl

/-- The menu that is kept as it was read is completed by the finished one. -/
theorem completedBy_of_compile {options : CompileOptions} {source : String}
    {compilation : Compilation} (h : compile options source = .ok compilation)
    (hsnapshot : options.snapshotParsed = true) :
    ∃ declared, compilation.parsed = some declared ∧ declared.CompletedBy compilation.file := by
  obtain ⟨parsed, hparsed, hpasses, hfile, -⟩ := passes_of_compile h
  have hfinished := finished_of_passes hpasses
  refine ⟨parsed.file, ?_, ?_⟩
  · rw [parsed_of_compile hparsed h, if_pos hsnapshot]
  · rw [hfile]
    exact ⟨rfl, fresh_of_parse hparsed, completedBy_of_passes hpasses, hfinished.ids_eq,
      hfinished.root_parentId, hfinished.linked⟩

/-- A menu with a row that is not full, with a blank that is declared and with a name that refers to
a glyph. -/
def arrowMenu : String :=
  "MenuConfig [ ] MenuGroup Top T [ MenuRow [ MenuItemAlt <Up>A B C MenuItem * * ] ]"

theorem completedBy_of_compile_arrow :
    ∃ compilation, compile ⟨"menu", .strict, true⟩ arrowMenu = .ok compilation ∧
      ∃ declared, compilation.parsed = some declared ∧ declared.CompletedBy compilation.file := by
  have hsome : (compile ⟨"menu", .strict, true⟩ arrowMenu).toOption.isSome = true := by
    decide +kernel
  obtain ⟨compilation, hcompile⟩ := exists_ok_of_isSome hsome
  exact ⟨compilation, hcompile, completedBy_of_compile hcompile rfl⟩

end SoftMenu
