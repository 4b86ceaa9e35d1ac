import SoftMenu.CommandLine.Run
import SoftMenu.Proofs.Invariants
import SoftMenu.Proofs.Parsing
import SoftMenu.Proofs.Positions
import SoftMenu.Proofs.References
import SoftMenu.Proofs.Stages

/-!
# Where errors point

A place is noted once, when a word is read, and from then on it is handed from stage to stage: a
node and a row carry the place of their keyword, and a blank that fills up a row carries the place
of the row. So every error points at a word of the text or at the end of the text
(`pointsInto_of_compile`).

What has to be kept from stage to stage is little. The tree that is read is made of declared nodes
(`Face.Declared`). Padding adds blanks, each in a row that was declared too short (`Face.Traced`).
After that it is enough that the nodes with names of their own have their places (`Face.Keyed`),
since no error is reported for a blank any more.
-/

namespace SoftMenu

/-! ## Words at places -/

/-- The word stands in the source text at this place. -/
def WordAt (source text : String) (place : Place) : Prop :=
  ∃ token ∈ tokenize source, token.text = text ∧ token.place = place

/-- A row is declared at this place with less than five slots. -/
def ShortRowAt (source : String) (place : Place) : Prop :=
  WordAt source "MenuRow" place ∧ ∃ parsed, parse source = .ok parsed ∧
    ∃ group ∈ parsed.file.root.flatten, ∃ row ∈ group.rows,
      row.place = place ∧ row.slots.length < rowSlots

/-- What stands in the source text where an error points. -/
def CompileError.PointsInto (source : String) : CompileError → Prop
  -- The end of the text, on its last line.
  | .unexpectedEnd _ place | .missingRoot place =>
    place = ⟨1 + source.toList.dropLast.count '\n', .empty source.utf8ByteSize⟩
  | .unexpectedToken found _ place => WordAt source found place
  | .extraRoot place | .emptyGroup _ place | .tooManyRows _ _ place =>
    WordAt source "MenuGroup" place
  | .rowOverflow _ _ _ place | .emptyRow _ _ place => WordAt source "MenuRow" place
  | .misplacedBlank kind place | .duplicateName _ kind _ place => WordAt source kind.keyword place
  | .illegalLabel _ _ _ place | .duplicateLabel _ _ place | .invalidName _ _ place =>
    ∃ kind : Kind, WordAt source kind.keyword place
  -- A node that is declared, or a blank that fills up a row.
  | .idOverflow _ label place =>
    (∃ kind : Kind, WordAt source kind.keyword place) ∨
      label = blankMark ∧ ShortRowAt source place
  | .nameIdOverflow _ _ span =>
    ∃ (kind : Kind) (line : Nat), WordAt source kind.keyword ⟨line, span⟩

variable {source : String}

theorem WordAt.within {text : String} {place : Place} (h : WordAt source text place) :
    place.span.Within source := by
  obtain ⟨token, htoken, -, rfl⟩ := h
  exact (standsIn_of_mem_tokenize htoken).within

theorem CompileError.PointsInto.within {error : CompileError} (h : error.PointsInto source) :
    error.span.Within source := by
  cases error with
  | unexpectedEnd | missingRoot =>
    obtain rfl := h
    exact within_empty source
  | unexpectedToken | extraRoot | emptyGroup | tooManyRows | rowOverflow | emptyRow
  | misplacedBlank | duplicateName => exact WordAt.within h
  | illegalLabel | duplicateLabel | invalidName =>
    obtain ⟨kind, hword⟩ := h
    exact hword.within
  | idOverflow =>
    rcases h with ⟨kind, hword⟩ | ⟨-, hword, -⟩
    · exact hword.within
    · exact hword.within
  | nameIdOverflow =>
    obtain ⟨kind, line, hword⟩ := h
    exact hword.within

/-! ## Reading -/

/-- An error of the reader points at the word that it rejects, or at the end of the text. -/
theorem pointsInto_of_parse {error : CompileError} (h : parse source = .error error) :
    error.PointsInto source := by
  cases hrun : Reader.run {} (tokenize source) with
  | error fault =>
    rw [parse, parseTokens_of_error hrun] at h
    obtain rfl := Except.error.inj h
    obtain ⟨before, token, after, reader, hsplit, -, hstep⟩ := Reader.exists_step_error hrun
    have htoken : token ∈ tokenize source := by simp [hsplit]
    rcases Reader.step_error_cases hstep with ⟨rfl, -, hgroup⟩ | ⟨rfl, -⟩
    · exact ⟨token, htoken, hgroup, rfl⟩
    · exact ⟨token, htoken, rfl, rfl⟩
  | ok reader =>
    rw [parse, parseTokens_of_run hrun] at h
    have hplace : endPlace source = ⟨1 + source.toList.dropLast.count '\n',
        .empty source.utf8ByteSize⟩ := by
      rw [endPlace, lastLine_eq]
    unfold Reader.finish at h
    split at h
    · cases h
    · obtain rfl := Except.error.inj h
      exact hplace
    · obtain rfl := Except.error.inj h
      exact hplace

/-! ## The tree that is read -/

/-- A node is declared by its keyword, and so are its rows. -/
structure Face.Declared (source : String) (face : Face) : Prop where
  node : WordAt source face.kind.keyword face.info.place
  row : ∀ entry ∈ face.layout, WordAt source "MenuRow" entry.2

/-- Where a declaration names a place, its word stands there. -/
theorem exists_of_matching {words : List DeclaredWord} {tokens : List Token}
    (h : List.Forall₂ DeclaredWord.Matches words tokens) {text : String} {place : Place}
    (hword : ⟨text, some place⟩ ∈ words) :
    ∃ token ∈ tokens, token.text = text ∧ token.place = place := by
  induction h with
  | nil => cases hword
  | cons hmatch _ ih =>
    rcases List.mem_cons.1 hword with rfl | hword
    · exact ⟨_, List.mem_cons_self, hmatch.1, hmatch.2 place rfl⟩
    · obtain ⟨token, htoken, hfound⟩ := ih hword
      exact ⟨token, List.mem_cons_of_mem _ htoken, hfound⟩

theorem declaration_subset_slots {slot : Node} {slots : List Node} (h : slot ∈ slots) :
    slot.declaration ⊆ declarationOfSlots slots := by
  induction slots with
  | nil => cases h
  | cons first slots ih =>
    rw [declarationOfSlots]
    rcases List.mem_cons.1 h with rfl | h
    · exact List.subset_append_left _ _
    · exact List.subset_append_of_subset_right _ (ih h)

theorem declarationOfRow_subset {row : Row Node} {rows : List (Row Node)} (h : row ∈ rows) :
    declarationOfRow row ⊆ declarationOfRows rows := by
  induction rows with
  | nil => cases h
  | cons first rows ih =>
    rw [declarationOfRows]
    rcases List.mem_cons.1 h with rfl | h
    · exact List.subset_append_left _ _
    · exact List.subset_append_of_subset_right _ (ih h)

theorem declarationOfRow_subset_node {node : Node} {row : Row Node} (h : row ∈ node.rows) :
    declarationOfRow row ⊆ node.declaration := by
  cases node with
  | item info => cases h
  | altItem info altName => cases h
  | group info rows =>
    intro word hword
    have hrows : word ∈ declarationOfRows rows := declarationOfRow_subset h hword
    simp [Node.declaration, hrows]

theorem declarationOfRow_eq (row : Row Node) : declarationOfRow row =
    ⟨"MenuRow", row.place⟩ :: ⟨"[", none⟩ :: declarationOfSlots row.slots ++ [⟨"]", none⟩] := by
  cases row
  rfl

theorem declaration_subset_node {node slot : Node} (h : slot ∈ node.slots) :
    slot.declaration ⊆ node.declaration := by
  obtain ⟨row, hrow, hslot⟩ := List.mem_flatMap.1 h
  intro word hword
  refine declarationOfRow_subset_node hrow ?_
  have hslots := declaration_subset_slots hslot hword
  simp [declarationOfRow_eq, hslots]

/-- A node whose declaration is among words that stand in the text is declared there, with all that
is below it. -/
theorem all_declared {words : List DeclaredWord}
    (hwords : ∀ text place, ⟨text, some place⟩ ∈ words → WordAt source text place) (node : Node)
    (h : node.declaration ⊆ words) : node.All (Face.Declared source) := by
  induction node using Node.slotInduction with
  | step node ih =>
    rw [Node.all_iff]
    refine ⟨⟨hwords _ _ (h ?_), fun entry hentry => ?_⟩, fun slot hslot => ?_⟩
    · cases node <;> exact List.mem_cons_self
    · obtain ⟨row, hrow, rfl⟩ := List.mem_map.1 hentry
      have hkeyword : ⟨"MenuRow", some row.place⟩ ∈ declarationOfRow row := by
        rw [declarationOfRow_eq]
        exact List.mem_cons_self
      exact hwords _ _ (h (declarationOfRow_subset_node hrow hkeyword))
    · exact ih slot hslot fun word hword => h (declaration_subset_node hslot hword)

/-- Every node and every row that is read is declared by its keyword. -/
theorem all_declared_of_parse {parsed : Parsed} (h : parse source = .ok parsed) :
    parsed.file.root.All (Face.Declared source) := by
  obtain ⟨tree, hwords, -⟩ := words_of_parse h
  obtain ⟨parsed', hparsed', -, before, after, hsplit, -, hdeclared⟩ := parse_of_words hwords
  obtain rfl := Except.ok.inj (h.symm.trans hparsed')
  refine all_declared (fun text place hword => ?_) _ (List.Subset.refl _)
  obtain ⟨token, htoken, hfound⟩ := exists_of_matching hdeclared.matching hword
  exact ⟨token, by simp [hsplit, htoken], hfound⟩

/-! ## Checking and padding -/

/-- An illegal label is reported at the keyword of its node. -/
theorem pointsInto_of_labelError {node : Node} {error : CompileError}
    (hnode : node.face.Declared source) (h : node.labelError? = some error) :
    error.PointsInto source := by
  have hword : WordAt source node.kind.keyword node.place := hnode.node
  unfold Node.labelError? at h
  split at h
  · obtain rfl := Option.some.inj h
    exact ⟨_, hword⟩
  · split_ifs at h
    all_goals
      obtain rfl := Option.some.inj h
      first
        | exact hword
        | exact ⟨_, hword⟩

/-- A row of an illegal length is reported at its keyword. -/
theorem pointsInto_of_padRows {group : String} {index padded : Nat} {rows : List (Row Node)}
    {error : CompileError} (hrows : ∀ row ∈ rows, WordAt source "MenuRow" row.place)
    (h : (padRows group index rows padded).halt = some error) : error.PointsInto source := by
  induction rows generalizing index padded with
  | nil => cases h
  | cons row rows ih =>
    obtain ⟨hrow, hrest⟩ := List.forall_mem_cons.1 hrows
    unfold padRows at h
    cases herror : row.error? group index with
    | none =>
      rw [herror] at h
      exact ih hrest h
    | some first =>
      rw [herror] at h
      obtain rfl := Option.some.inj h
      unfold Row.error? at herror
      split_ifs at herror
      · obtain rfl := Option.some.inj herror
        exact hrow
      · obtain rfl := Option.some.inj herror
        exact hrow

theorem pointsInto_of_shapeVisitor {parentId : UInt8} {node : Node} {padded : Nat}
    {error : CompileError} (hnode : node.face.Declared source)
    (h : (shapeVisitor parentId node padded).halt = some error) : error.PointsInto source := by
  cases hlabel : node.labelError? with
  | some first =>
    rw [shapeVisitor_of_error hlabel] at h
    obtain rfl := Option.some.inj h
    exact pointsInto_of_labelError hnode hlabel
  | none =>
    by_cases hkind : node.kind = .group
    · have hword : WordAt source "MenuGroup" node.place := by
        have hkeyword : WordAt source node.kind.keyword node.place := hnode.node
        rwa [hkind] at hkeyword
      rw [shapeVisitor_of_group hlabel hkind] at h
      change (padGroup node.info node.rows padded).halt = some error at h
      unfold padGroup at h
      split_ifs at h
      · obtain rfl := Option.some.inj h
        exact hword
      · obtain rfl := Option.some.inj h
        exact hword
      · refine pointsInto_of_padRows (fun row hrow => ?_) h
        exact hnode.row _ (List.mem_map_of_mem hrow)
    · rw [shapeVisitor_of_leaf hlabel hkind] at h
      cases h

/-- An error of the check of shapes points at a keyword. -/
theorem pointsInto_of_validate {file : MenuFile} {error : CompileError}
    (hfile : file.root.All (Face.Declared source)) (h : (validate file).halt = some error) :
    error.PointsInto source := by
  have hwalk := (flat_shapeVisitor.alike_walk file.root 0).halt_eq
  obtain ⟨node, hnode, before, hhalt⟩ := exists_of_sweep_halt (hwalk.symm.trans h)
  exact pointsInto_of_shapeVisitor (hfile node (mem_active.1 hnode).1) hhalt

/-- A node is declared by its keyword, or it fills up a row that was declared too short. -/
structure Face.Traced (source : String) (face : Face) : Prop where
  node : WordAt source face.kind.keyword face.info.place ∨
    face.info.name.text = blankMark ∧ face.info.label = blankMark ∧
      ShortRowAt source face.info.place
  row : ∀ entry ∈ face.layout, entry.1 < rowSlots → ShortRowAt source entry.2

/-- Every node that is read can be traced to its keyword, and so can every row that is too short. -/
theorem all_traced_of_parse {parsed : Parsed} (h : parse source = .ok parsed) :
    parsed.file.root.All (Face.Traced source) := by
  intro node hnode
  have hdeclared := all_declared_of_parse h node hnode
  refine ⟨Or.inl hdeclared.node, fun entry hentry hshort => ⟨hdeclared.row entry hentry, ?_⟩⟩
  obtain ⟨row, hrow, rfl⟩ := List.mem_map.1 hentry
  exact ⟨parsed, h, node, hnode, row, hrow, rfl, hshort⟩

/-- A row that is left is one that was declared, filled up or not. -/
theorem mem_padRows {group : String} {index padded : Nat} {rows : List (Row Node)} {row : Row Node}
    (h : row ∈ (padRows group index rows padded).value) :
    ∃ declared ∈ rows, row = declared ∨ row = declared.pad := by
  induction rows generalizing index padded with
  | nil => cases h
  | cons first rows ih =>
    unfold padRows at h
    cases herror : first.error? group index with
    | some error =>
      rw [herror] at h
      exact ⟨row, h, Or.inl rfl⟩
    | none =>
      rw [herror] at h
      rcases List.mem_cons.1 h with rfl | h
      · exact ⟨first, List.mem_cons_self, Or.inr rfl⟩
      · obtain ⟨declared, hdeclared, hrow⟩ := ih h
        exact ⟨declared, List.mem_cons_of_mem _ hdeclared, hrow⟩

theorem mem_padGroup {info : NodeInfo} {padded : Nat} {rows : List (Row Node)} {row : Row Node}
    (h : row ∈ (padGroup info rows padded).value) :
    ∃ declared ∈ rows, row = declared ∨ row = declared.pad := by
  unfold padGroup at h
  split_ifs at h
  · exact ⟨row, h, Or.inl rfl⟩
  · exact ⟨row, h, Or.inl rfl⟩
  · exact mem_padRows h

/-- A blank that is filled in can be traced to its row. -/
theorem traced_blank {place : Place} (h : ShortRowAt source place) :
    (Node.blank place).All (Face.Traced source) := by
  rw [Node.all_iff]
  refine ⟨⟨Or.inr ⟨rfl, rfl, h⟩, ?_⟩, ?_⟩
  · intro entry hentry
    cases hentry
  · intro slot hslot
    cases hslot

theorem all_traced_shapeVisitor (parentId : UInt8) {node : Node} (padded : Nat)
    (h : node.All (Face.Traced source)) :
    (shapeVisitor parentId node padded).value.All (Face.Traced source) := by
  cases hlabel : node.labelError? with
  | some first =>
    rw [shapeVisitor_of_error hlabel]
    exact h
  | none =>
    by_cases hkind : node.kind = .group
    · rw [shapeVisitor_of_group hlabel hkind]
      obtain ⟨hnode, hslots⟩ := Node.all_iff.1 h
      have hshort : ∀ row ∈ node.rows, row.slots.length < rowSlots →
          ShortRowAt source row.place := by
        intro row hrow
        exact hnode.row _ (List.mem_map_of_mem hrow)
      rw [Node.all_iff]
      refine ⟨⟨?_, fun entry hentry hlt => ?_⟩, fun slot hslot => ?_⟩
      · have hself := hnode.node
        rw [Node.eq_group_of_kind hkind] at hself
        exact hself
      · obtain ⟨row, hrow, rfl⟩ := List.mem_map.1 hentry
        obtain ⟨declared, hdeclared, rfl | rfl⟩ := mem_padGroup hrow
        · exact hshort _ hdeclared hlt
        · -- A padded row has five slots at least.
          simp only [Row.pad, Row.missing, List.length_append, List.length_replicate] at hlt
          omega
      · obtain ⟨row, hrow, hslot⟩ := List.mem_flatMap.1 hslot
        obtain ⟨declared, hdeclared, rfl | rfl⟩ := mem_padGroup hrow
        · exact hslots slot (Node.mem_slots_of_mem_rows hdeclared hslot)
        · rcases List.mem_append.1 hslot with hslot | hslot
          · exact hslots slot (Node.mem_slots_of_mem_rows hdeclared hslot)
          · obtain ⟨hmissing, rfl⟩ := List.mem_replicate.1 hslot
            refine traced_blank (hshort declared hdeclared ?_)
            rw [Row.missing] at hmissing
            omega
    · rw [shapeVisitor_of_leaf hlabel hkind]
      exact h

/-- After the check of shapes every node can be traced to a keyword. -/
theorem all_traced_validate {file : MenuFile} (h : file.root.All (Face.Traced source)) :
    (validate file).value.root.All (Face.Traced source) :=
  Visitor.all_walk
    (fun parentId _ padded hnode => all_traced_shapeVisitor parentId padded hnode) h 0

/-! ## Numbering -/

/-- A name or a label that is taken is reported at the keyword of the second node. -/
theorem pointsInto_of_note {registry : Registry} {node : Node} {error : CompileError}
    (hword : WordAt source node.kind.keyword node.place)
    (h : (registry.note node).2 = some error) : error.PointsInto source := by
  have hclash : registry.labelClash? node = some error → error.PointsInto source := by
    intro hclash
    obtain ⟨first, -, rfl⟩ := Option.map_eq_some_iff.1 hclash
    exact ⟨_, hword⟩
  unfold Registry.note at h
  split at h
  · split_ifs at h
    · exact hclash h
    · obtain rfl := Option.some.inj h
      exact hword
  · exact hclash h

/-- Running out of ids is reported at the keyword of the node, or of the row of a blank. -/
theorem pointsInto_of_number {registry : Registry} {parentId : UInt8} {node : Node}
    {error : CompileError} (hnode : node.face.Traced source)
    (h : (registry.number parentId node).halt = some error) : error.PointsInto source := by
  unfold Registry.number at h
  split_ifs at h
  · obtain rfl := Option.some.inj h
    rcases hnode.node with hword | ⟨-, hlabel, hshort⟩
    · exact Or.inl ⟨_, hword⟩
    · exact Or.inr ⟨hlabel, hshort⟩
  · cases h
  · cases h

/-- A node with a name of its own is declared by its keyword. -/
def Face.Keyed (source : String) (face : Face) : Prop :=
  face.info.name.text ≠ blankMark → WordAt source face.kind.keyword face.info.place

/-- A node with a name of its own has not been filled in. -/
theorem Face.Traced.keyed {face : Face} (h : face.Traced source) : face.Keyed source := by
  intro hname
  rcases h.node with hword | ⟨hblank, -⟩
  · exact hword
  · exact absurd hblank hname

/-- An error of the assignment of ids points at a keyword. -/
theorem pointsInto_of_assignIds {policy : DuplicatePolicy} {file : MenuFile} {error : CompileError}
    (hfile : file.root.All (Face.Traced source)) (h : (assignIds policy file).halt = some error) :
    error.PointsInto source := by
  rw [(alike_assignIds policy file).halt_eq] at h
  obtain ⟨node, hnode, registry, hhalt⟩ := exists_of_sweep_halt h
  have htraced := hfile node hnode
  cases hblank : node.isBlank with
  | true =>
    rw [Registry.visitor_of_blank hblank] at hhalt
    exact pointsInto_of_number htraced hhalt
  | false =>
    have hword := htraced.keyed (Node.isBlank_eq_false_iff.1 hblank)
    cases hnote : (registry.note node).2 with
    | some first =>
      rw [Registry.visitor_of_some hblank hnote] at hhalt
      obtain rfl := Option.some.inj hhalt
      exact pointsInto_of_note hword hnote
    | none =>
      rw [Registry.visitor_of_none hblank hnote] at hhalt
      exact pointsInto_of_number htraced hhalt

/-! ## Names -/

/-- A visit that keeps the rows of a node, its kind, its place and the text of its name keeps the
places of the tree. -/
theorem all_keyed_of_visit {node next : Node} (h : node.All (Face.Keyed source))
    (hrows : next.rows = node.rows) (hname : next.name = node.name) (hkind : next.kind = node.kind)
    (hplace : next.place = node.place) : next.All (Face.Keyed source) := by
  rw [Node.all_iff] at h ⊢
  rw [Node.slots, hrows]
  refine ⟨fun hne => ?_, h.2⟩
  have hnodeName : node.name ≠ blankMark := by
    rw [← hname]
    exact hne
  show WordAt source next.kind.keyword next.place
  rw [hkind, hplace]
  exact h.1 hnodeName

theorem all_keyed_assignIds (policy : DuplicatePolicy) {file : MenuFile}
    (h : file.root.All (Face.Keyed source)) :
    (assignIds policy file).value.root.All (Face.Keyed source) := by
  refine Visitor.all_walk (fun parentId node registry hnode => ?_) h _
  by_cases hhalt : (Registry.visitor parentId node registry).halt = none
  · rw [Registry.visitor_value hhalt]
    refine all_keyed_of_visit hnode (Node.rows_mapInfo _ node) ?_ (Node.kind_mapInfo _ node) ?_
    · rw [Node.name, Node.stamp, Node.info_mapInfo]
      rfl
    · rw [Node.place, Node.stamp, Node.info_mapInfo]
      rfl
  · rw [Registry.visitor_value_of_halt hhalt]
    exact hnode

theorem all_keyed_explodeNames {file : MenuFile} (h : file.root.All (Face.Keyed source)) :
    (explodeNames file).value.root.All (Face.Keyed source) := by
  refine Visitor.all_walk (fun parentId node count hnode => ?_) h 0
  obtain ⟨hbare, hrows⟩ := bare_explodeVisitor parentId node count
  refine all_keyed_of_visit hnode hrows ?_ ?_ ?_
  · exact congrArg (fun face : Face => face.info.name.text) hbare
  · exact congrArg Face.kind hbare
  · exact congrArg (fun face : Face => face.info.place) hbare

theorem exists_of_explodeName {place : Place} {name : DisplayName} {count : Nat}
    {error : CompileError} (h : (explodeName place name count).halt = some error) :
    ∃ text fault, error = .invalidName text fault place := by
  unfold explodeName at h
  split at h
  · exact ⟨_, _, (Option.some.inj h).symm⟩
  · split_ifs at h
    · cases h
    · cases h

/-- Exploding names fails only for a name that cannot be spelled. -/
theorem exists_of_explodeNames {file : MenuFile} {error : CompileError}
    (h : (explodeNames file).halt = some error) :
    ∃ node ∈ file.root.flatten, node.isBlank = false ∧
      ∃ text fault, error = .invalidName text fault node.place := by
  rw [(alike_explodeNames file).halt_eq] at h
  obtain ⟨node, hnode, count, hhalt⟩ := exists_of_sweep_halt h
  cases hblank : node.isBlank with
  | true =>
    rw [explodeVisitor_of_blank hblank] at hhalt
    cases hhalt
  | false =>
    refine ⟨node, hnode, hblank, ?_⟩
    by_cases haltName : node.altName? = none
    · rw [explodeVisitor_of_altName?_eq_none hblank haltName] at hhalt
      exact exists_of_explodeName hhalt
    · obtain ⟨info, altName, rfl⟩ := Node.eq_altItem_of_altName? haltName
      rw [explodeVisitor_altItem hblank] at hhalt
      split at hhalt
      · exact exists_of_explodeName hhalt
      · exact exists_of_explodeName hhalt

/-- A name that cannot be spelled is reported at the keyword of its node. -/
theorem pointsInto_of_explodeNames {file : MenuFile} {error : CompileError}
    (hfile : file.root.All (Face.Keyed source)) (h : (explodeNames file).halt = some error) :
    error.PointsInto source := by
  obtain ⟨node, hnode, hblank, text, fault, rfl⟩ := exists_of_explodeNames h
  exact ⟨_, hfile node hnode (Node.isBlank_eq_false_iff.1 hblank)⟩

/-- Running out of name ids is reported at the keyword of a node. -/
theorem pointsInto_of_ofFile {file : MenuFile} {error : CompileError}
    (hfile : file.root.All (Face.Keyed source)) (h : Table.ofFile file = .error error) :
    error.PointsInto source := by
  rw [ofFile_eq_error_iff, namePool, numberNames_eq_error_iff (by omega)] at h
  obtain ⟨name, hname, rfl⟩ := h
  obtain ⟨node, hnode, hmem⟩ := List.mem_flatMap.1 (List.mem_of_getElem? hname)
  obtain ⟨hsame, hblank⟩ := node_of_mem_poolNames hmem
  have hword := hfile node hnode (Node.isBlank_eq_false_iff.1 hblank)
  rw [hsame]
  exact ⟨_, _, hword⟩

/-! ## Warnings -/

/-- The diagnostic points at the name of a setting. -/
def Diagnostic.PointsAtKey (source : String) (diagnostic : Diagnostic) : Prop :=
  ∃ (key : ConfigKey) (place : Place), WordAt source key.word place ∧
    diagnostic.span = some place.span

/-- The setting whose value has to come next, and the word that has named it. -/
def Expectation.setting? : Expectation → Option (ConfigKey × Token)
  | .configValue key keyToken => some (key, keyToken)
  | _ => none

theorem setting?_afterGroup (group : OpenGroup) (outer : List OpenRow) :
    (afterGroup group outer).setting? = none := by
  cases outer <;> rfl

/-- The word has left the warnings alone, and if a value has to come next, it is that of the setting
that the word names. -/
def Reader.Unwarned (reader : Reader) (token : Token) (next : Reader) : Prop :=
  next.warnings = reader.warnings ∧ ∀ key keyToken,
    next.expectation.setting? = some (key, keyToken) → keyToken = token ∧ token.text = key.word

theorem Reader.unwarned_of_expecting {reader next : Reader} {token : Token}
    {expectation : Expectation} (hnone : expectation.setting? = none)
    (h : reader.expecting expectation = next) : reader.Unwarned token next := by
  subst h
  refine ⟨rfl, fun key keyToken hsome => ?_⟩
  rw [expecting_expectation, hnone] at hsome
  cases hsome

theorem Reader.unwarned_of_require {reader next : Reader} {token : Token} {word : String}
    {expectation : Expectation} (hnone : expectation.setting? = none)
    (h : reader.require word token expectation = .ok next) : reader.Unwarned token next :=
  Reader.unwarned_of_expecting hnone (require_eq_ok_iff.1 h).2

/-- Only the value of a setting that has been named adds a warning, and only the name of a setting
makes the reader wait for a value. -/
theorem Reader.step_warnings {reader next : Reader} {token : Token}
    (h : reader.step token = .ok next) :
    reader.Unwarned token next ∨
      ∃ key keyToken, reader.expectation.setting? = some (key, keyToken) ∧
        next = reader.configure key keyToken token := by
  cases he : reader.expectation with
  | configValue key keyToken =>
    simp only [Reader.step, he] at h
    exact Or.inr ⟨key, keyToken, rfl, (Except.ok.inj h).symm⟩
  | configKeyword | configOpen | rootKeyword | groupOpen | rowOpen =>
    simp only [Reader.step, he] at h
    exact Or.inl (Reader.unwarned_of_require rfl h)
  | configKey =>
    simp only [Reader.step, he] at h
    cases hkey : ConfigKey.ofWord? token.text with
    | none =>
      rw [hkey] at h
      exact Or.inl (Reader.unwarned_of_require rfl h)
    | some key =>
      rw [hkey] at h
      obtain rfl := Except.ok.inj h
      refine Or.inl ⟨rfl, fun key' keyToken hsome => ?_⟩
      obtain ⟨rfl, rfl⟩ := Prod.mk.inj (Option.some.inj hsome)
      exact ⟨rfl, (ConfigKey.word_of_ofWord? hkey).symm⟩
  | groupBody group outer =>
    simp only [Reader.step, he] at h
    split_ifs at h
    · exact Or.inl (Reader.unwarned_of_expecting rfl (Except.ok.inj h))
    · exact Or.inl (Reader.unwarned_of_require (setting?_afterGroup group outer) h)
  | rowBody row outer =>
    simp only [Reader.step, he] at h
    split_ifs at h
    · exact Or.inl (Reader.unwarned_of_expecting rfl (Except.ok.inj h))
    · exact Or.inl (Reader.unwarned_of_expecting rfl (Except.ok.inj h))
    · exact Or.inl (Reader.unwarned_of_expecting rfl (Except.ok.inj h))
    · exact Or.inl (Reader.unwarned_of_require rfl h)
  | finished root =>
    simp only [Reader.step, he, Reader.reject] at h
    split_ifs at h
  | groupName | groupLabel | itemName | itemLabel | altItemName | altItemAltName | altItemLabel =>
    simp only [Reader.step, he] at h
    exact Or.inl (Reader.unwarned_of_expecting rfl (Except.ok.inj h))

/-- All warnings so far point at names of settings, and so does what the reader waits for. -/
structure Reader.Warned (source : String) (reader : Reader) : Prop where
  warnings : ∀ warning ∈ reader.warnings, warning.PointsAtKey source
  key : ∀ key keyToken, reader.expectation.setting? = some (key, keyToken) →
    keyToken ∈ tokenize source ∧ keyToken.text = key.word

/-- One more word keeps all warnings pointing at names of settings. -/
theorem Reader.Warned.step {reader next : Reader} {token : Token} (h : reader.Warned source)
    (htoken : token ∈ tokenize source) (hstep : reader.step token = .ok next) :
    next.Warned source := by
  rcases Reader.step_warnings hstep with ⟨hwarnings, hkey⟩ | ⟨key, keyToken, hsetting, rfl⟩
  · refine ⟨hwarnings ▸ h.warnings, fun key keyToken hnext => ?_⟩
    obtain ⟨rfl, htext⟩ := hkey key keyToken hnext
    exact ⟨htoken, htext⟩
  · obtain ⟨hkeyToken, htext⟩ := h.key key keyToken hsetting
    refine ⟨fun warning hwarning => ?_, fun key' keyToken' hnext => ?_⟩
    · rcases List.mem_append.1 hwarning with hwarning | hwarning
      · exact h.warnings warning hwarning
      · obtain ⟨previous, -, rfl⟩ := Option.map_eq_some_iff.1 (Option.mem_toList.1 hwarning)
        exact ⟨key, keyToken.place, ⟨keyToken, hkeyToken, htext, rfl⟩, rfl⟩
    · cases hnext

theorem Reader.Warned.run {reader next : Reader} {tokens : List Token} (h : reader.Warned source)
    (htokens : tokens ⊆ tokenize source) (hrun : reader.run tokens = .ok next) :
    next.Warned source := by
  induction tokens generalizing reader with
  | nil =>
    obtain rfl := Except.ok.inj hrun
    exact h
  | cons token tokens ih =>
    rw [Reader.run_cons, bind_eq_ok_iff] at hrun
    obtain ⟨middle, hstep, hrun⟩ := hrun
    have hmiddle := h.step (htokens List.mem_cons_self) hstep
    exact ih hmiddle (fun other hother => htokens (List.mem_cons_of_mem _ hother)) hrun

/-- Every warning of the reader points at the name of a setting. -/
theorem pointsAtKey_of_parse {parsed : Parsed} (h : parse source = .ok parsed) :
    ∀ warning ∈ parsed.warnings, warning.PointsAtKey source := by
  have hfirst : Reader.Warned source {} := ⟨by simp, by simp [Expectation.setting?]⟩
  cases hrun : Reader.run {} (tokenize source) with
  | error error =>
    rw [parse, parseTokens_of_error hrun] at h
    cases h
  | ok reader =>
    rw [parse, parseTokens_of_run hrun, finish_eq_ok_iff] at h
    obtain ⟨root, -, rfl⟩ := h
    exact (hfirst.run (List.Subset.refl _) hrun).warnings

/-! ## Compilation -/

/-- Every error of a compilation points into the source text. -/
theorem pointsInto_of_error {options : CompileOptions} {error : CompileError}
    (h : compile options source = .error error) : error.PointsInto source := by
  simp only [compile, bind_eq_error_iff, toExcept_eq_error_iff, toExcept_eq_ok_iff] at h
  rcases h with hparse | ⟨parsed, hparsed, h⟩
  · exact pointsInto_of_parse hparse
  have htraced := all_traced_validate (all_traced_of_parse hparsed)
  have hkeyed : (validate parsed.file).value.root.All (Face.Keyed source) :=
    fun node hnode => (htraced node hnode).keyed
  have hnumbered := all_keyed_assignIds options.duplicateNames hkeyed
  rcases h with hshape | ⟨_, ⟨-, rfl⟩, h⟩
  · exact pointsInto_of_validate (all_declared_of_parse hparsed) hshape
  rcases h with hids | ⟨_, ⟨-, rfl⟩, h⟩
  · exact pointsInto_of_assignIds htraced hids
  rcases h with hnames | ⟨_, ⟨-, rfl⟩, h⟩
  · exact pointsInto_of_explodeNames hnumbered hnames
  rcases h with htable | ⟨table, -, h⟩
  · exact pointsInto_of_ofFile (all_keyed_explodeNames hnumbered) htable
  · cases h

/-- Every error of a compilation points at a word of the text that it is about, or at the end of the
text if that comes too early, and every warning at the name of a setting. The span lies within the
text and does not cut a character, so a report shows it as it is. -/
theorem pointsInto_of_compile (options : CompileOptions) (source : String) :
    (∀ error, compile options source = .error error →
      error.PointsInto source ∧ error.span.Within source ∧
        error.diagnostic.span = some error.span ∧
        (Report.ofDiagnostic source error.diagnostic).range = some error.span) ∧
    ∀ compilation, compile options source = .ok compilation →
      ∀ warning ∈ compilation.warnings, warning.PointsAtKey source ∧
        ∃ span, warning.span = some span ∧ span.Within source ∧
          (Report.ofDiagnostic source warning).range = some span := by
  constructor
  · intro error h
    have hpoints := pointsInto_of_error h
    refine ⟨hpoints, hpoints.within, rfl, ?_⟩
    show some (error.span.clamp source.utf8ByteSize) = some error.span
    rw [hpoints.within.clamp_eq]
  · intro compilation h warning hwarning
    simp only [compile, bind_eq_ok_iff] at h
    obtain ⟨parsed, hparsed, _, -, _, -, _, -, _, -, h⟩ := h
    obtain rfl := Except.ok.inj h
    have hpoints := pointsAtKey_of_parse hparsed warning hwarning
    obtain ⟨key, place, hword, hspan⟩ := hpoints
    refine ⟨⟨key, place, hword, hspan⟩, place.span, hspan, hword.within, ?_⟩
    rw [Report.ofDiagnostic, hspan, Option.map_some, hword.within.clamp_eq]

end SoftMenu
