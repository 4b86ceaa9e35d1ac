import SoftMenu.Proofs.Statements

/-!
# The symbols of a table

Every node defines some symbols, which are made from its label by putting an ending to it, and the
table has some symbols of its own. The labels are all different and none begins like a symbol of
the table, but this does not make all the symbols different: a label may be another label with an
ending. `nodup_definedSymbols_iff` says that nothing else can go wrong, and `clashing_symbols` that
it does.
-/

namespace SoftMenu

/-! ## Defined symbols -/

/-- The symbol that a statement defines. -/
def Statement.symbol? : Statement → Option String
  | .label symbol => some symbol
  | .equate symbol _ => some symbol
  | _ => none

/-- All symbols that are defined by some statements, each as often as it is defined. -/
def definedSymbols (statements : List Statement) : List String :=
  statements.filterMap Statement.symbol?

@[simp] theorem definedSymbols_append (first second : List Statement) :
    definedSymbols (first ++ second) = definedSymbols first ++ definedSymbols second :=
  List.filterMap_append

@[simp] theorem definedSymbols_label (symbol : String) (rest : List Statement) :
    definedSymbols (.label symbol :: rest) = symbol :: definedSymbols rest := rfl

/-- The symbols that every table defines. -/
def tableSymbols : List String :=
  ["mMenuTable", "mNull", "mNullId", "mMenuNameTable", "mNullNameId", "mNullName"]

/-- What follows the label of a node in the symbols that are defined for it. -/
def Node.endings (node : Node) : List String :=
  if node.isBlank then ["", "Id"]
  else if node.kind = .altItem then ["", "Id", "NameId", "AltNameId", "Name", "AltName"]
  else ["", "Id", "NameId", "Name"]

/-- The symbols that are defined for a node. -/
def Node.symbols (node : Node) : List String := node.endings.map (node.label ++ ·)

/-- What makes the label of a node one that takes a symbol of that node: with `Alt` the name of the
one is the alternate name of the other, with the rest the label of the one is a symbol of the
other. -/
def Node.gaps (node : Node) : List String :=
  if node.kind = .altItem then ["Id", "Name", "NameId", "Alt", "AltName", "AltNameId"]
  else ["Id", "Name", "NameId"]

/-- The label of a node is that of another one with a gap after it. Blanks have no part in this. -/
def Node.Clashes (node other : Node) : Prop :=
  node.isBlank = false ∧ other.isBlank = false ∧ ∃ gap ∈ node.gaps, other.label = node.label ++ gap

/-! ## Endings -/

/-- Everything that is put to a label. -/
def allEndings : List String := ["", "Id", "Name", "NameId", "Alt", "AltName", "AltNameId"]

theorem Node.endings_subset (node : Node) : node.endings ⊆ allEndings := by
  unfold Node.endings
  split_ifs <;> decide

theorem Node.gaps_subset (node : Node) : node.gaps ⊆ allEndings := by
  unfold Node.gaps
  split_ifs <;> decide

theorem Node.ne_empty_of_mem_gaps (node : Node) {gap : String} (h : gap ∈ node.gaps) :
    gap ≠ "" := by
  rintro rfl
  unfold Node.gaps at h
  split_ifs at h <;> exact absurd h (by decide)

/-- Where one text ends in two ways, one of the beginnings goes on as the other. -/
theorem exists_gap {first second ending other : String} (h : first ++ ending = second ++ other) :
    (∃ gap, second = first ++ gap ∧ ending = gap ++ other) ∨
      ∃ gap, first = second ++ gap ∧ other = gap ++ ending := by
  have hchars := congrArg String.toList h
  rw [String.toList_append, String.toList_append, List.append_eq_append_iff] at hchars
  rcases hchars with ⟨gap, hsecond, hending⟩ | ⟨gap, hfirst, hother⟩
  · refine Or.inl ⟨String.ofList gap, ?_, ?_⟩
    · rw [← String.toList_inj, String.toList_append, String.toList_ofList, hsecond]
    · rw [← String.toList_inj, String.toList_append, String.toList_ofList, hending]
  · refine Or.inr ⟨String.ofList gap, ?_, ?_⟩
    · rw [← String.toList_inj, String.toList_append, String.toList_ofList, hfirst]
    · rw [← String.toList_inj, String.toList_append, String.toList_ofList, hother]

/-- A beginning of one of finitely many texts can be looked for among the beginnings of these. -/
theorem forall_gap {longer shorter gaps : List String}
    (h : ∀ long ∈ longer, ∀ short ∈ shorter, ∀ gap ∈ long.toList.inits,
      gap ++ short.toList = long.toList → gap ≠ [] → String.ofList gap ∈ gaps)
    {gap ending : String} (hlong : gap ++ ending ∈ longer) (hshort : ending ∈ shorter)
    (hgap : gap ≠ "") : gap ∈ gaps := by
  have hinits : gap.toList ∈ (gap ++ ending).toList.inits := by
    rw [List.mem_inits, String.toList_append]
    exact List.prefix_append _ _
  have hne : gap.toList ≠ [] := by
    intro hnil
    exact hgap (String.toList_inj.1 hnil)
  have hmem := h _ hlong _ hshort _ hinits String.toList_append.symm hne
  rwa [String.ofList_toList] at hmem

/-- What stands before an ending in another ending is a gap. -/
theorem Node.mem_gaps_of_append_mem {node : Node} {gap ending : String}
    (hblank : node.isBlank = false) (hgap : gap ≠ "") (hending : ending ∈ allEndings)
    (h : gap ++ ending ∈ node.endings) : gap ∈ node.gaps := by
  rw [Node.endings, if_neg (by simp [hblank])] at h
  unfold Node.gaps
  split_ifs at h ⊢
  · exact forall_gap (by decide) h hending hgap
  · exact forall_gap (by decide) h hending hgap

/-- No ending completes the beginning of a generated symbol. -/
theorem start_of_append {start label ending : String} (hstart : start ∈ reservedStarts)
    (hending : ending ∈ allEndings) (h : start.toList <+: (label ++ ending).toList) :
    start.toList <+: label.toList := by
  have hapart : ∀ start ∈ reservedStarts, ∀ ending ∈ allEndings, ∀ common ∈ ending.toList.inits,
      common <:+ start.toList → common = [] := by decide
  obtain ⟨rest, hrest⟩ := h
  rw [String.toList_append, List.append_eq_append_iff] at hrest
  rcases hrest with ⟨common, hlabel, -⟩ | ⟨common, hlabel, hcommon⟩
  · exact ⟨common, hlabel.symm⟩
  · have hnil := hapart start hstart ending hending common
      ((List.mem_inits _ _).2 ⟨rest, hcommon.symm⟩) ⟨label.toList, hlabel.symm⟩
    rw [hlabel, hnil, List.append_nil]

/-! ## Clashes -/

section Clashes

variable {file : MenuFile} {first second : Node}

theorem clashes_of_gap (h : file.Finished) (hfirst : first ∈ file.root.flatten)
    (hsecond : second ∈ file.root.flatten) {gap ending : String} (hgap : gap ≠ "")
    (hlabel : second.label = first.label ++ gap) (hlong : gap ++ ending ∈ first.endings)
    (hshort : ending ∈ second.endings) : first.Clashes second := by
  have hfirstBlank : first.isBlank = false := by
    by_contra hblank
    rw [Bool.not_eq_false] at hblank
    have hfirstLabel := (h.blank first hfirst hblank).2
    cases hsecondBlank : second.isBlank with
    | true =>
      -- The labels of blanks are of the same length.
      have hlength := length_blankLabel second.id
      rw [← (h.blank second hsecond hsecondBlank).2, hlabel, hfirstLabel, String.toList_append,
        List.length_append, length_blankLabel] at hlength
      have hnil : gap.toList = [] := List.eq_nil_of_length_eq_zero (by omega)
      exact hgap (String.toList_inj.1 hnil)
    | false =>
      refine h.unreserved second hsecond hsecondBlank "mBlank" (by decide) ?_
      rw [hlabel, hfirstLabel, String.toList_append]
      exact (reserved_blankLabel first.id).trans (List.prefix_append _ _)
  have hmem : gap ∈ first.gaps :=
    Node.mem_gaps_of_append_mem hfirstBlank hgap (second.endings_subset hshort) hlong
  refine ⟨hfirstBlank, ?_, gap, hmem, hlabel⟩
  by_contra hblank
  rw [Bool.not_eq_false] at hblank
  refine h.unreserved first hfirst hfirstBlank "mBlank" (by decide) ?_
  refine start_of_append (by decide) (first.gaps_subset hmem) ?_
  rw [← hlabel, (h.blank second hsecond hblank).2]
  exact reserved_blankLabel second.id

/-- If two nodes have a symbol in common, the label of one of them is that of the other with a
gap. -/
theorem clashes_of_mem_symbols (h : file.Finished) (hfirst : first ∈ file.root.flatten)
    (hsecond : second ∈ file.root.flatten) (hne : first ≠ second) {symbol : String}
    (hmem : symbol ∈ first.symbols) (hmem' : symbol ∈ second.symbols) :
    first.Clashes second ∨ second.Clashes first := by
  obtain ⟨ending, hending, rfl⟩ := List.mem_map.1 hmem
  obtain ⟨other, hother, heq⟩ := List.mem_map.1 hmem'
  have hlabels : first.label ≠ second.label := fun hlabel =>
    hne (h.eq_of_label hfirst hsecond hlabel)
  have hgap : ∀ {long short gap : String}, short = long ++ gap → long ≠ short → gap ≠ "" := by
    rintro long short gap rfl hdiffer rfl
    exact hdiffer String.append_empty.symm
  rcases exists_gap heq with ⟨gap, hlabel, rfl⟩ | ⟨gap, hlabel, rfl⟩
  · exact Or.inr (clashes_of_gap h hsecond hfirst (hgap hlabel hlabels.symm) hlabel hother hending)
  · exact Or.inl (clashes_of_gap h hfirst hsecond (hgap hlabel hlabels) hlabel hending hother)

/-- Nodes that clash have a symbol in common. -/
theorem Node.Clashes.exists_symbol (h : first.Clashes second) :
    ∃ symbol ∈ first.symbols, symbol ∈ second.symbols := by
  obtain ⟨hfirst, hsecond, gap, hgap, hlabel⟩ := h
  have hempty : "" ∈ second.endings := by
    unfold Node.endings
    split_ifs <;> decide
  have hname : "Name" ∈ second.endings := by
    rw [Node.endings, if_neg (by simp [hsecond])]
    split_ifs <;> decide
  -- With `Alt` it is a name, otherwise a label.
  have hending : gap ++ "" ∈ first.endings ∨ gap ++ "Name" ∈ first.endings := by
    clear hlabel
    rw [Node.endings, if_neg (by simp [hfirst])]
    unfold Node.gaps at hgap
    split_ifs at hgap ⊢
    · revert gap
      decide
    · revert gap
      decide
  rcases hending with hending | hending
  · refine ⟨_, List.mem_map.2 ⟨_, hending, rfl⟩, List.mem_map.2 ⟨_, hempty, ?_⟩⟩
    rw [hlabel, String.append_assoc]
  · refine ⟨_, List.mem_map.2 ⟨_, hending, rfl⟩, List.mem_map.2 ⟨_, hname, ?_⟩⟩
    rw [hlabel, String.append_assoc]

theorem Node.symbols_nodup (node : Node) : node.symbols.Nodup := by
  have hendings : node.endings.Nodup := by
    unfold Node.endings
    split_ifs <;> decide
  exact hendings.map fun ending other heq => (String.append_right_inj node.label).1 heq

/-- The symbols of the table are none of those of a node. -/
theorem disjoint_tableSymbols (h : file.Finished) :
    List.Disjoint tableSymbols (file.root.flatten.flatMap Node.symbols) := by
  have hreserved : ∀ symbol ∈ tableSymbols,
      (∃ start ∈ reservedStarts, start.toList <+: symbol.toList) ∧
        ¬ "mBlank".toList <+: symbol.toList := by decide
  intro symbol htable hsymbol
  obtain ⟨node, hnode, hsymbol⟩ := List.mem_flatMap.1 hsymbol
  obtain ⟨ending, hending, rfl⟩ := List.mem_map.1 hsymbol
  obtain ⟨⟨start, hstart, hbegins⟩, hblank⟩ := hreserved _ htable
  cases hnodeBlank : node.isBlank with
  | true =>
    refine hblank ?_
    rw [(h.blank node hnode hnodeBlank).2, String.toList_append]
    exact (reserved_blankLabel node.id).trans (List.prefix_append _ _)
  | false =>
    exact h.unreserved node hnode hnodeBlank start hstart
      (start_of_append hstart (node.endings_subset hending) hbegins)

/-- All symbols of a table are different exactly if no two nodes clash. -/
theorem nodup_symbols_iff (h : file.Finished) :
    (tableSymbols ++ file.root.flatten.flatMap Node.symbols).Nodup ↔
      ∀ first ∈ file.root.flatten, ∀ second ∈ file.root.flatten, ¬ first.Clashes second := by
  have hnodup : file.root.flatten.Nodup := List.Nodup.of_map _ h.labels_nodup
  constructor
  · intro hsymbols first hfirst second hsecond hclash
    obtain ⟨-, hpairs⟩ := List.nodup_flatMap.1 (List.nodup_append.1 hsymbols).2.1
    have hsymm : Std.Symm (Function.onFun List.Disjoint Node.symbols) :=
      ⟨fun _ _ hdisjoint _ hfirst hsecond => hdisjoint hsecond hfirst⟩
    have hne : first ≠ second := by
      rintro rfl
      obtain ⟨-, -, gap, hgap, hlabel⟩ := hclash
      have hempty : first.label ++ gap = first.label ++ "" := by
        rw [← hlabel, String.append_empty]
      exact first.ne_empty_of_mem_gaps hgap ((String.append_right_inj first.label).1 hempty)
    obtain ⟨symbol, hmem, hmem'⟩ := hclash.exists_symbol
    exact hpairs.forall hfirst hsecond hne hmem hmem'
  · intro hclash
    refine List.nodup_append'.2 ⟨by decide, List.nodup_flatMap.2 ⟨fun node _ => node.symbols_nodup,
      ?_⟩, disjoint_tableSymbols h⟩
    refine hnodup.pairwise_of_forall_ne fun first hfirst second hsecond hne symbol hmem hmem' => ?_
    rcases clashes_of_mem_symbols h hfirst hsecond hne hmem hmem' with hclashes | hclashes
    · exact hclash first hfirst second hsecond hclashes
    · exact hclash second hsecond first hfirst hclashes

end Clashes

/-! ## The symbols of a text -/

/-- What follows the label of a node in the symbols of its names. -/
theorem Node.symbols_eq (node : Node) : node.symbols =
    [node.label, node.label ++ "Id"] ++
      ((node.poolNames.map fun name => node.label ++ (name.slot.ending ++ "Id")) ++
        node.poolNames.map fun name => node.label ++ name.slot.ending) := by
  unfold Node.symbols Node.endings
  cases hblank : node.isBlank with
  | true => simp [Node.poolNames_of_blank hblank]
  | false =>
    rw [Node.poolNames_eq hblank]
    cases node with
    | item info => simp [Node.kind, Node.altName?, NameSlot.ending]
    | altItem info altName => simp [Node.kind, Node.altName?, NameSlot.ending]
    | group info rows => simp [Node.kind, Node.altName?, NameSlot.ending]

theorem Table.definedSymbols_nodeStatements (table : Table) :
    definedSymbols table.nodeStatements = ["mNull", "mNullId"] ++
      table.records.flatMap fun record => [record.label, record.label ++ "Id"] :=
  table.filterMap_nodeStatements rfl

theorem Table.definedSymbols_pointerStatements (table : Table) :
    definedSymbols table.pointerStatements =
      "mNullNameId" :: table.names.map NameEntry.idSymbol := by
  rw [definedSymbols, table.filterMap_pointerStatements rfl, List.map_eq_flatMap]
  rfl

theorem Table.definedSymbols_poolStatements (table : Table) :
    definedSymbols table.poolStatements = table.names.map NameEntry.symbol := by
  rw [definedSymbols, table.filterMap_poolStatements rfl, List.map_eq_flatMap]
  rfl

theorem Table.definedSymbols_bodyLines (table : Table) :
    definedSymbols (table.bodyLines.map AsmLine.statement) =
      "mMenuTable" :: (definedSymbols table.nodeStatements ++
        "mMenuNameTable" :: (definedSymbols table.pointerStatements ++
          "mNullName" :: definedSymbols table.poolStatements)) := by
  simp [table.statements_bodyLines]

section LaidOut

variable {table : Table} {file : MenuFile}

theorem perm_tableSymbols (labels ids names : List String) :
    ("mMenuTable" :: (["mNull", "mNullId"] ++ labels ++
      "mMenuNameTable" :: ("mNullNameId" :: ids ++ "mNullName" :: names))).Perm
      (tableSymbols ++ (labels ++ (ids ++ names))) := by
  refine List.perm_iff_count.2 fun symbol => ?_
  simp only [tableSymbols, List.count_append, List.count_cons, List.count_nil]
  omega

/-- The text of a table defines the symbols of the table and those of all nodes, and no others. -/
theorem Table.LaidOut.definedSymbols_perm (h : table.LaidOut file) :
    (definedSymbols (table.bodyLines.map AsmLine.statement)).Perm
      (tableSymbols ++ file.root.flatten.flatMap Node.symbols) := by
  have hids := h.map_names (f := NameEntry.idSymbol)
    (g := fun label slot => label ++ (slot.ending ++ "Id")) fun entry => String.append_assoc
  have hnames := h.map_names (f := NameEntry.symbol)
    (g := fun label slot => label ++ slot.ending) fun entry => rfl
  have hlabels : (table.records.flatMap fun record => [record.label, record.label ++ "Id"]) =
      file.root.flatten.flatMap fun node => [node.label, node.label ++ "Id"] := by
    have hflatMap := congrArg (List.flatMap fun label => [label, label ++ "Id"]) h.labels_eq
    rwa [List.flatMap_map, List.flatMap_map] at hflatMap
  have hsymbols := List.flatMap_congr fun node (_ : node ∈ file.root.flatten) => node.symbols_eq
  rw [table.definedSymbols_bodyLines, table.definedSymbols_nodeStatements,
    table.definedSymbols_pointerStatements, table.definedSymbols_poolStatements, hids, hnames,
    hlabels, hsymbols]
  refine (perm_tableSymbols _ _ _).trans (List.Perm.append_left _ ?_)
  -- The labels, the ids of names and the names stand apart in the text, but together for a node.
  have hpool := List.flatMap_append_perm file.root.flatten
    (fun node => node.poolNames.map fun name => node.label ++ (name.slot.ending ++ "Id"))
    fun node => node.poolNames.map fun name => node.label ++ name.slot.ending
  exact (hpool.append_left _).trans (List.flatMap_append_perm file.root.flatten _ _)

end LaidOut

/-- The text of a compiled menu defines the symbols of the table and those of its nodes. It defines
none of them twice exactly if no label is another one with a gap after it. -/
theorem nodup_definedSymbols_iff {options : CompileOptions} {source : String}
    {compilation : Compilation} (h : compile options source = .ok compilation) :
    ∃ body, compilation.assembly.toList = renderLines (headerLines options.sourceName) ++ body ∧
      (definedSymbols (statements body)).Perm
        (tableSymbols ++ compilation.file.root.flatten.flatMap Node.symbols) ∧
      ((definedSymbols (statements body)).Nodup ↔
        ∀ first ∈ compilation.file.root.flatten, ∀ second ∈ compilation.file.root.flatten,
          ¬ first.Clashes second) := by
  obtain ⟨body, hbody, hstatements⟩ := statements_of_compile h
  have hlaid := laidOut_of_compile h
  have hperm := hlaid.definedSymbols_perm
  refine ⟨body, hbody, ?_, ?_⟩
  · rw [hstatements]
    exact hperm
  · rw [hstatements, hperm.nodup_iff]
    exact nodup_symbols_iff hlaid.finished

theorem nodup_definedSymbols_iff_nested :
    ∃ compilation, compile ⟨"menu", .strict, false⟩ nestedMenu = .ok compilation ∧
      ∃ body, compilation.assembly.toList = renderLines (headerLines "menu") ++ body ∧
        (definedSymbols (statements body)).Perm
          (tableSymbols ++ compilation.file.root.flatten.flatMap Node.symbols) ∧
        ((definedSymbols (statements body)).Nodup ↔
          ∀ first ∈ compilation.file.root.flatten, ∀ second ∈ compilation.file.root.flatten,
            ¬ first.Clashes second) := by
  obtain ⟨compilation, hcompile⟩ := exists_compile_nestedMenu
  obtain ⟨body, hbody, hsymbols⟩ := nodup_definedSymbols_iff hcompile
  dsimp only at hbody
  exact ⟨compilation, hcompile, body, hbody, hsymbols⟩

/-- A menu with two items, the label of one of which is the id symbol of the other. -/
def clashingMenu : String :=
  "MenuConfig [ ] MenuGroup Top mTop [ MenuRow [ MenuItem A mA MenuItem B mAId ] ]"

/-- The menu compiles, and its text defines a symbol twice. -/
theorem clashing_symbols :
    ∃ compilation, compile ⟨"menu", .strict, false⟩ clashingMenu = .ok compilation ∧
      ∃ body, compilation.assembly.toList = renderLines (headerLines "menu") ++ body ∧
        (definedSymbols (statements body)).count "mAId" = 2 := by
  have htwice : ((compile ⟨"menu", .strict, false⟩ clashingMenu).toOption.map fun compilation =>
      (definedSymbols (compilation.table.bodyLines.map AsmLine.statement)).count "mAId") =
        some 2 := by
    decide +kernel
  obtain ⟨compilation, hcompile, htwice⟩ := exists_ok_of_map htwice
  obtain ⟨body, hbody, hstatements⟩ := statements_of_compile hcompile
  dsimp only at hbody
  refine ⟨compilation, hcompile, body, hbody, ?_⟩
  rw [hstatements]
  exact htwice

end SoftMenu
