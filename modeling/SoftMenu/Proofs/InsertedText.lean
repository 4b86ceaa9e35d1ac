import SoftMenu.Proofs.Operands

/-!
# Texts that are inserted into the table

The text of a table is made of fixed parts and of texts that a menu definition gives: labels, the
settings for groups and blanks, and the tags of glyphs. Plain names are letters and digits, but
these texts may have any signs in them. `Table.readings` says what the lines of a table are meant to
say; `readings_eq_iff` says that they are read as such exactly if all inserted texts are inert, and
`glyph_read_as_comment` that this may fail.
-/

namespace SoftMenu

/-! ## What a table is meant to say -/

/-- What the lines of a record say. -/
def NodeRecord.readings (record : NodeRecord) : List Reading :=
  [.label record.label,
    .equate (record.label ++ "Id") record.id.toNat,
    .bytes [record.label ++ "Id"],
    .bytes [record.parentLabel ++ "Id"],
    .bytes [record.nameId],
    .bytes [toString record.numRows.toNat],
    .bytes [record.rowBegin.operand],
    .words [record.handler.symbol],
    .words [record.nameSelector.getD "0"]]

/-- What the lines of an entry say; a marker says nothing. -/
def Entry.readings : Entry → List Reading
  | .groupChildren _ => [.nothing]
  | .groupRow _ _ => [.nothing]
  | .node record => record.readings

/-- What the lines of a table say: the null record, the records, the pointers to the names, and the
names with a zero after each. -/
def Table.readings (table : Table) : List Reading :=
  [.label "mMenuTable", .label "mNull", .equate "mNullId" 0, .bytes ["mNullId"], .bytes ["mNullId"],
    .bytes ["mNullNameId"], .bytes ["0"], .bytes ["0"], .words ["mNullHandler"], .words ["0"]] ++
  table.entries.flatMap Entry.readings ++
  [.nothing, .nothing, .label "mMenuNameTable", .equate "mNullNameId" 0, .words ["mNullName"]] ++
  table.names.flatMap (fun entry =>
    [.equate entry.idSymbol entry.id.toNat, .words [entry.symbol]]) ++
  [.nothing, .nothing, .label "mNullName", .bytes ["0"]] ++
  table.names.flatMap fun entry => [.label entry.symbol, .bytes (entry.text.operands ++ ["0"])]

theorem Table.map_reading_bodyLines (table : Table) :
    table.bodyLines.map AsmLine.reading = table.readings := by
  have hentry : ∀ entry : Entry, entry.lines.map AsmLine.reading = entry.readings := by
    intro entry
    cases entry <;> rfl
  simp [Table.bodyLines, Table.nodeLines, Table.pointerLines, Table.poolLines, nullRecordLines,
    NameEntry.pointerLines, NameEntry.poolLines, Table.readings, AsmLine.reading, List.map_flatMap,
    hentry]

/-! ## Inert tables -/

/-- A record that is made of inert texts. -/
structure NodeRecord.Inert (quoting : Quoting) (record : NodeRecord) : Prop where
  label : quoting.Inert record.label
  parentLabel : quoting.Inert record.parentLabel
  nameId : quoting.Inert record.nameId
  rowBegin : quoting.Inert record.rowBegin.operand
  handler : quoting.Inert record.handler.symbol
  nameSelector : quoting.Inert (record.nameSelector.getD "0")

/-- A name that is made of inert texts. -/
structure NameEntry.Inert (quoting : Quoting) (entry : NameEntry) : Prop where
  label : quoting.Inert entry.label
  operands : ∀ operand ∈ entry.text.operands, quoting.Inert operand

/-- A table that is made of inert texts. -/
structure Table.Inert (quoting : Quoting) (table : Table) : Prop where
  records : ∀ record ∈ table.records, record.Inert quoting
  names : ∀ entry ∈ table.names, entry.Inert quoting

section Lines

variable {quoting : Quoting}

theorem inert_toString (number : Nat) : quoting.Inert (toString number) := by
  rw [Quoting.Inert, Nat.toString_eq_ofList_toDigits, String.toList_ofList]
  exact Quoting.inert_toDigits number

theorem inert_recordLines {record : NodeRecord} (h : record.Inert quoting) :
    ∀ line ∈ record.lines, line.Inert quoting := by
  have hbytes : ∀ {operand : String} (remark : Option String), quoting.Inert operand →
      (AsmLine.bytes [operand] remark).Inert quoting :=
    fun _ hoperand => ⟨by simp, List.forall_mem_singleton.2 hoperand⟩
  have hid := (Quoting.inert_append_iff record.label "Id" (by decide)).2 h.label
  have hparentId := (Quoting.inert_append_iff record.parentLabel "Id" (by decide)).2 h.parentLabel
  simp only [NodeRecord.lines, List.forall_mem_cons, List.not_mem_nil, IsEmpty.forall_iff,
    implies_true, and_true]
  exact ⟨h.label, hid, hbytes _ hid, hbytes _ hparentId, hbytes _ h.nameId,
    hbytes _ (inert_toString _), hbytes _ h.rowBegin, h.handler, h.nameSelector⟩

theorem NameEntry.Inert.symbol {entry : NameEntry} (h : entry.Inert quoting) :
    quoting.Inert entry.symbol := by
  refine (Quoting.inert_append_iff entry.label entry.slot.ending ?_).2 h.label
  cases entry.slot <;> decide

theorem inert_pointerLines {entry : NameEntry} (h : entry.Inert quoting) :
    ∀ line ∈ entry.pointerLines, line.Inert quoting := by
  simp only [NameEntry.pointerLines, List.forall_mem_cons, List.not_mem_nil, IsEmpty.forall_iff,
    implies_true, and_true]
  exact ⟨(Quoting.inert_append_iff entry.symbol "Id" (by decide)).2 h.symbol, h.symbol⟩

theorem inert_poolLines {entry : NameEntry} (h : entry.Inert quoting) :
    ∀ line ∈ entry.poolLines, line.Inert quoting := by
  have hzero : ∀ operand ∈ ["0"], quoting.Inert operand := by cases quoting <;> decide
  simp only [NameEntry.poolLines, List.forall_mem_cons, List.not_mem_nil, IsEmpty.forall_iff,
    implies_true, and_true]
  exact ⟨h.symbol, by simp, List.forall_mem_append.2 ⟨h.operands, hzero⟩⟩

theorem inert_entryLines {entry : Entry} (h : ∀ record ∈ entry.record?, record.Inert quoting) :
    ∀ line ∈ entry.lines, line.Inert quoting := by
  cases entry with
  | groupChildren group => exact List.forall_mem_singleton.2 trivial
  | groupRow group row => exact List.forall_mem_singleton.2 trivial
  | node record => exact inert_recordLines (h record rfl)

/-- All lines of a table that is made of inert texts are so. -/
theorem inert_bodyLines {table : Table} (h : table.Inert quoting) :
    ∀ line ∈ table.bodyLines, line.Inert quoting := by
  have hentries : ∀ line ∈ table.entries.flatMap Entry.lines, line.Inert quoting := by
    refine List.forall_mem_flatMap.2 fun entry hentry => inert_entryLines fun record hrecord => ?_
    exact h.records record (List.mem_filterMap.2 ⟨entry, hentry, hrecord⟩)
  have hpointers : ∀ line ∈ table.names.flatMap NameEntry.pointerLines, line.Inert quoting :=
    List.forall_mem_flatMap.2 fun entry hentry => inert_pointerLines (h.names entry hentry)
  have hpool : ∀ line ∈ table.names.flatMap NameEntry.poolLines, line.Inert quoting :=
    List.forall_mem_flatMap.2 fun entry hentry => inert_poolLines (h.names entry hentry)
  rw [Table.bodyLines, Table.nodeLines, Table.pointerLines, Table.poolLines]
  simp only [List.forall_mem_append]
  refine ⟨⟨⟨⟨⟨?_, hentries⟩, ?_⟩, ?_, hpointers⟩, ?_⟩, ?_, hpool⟩
  all_goals cases quoting <;> decide

/-- Bytes with a remark are read back only if they are inert. -/
theorem inert_of_bytes {operand remark : String} (hblank : Unbroken operand.toList)
    (h : Reading.ofLine quoting (AsmLine.bytes [operand] (some remark)).chars = .bytes [operand]) :
    quoting.Inert operand := by
  rw [AsmLine.chars_bytes_eq, Reading.ofLine_bytes] at h
  exact (Quoting.operands_remark_iff hblank.space_notMem remark).1 (Reading.bytes.inj h)

theorem inert_of_word {operand remark : String} (hblank : Unbroken operand.toList)
    (h : Reading.ofLine quoting (AsmLine.word operand (some remark)).chars = .words [operand]) :
    quoting.Inert operand := by
  rw [AsmLine.chars_word_eq, Reading.ofLine_words] at h
  exact (Quoting.operands_remark_iff hblank.space_notMem remark).1 (Reading.words.inj h)

theorem inert_of_recordLines {record : NodeRecord} (hrecord : record.Printable)
    (h : ∀ line ∈ record.lines, Reading.ofLine quoting line.chars = line.reading) :
    record.Inert quoting := by
  have hid : Unbroken (record.label ++ "Id").toList :=
    unbroken_append_string hrecord.label.unbroken (by decide)
  have hparentId : Unbroken (record.parentLabel ++ "Id").toList :=
    unbroken_append_string hrecord.parentLabel (by decide)
  simp only [NodeRecord.lines, List.forall_mem_cons, List.not_mem_nil, IsEmpty.forall_iff,
    implies_true, and_true] at h
  obtain ⟨-, -, hlabel, hparentLabel, hnameId, -, hrowBegin, hhandler, hselector⟩ := h
  exact ⟨(Quoting.inert_append_iff _ "Id" (by decide)).1 (inert_of_bytes hid hlabel),
    (Quoting.inert_append_iff _ "Id" (by decide)).1 (inert_of_bytes hparentId hparentLabel),
    inert_of_bytes hrecord.nameId hnameId, inert_of_bytes hrecord.rowBegin hrowBegin,
    inert_of_word hrecord.handler hhandler, inert_of_word hrecord.nameSelector hselector⟩

theorem inert_of_poolLines {entry : NameEntry} (hentry : entry.Printable)
    (h : ∀ line ∈ entry.poolLines, Reading.ofLine quoting line.chars = line.reading) :
    ∀ operand ∈ entry.text.operands, quoting.Inert operand := by
  have hline := h (.bytes (entry.text.operands ++ ["0"]) none) (by simp [NameEntry.poolLines])
  rw [AsmLine.chars_bytes_eq, Reading.ofLine_bytes, AsmLine.remarkChars, List.append_nil] at hline
  refine (Quoting.operands_terminated_iff fun operand hoperand => ?_).1 (Reading.bytes.inj hline)
  exact (hentry.operands operand hoperand).space_notMem

end Lines

/-! ## Inserted texts -/

/-- The texts that the record and the names of a node are made of. A blank is given by the settings
alone; of the names, only those with glyphs count. -/
def Node.insertedTexts (config : Config) (node : Node) : List String :=
  if node.isBlank then [config.blankNameId, config.blankHandler]
  else node.label :: (if node.kind = .group then [config.handlerOfGroups] else []) ++
    node.poolNames.flatMap fun pooled => pooled.name.exploded.getD []

/-- The texts that the table of a menu is made of. -/
def MenuFile.insertedTexts (file : MenuFile) : List String :=
  file.root.flatten.flatMap (Node.insertedTexts file.config)

section Names

variable {quoting : Quoting}

theorem inert_blankLabel (id : UInt8) : quoting.Inert (blankLabel id) := by
  have hdigit : ∀ digit < 10, (Nat.digitChar digit).isAlphanum = true := by decide
  have hid := id.toNat_lt
  rw [Quoting.Inert, toList_blankLabel]
  refine Quoting.inert_letters (List.forall_mem_append.2 ⟨List.all_eq_true.1 (by decide), ?_⟩)
  simp only [List.forall_mem_cons]
  exact ⟨hdigit _ (by omega), hdigit _ (by omega), hdigit _ (by omega), List.forall_mem_nil _⟩

/-- A literal of letters and digits closes the quote that it opens. -/
theorem inert_literal {text : String} (h : ∀ c ∈ text.toList, c.isAlphanum = true) :
    quoting.Inert ("\"" ++ text ++ "\"") := by
  have hopen : quoting.isMark '"' = true := by cases quoting <;> decide
  have hvalid : quoting.Valid (some '"') := by
    intro c hc
    obtain rfl := Option.some.inj hc
    exact hopen
  have hchars : ("\"" ++ text ++ "\"").toList = '"' :: (text.toList ++ ['"']) := by simp
  rw [Quoting.Inert, hchars, Quoting.inert_cons, Quoting.after, if_pos hopen,
    Quoting.inert_letters_append hvalid h]
  exact ⟨by decide, by simp [Quoting.inert, Quoting.after]⟩

/-- Of the operands of a name, only those of its glyphs need not be inert. -/
theorem inert_operands_settled_iff {name : DisplayName} (hfresh : name.exploded = none)
    (h : Spellable name.text) :
    (∀ operand ∈ (NameText.ofName name.settled).operands, quoting.Inert operand) ↔
      ∀ text ∈ name.settled.exploded.getD [], quoting.Inert text := by
  rw [DisplayName.settled, NameText.ofName]
  split_ifs with hspecial
  · obtain ⟨operands, hoperands⟩ := explode_eq_ok_iff.2 h
    rw [hoperands]
    cases operands with
    | nil =>
      refine iff_of_true (List.forall_mem_singleton.2 ?_) (List.forall_mem_nil _)
      cases quoting <;> decide
    | cons operand operands => exact Iff.rfl
  · rw [hfresh]
    refine iff_of_true (List.forall_mem_singleton.2 (inert_literal ?_)) (List.forall_mem_nil _)
    exact letters_of_spellable h (by simpa using hspecial)

end Names

/-! ## Menus -/

/-- The names of a menu are settled, and they could be written. -/
def MenuFile.Spelled (file : MenuFile) : Prop :=
  ∀ node ∈ file.root.flatten, ∀ pooled ∈ node.poolNames,
    ∃ name : DisplayName, name.exploded = none ∧ Spellable name.text ∧ pooled.name = name.settled

theorem spelled_of_passes {source : String} {parsed : Parsed} {policy : DuplicatePolicy}
    (hparse : parse source = .ok parsed) (h : Passes policy parsed.file) :
    (finishedMenu policy parsed.file).Spelled := by
  intro node hnode pooled hpooled
  have hblank := (node_of_mem_poolNames hpooled).2
  obtain ⟨declared, hdeclared, hdeclaredBlank, -, -, hname, haltName⟩ :=
    exists_declared h hnode hblank
  have hfresh := fresh_of_parse hparse declared hdeclared
  have hspelled := (passes_iff_acceptable.1 h).spelled declared hdeclared
  have hne : declared.name ≠ blankMark := Node.isBlank_eq_false_iff.1 hdeclaredBlank
  rw [Node.poolNames_eq hblank] at hpooled
  rcases List.mem_cons.1 hpooled with rfl | hpooled
  · exact ⟨declared.info.name, hfresh.name_eq, hspelled.name hne, hname⟩
  · rw [Option.mem_toList, haltName, Option.map_map, Option.map_eq_some_iff] at hpooled
    obtain ⟨altName, hdeclaredAlt, rfl⟩ := hpooled
    have hspellable : Spellable altName.text := by
      refine hspelled.altName hne altName.text ?_
      rw [Node.wording, hdeclaredAlt]
      rfl
    exact ⟨altName, hfresh.altName_eq altName hdeclaredAlt, hspellable, rfl⟩

theorem Node.insertedTexts_of_blank {node : Node} (h : node.isBlank = true) (config : Config) :
    node.insertedTexts config = [config.blankNameId, config.blankHandler] :=
  if_pos h

theorem Node.insertedTexts_eq {node : Node} (h : node.isBlank = false) (config : Config) :
    node.insertedTexts config =
      node.label :: (if node.kind = .group then [config.handlerOfGroups] else []) ++
        node.poolNames.flatMap fun pooled => pooled.name.exploded.getD [] :=
  if_neg (by simp [h])

section Menus

variable {quoting : Quoting} {file : MenuFile} {table : Table} {node : Node}

theorem inert_label (hfinished : file.Finished)
    (h : ∀ text ∈ file.insertedTexts, quoting.Inert text) (hnode : node ∈ file.root.flatten) :
    quoting.Inert node.label := by
  cases hblank : node.isBlank with
  | true =>
    rw [(hfinished.blank node hnode hblank).2]
    exact inert_blankLabel node.id
  | false =>
    refine List.forall_mem_flatMap.1 h node hnode node.label ?_
    rw [Node.insertedTexts_eq hblank]
    exact List.mem_cons_self

/-- The record of a node is made from the inserted texts of the menu. -/
theorem inert_ofNode (hfinished : file.Finished)
    (h : ∀ text ∈ file.insertedTexts, quoting.Inert text) {parent : Option Node}
    (hnode : node ∈ file.root.flatten) (hparent : ∀ group ∈ parent, group ∈ file.root.flatten) :
    (NodeRecord.ofNode file.config node parent).Inert quoting := by
  have hlabel := inert_label hfinished h hnode
  have htexts := List.forall_mem_flatMap.1 h node hnode
  have hzero : quoting.Inert "0" := by cases quoting <;> decide
  have hparentLabel : quoting.Inert ((parent.map Node.label).getD nullLabel) := by
    cases parent with
    | none => cases quoting <;> decide
    | some group => exact inert_label hfinished h (hparent group rfl)
  have hown : ∀ ending : String, ending.toList.all Char.isAlphanum = true →
      quoting.Inert (node.label ++ ending) :=
    fun ending hending => (Quoting.inert_append_iff _ ending hending).2 hlabel
  cases node with
  | item info =>
    rw [NodeRecord.ofNode]
    split_ifs with hblank
    · rw [Node.insertedTexts_of_blank hblank] at htexts
      obtain ⟨hnameId, hhandler⟩ := List.forall_mem_cons.1 htexts
      exact ⟨hlabel, hparentLabel, hnameId, hzero, List.forall_mem_singleton.1 hhandler, hzero⟩
    · exact ⟨hlabel, hparentLabel, hown "NameId" (by decide), hzero, hown "Handler" (by decide),
        hzero⟩
  | altItem info altName =>
    exact ⟨hlabel, hparentLabel, hown "NameId" (by decide), hown "AltNameId" (by decide),
      hown "Handler" (by decide), hown "NameSelector" (by decide)⟩
  | group info rows =>
    have hblank : (Node.group info rows).isBlank = false := by
      by_contra hblank
      rw [Bool.not_eq_false] at hblank
      cases (hfinished.blank _ hnode hblank).1
    have hhandler : quoting.Inert file.config.handlerOfGroups := by
      refine htexts _ ?_
      rw [Node.insertedTexts_eq hblank]
      exact List.mem_append_left _ (List.mem_cons_of_mem _ List.mem_cons_self)
    refine ⟨hlabel, hparentLabel, hown "NameId" (by decide), ?_, hhandler, hzero⟩
    obtain ⟨slot, hslot, hoperand⟩ := hfinished.exists_operand_ofGroup hnode rfl
    show quoting.Inert (RowBegin.ofGroup (.group info rows)).operand
    rw [hoperand]
    exact (Quoting.inert_append_iff _ "Id" (by decide)).2 (inert_label hfinished h hslot)

namespace Table.LaidOut

/-- The records have all inserted texts but those of the glyphs. -/
theorem inert_insertedTexts (hlaid : table.LaidOut file)
    (h : ∀ record ∈ table.records, record.Inert quoting) (hnode : node ∈ file.root.flatten)
    (hglyphs : ∀ pooled ∈ node.poolNames, ∀ text ∈ pooled.name.exploded.getD [],
      quoting.Inert text) :
    ∀ text ∈ node.insertedTexts file.config, quoting.Inert text := by
  obtain ⟨parent, hvisit⟩ : ∃ parent, (node, parent) ∈ file.root.visits := by
    rw [← Node.map_fst_visits, List.mem_map] at hnode
    obtain ⟨⟨_, parent⟩, hvisit, rfl⟩ := hnode
    exact ⟨parent, hvisit⟩
  have hrecord := h _ (hlaid.mem_records_of_visit hvisit)
  cases hblank : node.isBlank with
  | true =>
    have hkind := (hlaid.finished.blank node hnode hblank).1
    cases node with
    | altItem info altName => cases hkind
    | group info rows => cases hkind
    | item info =>
      rw [NodeRecord.ofNode, if_pos hblank] at hrecord
      rw [Node.insertedTexts_of_blank hblank]
      exact List.forall_mem_cons.2 ⟨hrecord.nameId, List.forall_mem_singleton.2 hrecord.handler⟩
  | false =>
    rw [Node.insertedTexts_eq hblank, List.cons_append, List.forall_mem_cons,
      List.forall_mem_append]
    refine ⟨?_, ?_, List.forall_mem_flatMap.2 hglyphs⟩
    · rw [← (hlaid.describes_of_visit hvisit).label_eq]
      exact hrecord.label
    · split_ifs with hkind
      · cases node with
        | item info => cases hkind
        | altItem info altName => cases hkind
        | group info rows => exact List.forall_mem_singleton.2 hrecord.handler
      · exact List.forall_mem_nil _

theorem texts_names (hlaid : table.LaidOut file) : table.names.map NameEntry.text =
    (file.root.flatten.flatMap Node.poolNames).map fun pooled => .ofName pooled.name := by
  rw [hlaid.names_eq]
  exact map_numberedNames (fun _ _ => rfl) 1 _

/-- The names that are stored are inert exactly if the glyphs of the names are. -/
theorem inert_operands_iff (hlaid : table.LaidOut file) (hspelled : file.Spelled) :
    (∀ entry ∈ table.names, ∀ operand ∈ entry.text.operands, quoting.Inert operand) ↔
      ∀ node ∈ file.root.flatten, ∀ pooled ∈ node.poolNames,
        ∀ text ∈ pooled.name.exploded.getD [], quoting.Inert text := by
  calc
    _ ↔ ∀ text ∈ table.names.map NameEntry.text, ∀ operand ∈ text.operands,
        quoting.Inert operand := List.forall_mem_map.symm
    _ ↔ ∀ node ∈ file.root.flatten, ∀ pooled ∈ node.poolNames,
        ∀ operand ∈ (NameText.ofName pooled.name).operands, quoting.Inert operand := by
      rw [hlaid.texts_names, List.forall_mem_map, List.forall_mem_flatMap]
    _ ↔ _ := by
      refine forall₄_congr fun node hnode pooled hpooled => ?_
      obtain ⟨name, hfresh, hspellable, hname⟩ := hspelled node hnode pooled hpooled
      rw [hname]
      exact inert_operands_settled_iff hfresh hspellable

/-- A table is made of inert texts exactly if the inserted texts of the menu are inert. -/
theorem inert_iff (hlaid : table.LaidOut file) (hspelled : file.Spelled) :
    table.Inert quoting ↔ ∀ text ∈ file.insertedTexts, quoting.Inert text := by
  constructor
  · intro h
    have hglyphs := (hlaid.inert_operands_iff hspelled).1 fun entry hentry =>
      (h.names entry hentry).operands
    exact List.forall_mem_flatMap.2 fun node hnode =>
      hlaid.inert_insertedTexts h.records hnode (hglyphs node hnode)
  · intro h
    refine ⟨?_, fun entry hentry => ⟨?_, ?_⟩⟩
    · rw [hlaid.records_eq, List.forall_mem_map]
      rintro ⟨node, parent⟩ hvisit
      exact inert_ofNode hlaid.finished h (Node.mem_flatten_of_visit hvisit)
        fun group hgroup => (Node.parent_of_visit hvisit group hgroup).1
    · obtain ⟨node, hnode, -, hlabel⟩ := hlaid.exists_node_of_name hentry
      rw [hlabel]
      exact inert_label hlaid.finished h hnode
    · refine (hlaid.inert_operands_iff hspelled).2 (fun node hnode pooled hpooled text htext => ?_)
        entry hentry
      refine h text (List.mem_flatMap.2 ⟨node, hnode, ?_⟩)
      rw [Node.insertedTexts_eq (node_of_mem_poolNames hpooled).2]
      exact List.mem_append_right _ (List.mem_flatMap.2 ⟨pooled, hpooled, htext⟩)

/-- A table whose lines are read as they are meant is made of inert texts. -/
theorem inert_of_reading (hlaid : table.LaidOut file) (hprintable : table.Printable)
    (h : ∀ line ∈ table.bodyLines, Reading.ofLine quoting line.chars = line.reading) :
    table.Inert quoting := by
  have hrecords : ∀ record ∈ table.records, record.Inert quoting := by
    intro record hrecord
    obtain ⟨entry, hentry, hsome⟩ := List.mem_filterMap.1 hrecord
    cases entry with
    | groupChildren group => cases hsome
    | groupRow group row => cases hsome
    | node other =>
      obtain rfl := Option.some.inj hsome
      refine inert_of_recordLines (hprintable.entries _ hentry) fun line hline => h line ?_
      have hlines : line ∈ table.entries.flatMap Entry.lines :=
        List.mem_flatMap.2 ⟨_, hentry, hline⟩
      simp [Table.bodyLines, Table.nodeLines, hlines]
  refine ⟨hrecords, fun entry hentry => ⟨?_, ?_⟩⟩
  · obtain ⟨node, hnode, -, hlabel⟩ := hlaid.exists_node_of_name hentry
    obtain ⟨record, hrecord, hrecordLabel, -⟩ := hlaid.exists_record hnode
    rw [hlabel, ← hrecordLabel]
    exact (hrecords record hrecord).label
  · refine inert_of_poolLines (hprintable.names entry hentry) fun line hline => h line ?_
    have hlines : line ∈ table.names.flatMap NameEntry.poolLines :=
      List.mem_flatMap.2 ⟨entry, hentry, hline⟩
    simp [Table.bodyLines, Table.poolLines, hlines]

end Table.LaidOut

end Menus

/-! ## Compiled menus -/

/-- The lines after the header are read as what the table is meant to say exactly if all inserted
texts are inert. -/
theorem readings_eq_iff {options : CompileOptions} {source : String} {compilation : Compilation}
    (quoting : Quoting) (h : compile options source = .ok compilation) :
    ∃ body, compilation.assembly.toList = renderLines (headerLines options.sourceName) ++ body ∧
      ((cutLines body).map (Reading.ofLine quoting) = compilation.table.readings ↔
        ∀ text ∈ compilation.file.insertedTexts, quoting.Inert text) := by
  have hlaid := laidOut_of_compile h
  have hprintable := printable_of_compile h
  have hlines := printable_bodyLines hprintable
  obtain ⟨parsed, hparse, hpasses, hfile, -⟩ := passes_of_compile h
  have hspelled : compilation.file.Spelled := by
    rw [hfile]
    exact spelled_of_passes hparse hpasses
  refine ⟨_, assembly_of_compile h, ?_⟩
  rw [cutLines_renderLines hlines, List.map_map, ← Table.map_reading_bodyLines, List.map_inj_left,
    ← hlaid.inert_iff hspelled]
  exact ⟨fun hread => hlaid.inert_of_reading hprintable hread,
    fun hinert line hline => ofLine_chars_of_inert (hlines line hline)
      (inert_bodyLines hinert line hline)⟩

theorem readings_eq_iff_nested :
    ∃ compilation, compile ⟨"menu", .strict, false⟩ nestedMenu = .ok compilation ∧
      ∃ body, compilation.assembly.toList = renderLines (headerLines "menu") ++ body ∧
        (∀ text ∈ compilation.file.insertedTexts, Quoting.double.Inert text) ∧
        (cutLines body).map (Reading.ofLine .double) = compilation.table.readings := by
  have hinert : ((compile ⟨"menu", .strict, false⟩ nestedMenu).toOption.map fun compilation =>
      decide (∀ text ∈ compilation.file.insertedTexts, Quoting.double.Inert text)) = some true := by
    decide +kernel
  obtain ⟨compilation, hcompile, hinert⟩ := exists_ok_of_map hinert
  obtain ⟨body, hbody, hreadings⟩ := readings_eq_iff .double hcompile
  dsimp only at hbody
  have htexts := of_decide_eq_true hinert
  exact ⟨compilation, hcompile, body, hbody, htexts, hreadings.2 htexts⟩

/-- A menu with a glyph that has a semicolon in its tag. -/
def remarkMenu : String :=
  "MenuConfig [ ] MenuGroup Top mTop [ MenuRow [ MenuItem <a;b> mA ] ]"

/-- The menu compiles, and the end of the glyph and the zero after it are read as a comment. -/
theorem glyph_read_as_comment :
    ∃ compilation, compile ⟨"menu", .strict, false⟩ remarkMenu = .ok compilation ∧
      .bytes ["a;b", "0"] ∈ compilation.table.readings ∧
      ∃ body, compilation.assembly.toList = renderLines (headerLines "menu") ++ body ∧
        ∀ quoting, .bytes ["a"] ∈ (cutLines body).map (Reading.ofLine quoting) ∧
          .bytes ["a;b", "0"] ∉ (cutLines body).map (Reading.ofLine quoting) := by
  have hlines : ((compile ⟨"menu", .strict, false⟩ remarkMenu).toOption.map fun compilation =>
      decide (.bytes ["a;b", "0"] ∈ compilation.table.readings ∧
        ∀ quoting ∈ [Quoting.double, .both],
          .bytes ["a"] ∈ compilation.table.bodyLines.map (Reading.ofLine quoting ∘ AsmLine.chars) ∧
            .bytes ["a;b", "0"] ∉
              compilation.table.bodyLines.map (Reading.ofLine quoting ∘ AsmLine.chars))) =
        some true := by
    decide +kernel
  obtain ⟨compilation, hcompile, hlines⟩ := exists_ok_of_map hlines
  obtain ⟨hmeant, hread⟩ := of_decide_eq_true hlines
  have hbody := assembly_of_compile hcompile
  dsimp only at hbody
  refine ⟨compilation, hcompile, hmeant, _, hbody, fun quoting => ?_⟩
  rw [cutLines_renderLines (printable_bodyLines (printable_of_compile hcompile)), List.map_map]
  exact hread quoting (by cases quoting <;> simp)

end SoftMenu
