import SoftMenu.Proofs.Statements

/-!
# Reading a table off its text

Not all of a table is printed. The id of a group and the id of a first slot are not, nor is it said
what the fifth byte of a record refers to, or which of its names a string is for a node.
Nevertheless `table_of_assembly` says that the text determines the table. The lines of the text can
be told apart by how they begin, and each line can be cut at its first blank. What is printed of a
record is then enough to know its kind; what is not printed is found in the record that the printed
label belongs to.
-/

namespace SoftMenu

/-! ## Cutting texts -/

/-- Texts are cut in the same way at the first place where they hold a mark. -/
theorem append_mark_inj {α : Type} [DecidableEq α] {mark : α} {first second rest rest' : List α}
    (hfirst : mark ∉ first) (hsecond : mark ∉ second)
    (h : first ++ mark :: rest = second ++ mark :: rest') : first = second ∧ rest = rest' := by
  have htake := congrArg (List.takeWhile (· ≠ mark)) h
  have hdrop := congrArg (List.dropWhile (· ≠ mark)) h
  rw [takeWhile_ne_append hfirst, takeWhile_ne_append hsecond] at htake
  rw [dropWhile_ne_append hfirst, dropWhile_ne_append hsecond] at hdrop
  exact ⟨htake, (List.cons.inj hdrop).2⟩

/-- Blocks whose number of members can be told from their first member are found again in a list
that is put together from them. -/
theorem forall₂_of_flatMap_eq {α β : Type} {f : α → List β} {P : α → Prop}
    (hne : ∀ a, f a ≠ [])
    (hlength : ∀ a b, P a → P b → (f a).head? = (f b).head? → (f a).length = (f b).length)
    {first second : List α} (hfirst : ∀ a ∈ first, P a) (hsecond : ∀ a ∈ second, P a)
    (h : first.flatMap f = second.flatMap f) :
    List.Forall₂ (fun a b => f a = f b) first second := by
  have hhead : ∀ (a : α) (rest : List β), (f a ++ rest).head? = (f a).head? := by
    intro a rest
    cases hblock : f a with
    | nil => exact absurd hblock (hne a)
    | cons b block => rfl
  induction first generalizing second with
  | nil =>
    cases second with
    | nil => exact List.Forall₂.nil
    | cons b second => exact absurd (List.append_eq_nil_iff.1 h.symm).1 (hne b)
  | cons a first ih =>
    cases second with
    | nil => exact absurd (List.append_eq_nil_iff.1 h).1 (hne a)
    | cons b second =>
      rw [List.forall_mem_cons] at hfirst hsecond
      rw [List.flatMap_cons, List.flatMap_cons] at h
      have hsame := congrArg List.head? h
      rw [hhead, hhead] at hsame
      obtain ⟨hblock, hrest⟩ := List.append_inj h (hlength a b hfirst.1 hsecond.1 hsame)
      exact List.Forall₂.cons hblock (ih hfirst.2 hsecond.2 hrest)

/-! ## Cutting lines -/

theorem bytes_inj {operand operand' : String} {remark : String} (h : Unbroken operand.toList)
    (h' : Unbroken operand'.toList)
    (heq : (AsmLine.bytes [operand] (some remark)).chars =
      (AsmLine.bytes [operand'] (some remark)).chars) : operand = operand' := by
  rw [AsmLine.chars_bytes_eq, AsmLine.chars_bytes_eq] at heq
  have hcut := append_mark_inj h.space_notMem h'.space_notMem (List.append_cancel_left heq)
  exact String.toList_inj.1 hcut.1

theorem word_inj {operand operand' remark remark' : String} (h : Unbroken operand.toList)
    (h' : Unbroken operand'.toList)
    (heq : (AsmLine.word operand (some remark)).chars =
      (AsmLine.word operand' (some remark')).chars) : operand = operand' ∧ remark = remark' := by
  rw [AsmLine.chars_word_eq, AsmLine.chars_word_eq] at heq
  obtain ⟨hoperand, hremark⟩ :=
    append_mark_inj h.space_notMem h'.space_notMem (List.append_cancel_left heq)
  exact ⟨String.toList_inj.1 hoperand,
    String.toList_inj.1 (List.cons.inj (List.cons.inj hremark).2).2⟩

theorem label_inj {symbol symbol' : String}
    (h : (AsmLine.label symbol).chars = (AsmLine.label symbol').chars) : symbol = symbol' := by
  rw [AsmLine.chars_label, AsmLine.chars_label] at h
  exact String.toList_inj.1 (List.append_cancel_right h)

theorem toDigits_inj {number number' : Nat} (h : Nat.toDigits 10 number = Nat.toDigits 10 number') :
    number = number' := by
  have hread := congrArg (fun digits => Nat.ofDigitChars 10 digits 0) h
  simpa only [Nat.ofDigitChars_ten_toDigits] using hread

theorem equate_inj {symbol : String} {value value' : Nat}
    (h : (AsmLine.equate symbol value).chars = (AsmLine.equate symbol value').chars) :
    value = value' := by
  rw [AsmLine.chars_equate_eq, AsmLine.chars_equate_eq] at h
  exact toDigits_inj (List.append_cancel_left (List.append_cancel_left h))

theorem toString_inj {number number' : Nat} (h : toString number = toString number') :
    number = number' := by
  have hchars := congrArg String.toList h
  rw [Nat.toString_eq_ofList_toDigits, Nat.toString_eq_ofList_toDigits, String.toList_ofList,
    String.toList_ofList] at hchars
  exact toDigits_inj hchars

/-! ## Entries -/

/-- Records that are printed in the same way. -/
structure NodeRecord.Alike (record other : NodeRecord) : Prop where
  label : record.label = other.label
  id : record.id = other.id
  parentLabel : record.parentLabel = other.parentLabel
  nameId : record.nameId = other.nameId
  numRows : record.numRows = other.numRows
  rowBegin : record.rowBegin.operand = other.rowBegin.operand
  handler : record.handler = other.handler
  nameSelector : record.nameSelector.getD "0" = other.nameSelector.getD "0"

/-- Entries that are printed in the same way. -/
inductive Entry.Alike : Entry → Entry → Prop where
  /-- Equal markers for groups. -/
  | groupChildren (group : String) : Alike (.groupChildren group) (.groupChildren group)
  /-- Equal markers for rows. -/
  | groupRow (group : String) (row : Nat) : Alike (.groupRow group row) (.groupRow group row)
  /-- Records that are printed in the same way. -/
  | node {record other : NodeRecord} (h : record.Alike other) : Alike (.node record) (.node other)

/-- The lines that an entry is printed as. -/
def Entry.printed (entry : Entry) : List (List Char) := entry.lines.map AsmLine.chars

theorem handler_inj {handler other : Handler} (hsymbol : handler.symbol = other.symbol)
    (hremark : handler.remark = other.remark) : handler = other := by
  obtain ⟨symbol, predefined⟩ := handler
  obtain ⟨symbol', predefined'⟩ := other
  cases hsymbol
  cases predefined <;> cases predefined'
  · rfl
  · exact absurd hremark (by simp [Handler.remark])
  · exact absurd hremark (by simp [Handler.remark])
  · rfl

theorem NodeRecord.alike_of_lines {record other : NodeRecord} (h : record.Printable)
    (h' : other.Printable)
    (heq : record.lines.map AsmLine.chars = other.lines.map AsmLine.chars) :
    record.Alike other := by
  simp only [NodeRecord.lines, List.map_cons, List.map_nil, List.cons.injEq, and_true] at heq
  obtain ⟨hlabel, hid, -, hparent, hnameId, hnumRows, hrowBegin, hhandler, hselector⟩ := heq
  have hlabel := label_inj hlabel
  rw [hlabel] at hid
  have hparent := bytes_inj (unbroken_append_string h.parentLabel (by decide))
    (unbroken_append_string h'.parentLabel (by decide)) hparent
  have hnumRows := toString_inj (bytes_inj (unbroken_toString _) (unbroken_toString _) hnumRows)
  obtain ⟨hsymbol, hremark⟩ := word_inj h.handler h'.handler hhandler
  exact ⟨hlabel, UInt8.toNat_inj.1 (equate_inj hid), (String.append_left_inj _).1 hparent,
    bytes_inj h.nameId h'.nameId hnameId, UInt8.toNat_inj.1 hnumRows,
    bytes_inj h.rowBegin h'.rowBegin hrowBegin, handler_inj hsymbol hremark,
    (word_inj h.nameSelector h'.nameSelector hselector).1⟩

/-- A marker tells its group and what follows the part that all markers have. -/
theorem marker_inj {group other rest rest' : String} (h : Unbroken group.toList)
    (h' : Unbroken other.toList)
    (heq : [';' :: (" MenuGroup " ++ group ++ ": children" ++ rest).toList] =
      [';' :: (" MenuGroup " ++ other ++ ": children" ++ rest').toList]) :
    group = other ∧ rest = rest' := by
  have hmark : ": children".toList = ':' :: ' ' :: "children".toList := by decide
  have hchars := (List.cons.inj (List.cons.inj heq).1).2
  simp only [String.toList_append, List.append_assoc, hmark, List.cons_append] at hchars
  have hgroup : ∀ {text : String} (rest : List Char), Unbroken text.toList →
      ' ' ∉ text.toList ++ [':'] ∧
        text.toList ++ ':' :: ' ' :: rest = (text.toList ++ [':']) ++ ' ' :: rest := by
    intro text rest htext
    exact ⟨by simp [htext.space_notMem], by simp⟩
  have hchars := List.append_cancel_left hchars
  rw [(hgroup _ h).2, (hgroup _ h').2] at hchars
  obtain ⟨hsame, hrest⟩ := append_mark_inj (hgroup [] h).1 (hgroup [] h').1 hchars
  exact ⟨String.toList_inj.1 (List.append_cancel_right hsame),
    String.toList_inj.1 (List.append_cancel_left hrest)⟩

theorem Entry.printed_groupChildren (group : String) : (Entry.groupChildren group).printed =
    [';' :: (" MenuGroup " ++ group ++ ": children" ++ "").toList] := by
  rw [String.append_empty]
  rfl

theorem Entry.printed_groupRow (group : String) (row : Nat) : (Entry.groupRow group row).printed =
    [';' :: (" MenuGroup " ++ group ++ ": children" ++ (": row " ++ toString row)).toList] := by
  have hmark : ": children: row " = ": children" ++ ": row " := by decide
  rw [Entry.printed, Entry.lines_groupRow, hmark]
  simp only [← String.append_assoc]
  rfl

/-- The first line of an entry tells how many lines it has. -/
theorem Entry.head_printed {entry : Entry} (h : entry.Printable) :
    ∃ c cs, entry.printed.head? = some (c :: cs) ∧
      entry.printed.length = if c = ';' then 1 else 9 := by
  cases entry with
  | groupChildren group => exact ⟨';', _, rfl, rfl⟩
  | groupRow group row => exact ⟨';', _, rfl, rfl⟩
  | node record =>
    obtain ⟨c, cs, hchars, hletter⟩ := exists_cons_of_beginsWithLetter h.label.letter
    have hne : c ≠ ';' := by
      rintro rfl
      exact absurd hletter (by decide +kernel)
    refine ⟨c, cs ++ [':'], ?_, by rw [if_neg hne]; rfl⟩
    have hhead : (Entry.node record).printed.head? = some (record.label.toList ++ [':']) := rfl
    rw [hhead, hchars, List.cons_append]

theorem Entry.length_printed {entry other : Entry} (h : entry.Printable) (h' : other.Printable)
    (heq : entry.printed.head? = other.printed.head?) :
    entry.printed.length = other.printed.length := by
  obtain ⟨c, cs, hhead, hlength⟩ := Entry.head_printed h
  obtain ⟨c', cs', hhead', hlength'⟩ := Entry.head_printed h'
  rw [hhead, hhead', Option.some.injEq, List.cons.injEq] at heq
  rw [hlength, hlength', heq.1]

theorem Entry.printed_ne_nil (entry : Entry) : entry.printed ≠ [] := by
  cases entry <;> nofun

theorem Entry.alike_of_printed {entry other : Entry} (h : entry.Printable) (h' : other.Printable)
    (heq : entry.printed = other.printed) : entry.Alike other := by
  -- A marker has one line, a record has nine.
  have hlength := congrArg List.length heq
  have hrow : ∀ row : Nat, ": row " ++ toString row ≠ "" := by
    intro row hempty
    have hchars := congrArg String.toList hempty
    rw [String.toList_append] at hchars
    exact absurd (List.append_eq_nil_iff.1 hchars).1 (by decide)
  cases entry with
  | groupChildren group =>
    rw [Entry.printed_groupChildren] at heq
    cases other with
    | groupChildren group' =>
      rw [Entry.printed_groupChildren] at heq
      rw [(marker_inj h h' heq).1]
      exact .groupChildren group'
    | groupRow group' row =>
      rw [Entry.printed_groupRow] at heq
      exact absurd (marker_inj h h' heq).2.symm (hrow row)
    | node record => exact absurd hlength (show ¬ 1 = 9 by decide)
  | groupRow group row =>
    rw [Entry.printed_groupRow] at heq
    cases other with
    | groupChildren group' =>
      rw [Entry.printed_groupChildren] at heq
      exact absurd (marker_inj h h' heq).2 (hrow row)
    | groupRow group' row' =>
      rw [Entry.printed_groupRow] at heq
      obtain ⟨hgroup, hsame⟩ := marker_inj h h' heq
      rw [hgroup, toString_inj ((String.append_right_inj _).1 hsame)]
      exact .groupRow group' row'
    | node record => exact absurd hlength (show ¬ 1 = 9 by decide)
  | node record =>
    cases other with
    | groupChildren group => exact absurd hlength (show ¬ 9 = 1 by decide)
    | groupRow group row => exact absurd hlength (show ¬ 9 = 1 by decide)
    | node record' => exact .node (NodeRecord.alike_of_lines h h' heq)

/-! ## What is not printed -/

theorem find?_eq_some_of_mem {α β : Type} [DecidableEq β] {f : α → β} {members : List α} {a : α}
    (hnodup : (members.map f).Nodup) (ha : a ∈ members) :
    (members.find? fun b => f b = f a) = some a := by
  have hsome : (members.find? fun b => f b = f a).isSome := by
    refine List.find?_isSome.2 ⟨a, ha, ?_⟩
    exact decide_eq_true rfl
  obtain ⟨b, hb⟩ := Option.isSome_iff_exists.1 hsome
  have hsame : f b = f a := by simpa using List.find?_some hb
  rw [hb, List.inj_on_of_nodup_map hnodup (List.mem_of_find?_eq_some hb) ha hsame]

/-- The labels of all records with their ids. -/
def Table.keys (table : Table) : List (String × UInt8) :=
  table.records.map fun record => (record.label, record.id)

/-- The id of the group with the given label. -/
def parentIdOf (keys : List (String × UInt8)) (label : String) : UInt8 :=
  ((keys.find? fun key => key.1 = label).map Prod.snd).getD nullId

/-- What the fifth byte refers to, from its operand: a record with rows is that of a group, and one
with a selector has an alternate name. -/
def rowBeginOf (keys : List (String × UInt8)) (numRows : UInt8) (nameSelector : Option String)
    (operand : String) : RowBegin :=
  if numRows ≠ 0 then
    match keys.find? fun key => key.1 ++ "Id" = operand with
    | some key => .firstSlot key.1 key.2
    | none => .nothing
  else if nameSelector.isSome then .altName operand
  else .nothing

/-- The selector, from its operand. -/
def selectorOf (operand : String) : Option String := if operand = "0" then none else some operand

/-- What is not printed of a record can be found with the help of the other records. -/
structure NodeRecord.Recoverable (keys : List (String × UInt8)) (record : NodeRecord) : Prop where
  parentId : record.parentId = parentIdOf keys record.parentLabel
  nameSelector : record.nameSelector = selectorOf (record.nameSelector.getD "0")
  rowBegin : record.rowBegin =
    rowBeginOf keys record.numRows record.nameSelector record.rowBegin.operand

theorem NodeRecord.eq_of_alike {keys : List (String × UInt8)} {record other : NodeRecord}
    (h : record.Recoverable keys) (h' : other.Recoverable keys) (halike : record.Alike other) :
    record = other := by
  have hparentId : record.parentId = other.parentId := by
    rw [h.parentId, halike.parentLabel, ← h'.parentId]
  have hselector : record.nameSelector = other.nameSelector := by
    rw [h.nameSelector, halike.nameSelector, ← h'.nameSelector]
  have hrowBegin : record.rowBegin = other.rowBegin := by
    rw [h.rowBegin, halike.numRows, hselector, halike.rowBegin, ← h'.rowBegin]
  obtain ⟨label, id, parentLabel, parentId, nameId, numRows, rowBegin, handler, nameSelector⟩ :=
    record
  obtain ⟨rfl, rfl, rfl, rfl, rfl, -, rfl, -⟩ := halike
  cases hparentId
  cases hselector
  cases hrowBegin
  rfl

section LaidOut

variable {table : Table} {file : MenuFile} {node : Node} {parent : Option Node}

theorem Table.LaidOut.keys_nodup (h : table.LaidOut file) : (table.keys.map Prod.fst).Nodup := by
  rw [Table.keys, List.map_map]
  exact h.labels_nodup

theorem Table.LaidOut.parentId_recoverable (h : table.LaidOut file)
    (hvisit : (node, parent) ∈ file.root.visits) :
    (NodeRecord.ofNode file.config node parent).parentId =
      parentIdOf table.keys (NodeRecord.ofNode file.config node parent).parentLabel := by
  have hcopy := hvisit
  rw [Node.visits_eq] at hcopy
  rcases List.mem_cons.1 hcopy with hroot | hbelow
  · cases hroot
    have hnone : (table.keys.find? fun key => key.1 = nullLabel) = none := by
      refine List.find?_eq_none.2 fun key hkey hlabel => ?_
      have hmem := List.mem_map_of_mem (f := Prod.fst) hkey
      rw [of_decide_eq_true hlabel, Table.keys, List.map_map] at hmem
      have hlabels : nullLabel ∈ table.records.map NodeRecord.label := hmem
      rw [h.labels_eq, List.mem_map] at hlabels
      obtain ⟨other, hother, hotherLabel⟩ := hlabels
      exact h.label_ne_nullLabel hother hotherLabel
    have hparent : (NodeRecord.ofNode file.config file.root none).parentLabel = nullLabel :=
      parentLabel_ofNode _ _ _
    rw [hparent, parentIdOf, hnone, (h.describes_of_visit hvisit).parentId_eq]
    exact h.finished.root_parentId
  · obtain ⟨group, hgroup, -, -, hlabel, hid⟩ := h.exists_parent_of_visit hbelow
    have hkey : (group.label, group.id) ∈ table.keys := List.mem_map_of_mem hgroup
    have hfind := find?_eq_some_of_mem h.keys_nodup hkey
    rw [hlabel, hid, parentIdOf, hfind]
    rfl

/-- A selector is a symbol of the node, which is not a number. -/
theorem Table.LaidOut.nameSelector_recoverable (h : table.LaidOut file)
    (hnode : node ∈ file.root.flatten) :
    (NodeRecord.ofNode file.config node parent).nameSelector =
      selectorOf ((NodeRecord.ofNode file.config node parent).nameSelector.getD "0") := by
  have hletter : ∀ ending : String, node.label ++ ending ≠ "0" := by
    intro ending hzero
    obtain ⟨c, cs, hchars, hletter⟩ :=
      exists_cons_of_beginsWithLetter (h.finished.letter node hnode)
    have hzeroChars := congrArg String.toList hzero
    rw [String.toList_append, hchars] at hzeroChars
    obtain rfl : c = '0' := (List.cons.inj hzeroChars).1
    exact absurd hletter (by decide +kernel)
  cases node with
  | item info =>
    rw [NodeRecord.ofNode]
    split_ifs <;> rfl
  | altItem info altName => exact (if_neg (hletter "NameSelector")).symm
  | group info rows => rfl

theorem Table.LaidOut.numRows_ne_zero (h : table.LaidOut file)
    (hvisit : (node, parent) ∈ file.root.visits) (hkind : node.kind = .group) :
    (NodeRecord.ofNode file.config node parent).numRows ≠ 0 := by
  have hnode := Node.mem_flatten_of_visit hvisit
  obtain ⟨slot, slots, -, hslots⟩ := (h.finished.full node hnode).exists_firstSlot hkind
  have hpos : 0 < node.rows.length := by
    refine List.length_pos_iff.2 fun hempty => ?_
    rw [Node.slots, hempty] at hslots
    cases hslots
  rw [((h.describes_of_visit hvisit).group hkind).2]
  intro hzero
  have hcount : (UInt8.ofNat (min node.rows.length 255)).toNat = 0 := congrArg UInt8.toNat hzero
  rw [UInt8.toNat_ofNat_of_lt' (Nat.lt_succ_of_le (Nat.min_le_right _ _))] at hcount
  omega

theorem Table.LaidOut.rowBegin_recoverable (h : table.LaidOut file)
    (hvisit : (node, parent) ∈ file.root.visits) :
    (NodeRecord.ofNode file.config node parent).rowBegin =
      rowBeginOf table.keys (NodeRecord.ofNode file.config node parent).numRows
        (NodeRecord.ofNode file.config node parent).nameSelector
        (NodeRecord.ofNode file.config node parent).rowBegin.operand := by
  cases hkind : node.kind with
  | item =>
    cases node with
    | item info =>
      rw [NodeRecord.ofNode]
      split_ifs <;> rfl
    | altItem info altName => cases hkind
    | group info rows => cases hkind
  | altItem =>
    cases node with
    | item info => cases hkind
    | altItem info altName => rfl
    | group info rows => cases hkind
  | group =>
    obtain ⟨slot, hslot, hbegin, -, -⟩ := h.exists_firstSlot_of_visit hvisit hkind
    have hkey : (slot.label, slot.id) ∈ table.keys := List.mem_map_of_mem hslot
    have hnodup : (table.keys.map fun key => key.1 ++ "Id").Nodup := by
      have hmap := h.keys_nodup.map fun first second heq => (String.append_left_inj "Id").1 heq
      rwa [List.map_map] at hmap
    have hfind := find?_eq_some_of_mem hnodup hkey
    rw [rowBeginOf, if_pos (h.numRows_ne_zero hvisit hkind), hbegin, RowBegin.operand, hfind]

theorem Table.LaidOut.recoverable (h : table.LaidOut file) :
    ∀ record ∈ table.records, record.Recoverable table.keys := by
  rw [h.records_eq, List.forall_mem_map]
  intro visit hvisit
  exact ⟨h.parentId_recoverable hvisit,
    h.nameSelector_recoverable (Node.mem_flatten_of_visit hvisit), h.rowBegin_recoverable hvisit⟩

end LaidOut

/-! ## Names -/

/-- The names of a node, from its record: a blank is an item with a routine that is not its own. -/
def NodeRecord.nameSlots (record : NodeRecord) : List NameSlot :=
  match record.rowBegin with
  | .nothing => if record.handler.predefined then [] else [.primary]
  | .firstSlot _ _ => [.primary]
  | .altName _ => [.primary, .alternate]

theorem Table.LaidOut.nameSlots_ofNode {table : Table} {file : MenuFile} {node : Node}
    {parent : Option Node} (h : table.LaidOut file) (hvisit : (node, parent) ∈ file.root.visits) :
    (NodeRecord.ofNode file.config node parent).nameSlots =
      node.poolNames.map PoolName.slot := by
  have hnode := Node.mem_flatten_of_visit hvisit
  cases hblank : node.isBlank with
  | true =>
    have hkind := (h.finished.blank node hnode hblank).1
    rw [Node.poolNames_of_blank hblank]
    cases node with
    | item info => rw [NodeRecord.ofNode, if_pos hblank]; rfl
    | altItem info altName => cases hkind
    | group info rows => cases hkind
  | false =>
    rw [Node.poolNames_eq hblank]
    cases node with
    | item info => rw [NodeRecord.ofNode, if_neg (by simp [hblank])]; rfl
    | altItem info altName => rfl
    | group info rows =>
      obtain ⟨slot, -, hbegin, -, -⟩ := h.exists_firstSlot_of_visit hvisit rfl
      rw [NodeRecord.nameSlots, hbegin]
      rfl

/-- The records tell which names there are. -/
theorem Table.LaidOut.labelled_slots {table : Table} {file : MenuFile} (h : table.LaidOut file) :
    (table.names.map fun entry => (entry.label, entry.slot)) =
      table.records.flatMap fun record =>
        record.nameSlots.map fun slot => (record.label, slot) := by
  have hvisits : file.root.flatten = file.root.visits.map Prod.fst := file.root.map_fst_visits.symm
  rw [h.map_names fun entry => rfl, h.records_eq, hvisits, List.flatMap_map, List.flatMap_map]
  refine List.flatMap_congr fun visit hvisit => ?_
  rw [h.nameSlots_ofNode hvisit, (h.describes_of_visit hvisit).label_eq, List.map_map]
  rfl

theorem operandChars_append_zero {operands : List String} (h : operands ≠ []) :
    AsmLine.operandChars (operands ++ ["0"]) =
      AsmLine.operandChars operands ++ [',', ' ', '0'] := by
  induction operands with
  | nil => exact absurd rfl h
  | cons operand operands ih =>
    cases operands with
    | nil => rfl
    | cons second operands =>
      have hrest := ih (by simp)
      rw [List.cons_append] at hrest
      simp only [List.cons_append, AsmLine.operandChars, hrest, List.append_assoc]

theorem NameText.operands_ne_nil (text : NameText) : text.operands ≠ [] := by
  rcases text with text | _ | operands <;> nofun

/-- The lines that a string is printed as. -/
def NameEntry.printed (entry : NameEntry) : List (List Char) := entry.poolLines.map AsmLine.chars

theorem NameEntry.operands_of_printed {entry other : NameEntry}
    (h : entry.printed = other.printed) :
    AsmLine.operandChars entry.text.operands = AsmLine.operandChars other.text.operands := by
  simp only [NameEntry.printed, NameEntry.poolLines, List.map_cons, List.cons.injEq] at h
  have hline := h.2.1
  rw [AsmLine.chars_bytes_eq, AsmLine.chars_bytes_eq] at hline
  have hoperands := List.append_cancel_right (List.append_cancel_left hline)
  rw [operandChars_append_zero entry.text.operands_ne_nil,
    operandChars_append_zero other.text.operands_ne_nil] at hoperands
  exact List.append_cancel_right hoperands

/-! ## The table -/

theorem AsmLine.chars_ne_nil {line : AsmLine} (h : line ≠ .empty) : line.chars ≠ [] := by
  cases line with
  | empty => exact absurd rfl h
  | comment text => nofun
  | label symbol => simp [AsmLine.chars_label]
  | equate symbol value => simp [AsmLine.chars_equate_eq, Statement.equateMark]
  | bytes operands remark => simp [AsmLine.chars_bytes_eq, Statement.bytesStart]
  | word operand remark => simp [AsmLine.chars_word_eq, Statement.wordStart]

theorem nil_notMem_map_chars {lines : List AsmLine} (h : .empty ∉ lines) :
    [] ∉ lines.map AsmLine.chars := by
  intro hmem
  obtain ⟨line, hline, hchars⟩ := List.mem_map.1 hmem
  exact AsmLine.chars_ne_nil (fun heq => h (heq ▸ hline)) hchars

theorem Table.empty_notMem_nodeLines (table : Table) : .empty ∉ table.nodeLines := by
  rw [Table.nodeLines, List.mem_append, List.mem_flatMap]
  rintro (hnull | ⟨entry, -, hentry⟩)
  · exact absurd hnull (by decide)
  · cases entry with
    | groupChildren group => simp [Entry.lines] at hentry
    | groupRow group row => simp [Entry.lines] at hentry
    | node record => simp [Entry.lines, NodeRecord.lines] at hentry

theorem Table.empty_notMem_pointerLines (table : Table) : .empty ∉ table.pointerLines := by
  rw [Table.pointerLines, List.mem_append, List.mem_flatMap]
  rintro (hnull | ⟨entry, -, hentry⟩)
  · exact absurd hnull (by decide)
  · simp [NameEntry.pointerLines] at hentry

/-- The empty lines of the text separate its parts. -/
theorem Table.parts_of_bodyLines {table other : Table}
    (h : table.bodyLines.map AsmLine.chars = other.bodyLines.map AsmLine.chars) :
    table.entries.flatMap Entry.printed = other.entries.flatMap Entry.printed ∧
      table.names.flatMap NameEntry.printed = other.names.flatMap NameEntry.printed := by
  have hbody : ∀ table : Table, table.bodyLines.map AsmLine.chars =
      table.nodeLines.map AsmLine.chars ++ [] :: (table.pointerLines.map AsmLine.chars ++
        [] :: table.poolLines.map AsmLine.chars) := by
    intro table
    simp only [Table.bodyLines, List.map_append, List.append_assoc]
    rfl
  rw [hbody, hbody] at h
  obtain ⟨hnodes, hrest⟩ := append_mark_inj (nil_notMem_map_chars table.empty_notMem_nodeLines)
    (nil_notMem_map_chars other.empty_notMem_nodeLines) h
  obtain ⟨-, hpool⟩ := append_mark_inj (nil_notMem_map_chars table.empty_notMem_pointerLines)
    (nil_notMem_map_chars other.empty_notMem_pointerLines) hrest
  rw [Table.nodeLines, Table.nodeLines, List.map_append, List.map_append, List.map_flatMap,
    List.map_flatMap] at hnodes
  rw [Table.poolLines, Table.poolLines, List.map_append, List.map_append, List.map_flatMap,
    List.map_flatMap] at hpool
  exact ⟨List.append_cancel_left hnodes, List.append_cancel_left hpool⟩

theorem forall₂_of_mem {α β : Type} {R S : α → β → Prop} {first : List α} {second : List β}
    (h : List.Forall₂ R first second) (himp : ∀ a ∈ first, ∀ b ∈ second, R a b → S a b) :
    List.Forall₂ S first second := by
  rw [List.forall₂_iff_zip] at h ⊢
  refine ⟨h.1, fun hmem => ?_⟩
  obtain ⟨ha, hb⟩ := List.of_mem_zip hmem
  exact himp _ ha _ hb (h.2 hmem)

theorem records_of_alike {entries others : List Entry}
    (h : List.Forall₂ Entry.Alike entries others) :
    List.Forall₂ NodeRecord.Alike (entries.filterMap Entry.record?)
      (others.filterMap Entry.record?) := by
  induction h with
  | nil => exact List.Forall₂.nil
  | cons halike _ ih =>
    cases halike with
    | groupChildren group => exact ih
    | groupRow group row => exact ih
    | node halike => exact List.Forall₂.cons halike ih

theorem keys_of_alike {table other : Table}
    (h : List.Forall₂ Entry.Alike table.entries other.entries) : table.keys = other.keys := by
  have hkeys : List.Forall₂ (fun record other : NodeRecord =>
      (record.label, record.id) = (other.label, other.id)) table.records other.records :=
    (records_of_alike h).imp fun record other halike => Prod.ext halike.label halike.id
  rwa [← List.forall₂_map_right_iff, ← List.forall₂_map_left_iff, List.forall₂_eq_eq_eq] at hkeys

/-- Tables with the same text have the same entries. -/
theorem Table.LaidOut.entries_of_bodyLines {table other : Table} {file otherFile : MenuFile}
    (h : table.LaidOut file) (h' : other.LaidOut otherFile) (hprint : table.Printable)
    (hprint' : other.Printable)
    (heq : table.bodyLines.map AsmLine.chars = other.bodyLines.map AsmLine.chars) :
    table.entries = other.entries := by
  have hblocks := forall₂_of_flatMap_eq Entry.printed_ne_nil
    (fun _ _ => Entry.length_printed) hprint.entries hprint'.entries
    (Table.parts_of_bodyLines heq).1
  have halike : List.Forall₂ Entry.Alike table.entries other.entries :=
    forall₂_of_mem hblocks fun entry hentry entry' hentry' =>
      Entry.alike_of_printed (hprint.entries entry hentry) (hprint'.entries entry' hentry')
  have hsame : List.Forall₂ (fun entry entry' : Entry => entry = entry') table.entries
      other.entries := by
    refine forall₂_of_mem halike fun entry hentry entry' hentry' hpair => ?_
    cases hpair with
    | groupChildren group => rfl
    | groupRow group row => rfl
    | @node record record' hpair =>
      have hrecord := h.recoverable record (List.mem_filterMap.2 ⟨_, hentry, rfl⟩)
      have hrecord' := h'.recoverable record' (List.mem_filterMap.2 ⟨_, hentry', rfl⟩)
      rw [← keys_of_alike halike] at hrecord'
      rw [NodeRecord.eq_of_alike hrecord hrecord' hpair]
  rwa [List.forall₂_eq_eq_eq] at hsame

/-- Names that are printed in the same way and belong to the same node. -/
structure NameEntry.Alike (entry other : NameEntry) : Prop where
  label : entry.label = other.label
  slot : entry.slot = other.slot
  id : entry.id = other.id
  operands : AsmLine.operandChars entry.text.operands = AsmLine.operandChars other.text.operands

theorem forall₂_of_map_eq {α β : Type} {f : α → β} {first second : List α}
    (h : first.map f = second.map f) : List.Forall₂ (fun a b => f a = f b) first second := by
  rwa [← List.forall₂_eq_eq_eq, List.forall₂_map_left_iff, List.forall₂_map_right_iff] at h

/-- Tables with the same entries and the same text have the same names. -/
theorem Table.LaidOut.names_of_bodyLines {table other : Table} {file otherFile : MenuFile}
    (h : table.LaidOut file) (h' : other.LaidOut otherFile)
    (hentries : table.entries = other.entries)
    (heq : table.bodyLines.map AsmLine.chars = other.bodyLines.map AsmLine.chars) :
    List.Forall₂ NameEntry.Alike table.names other.names := by
  have hrecords : table.records = other.records := congrArg (List.filterMap Entry.record?) hentries
  have hslots : (table.names.map fun entry => (entry.label, entry.slot)) =
      other.names.map fun entry => (entry.label, entry.slot) := by
    rw [h.labelled_slots, h'.labelled_slots, hrecords]
  have hlength : table.names.length = other.names.length := by
    simpa using congrArg List.length hslots
  have hids : (table.names.map fun entry => entry.id.toNat) =
      other.names.map fun entry => entry.id.toNat := by
    rw [h.ids_names, h'.ids_names, hlength]
  have hblocks := forall₂_of_flatMap_eq (P := fun _ => True) (f := NameEntry.printed)
    (fun _ => nofun) (fun _ _ _ _ _ => rfl) (fun _ _ => trivial) (fun _ _ => trivial)
    (Table.parts_of_bodyLines heq).2
  have hslots := forall₂_of_map_eq hslots
  have hids := forall₂_of_map_eq hids
  rw [List.forall₂_iff_zip] at hslots hids hblocks ⊢
  refine ⟨hlength, fun hmem => ?_⟩
  obtain ⟨hlabel, hslot⟩ := Prod.mk.inj (hslots.2 hmem)
  exact ⟨hlabel, hslot, UInt8.toNat_inj.1 (hids.2 hmem),
    NameEntry.operands_of_printed (hblocks.2 hmem)⟩

/-- The text of a compiled menu determines its table. -/
theorem table_of_assembly {options options' : CompileOptions} {source source' : String}
    {compilation compilation' : Compilation} (h : compile options source = .ok compilation)
    (h' : compile options' source' = .ok compilation')
    (hname : options.sourceName = options'.sourceName)
    (heq : compilation.assembly = compilation'.assembly) :
    compilation.table.entries = compilation'.table.entries ∧
      List.Forall₂ NameEntry.Alike compilation.table.names compilation'.table.names := by
  have hlaid := laidOut_of_compile h
  have hlaid' := laidOut_of_compile h'
  have hprint := printable_of_compile h
  have hprint' := printable_of_compile h'
  have hlines : compilation.table.bodyLines.map AsmLine.chars =
      compilation'.table.bodyLines.map AsmLine.chars := by
    have htext := congrArg String.toList heq
    rw [assembly_of_compile h, assembly_of_compile h', hname] at htext
    have hcut := congrArg cutLines (List.append_cancel_left htext)
    rwa [cutLines_renderLines (printable_bodyLines hprint),
      cutLines_renderLines (printable_bodyLines hprint')] at hcut
  have hentries := hlaid.entries_of_bodyLines hlaid' hprint hprint' hlines
  exact ⟨hentries, hlaid.names_of_bodyLines hlaid' hentries hlines⟩

/-- A menu in which `AAltName` is both the alternate name of an item and the name of another one. -/
def ambiguousMenu (settings : String) : String :=
  "MenuConfig [ " ++ settings ++
    " ] MenuGroup T T [ MenuRow [ MenuItemAlt A B A MenuItem C AAlt ] ]"

/-- The name of blanks is not used in a table, and neither is the policy on names. -/
theorem table_of_assembly_ambiguous :
    ∃ compilation compilation',
      compile ⟨"menu", .strict, false⟩ (ambiguousMenu "") = .ok compilation ∧
      compile ⟨"menu", .anyLeaves, true⟩ (ambiguousMenu "ItemName D") = .ok compilation' ∧
      compilation.assembly = compilation'.assembly ∧
      compilation.table.entries = compilation'.table.entries ∧
      List.Forall₂ NameEntry.Alike compilation.table.names compilation'.table.names := by
  have hsome : (compile ⟨"menu", .strict, false⟩ (ambiguousMenu "")).toOption.isSome = true := by
    decide +kernel
  have htables :
      (compile ⟨"menu", .anyLeaves, true⟩ (ambiguousMenu "ItemName D")).toOption.map
          Compilation.table =
        (compile ⟨"menu", .strict, false⟩ (ambiguousMenu "")).toOption.map Compilation.table := by
    decide +kernel
  obtain ⟨compilation, hcompile⟩ := exists_ok_of_isSome hsome
  rw [hcompile] at htables
  obtain ⟨compilation', hcompile', htable⟩ := exists_ok_of_map htables
  have hassembly : compilation.assembly = compilation'.assembly := by
    rw [← String.toList_inj, assembly_of_compile hcompile, assembly_of_compile hcompile', htable]
  exact ⟨compilation, compilation', hcompile, hcompile', hassembly,
    table_of_assembly hcompile hcompile' rfl hassembly⟩

end SoftMenu
