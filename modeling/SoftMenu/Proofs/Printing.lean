import SoftMenu.Proofs.Positions
import SoftMenu.Proofs.References

/-!
# Printing a table

The text of a table can be taken apart again because of what its parts look like: the labels begin
with a letter, and no label, name or setting has white space in it. `Table.Printable` says so for a
table, and `printable_of_compile` for the table of every compiled menu. From this follows what its
lines look like (`printable_bodyLines`); in particular the text has as many lines as it was made
from (`cutLines_renderLines`).
-/

namespace SoftMenu

/-! ## Symbols -/

/-- A text that can stand for a symbol: it begins with a letter and has no white space in it. -/
structure IsSymbol (symbol : String) : Prop where
  letter : beginsWithLetter symbol = true
  unbroken : Unbroken symbol.toList

instance (symbol : String) : Decidable (IsSymbol symbol) :=
  decidable_of_iff (beginsWithLetter symbol = true ∧ Unbroken symbol.toList)
    ⟨fun h => ⟨h.1, h.2⟩, fun h => ⟨h.letter, h.unbroken⟩⟩

theorem exists_cons_of_beginsWithLetter {symbol : String} (h : beginsWithLetter symbol = true) :
    ∃ c cs, symbol.toList = c :: cs ∧ isAlphabetic c = true := by
  rw [beginsWithLetter] at h
  cases hchars : symbol.toList with
  | nil =>
    rw [hchars] at h
    cases h
  | cons c cs =>
    rw [hchars] at h
    exact ⟨c, cs, rfl, h⟩

/-- A symbol stays one with an ending that has no white space in it. -/
theorem IsSymbol.append {symbol ending : String} (h : IsSymbol symbol)
    (hending : Unbroken ending.toList) : IsSymbol (symbol ++ ending) := by
  obtain ⟨c, cs, hchars, hletter⟩ := exists_cons_of_beginsWithLetter h.letter
  refine ⟨?_, ?_⟩
  · rw [beginsWithLetter, String.toList_append, hchars]
    exact hletter
  · rw [String.toList_append, unbroken_append]
    exact ⟨h.unbroken, hending⟩

theorem unbroken_append_string {first second : String} (hfirst : Unbroken first.toList)
    (hsecond : Unbroken second.toList) : Unbroken (first ++ second).toList := by
  rw [String.toList_append, unbroken_append]
  exact ⟨hfirst, hsecond⟩

theorem unbroken_toDigits (number : Nat) : Unbroken (Nat.toDigits 10 number) := by
  intro c hc
  have hdigit : c.isDigit = true := Nat.isDigit_of_mem_toDigits (by decide) (by decide) hc
  rw [Char.isDigit, Bool.and_eq_true, decide_eq_true_iff, decide_eq_true_iff] at hdigit
  have hfrom : 48 ≤ c.toNat := UInt32.le_iff_toNat_le.1 hdigit.1
  have hto : c.toNat ≤ 57 := UInt32.le_iff_toNat_le.1 hdigit.2
  simp only [isWhiteSpace, Bool.or_eq_false_iff, Bool.and_eq_false_iff, decide_eq_false_iff_not,
    beq_eq_false_iff_ne]
  omega

theorem unbroken_toString (number : Nat) : Unbroken (toString number).toList := by
  rw [Nat.toString_eq_ofList_toDigits, String.toList_ofList]
  exact unbroken_toDigits number

/-! ## Printable tables -/

/-- What a record is printed from has no white space in it. -/
structure NodeRecord.Printable (record : NodeRecord) : Prop where
  label : IsSymbol record.label
  parentLabel : Unbroken record.parentLabel.toList
  nameId : Unbroken record.nameId.toList
  rowBegin : Unbroken record.rowBegin.operand.toList
  handler : Unbroken record.handler.symbol.toList
  nameSelector : Unbroken (record.nameSelector.getD "0").toList

/-- What an entry is printed from has no white space in it. -/
def Entry.Printable : Entry → Prop
  | .groupChildren group => Unbroken group.toList
  | .groupRow group _ => Unbroken group.toList
  | .node record => record.Printable

/-- What a name is printed from has no white space in it. -/
structure NameEntry.Printable (entry : NameEntry) : Prop where
  label : IsSymbol entry.label
  operands : ∀ operand ∈ entry.text.operands, Unbroken operand.toList

/-- What a table is printed from has no white space in it. -/
structure Table.Printable (table : Table) : Prop where
  entries : ∀ entry ∈ table.entries, entry.Printable
  names : ∀ entry ∈ table.names, entry.Printable

/-- The group that a step of a tour goes into. -/
def Event.group? : Event → Option Node
  | .visit _ _ => none
  | .enterGroup group => some group
  | .enterRow group _ _ => some group

/-- All rows of a group are listed with the group. -/
theorem rowEvents_group {group : Node} {index : Nat} {rows : List (Row Node)} {event : Event}
    (h : event ∈ rowEvents group index rows) : ∀ other ∈ event.group?, other = group := by
  induction rows generalizing index with
  | nil => cases h
  | cons row rows ih =>
    rw [rowEvents, List.cons_append, List.mem_cons, List.mem_append, List.mem_map] at h
    rcases h with rfl | ⟨slot, -, rfl⟩ | h
    · intro other hother
      exact (Option.some.inj hother).symm
    · intro other hother
      cases hother
    · exact ih h

/-- A tour goes into groups of the tree. -/
theorem Node.eventsBelow_group {root : Node} {event : Event} (h : event ∈ root.eventsBelow) :
    ∀ group ∈ event.group?, group ∈ root.flatten ∧ group.kind = .group := by
  induction root using Node.slotInduction with
  | step root ih =>
    rw [Node.eventsBelow_eq, List.mem_append, List.mem_flatMap] at h
    intro group hgroup
    rcases h with h | ⟨slot, hslot, h⟩
    · cases root with
      | item info => cases h
      | altItem info altName => cases h
      | group info rows =>
        have hroot : group = .group info rows := by
          rcases List.mem_cons.1 h with rfl | h
          · exact (Option.some.inj hgroup).symm
          · exact rowEvents_group h group hgroup
        rw [hroot]
        exact ⟨Node.self_mem_flatten _, rfl⟩
    · obtain ⟨hmem, hkind⟩ := ih slot hslot h group hgroup
      exact ⟨Node.mem_flatten_of_slot hslot hmem, hkind⟩

section Printable

variable {file : MenuFile} {node : Node}

/-- The fifth byte of a group is the id symbol of a node. -/
theorem MenuFile.Finished.exists_operand_ofGroup (hfinished : file.Finished)
    (hnode : node ∈ file.root.flatten) (hkind : node.kind = .group) :
    ∃ slot ∈ file.root.flatten, (RowBegin.ofGroup node).operand = slot.label ++ "Id" := by
  obtain ⟨slot, slots, hfirst, hslots⟩ := (hfinished.full _ hnode).exists_firstSlot hkind
  refine ⟨slot, Node.mem_flatten_of_mem_slots hnode ?_, ?_⟩
  · rw [hslots]
    exact List.mem_cons_self
  · rw [RowBegin.ofGroup, hfirst]
    rfl

/-- The record of a node of a printable menu can be printed. -/
theorem printable_ofNode (hfinished : file.Finished) (h : file.Printable) {parent : Option Node}
    (hnode : node ∈ file.root.flatten) (hparent : ∀ group ∈ parent, group ∈ file.root.flatten) :
    (NodeRecord.ofNode file.config node parent).Printable := by
  have hlabel := h.label node hnode
  have hsetting : ∀ key default, Unbroken default.toList →
      Unbroken ((file.config.get? key).getD default).toList := by
    intro key default hdefault
    cases hvalue : file.config.get? key with
    | none => exact hdefault
    | some value => exact h.setting key value hvalue
  have hsymbol : IsSymbol node.label := ⟨hfinished.letter node hnode, hlabel⟩
  have hparentLabel : Unbroken ((parent.map Node.label).getD nullLabel).toList := by
    cases parent with
    | none => decide
    | some group => exact h.label group (hparent group rfl)
  have hzero : Unbroken "0".toList := by decide
  have hown : ∀ ending : String, Unbroken ending.toList → Unbroken (node.label ++ ending).toList :=
    fun ending => unbroken_append_string hlabel
  cases node with
  | item info =>
    rw [NodeRecord.ofNode]
    split_ifs
    · exact ⟨hsymbol, hparentLabel, hsetting .itemNameId _ (by decide), hzero,
        hsetting .itemHandler _ (by decide), hzero⟩
    · exact ⟨hsymbol, hparentLabel, hown "NameId" (by decide), hzero, hown "Handler" (by decide),
        hzero⟩
  | altItem info altName =>
    exact ⟨hsymbol, hparentLabel, hown "NameId" (by decide), hown "AltNameId" (by decide),
      hown "Handler" (by decide), hown "NameSelector" (by decide)⟩
  | group info rows =>
    refine ⟨hsymbol, hparentLabel, hown "NameId" (by decide), ?_,
      hsetting .groupHandler _ (by decide), hzero⟩
    obtain ⟨slot, hslot, hoperand⟩ := hfinished.exists_operand_ofGroup hnode rfl
    show Unbroken (RowBegin.ofGroup (.group info rows)).operand.toList
    rw [hoperand]
    exact unbroken_append_string (h.label slot hslot) (by decide)

/-- The table of a printable menu can be printed. -/
theorem Table.LaidOut.printable {table : Table} (hlaid : table.LaidOut file) (h : file.Printable) :
    table.Printable := by
  refine ⟨?_, ?_⟩
  · rw [hlaid.entries_eq, List.forall_mem_map]
    intro event hevent
    -- A group that the tour goes into has a name of its own.
    have hgroup : ∀ group ∈ event.group?, Unbroken group.name.toList := by
      intro group hgroup
      rcases List.mem_cons.1 hevent with rfl | hbelow
      · cases hgroup
      · obtain ⟨hmem, hkind⟩ := Node.eventsBelow_group hbelow group hgroup
        refine h.name group hmem ?_
        by_contra hblank
        rw [Bool.not_eq_false] at hblank
        rw [(hlaid.finished.blank group hmem hblank).1] at hkind
        cases hkind
    cases event with
    | enterGroup group => exact hgroup group rfl
    | enterRow group row index => exact hgroup group rfl
    | visit node parent =>
      have hnode : node ∈ file.root.flatten := List.mem_filterMap.2 ⟨_, hevent, rfl⟩
      refine printable_ofNode hlaid.finished h hnode fun group hparent => ?_
      obtain rfl : parent = some group := hparent
      rcases List.mem_cons.1 hevent with hroot | hbelow
      · cases hroot
      · obtain ⟨other, hother, hsome, -⟩ := Node.eventsBelow_visit hbelow
        rw [Option.some.inj hsome]
        exact hother
  · intro entry hentry
    rw [hlaid.names_eq] at hentry
    obtain ⟨name, hname, id, rfl⟩ := exists_of_mem_numberedNames hentry
    obtain ⟨node, hnode, hname⟩ := List.mem_flatMap.1 hname
    refine ⟨?_, h.operand node hnode name hname⟩
    rw [PoolName.entry, (node_of_mem_poolNames hname).1]
    exact ⟨hlaid.finished.letter node hnode, h.label node hnode⟩

end Printable

/-- The table of a compiled menu can be printed. -/
theorem printable_of_compile {options : CompileOptions} {source : String}
    {compilation : Compilation} (h : compile options source = .ok compilation) :
    compilation.table.Printable := by
  obtain ⟨parsed, hparse, hpasses, hfile, -⟩ := passes_of_compile h
  refine (laidOut_of_compile h).printable ?_
  rw [hfile]
  exact printable_of_passes hparse hpasses

/-! ## Printable lines -/

/-- A line whose symbols and operands have no white space in them, and that has no line break. -/
def AsmLine.Printable : AsmLine → Prop
  | .empty => True
  | .comment text => '\n' ∉ text.toList
  | .label symbol => IsSymbol symbol
  | .equate symbol _ => IsSymbol symbol
  | .bytes operands remark =>
    (∀ operand ∈ operands, Unbroken operand.toList) ∧ ∀ text ∈ remark, '\n' ∉ text.toList
  | .word operand remark => Unbroken operand.toList ∧ ∀ text ∈ remark, '\n' ∉ text.toList

instance : (line : AsmLine) → Decidable line.Printable
  | .empty => inferInstanceAs (Decidable True)
  | .comment text => inferInstanceAs (Decidable ('\n' ∉ text.toList))
  | .label symbol => inferInstanceAs (Decidable (IsSymbol symbol))
  | .equate symbol _ => inferInstanceAs (Decidable (IsSymbol symbol))
  | .bytes operands remark => inferInstanceAs (Decidable
      ((∀ operand ∈ operands, Unbroken operand.toList) ∧ ∀ text ∈ remark, '\n' ∉ text.toList))
  | .word operand remark => inferInstanceAs (Decidable
      (Unbroken operand.toList ∧ ∀ text ∈ remark, '\n' ∉ text.toList))

theorem newline_notMem_operandChars {operands : List String}
    (h : ∀ operand ∈ operands, Unbroken operand.toList) :
    '\n' ∉ AsmLine.operandChars operands := by
  fun_induction AsmLine.operandChars operands with
  | case1 => exact List.not_mem_nil
  | case2 operand => exact (h operand List.mem_cons_self).newline_notMem
  | case3 operand operands _ ih =>
    obtain ⟨hoperand, hoperands⟩ := List.forall_mem_cons.1 h
    simp [hoperand.newline_notMem, ih hoperands]

theorem newline_notMem_remarkChars {remark : Option String}
    (h : ∀ text ∈ remark, '\n' ∉ text.toList) : '\n' ∉ AsmLine.remarkChars remark := by
  cases remark with
  | none => exact List.not_mem_nil
  | some text => simp [AsmLine.remarkChars, h text rfl]

theorem AsmLine.chars_label (symbol : String) :
    (AsmLine.label symbol).chars = symbol.toList ++ [':'] := rfl

theorem AsmLine.chars_equate (symbol : String) (value : Nat) :
    (AsmLine.equate symbol value).chars =
      symbol.toList ++ " equ ".toList ++ Nat.toDigits 10 value := rfl

theorem AsmLine.chars_bytes (operands : List String) (remark : Option String) :
    (AsmLine.bytes operands remark).chars =
      "    .db ".toList ++ operandChars operands ++ remarkChars remark := rfl

theorem AsmLine.chars_word (operand : String) (remark : Option String) :
    (AsmLine.word operand remark).chars =
      "    .dw ".toList ++ operand.toList ++ remarkChars remark := rfl

/-- A printable line is one line. -/
theorem AsmLine.Printable.newline_notMem {line : AsmLine} (h : line.Printable) :
    '\n' ∉ line.chars := by
  cases line with
  | empty => exact List.not_mem_nil
  | comment text => exact List.not_mem_cons_of_ne_of_not_mem (by decide) h
  | label symbol =>
    rw [AsmLine.chars_label, List.mem_append, not_or]
    exact ⟨h.unbroken.newline_notMem, by decide⟩
  | equate symbol value =>
    rw [AsmLine.chars_equate, List.mem_append, List.mem_append, not_or, not_or]
    exact ⟨⟨h.unbroken.newline_notMem, by decide⟩, (unbroken_toDigits value).newline_notMem⟩
  | bytes operands remark =>
    rw [AsmLine.chars_bytes, List.mem_append, List.mem_append, not_or, not_or]
    exact ⟨⟨by decide, newline_notMem_operandChars h.1⟩, newline_notMem_remarkChars h.2⟩
  | word operand remark =>
    rw [AsmLine.chars_word, List.mem_append, List.mem_append, not_or, not_or]
    exact ⟨⟨by decide, h.1.newline_notMem⟩, newline_notMem_remarkChars h.2⟩

theorem printable_recordLines {record : NodeRecord} (h : record.Printable) :
    ∀ line ∈ record.lines, line.Printable := by
  have hbytes : ∀ {operand : String} (remark : String), Unbroken operand.toList →
      '\n' ∉ remark.toList → (AsmLine.bytes [operand] (some remark)).Printable := by
    intro operand remark hoperand hremark
    refine ⟨List.forall_mem_singleton.2 hoperand, fun text htext => ?_⟩
    obtain rfl := Option.some.inj htext
    exact hremark
  have hword : ∀ {operand : String} (remark : String), Unbroken operand.toList →
      '\n' ∉ remark.toList → (AsmLine.word operand (some remark)).Printable := by
    intro operand remark hoperand hremark
    refine ⟨hoperand, fun text htext => ?_⟩
    obtain rfl := Option.some.inj htext
    exact hremark
  have hid : IsSymbol (record.label ++ "Id") := h.label.append (by decide)
  have hparent : Unbroken (record.parentLabel ++ "Id").toList :=
    unbroken_append_string h.parentLabel (by decide)
  have hremark : '\n' ∉ record.handler.remark.toList := by
    rw [Handler.remark]
    split_ifs <;> decide
  simp only [NodeRecord.lines, List.forall_mem_cons, List.not_mem_nil, IsEmpty.forall_iff,
    implies_true, and_true]
  exact ⟨h.label, hid, hbytes _ hid.unbroken (by decide), hbytes _ hparent (by decide),
    hbytes _ h.nameId (by decide), hbytes _ (unbroken_toString _) (by decide),
    hbytes _ h.rowBegin (by decide), hword _ h.handler hremark, hword _ h.nameSelector (by decide)⟩

theorem Entry.lines_groupChildren (group : String) : (Entry.groupChildren group).lines =
    [.comment (" MenuGroup " ++ group ++ ": children")] := rfl

theorem Entry.lines_groupRow (group : String) (row : Nat) : (Entry.groupRow group row).lines =
    [.comment (" MenuGroup " ++ group ++ ": children: row " ++ toString row)] := rfl

theorem printable_entryLines {entry : Entry} (h : entry.Printable) :
    ∀ line ∈ entry.lines, line.Printable := by
  cases entry with
  | groupChildren group =>
    have hgroup : Unbroken group.toList := h
    rw [Entry.lines_groupChildren, List.forall_mem_singleton]
    simp [AsmLine.Printable, hgroup.newline_notMem]
  | groupRow group row =>
    have hgroup : Unbroken group.toList := h
    have hrow := unbroken_toString row
    rw [Entry.lines_groupRow, List.forall_mem_singleton]
    simp only [AsmLine.Printable, String.toList_append, List.mem_append, not_or]
    exact ⟨⟨⟨by decide, hgroup.newline_notMem⟩, by decide⟩, hrow.newline_notMem⟩
  | node record => exact printable_recordLines h

/-- The symbol of a printable name is a symbol to an assembler. -/
theorem NameEntry.Printable.symbol {entry : NameEntry} (h : entry.Printable) :
    IsSymbol entry.symbol := by
  refine h.label.append ?_
  cases entry.slot <;> decide

theorem printable_pointerLines {entry : NameEntry} (h : entry.Printable) :
    ∀ line ∈ entry.pointerLines, line.Printable := by
  have hid : IsSymbol entry.idSymbol := h.symbol.append (by decide)
  simp only [NameEntry.pointerLines, List.forall_mem_cons, List.not_mem_nil, IsEmpty.forall_iff,
    implies_true, and_true]
  exact ⟨hid, h.symbol.unbroken, nofun⟩

theorem printable_poolLines {entry : NameEntry} (h : entry.Printable) :
    ∀ line ∈ entry.poolLines, line.Printable := by
  have hoperands : ∀ operand ∈ entry.text.operands ++ ["0"], Unbroken operand.toList := by
    refine List.forall_mem_append.2 ⟨h.operands, List.forall_mem_singleton.2 (by decide)⟩
  simp only [NameEntry.poolLines, List.forall_mem_cons, List.not_mem_nil, IsEmpty.forall_iff,
    implies_true, and_true]
  exact ⟨h.symbol, hoperands, nofun⟩

/-- All lines after the header of a printable table are printable. -/
theorem printable_bodyLines {table : Table} (h : table.Printable) :
    ∀ line ∈ table.bodyLines, line.Printable := by
  have hflatMap : ∀ {α : Type} {members : List α} {lines : α → List AsmLine},
      (∀ member ∈ members, ∀ line ∈ lines member, line.Printable) →
      ∀ line ∈ members.flatMap lines, line.Printable := by
    intro α members lines hlines line hline
    obtain ⟨member, hmember, hline⟩ := List.mem_flatMap.1 hline
    exact hlines member hmember line hline
  have hempty : ∀ line ∈ [AsmLine.empty], line.Printable := by decide
  rw [Table.bodyLines, Table.nodeLines, Table.pointerLines, Table.poolLines]
  simp only [List.forall_mem_append]
  exact ⟨⟨⟨⟨⟨by decide, hflatMap fun entry hentry => printable_entryLines (h.entries entry hentry)⟩,
    hempty⟩, by decide, hflatMap fun entry hentry => printable_pointerLines (h.names entry hentry)⟩,
    hempty⟩, by decide, hflatMap fun entry hentry => printable_poolLines (h.names entry hentry)⟩

/-! ## Lines of the text -/

/-- A text is cut into the lines that it was made from. -/
theorem cutLines_renderLines {lines : List AsmLine} (h : ∀ line ∈ lines, line.Printable) :
    cutLines (renderLines lines) = lines.map AsmLine.chars := by
  induction lines with
  | nil => rfl
  | cons line lines ih =>
    obtain ⟨hline, hlines⟩ := List.forall_mem_cons.1 h
    rw [renderLines, List.flatMap_cons, List.append_assoc, List.singleton_append,
      cutLines_append hline.newline_notMem, List.map_cons]
    exact congrArg _ (ih hlines)

/-- The text of a compiled menu is its header and the lines of its table. -/
theorem assembly_of_compile {options : CompileOptions} {source : String}
    {compilation : Compilation} (h : compile options source = .ok compilation) :
    compilation.assembly.toList =
      renderLines (headerLines options.sourceName) ++ renderLines compilation.table.bodyLines := by
  simp only [compile, bind_eq_ok_iff] at h
  obtain ⟨parsed, -, padded, -, numbered, -, exploded, -, table, -, h⟩ := h
  obtain rfl := Except.ok.inj h
  rw [Table.assembly, String.toList_ofList, Table.lines, renderLines, List.flatMap_append]
  rfl

end SoftMenu
