import Mathlib.Data.List.TakeWhile
import SoftMenu.Proofs.Printing

/-!
# Reading assembly text

An assembler reads the text of a table line by line. `Statement.ofLine` is as much of it as matters
for addresses and symbols: which lines define a symbol, and which of them take up memory. It knows
nothing of tables. A printable line is read as the statement it was printed for (`ofLine_chars`), so
the text of a compiled menu is read as the lines of its table (`statements_of_compile`).
-/

namespace SoftMenu

/-- What a line of assembly text says. -/
inductive Statement where
  /-- Nothing: the line is empty or a comment. -/
  | silent
  /-- The symbol stands for the current address. -/
  | label (symbol : String)
  /-- The symbol stands for a number. -/
  | equate (symbol : String) (value : Nat)
  /-- A byte, or the bytes of a string. -/
  | bytes
  /-- A word of two bytes. -/
  | word (operand : String)
  /-- Something else. -/
  | unknown
deriving DecidableEq, Repr

namespace Statement

/-- How a line with bytes begins. -/
def bytesStart : List Char := [' ', ' ', ' ', ' ', '.', 'd', 'b', ' ']

/-- How a line with a word begins. -/
def wordStart : List Char := [' ', ' ', ' ', ' ', '.', 'd', 'w', ' ']

/-- What stands between a symbol and its number. -/
def equateMark : List Char := [' ', 'e', 'q', 'u', ' ']

/-- Reads a line that begins with a symbol: `symbol:` or `symbol equ number`. -/
def ofDefinition (line : List Char) : Statement :=
  let symbol := line.takeWhile (· ≠ ' ')
  let rest := line.dropWhile (· ≠ ' ')
  let digits := rest.drop equateMark.length
  if rest = [] ∧ symbol.getLast? = some ':' then .label (.ofList symbol.dropLast)
  else if equateMark.isPrefixOf rest ∧ digits ≠ [] ∧ digits.all Char.isDigit then
    .equate (.ofList symbol) (Nat.ofDigitChars 10 digits 0)
  else .unknown

/-- Reads a line. -/
def ofLine (line : List Char) : Statement :=
  if line = [] ∨ line.head? = some ';' then .silent
  else if bytesStart.isPrefixOf line then .bytes
  else if wordStart.isPrefixOf line then
    .word (.ofList ((line.drop wordStart.length).takeWhile (· ≠ ' ')))
  else ofDefinition line

end Statement

/-- What a line of assembly text is printed for. -/
def AsmLine.statement : AsmLine → Statement
  | .empty => .silent
  | .comment _ => .silent
  | .label symbol => .label symbol
  | .equate symbol value => .equate symbol value
  | .bytes _ _ => .bytes
  | .word operand _ => .word operand

/-! ## Reading what was printed -/

theorem AsmLine.chars_bytes_eq (operands : List String) (remark : Option String) :
    (AsmLine.bytes operands remark).chars =
      Statement.bytesStart ++ (operandChars operands ++ remarkChars remark) := by
  have hstart : "    .db ".toList = Statement.bytesStart := by decide
  rw [AsmLine.chars_bytes, hstart, List.append_assoc]

theorem AsmLine.chars_word_eq (operand : String) (remark : Option String) :
    (AsmLine.word operand remark).chars =
      Statement.wordStart ++ (operand.toList ++ remarkChars remark) := by
  have hstart : "    .dw ".toList = Statement.wordStart := by decide
  rw [AsmLine.chars_word, hstart, List.append_assoc]

theorem AsmLine.chars_equate_eq (symbol : String) (value : Nat) :
    (AsmLine.equate symbol value).chars =
      symbol.toList ++ (Statement.equateMark ++ Nat.toDigits 10 value) := by
  have hmark : " equ ".toList = Statement.equateMark := by decide
  rw [AsmLine.chars_equate, hmark, List.append_assoc]

/-- A line that begins with a letter can only be a definition. -/
theorem ofLine_of_isAlphabetic {c : Char} {cs : List Char} (h : isAlphabetic c = true) :
    Statement.ofLine (c :: cs) = Statement.ofDefinition (c :: cs) := by
  have hsemicolon : c ≠ ';' := by
    rintro rfl
    exact absurd h (by decide +kernel)
  have hspace : ' ' ≠ c := by
    rintro rfl
    exact absurd h (by decide +kernel)
  have hbytes : Statement.bytesStart.isPrefixOf (c :: cs) = false := by
    simp [Statement.bytesStart, List.isPrefixOf, hspace]
  have hword : Statement.wordStart.isPrefixOf (c :: cs) = false := by
    simp [Statement.wordStart, List.isPrefixOf, hspace]
  rw [Statement.ofLine, if_neg (by simp [hsemicolon]), hbytes, hword]
  rfl

section TakeWhile

variable {α : Type} [DecidableEq α] {mark : α} {before : List α}

/-- The condition of a scan that stops at a mark is met before the mark. -/
theorem ne_mark_of_mem (h : mark ∉ before) : ∀ member ∈ before, decide (member ≠ mark) = true :=
  fun _ hmember => decide_eq_true fun heq => h (heq ▸ hmember)

theorem takeWhile_ne_eq_self (h : mark ∉ before) : before.takeWhile (· ≠ mark) = before :=
  List.takeWhile_eq_self_iff.2 (ne_mark_of_mem h)

theorem takeWhile_ne_append (h : mark ∉ before) (after : List α) :
    (before ++ mark :: after).takeWhile (· ≠ mark) = before := by
  rw [List.takeWhile_append_of_pos (ne_mark_of_mem h)]
  simp

theorem dropWhile_ne_append (h : mark ∉ before) (after : List α) :
    (before ++ mark :: after).dropWhile (· ≠ mark) = mark :: after := by
  rw [List.dropWhile_append_of_pos (ne_mark_of_mem h)]
  simp

end TakeWhile

/-- A symbol with a colon behind it is read as a label. -/
theorem ofDefinition_label {symbol : List Char} (h : Unbroken symbol) :
    Statement.ofDefinition (symbol ++ [':']) = .label (.ofList symbol) := by
  have hline : Unbroken (symbol ++ [':']) := unbroken_append.2 ⟨h, by decide⟩
  have hrest : (symbol ++ [':']).dropWhile (· ≠ ' ') = [] :=
    List.dropWhile_eq_nil_iff.2 (ne_mark_of_mem hline.space_notMem)
  rw [Statement.ofDefinition, takeWhile_ne_eq_self hline.space_notMem, hrest]
  simp

/-- A symbol with a number is read as standing for that number. -/
theorem ofDefinition_equate {symbol : List Char} (h : Unbroken symbol) (value : Nat) :
    Statement.ofDefinition (symbol ++ (Statement.equateMark ++ Nat.toDigits 10 value)) =
      .equate (.ofList symbol) value := by
  have hdigits : (Nat.toDigits 10 value).all Char.isDigit = true :=
    List.all_eq_true.2 fun c => Nat.isDigit_of_mem_toDigits (by decide) (by decide)
  have hne : Nat.toDigits 10 value ≠ [] := Nat.toDigits_ne_nil
  have hrest :=
    dropWhile_ne_append h.space_notMem ('e' :: 'q' :: 'u' :: ' ' :: Nat.toDigits 10 value)
  have hsymbol :=
    takeWhile_ne_append h.space_notMem ('e' :: 'q' :: 'u' :: ' ' :: Nat.toDigits 10 value)
  simp only [Statement.equateMark, List.cons_append, List.nil_append]
  rw [Statement.ofDefinition, hrest, hsymbol]
  simp [Statement.equateMark, List.isPrefixOf, hne, hdigits, Nat.ofDigitChars_ten_toDigits]

/-- A line with bytes is known by how it begins. -/
theorem ofLine_bytes (rest : List Char) :
    Statement.ofLine (Statement.bytesStart ++ rest) = .bytes := by
  simp [Statement.ofLine, Statement.bytesStart, List.isPrefixOf]

/-- The operand of a line with a word is what stands before the first space. -/
theorem ofLine_word {operand rest : List Char}
    (h : (operand ++ rest).takeWhile (· ≠ ' ') = operand) :
    Statement.ofLine (Statement.wordStart ++ (operand ++ rest)) = .word (.ofList operand) := by
  simp only [Statement.ofLine, List.drop_left, h]
  simp [Statement.wordStart, Statement.bytesStart, List.isPrefixOf]

/-- A printable line is read as what it was printed for. -/
theorem ofLine_chars {line : AsmLine} (h : line.Printable) :
    Statement.ofLine line.chars = line.statement := by
  cases line with
  | empty => rfl
  | comment text => rfl
  | label symbol =>
    obtain ⟨c, cs, hchars, hletter⟩ := exists_cons_of_beginsWithLetter h.letter
    have hread := ofDefinition_label h.unbroken
    rw [hchars, List.cons_append, ← ofLine_of_isAlphabetic hletter, ← List.cons_append, ← hchars,
      String.ofList_toList] at hread
    exact hread
  | equate symbol value =>
    obtain ⟨c, cs, hchars, hletter⟩ := exists_cons_of_beginsWithLetter h.letter
    have hread := ofDefinition_equate h.unbroken value
    rw [hchars, List.cons_append, ← ofLine_of_isAlphabetic hletter, ← List.cons_append, ← hchars,
      String.ofList_toList] at hread
    rw [AsmLine.chars_equate_eq]
    exact hread
  | bytes operands remark =>
    rw [AsmLine.chars_bytes_eq]
    exact ofLine_bytes _
  | word operand remark =>
    have hoperand : (operand.toList ++ AsmLine.remarkChars remark).takeWhile (· ≠ ' ') =
        operand.toList := by
      cases remark with
      | none =>
        rw [AsmLine.remarkChars, List.append_nil]
        exact takeWhile_ne_eq_self h.1.space_notMem
      | some text => exact takeWhile_ne_append h.1.space_notMem _
    rw [AsmLine.chars_word_eq, ofLine_word hoperand, String.ofList_toList]
    rfl

/-- The statements of a text, one for each line. -/
def statements (text : List Char) : List Statement := (cutLines text).map Statement.ofLine

/-- Printable lines are read one by one as what they were printed for. -/
theorem statements_renderLines {lines : List AsmLine} (h : ∀ line ∈ lines, line.Printable) :
    statements (renderLines lines) = lines.map AsmLine.statement := by
  rw [statements, cutLines_renderLines h, List.map_map]
  exact List.map_congr_left fun line hline => ofLine_chars (h line hline)

/-- Behind its header the text of a compiled menu is read as the lines of its table. -/
theorem statements_of_compile {options : CompileOptions} {source : String}
    {compilation : Compilation} (h : compile options source = .ok compilation) :
    ∃ body, compilation.assembly.toList = renderLines (headerLines options.sourceName) ++ body ∧
      statements body = compilation.table.bodyLines.map AsmLine.statement :=
  ⟨_, assembly_of_compile h, statements_renderLines (printable_bodyLines (printable_of_compile h))⟩

/-! ## The statements of a table -/

/-- The statements of the node table, after its label. -/
def Table.nodeStatements (table : Table) : List Statement :=
  (nullRecordLines.tail ++ table.entries.flatMap Entry.lines).map AsmLine.statement ++
    [.silent, .silent]

/-- The statements of the table of pointers, after its label. -/
def Table.pointerStatements (table : Table) : List Statement :=
  .equate "mNullNameId" 0 :: .word "mNullName" ::
    (table.names.flatMap NameEntry.pointerLines).map AsmLine.statement ++ [.silent, .silent]

/-- The statements of the pool, after its first label. -/
def Table.poolStatements (table : Table) : List Statement :=
  .bytes :: (table.names.flatMap NameEntry.poolLines).map AsmLine.statement

/-- A table is laid out in three parts, and each of them begins with a label. -/
theorem Table.statements_bodyLines (table : Table) :
    table.bodyLines.map AsmLine.statement =
      .label "mMenuTable" :: (table.nodeStatements ++ .label "mMenuNameTable" ::
        (table.pointerStatements ++ .label "mNullName" :: table.poolStatements)) := by
  simp [Table.bodyLines, Table.nodeLines, Table.pointerLines, Table.poolLines, nullRecordLines,
    Table.nodeStatements, Table.pointerStatements, Table.poolStatements, AsmLine.statement]

/-- Headings between the records of a node table are comments: whoever skips those sees the records
alone. -/
theorem filterMap_entries {β : Type} {f : Statement → Option β} (h : f .silent = none)
    (entries : List Entry) :
    ((entries.flatMap Entry.lines).map AsmLine.statement).filterMap f =
      (entries.filterMap Entry.record?).flatMap fun record =>
        (record.lines.map AsmLine.statement).filterMap f := by
  induction entries with
  | nil => rfl
  | cons entry entries ih =>
    rw [List.flatMap_cons, List.map_append, List.filterMap_append, ih]
    cases entry with
    | groupChildren group =>
      rw [List.filterMap_cons_none (f := Entry.record?) rfl]
      exact congrArg (· ++ _) (List.filterMap_cons_none h)
    | groupRow group row =>
      rw [List.filterMap_cons_none (f := Entry.record?) rfl]
      exact congrArg (· ++ _) (List.filterMap_cons_none h)
    | node record => rfl

section Scanning

variable {β : Type} {f : Statement → Option β}

/-- Apart from comments, a node table consists of its null record and the records of its nodes. -/
theorem Table.filterMap_nodeStatements (h : f .silent = none) (table : Table) :
    table.nodeStatements.filterMap f =
      (nullRecordLines.tail.map AsmLine.statement).filterMap f ++
        table.records.flatMap fun record => (record.lines.map AsmLine.statement).filterMap f := by
  rw [Table.nodeStatements, List.map_append, List.filterMap_append, List.filterMap_append,
    filterMap_entries h, List.filterMap_cons_none h, List.filterMap_cons_none h, List.filterMap_nil,
    List.append_nil]
  rfl

/-- Apart from comments, a table of pointers consists of the null name and the pointers to its
names. -/
theorem Table.filterMap_pointerStatements (h : f .silent = none) (table : Table) :
    table.pointerStatements.filterMap f =
      [.equate "mNullNameId" 0, .word "mNullName"].filterMap f ++
        table.names.flatMap fun entry =>
          (entry.pointerLines.map AsmLine.statement).filterMap f := by
  have hsplit : table.pointerStatements = [.equate "mNullNameId" 0, .word "mNullName"] ++
      (table.names.flatMap NameEntry.pointerLines).map AsmLine.statement ++ [.silent, .silent] :=
    rfl
  rw [hsplit, List.filterMap_append, List.filterMap_append, List.map_flatMap,
    List.filterMap_flatMap, List.filterMap_cons_none h, List.filterMap_cons_none h,
    List.filterMap_nil, List.append_nil]

/-- A pool consists of the null name and what each name puts into it. -/
theorem Table.filterMap_poolStatements (h : f .bytes = none) (table : Table) :
    table.poolStatements.filterMap f = table.names.flatMap fun entry =>
      (entry.poolLines.map AsmLine.statement).filterMap f := by
  rw [Table.poolStatements, List.filterMap_cons_none h, List.map_flatMap, List.filterMap_flatMap]

end Scanning

end SoftMenu
