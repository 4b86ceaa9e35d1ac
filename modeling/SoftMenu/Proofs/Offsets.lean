import SoftMenu.Proofs.Statements

/-!
# Ids as positions

The program that shows a menu finds the record with id `n` at `9 * n` bytes after the beginning of
the node table, and the name with id `m` as entry `m` of the table of pointers. That this is where
the text puts them is `indexed_of_compile`: the bytes and words that an assembler counts before each
record are those of complete records, one for every smaller id.
-/

namespace SoftMenu

/-- The number of bytes that a statement of the node table takes up. -/
def Statement.size : Statement → Nat
  | .bytes => 1
  | .word _ => 2
  | _ => 0

/-- The number of words that a statement takes up. -/
def Statement.words : Statement → Nat
  | .word _ => 1
  | _ => 0

/-- The symbol that a statement makes the current address. -/
def Statement.label? : Statement → Option String
  | .label symbol => some symbol
  | _ => none

/-- The statements between the definitions of two labels. -/
def between (first last : String) (statements : List Statement) : List Statement :=
  ((statements.dropWhile (· ≠ .label first)).drop 1).takeWhile (· ≠ .label last)

/-- All that is found at two neighbouring statements, with the size of what stands before them. -/
def occurrences {α : Type} (find : Statement → Statement → Option α) (size : Statement → Nat)
    (offset : Nat) : List Statement → List (α × Nat)
  | first :: second :: rest =>
    ((find first second).map fun found => (found, offset)).toList ++
      occurrences find size (offset + size first) (second :: rest)
  | _ => []

/-- The label and the id of the record that begins with two statements. -/
def recordHead? : Statement → Statement → Option (String × Nat)
  | .label symbol, .equate idSymbol id =>
    if idSymbol = symbol ++ "Id" then some (symbol, id) else none
  | _, _ => none

/-- The symbol and the id of the name that two statements point to. -/
def pointer? : Statement → Statement → Option (String × Nat)
  | .equate idSymbol id, .word symbol =>
    if idSymbol = symbol ++ "Id" then some (symbol, id) else none
  | _, _ => none

/-- Records and names stand where their ids say. The node table begins with the first statement and
holds the null record and the records with the given labels, each of which has its number as its id
and begins after nine bytes for every smaller number. The table of pointers holds the null name and
the names with the given symbols, each of which has the number of words before it as its id. The
pool has strings for the same symbols. -/
structure Indexed (statements : List Statement) (labels symbols : List String) : Prop where
  first : statements.head? = some (.label "mMenuTable")
  records : occurrences recordHead? Statement.size 0
      (between "mMenuTable" "mMenuNameTable" statements) =
    ("mNull" :: labels).zipIdx.map fun entry => (entry, 9 * entry.2)
  pointers : occurrences pointer? Statement.words 0
      (between "mMenuNameTable" "mNullName" statements) =
    ("mNullName" :: symbols).zipIdx.map fun entry => (entry, entry.2)
  pool : (statements.dropWhile (· ≠ .label "mNullName")).filterMap Statement.label? =
    "mNullName" :: symbols

/-! ## Scanning statements -/

section Occurrences

variable {α : Type} {find : Statement → Statement → Option α} {size : Statement → Nat}
  {offset : Nat} {first second : Statement} {found : α}

/-- A statement that nothing begins with is passed over. -/
theorem occurrences_of_none (h : ∀ second, find first second = none) (rest : List Statement) :
    occurrences find size offset (first :: rest) =
      occurrences find size (offset + size first) rest := by
  cases rest with
  | nil => rfl
  | cons second rest =>
    rw [occurrences, h]
    rfl

/-- What begins with a statement is found at its offset. -/
theorem occurrences_of_some (h : find first second = some found) (rest : List Statement) :
    occurrences find size offset (first :: second :: rest) =
      (found, offset) :: occurrences find size (offset + size first) (second :: rest) := by
  rw [occurrences, h]
  rfl

end Occurrences

/-- A record takes up nine bytes. -/
theorem occurrences_record {label idSymbol : String} (h : idSymbol = label ++ "Id")
    (offset id : Nat) (handler selector : String) (rest : List Statement) :
    occurrences recordHead? Statement.size offset
      ([.label label, .equate idSymbol id, .bytes, .bytes, .bytes, .bytes, .bytes, .word handler,
        .word selector] ++ rest) =
      ((label, id), offset) :: occurrences recordHead? Statement.size (offset + 9) rest := by
  have hhead : recordHead? (.label label) (.equate idSymbol id) = some (label, id) := if_pos h
  have hequate : ∀ second, recordHead? (.equate idSymbol id) second = none := fun _ => rfl
  have hbytes : ∀ second, recordHead? .bytes second = none := fun _ => rfl
  have hword : ∀ operand second, recordHead? (.word operand) second = none := fun _ _ => rfl
  simp only [List.cons_append, List.nil_append]
  rw [occurrences_of_some hhead, occurrences_of_none hequate, occurrences_of_none hbytes,
    occurrences_of_none hbytes, occurrences_of_none hbytes, occurrences_of_none hbytes,
    occurrences_of_none hbytes, occurrences_of_none (hword handler),
    occurrences_of_none (hword selector)]
  rfl

theorem occurrences_pointer {symbol idSymbol : String} (h : idSymbol = symbol ++ "Id")
    (offset id : Nat) (rest : List Statement) :
    occurrences pointer? Statement.words offset ([.equate idSymbol id, .word symbol] ++ rest) =
      ((symbol, id), offset) :: occurrences pointer? Statement.words (offset + 1) rest := by
  have hhead : pointer? (.equate idSymbol id) (.word symbol) = some (symbol, id) := if_pos h
  have hword : ∀ second, pointer? (.word symbol) second = none := fun _ => rfl
  simp only [List.cons_append, List.nil_append]
  rw [occurrences_of_some hhead, occurrences_of_none hword]
  rfl

/-- The markers between records take up nothing, so a record whose id is the number of records
before it begins nine bytes after the start for each of these. -/
theorem occurrences_entries {entries : List Entry} {next : Nat}
    (h : ((entries.filterMap Entry.record?).map fun record => record.id.toNat) =
      List.range' next (entries.filterMap Entry.record?).length) (rest : List Statement) :
    occurrences recordHead? Statement.size (9 * next)
      ((entries.flatMap Entry.lines).map AsmLine.statement ++ rest) =
      (((entries.filterMap Entry.record?).map NodeRecord.label).zipIdx next).map
        (fun entry => (entry, 9 * entry.2)) ++
      occurrences recordHead? Statement.size
        (9 * (next + (entries.filterMap Entry.record?).length)) rest := by
  have hsilent : ∀ second, recordHead? .silent second = none := fun _ => rfl
  induction entries generalizing next with
  | nil => rfl
  | cons entry entries ih =>
    rw [List.flatMap_cons, List.map_append, List.append_assoc]
    cases entry with
    | groupChildren group =>
      rw [List.filterMap_cons_none rfl] at h ⊢
      rw [← ih h]
      exact occurrences_of_none hsilent _
    | groupRow group row =>
      rw [List.filterMap_cons_none rfl] at h ⊢
      rw [← ih h]
      exact occurrences_of_none hsilent _
    | node record =>
      have hrecords : (Entry.node record :: entries).filterMap Entry.record? =
        record :: entries.filterMap Entry.record? := rfl
      rw [hrecords, List.map_cons, List.length_cons, List.range'_succ, List.cons.injEq] at h
      have hlength : next + ((entries.filterMap Entry.record?).length + 1) =
          next + 1 + (entries.filterMap Entry.record?).length := by omega
      rw [hrecords, List.map_cons, List.zipIdx_cons, List.map_cons, List.length_cons, hlength,
        List.cons_append, ← ih h.2, ← h.1]
      exact occurrences_record rfl _ _ _ _ _

/-- Pointers to names that are numbered in order are found at the numbers of the names. -/
theorem occurrences_names {names : List NameEntry} {next : Nat}
    (h : (names.map fun entry => entry.id.toNat) = List.range' next names.length)
    (rest : List Statement) :
    occurrences pointer? Statement.words next
      ((names.flatMap NameEntry.pointerLines).map AsmLine.statement ++ rest) =
      ((names.map NameEntry.symbol).zipIdx next).map (fun entry => (entry, entry.2)) ++
      occurrences pointer? Statement.words (next + names.length) rest := by
  induction names generalizing next with
  | nil => rfl
  | cons name names ih =>
    rw [List.map_cons, List.length_cons, List.range'_succ, List.cons.injEq] at h
    have hlength : next + (names.length + 1) = next + 1 + names.length := by omega
    rw [List.flatMap_cons, List.map_append, List.append_assoc, List.map_cons, List.zipIdx_cons,
      List.map_cons, List.length_cons, hlength, List.cons_append, ← ih h.2, ← h.1]
    exact occurrences_pointer rfl _ _ _

/-! ## The three tables -/

/-- What stands between two labels is found, if the first one has not occurred before and the second
one does not occur in between. -/
theorem between_eq {first last : String} (before : List Statement)
    {middle after : List Statement} (hbefore : .label first ∉ before)
    (hmiddle : .label last ∉ middle) :
    between first last (before ++ .label first :: (middle ++ .label last :: after)) = middle := by
  rw [between, dropWhile_ne_append hbefore, List.drop_one, List.tail_cons,
    takeWhile_ne_append hmiddle]

theorem mem_filterMap_label {symbol : String} {statements : List Statement} :
    symbol ∈ statements.filterMap Statement.label? ↔ .label symbol ∈ statements := by
  rw [List.mem_filterMap]
  constructor
  · rintro ⟨statement, hmem, hlabel⟩
    cases statement with
    | label other =>
      obtain rfl := Option.some.inj hlabel
      exact hmem
    | _ => cases hlabel
  · intro hmem
    exact ⟨_, hmem, rfl⟩

theorem Table.labels_nodeStatements (table : Table) :
    table.nodeStatements.filterMap Statement.label? =
      "mNull" :: table.records.map NodeRecord.label := by
  rw [table.filterMap_nodeStatements rfl, List.map_eq_flatMap (f := NodeRecord.label)]
  rfl

theorem Table.labels_pointerStatements (table : Table) :
    table.pointerStatements.filterMap Statement.label? = [] := by
  rw [table.filterMap_pointerStatements rfl]
  exact List.flatMap_eq_nil_iff.2 fun _ _ => rfl

theorem Table.labels_poolStatements (table : Table) :
    table.poolStatements.filterMap Statement.label? = table.names.map NameEntry.symbol := by
  rw [table.filterMap_poolStatements rfl, List.map_eq_flatMap]
  rfl

/-- No label of the node table begins like a reserved symbol, apart from the null record and the
blanks. -/
theorem Table.LaidOut.label_notMem_nodeStatements {table : Table} {file : MenuFile}
    (h : table.LaidOut file) {symbol : String} (hnull : symbol ≠ "mNull")
    (hreserved : ∃ start ∈ reservedStarts, start.toList <+: symbol.toList)
    (hblank : ¬ "mBlank".toList <+: symbol.toList) : .label symbol ∉ table.nodeStatements := by
  rw [← mem_filterMap_label, table.labels_nodeStatements, h.labels_eq, List.mem_cons, not_or,
    List.mem_map]
  refine ⟨hnull, ?_⟩
  rintro ⟨node, hnode, hlabel⟩
  exact h.finished.label_ne hnode hreserved hblank hlabel

section LaidOut

variable {table : Table} {file : MenuFile}

theorem Table.LaidOut.occurrences_nodeStatements (h : table.LaidOut file) :
    occurrences recordHead? Statement.size 0 table.nodeStatements =
      ("mNull" :: table.records.map NodeRecord.label).zipIdx.map
        fun entry => (entry, 9 * entry.2) := by
  have hids : (table.records.map fun record => record.id.toNat) =
      List.range' 1 table.records.length := by
    have hlength := congrArg List.length h.labels_eq
    rw [List.length_map, List.length_map] at hlength
    rw [ids_records h.entries_eq, h.finished.ids_eq, hlength]
  have hid : "mNullId" = "mNull" ++ "Id" := by decide
  have hnull := occurrences_record hid 0 0 "mNullHandler" "0"
    ((table.entries.flatMap Entry.lines).map AsmLine.statement ++ [.silent, .silent])
  have hentries := occurrences_entries hids [.silent, .silent]
  rw [Table.nodeStatements, List.map_append, List.append_assoc]
  refine hnull.trans (congrArg _ (hentries.trans ?_))
  exact List.append_nil _

theorem Table.LaidOut.occurrences_pointerStatements (h : table.LaidOut file) :
    occurrences pointer? Statement.words 0 table.pointerStatements =
      ("mNullName" :: table.names.map NameEntry.symbol).zipIdx.map
        fun entry => (entry, entry.2) := by
  have hid : "mNullNameId" = "mNullName" ++ "Id" := by decide
  have hnull := occurrences_pointer hid 0 0
    ((table.names.flatMap NameEntry.pointerLines).map AsmLine.statement ++ [.silent, .silent])
  have hnames := occurrences_names h.ids_names [.silent, .silent]
  refine hnull.trans (congrArg _ (hnames.trans ?_))
  exact List.append_nil _

/-- Records and pointers of a table that is laid out stand where their ids say. -/
theorem Table.LaidOut.indexed (h : table.LaidOut file) :
    Indexed (table.bodyLines.map AsmLine.statement) (table.records.map NodeRecord.label)
      (table.names.map NameEntry.symbol) := by
  have hnames : .label "mMenuNameTable" ∉ table.nodeStatements :=
    h.label_notMem_nodeStatements (by decide) (by decide) (by decide)
  have hpool : .label "mNullName" ∉ table.nodeStatements :=
    h.label_notMem_nodeStatements (by decide) (by decide) (by decide)
  have hpointers : .label "mNullName" ∉ table.pointerStatements := by
    rw [← mem_filterMap_label, table.labels_pointerStatements]
    exact List.not_mem_nil
  rw [table.statements_bodyLines]
  refine ⟨rfl, ?_, ?_, ?_⟩
  · rw [← h.occurrences_nodeStatements]
    exact congrArg _ (between_eq [] List.not_mem_nil hnames)
  · rw [← h.occurrences_pointerStatements]
    refine congrArg _ (between_eq (.label "mMenuTable" :: table.nodeStatements) ?_ hpointers)
    exact List.not_mem_cons_of_ne_of_not_mem (by decide) hnames
  · have hbefore : .label "mNullName" ∉ .label "mMenuTable" :: (table.nodeStatements ++
        .label "mMenuNameTable" :: table.pointerStatements) := by
      simp [hpool, hpointers]
    have hdrop := dropWhile_ne_append hbefore table.poolStatements
    rw [List.cons_append, List.append_assoc, List.cons_append] at hdrop
    rw [hdrop, ← table.labels_poolStatements]
    rfl

end LaidOut

/-- A table has a record for each node that was given an id. -/
theorem length_records_of_compile {options : CompileOptions} {source : String}
    {compilation : Compilation} (h : compile options source = .ok compilation) :
    compilation.table.records.length = compilation.registry.nodeCount := by
  obtain ⟨parsed, -, hpasses, hfile, hregistry, -⟩ := passes_of_compile h
  have hlaid := congrArg List.length (laidOut_of_compile h).labels_eq
  have hexplode := congrArg List.length
    (wording_explodeNames (assignIds options.duplicateNames (validate parsed.file).value).value)
  have hassign := congrArg List.length
    (wording_assignIds options.duplicateNames (validate parsed.file).value)
  rw [List.length_map, List.length_map] at hlaid hexplode hassign
  rw [hlaid, hregistry, nodeCount_assignIds hpasses.ids, hfile, finishedMenu, hexplode, hassign]

/-- In the text of a compiled menu, records and names stand where their ids say. -/
theorem indexed_of_compile {options : CompileOptions} {source : String}
    {compilation : Compilation} (h : compile options source = .ok compilation) :
    ∃ body, compilation.assembly.toList = renderLines (headerLines options.sourceName) ++ body ∧
      Indexed (statements body) (compilation.table.records.map NodeRecord.label)
        (compilation.table.names.map NameEntry.symbol) ∧
      compilation.table.records.length = compilation.registry.nodeCount := by
  obtain ⟨body, hbody, hstatements⟩ := statements_of_compile h
  refine ⟨body, hbody, ?_, length_records_of_compile h⟩
  rw [hstatements]
  exact (laidOut_of_compile h).indexed

theorem indexed_of_compile_nested :
    ∃ compilation, compile ⟨"menu", .strict, false⟩ nestedMenu = .ok compilation ∧
      ∃ body, compilation.assembly.toList = renderLines (headerLines "menu") ++ body ∧
        Indexed (statements body) (compilation.table.records.map NodeRecord.label)
          (compilation.table.names.map NameEntry.symbol) ∧
        compilation.table.records.length = compilation.registry.nodeCount := by
  obtain ⟨compilation, hcompile⟩ := exists_compile_nestedMenu
  obtain ⟨body, hbody, hindexed⟩ := indexed_of_compile hcompile
  dsimp only at hbody
  exact ⟨compilation, hcompile, body, hbody, hindexed⟩

end SoftMenu
