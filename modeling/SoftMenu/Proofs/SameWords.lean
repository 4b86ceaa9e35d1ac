import SoftMenu.Proofs.Reading
import SoftMenu.Proofs.Unplaced

/-!
# Sources with the same words

The reader, too, decides nothing by the places of words (`Reader.Unplaces.step`). A compilation can
therefore be compared with one that is given the words alone (`matched_compile_words`), and two
sources with the same words compile alike.
-/

namespace SoftMenu

/-! ## Reading -/

/-- What a diagnostic says apart from its place; the sentence for the reader names a line. -/
def Diagnostic.gist (diagnostic : Diagnostic) : String × Severity × Option Context :=
  (diagnostic.id, diagnostic.severity, diagnostic.context)

/-- A word without its place. -/
def Token.unplaced (token : Token) : Token := ⟨token.text, nowhere⟩

/-- An open group without places. -/
def OpenGroup.unplaced (group : OpenGroup) : OpenGroup :=
  ⟨group.info.relocate unplace, group.rows.map (Row.relocate unplace (Node.relocate unplace))⟩

/-- An open row without places. -/
def OpenRow.unplaced (row : OpenRow) : OpenRow :=
  ⟨row.group.unplaced, nowhere, row.slots.map (Node.relocate unplace)⟩

/-- What is expected, without places. -/
def Expectation.unplaced : Expectation → Expectation
  | .configKeyword => .configKeyword
  | .configOpen => .configOpen
  | .configKey => .configKey
  | .configValue key token => .configValue key token.unplaced
  | .rootKeyword => .rootKeyword
  | .groupName keyword outer => .groupName keyword.unplaced (outer.map OpenRow.unplaced)
  | .groupLabel keyword name outer =>
    .groupLabel keyword.unplaced name.unplaced (outer.map OpenRow.unplaced)
  | .groupOpen group outer => .groupOpen group.unplaced (outer.map OpenRow.unplaced)
  | .groupBody group outer => .groupBody group.unplaced (outer.map OpenRow.unplaced)
  | .rowOpen row outer => .rowOpen row.unplaced (outer.map OpenRow.unplaced)
  | .rowBody row outer => .rowBody row.unplaced (outer.map OpenRow.unplaced)
  | .itemName keyword row outer =>
    .itemName keyword.unplaced row.unplaced (outer.map OpenRow.unplaced)
  | .itemLabel keyword name row outer =>
    .itemLabel keyword.unplaced name.unplaced row.unplaced (outer.map OpenRow.unplaced)
  | .altItemName keyword row outer =>
    .altItemName keyword.unplaced row.unplaced (outer.map OpenRow.unplaced)
  | .altItemAltName keyword name row outer =>
    .altItemAltName keyword.unplaced name.unplaced row.unplaced (outer.map OpenRow.unplaced)
  | .altItemLabel keyword name altName row outer =>
    .altItemLabel keyword.unplaced name.unplaced altName.unplaced row.unplaced
      (outer.map OpenRow.unplaced)
  | .finished root => .finished (root.relocate unplace)

/-- What is asked for instead of a wrong word does not depend on places. -/
theorem instead_unplaced (expectation : Expectation) :
    expectation.unplaced.instead = expectation.instead := by
  cases expectation <;> rfl

theorem afterSlot_unplaced (slot : Node) (row : OpenRow) (outer : List OpenRow) :
    afterSlot (slot.relocate unplace) row.unplaced (outer.map OpenRow.unplaced) =
      (afterSlot slot row outer).unplaced := rfl

theorem afterRow_unplaced (row : OpenRow) (outer : List OpenRow) :
    afterRow row.unplaced (outer.map OpenRow.unplaced) = (afterRow row outer).unplaced := by
  simp [afterRow, Expectation.unplaced, OpenRow.unplaced, OpenGroup.unplaced, Row.relocate, unplace]

/-- After a group the reader goes on in the row around it, or is done, whatever the places. -/
theorem afterGroup_unplaced (group : OpenGroup) (outer : List OpenRow) :
    afterGroup group.unplaced (outer.map OpenRow.unplaced) = (afterGroup group outer).unplaced := by
  have hnode : Node.group group.unplaced.info group.unplaced.rows.reverse =
      (Node.group group.info group.rows.reverse).relocate unplace := by
    rw [Node.relocate_group, List.map_reverse]
    rfl
  unfold afterGroup
  rw [hnode]
  cases outer with
  | nil => rfl
  | cons row outer => rfl

/-- A reader that has read the same words at no places. -/
structure Reader.Unplaces (reader bare : Reader) : Prop where
  config : bare.config = reader.config
  warnings : bare.warnings.map Diagnostic.gist = reader.warnings.map Diagnostic.gist
  expectation : bare.expectation = reader.expectation.unplaced

namespace Reader.Unplaces

variable {reader bare : Reader}

/-- Readers that go on to expect the same go on alike. -/
theorem expecting (h : reader.Unplaces bare) {next next' : Expectation}
    (hnext : next' = next.unplaced) :
    (reader.expecting next).Unplaces (bare.expecting next') :=
  ⟨h.config, h.warnings, hnext⟩

/-- Both readers ask for the same instead of a wrong word. -/
theorem reject (h : reader.Unplaces bare) (token : Token) :
    Matched CompileError.unplaced (fun _ => False) Reader.Unplaces (reader.reject token)
      (bare.reject token.unplaced) := by
  unfold Reader.reject
  rw [h.expectation, instead_unplaced]
  exact .errors _

/-- A word that is asked for is accepted by both readers or by neither. -/
theorem require (h : reader.Unplaces bare) (word : String) (token : Token)
    {next next' : Expectation} (hnext : next' = next.unplaced) :
    Matched CompileError.unplaced (fun _ => False) Reader.Unplaces (reader.require word token next)
      (bare.require word token.unplaced next') := by
  unfold Reader.require
  exact .ite (.values (h.expecting hnext)) (h.reject token)

/-- A setting is taken over by both readers, and both warn of one that is replaced. -/
theorem configure (h : reader.Unplaces bare) (key : ConfigKey) (token value : Token) :
    (reader.configure key token value).Unplaces
      (bare.configure key token.unplaced value.unplaced) := by
  unfold Reader.configure
  refine ⟨congrArg (Config.set · key value.text) h.config, ?_, rfl⟩
  rw [List.map_append, List.map_append, h.warnings, h.config]
  cases reader.config.get? key <;> rfl

/-- No word is treated differently because of its place. -/
theorem step (h : reader.Unplaces bare) (token : Token) :
    Matched CompileError.unplaced (fun _ => False) Reader.Unplaces (reader.step token)
      (bare.step token.unplaced) := by
  unfold Reader.step
  rw [h.expectation]
  cases reader.expectation with
  | configKeyword => exact h.require _ token rfl
  | configOpen => exact h.require _ token rfl
  | configKey =>
    dsimp only [Expectation.unplaced, Token.unplaced]
    cases ConfigKey.ofWord? token.text with
    | some key => exact .values (h.expecting rfl)
    | none => exact h.require _ token rfl
  | configValue key keyToken => exact .values (h.configure key keyToken token)
  | rootKeyword => exact h.require _ token rfl
  | groupName keyword outer => exact .values (h.expecting rfl)
  | groupLabel keyword name outer => exact .values (h.expecting rfl)
  | groupOpen group outer => exact h.require _ token rfl
  | groupBody group outer =>
    exact .ite (.values (h.expecting rfl)) (h.require _ token (afterGroup_unplaced group outer))
  | rowOpen row outer => exact h.require _ token rfl
  | rowBody row outer =>
    exact .ite (.values (h.expecting rfl)) (.ite (.values (h.expecting rfl))
      (.ite (.values (h.expecting rfl)) (h.require _ token (afterRow_unplaced row outer))))
  | itemName keyword row outer => exact .values (h.expecting rfl)
  | itemLabel keyword name row outer =>
    have hslot := Node.relocate_item unplace (declare keyword name token)
    refine .values (h.expecting ?_)
    rw [← afterSlot_unplaced, hslot]
    rfl
  | altItemName keyword row outer => exact .values (h.expecting rfl)
  | altItemAltName keyword name row outer => exact .values (h.expecting rfl)
  | altItemLabel keyword name altName row outer =>
    have hslot :=
      Node.relocate_altItem unplace (declare keyword name token) { text := altName.text }
    refine .values (h.expecting ?_)
    rw [← afterSlot_unplaced, hslot]
    rfl
  | finished root => exact .ite (.errors _) (h.reject token)

/-- No list of words is treated differently because of their places. -/
theorem run (h : reader.Unplaces bare) (tokens : List Token) :
    Matched CompileError.unplaced (fun _ => False) Reader.Unplaces (reader.run tokens)
      (bare.run (tokens.map Token.unplaced)) := by
  induction tokens generalizing reader bare with
  | nil => exact .values h
  | cons token tokens ih =>
    rw [List.map_cons, Reader.run_cons, Reader.run_cons]
    exact (h.step token).bind fun _ _ hnext => ih hnext

end Reader.Unplaces

/-- A menu definition that has been read from the same words at no places. -/
structure Parsed.Unplaces (parsed bare : Parsed) : Prop where
  file : bare.file = parsed.file.relocate unplace
  warnings : bare.warnings.map Diagnostic.gist = parsed.warnings.map Diagnostic.gist

/-- At the end of the words both readers are done, or neither is. -/
theorem Reader.Unplaces.finish {reader bare : Reader} (h : reader.Unplaces bare) (place : Place) :
    Matched CompileError.unplaced (fun _ => False) Parsed.Unplaces (reader.finish place)
      (bare.finish nowhere) := by
  unfold Reader.finish
  rw [h.expectation]
  cases reader.expectation with
  | finished root =>
    refine .values ⟨?_, h.warnings⟩
    rw [h.config]
    rfl
  | rootKeyword => exact .errors _
  | _ => exact .errors _

/-- A source is read like its words alone. -/
theorem matched_parse_words (source : String) :
    Matched CompileError.unplaced (fun _ => False) Parsed.Unplaces (parse source)
      (parseTokens ((tokenize source).map Token.unplaced) nowhere) := by
  have hstart : Reader.Unplaces {} {} := ⟨rfl, rfl, rfl⟩
  exact (hstart.run (tokenize source)).bind fun _ _ h => h.finish (endPlace source)

/-! ## Compiling -/

/-- What a compilation makes of a menu definition that has been read. -/
def Compilation.ofParsed (options : CompileOptions) (parsed : Parsed) :
    Except CompileError Compilation := do
  let (padded, _) ← (validate parsed.file).toExcept
  let (numbered, registry) ← (assignIds options.duplicateNames padded).toExcept
  let (file, _) ← (explodeNames numbered).toExcept
  let table ← Table.ofFile file
  return {
    file
    parsed := if options.snapshotParsed then some parsed.file else none
    registry
    table
    assembly := table.assembly options.sourceName
    warnings := parsed.warnings }

/-- A compilation of the same words at no places. -/
structure Compilation.Unplaces (compilation bare : Compilation) : Prop where
  file : bare.file = compilation.file.relocate unplace
  parsed : bare.parsed = compilation.parsed.map (MenuFile.relocate unplace)
  registry : bare.registry = compilation.registry.unplaced
  table : bare.table = compilation.table
  assembly : bare.assembly = compilation.assembly
  warnings : bare.warnings.map Diagnostic.gist = compilation.warnings.map Diagnostic.gist

/-- A menu without places compiles, or fails to, as the menu does. -/
theorem matched_ofParsed (options : CompileOptions) {parsed bare : Parsed}
    (h : parsed.Unplaces bare) :
    Matched CompileError.unplaced (fun _ => False) Compilation.Unplaces
      (Compilation.ofParsed options parsed) (Compilation.ofParsed options bare) := by
  unfold Compilation.ofParsed
  rw [h.file]
  refine (holds_validate parsed.file).matched.bind ?_
  rintro ⟨padded, _⟩ ⟨_, _⟩ ⟨rfl, -⟩
  refine (holds_assignIds_relocate options.duplicateNames padded).matched.bind ?_
  rintro ⟨numbered, registry⟩ ⟨_, _⟩ ⟨rfl, rfl⟩
  refine (holds_explodeNames numbered).matched.bind ?_
  rintro ⟨file, _⟩ ⟨_, _⟩ ⟨rfl, -⟩
  dsimp only
  rw [ofFile_relocate]
  refine (matched_mapError _ _ (Table.ofFile file)).bind ?_
  rintro table _ rfl
  refine .values ⟨rfl, ?_, rfl, rfl, rfl, h.warnings⟩
  dsimp only
  split_ifs <;> rfl

/-- A compilation ends like one that is given the words alone. -/
theorem matched_compile_words (options : CompileOptions) (source : String) :
    Matched CompileError.unplaced (fun _ => False) Compilation.Unplaces (compile options source)
      (parseTokens ((tokenize source).map Token.unplaced) nowhere >>=
        Compilation.ofParsed options) :=
  (matched_parse_words source).bind fun _ _ h => matched_ofParsed options h

/-- Two compilations are the same apart from places. -/
structure Compilation.SameButPlaces (first second : Compilation) : Prop where
  file : first.file.relocate unplace = second.file.relocate unplace
  parsed : first.parsed.map (MenuFile.relocate unplace) =
    second.parsed.map (MenuFile.relocate unplace)
  table : first.table = second.table
  assembly : first.assembly = second.assembly
  nodeCount : first.registry.nodeCount = second.registry.nodeCount
  idOfLabel? : ∀ label, first.registry.idOfLabel? label = second.registry.idOfLabel? label
  kindOfName? : ∀ name, first.registry.kindOfName? name = second.registry.kindOfName? name
  warnings : first.warnings.map Diagnostic.gist = second.warnings.map Diagnostic.gist

/-- Compilations that come down to the same one without places are the same apart from places. -/
theorem Compilation.Unplaces.sameButPlaces {first second bare : Compilation}
    (hfirst : first.Unplaces bare) (hsecond : second.Unplaces bare) :
    first.SameButPlaces second := by
  have hregistry : first.registry.unplaced = second.registry.unplaced :=
    hfirst.registry.symm.trans hsecond.registry
  refine ⟨hfirst.file.symm.trans hsecond.file, hfirst.parsed.symm.trans hsecond.parsed,
    hfirst.table.symm.trans hsecond.table, hfirst.assembly.symm.trans hsecond.assembly,
    ?_, fun label => ?_, fun name => ?_, hfirst.warnings.symm.trans hsecond.warnings⟩
  · show first.registry.unplaced.nodeCount = second.registry.unplaced.nodeCount
    rw [hregistry]
  · rw [← Registry.idOfLabel?_unplaced, hregistry, Registry.idOfLabel?_unplaced]
  · show first.registry.unplaced.kindOfName? name = second.registry.unplaced.kindOfName? name
    rw [hregistry]

/-- Layout, comments and blank lines do not matter: two sources with the same words either both
compile, to the same apart from places, or both fail with the same error apart from places. -/
theorem compile_of_same_words (options : CompileOptions) {source source' : String}
    (h : (tokenize source).map Token.text = (tokenize source').map Token.text) :
    (∃ compilation compilation', compile options source = .ok compilation ∧
        compile options source' = .ok compilation' ∧ compilation.SameButPlaces compilation') ∨
      ∃ error error' : CompileError, compile options source = .error error ∧
        compile options source' = .error error' ∧ error.unplaced = error'.unplaced := by
  have hunplaced : ∀ tokens : List Token,
      tokens.map Token.unplaced = (tokens.map Token.text).map fun text => ⟨text, nowhere⟩ := by
    intro tokens
    rw [List.map_map]
    rfl
  have hfirst := matched_compile_words options source
  have hsecond := matched_compile_words options source'
  rw [hunplaced, h, ← hunplaced] at hfirst
  generalize parseTokens ((tokenize source').map Token.unplaced) nowhere >>=
    Compilation.ofParsed options = bare at hfirst hsecond
  generalize compile options source = result, compile options source' = result' at hfirst hsecond
  cases hfirst with
  | alone halone _ => exact halone.elim
  | errors error =>
    refine .inr ?_
    generalize hbare : error.unplaced = bare at hsecond
    cases hsecond with
    | alone halone _ => exact halone.elim
    | errors error' => exact ⟨error, error', rfl, rfl, hbare⟩
  | values hvalues =>
    refine .inl ?_
    cases hsecond with
    | alone halone _ => exact halone.elim
    | values hvalues' => exact ⟨_, _, rfl, rfl, hvalues.sameButPlaces hvalues'⟩

/-- A menu on one line. -/
def tightMenu : String := "MenuConfig [ ] MenuGroup T T [ MenuRow [ MenuItem A A ] ]"

/-- The same words on several lines, with comments. -/
def looseMenu : String := "MenuConfig [ ]#A\n\nMenuGroup T T [\n\tMenuRow [\nMenuItem A#]\nA ]\n]"

theorem compile_of_same_words_loose :
    (tokenize looseMenu).map Token.text = (tokenize tightMenu).map Token.text ∧
      ∃ compilation compilation', compile ⟨"menu", .strict, false⟩ looseMenu = .ok compilation ∧
        compile ⟨"menu", .strict, false⟩ tightMenu = .ok compilation' ∧
        compilation.SameButPlaces compilation' := by
  have hwords : (tokenize looseMenu).map Token.text = (tokenize tightMenu).map Token.text := by
    decide +kernel
  have hsome : (compile ⟨"menu", .strict, false⟩ tightMenu).toOption.isSome = true := by
    decide +kernel
  obtain ⟨_, hcompile⟩ := exists_ok_of_isSome hsome
  refine ⟨hwords, ?_⟩
  rcases compile_of_same_words ⟨"menu", .strict, false⟩ hwords with hok | ⟨_, error, -, herror, -⟩
  · exact hok
  · cases hcompile.symm.trans herror

end SoftMenu
