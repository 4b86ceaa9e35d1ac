import SoftMenu.Proofs.Reading

/-!
# Menu definitions that can be read, and those that cannot

`parse` accepts exactly the texts whose words are in the grammar, and gives the tree of their only
derivation (`parse_iff_derivation`).

A text that is not accepted is reported at the first word that cannot be right
(`parse_error_place`). This is so because every state of the reader can still be completed: each
state knows a word that brings it one step nearer to the end of the definition
(`Reader.step_towards`), so what has been read without a fault is the beginning of a menu
definition.
-/

namespace SoftMenu

theorem parseTokens_of_run {tokens : List Token} {reader : Reader}
    (h : Reader.run {} tokens = .ok reader) (place : Place) :
    parseTokens tokens place = reader.finish place := by
  show (Reader.run {} tokens >>= fun reader => reader.finish place) = _
  rw [h]
  rfl

theorem parseTokens_of_error {tokens : List Token} {error : CompileError}
    (h : Reader.run {} tokens = .error error) (place : Place) :
    parseTokens tokens place = .error error := by
  show (Reader.run {} tokens >>= fun reader => reader.finish place) = _
  rw [h]
  rfl

/-! ## The only derivation -/

/-- Tokens with the given words. -/
def tokensOf (words : List String) : List Token := words.map fun word => ⟨word, default⟩

theorem text_tokensOf (words : List String) : (tokensOf words).map Token.text = words := by
  simp [tokensOf, Function.comp_def]

/-- No two derivations derive the same words. -/
theorem FileTree.words_injective {tree tree' : FileTree} (h : tree.words = tree'.words) :
    tree = tree' := by
  -- Both derivations steer the reader over the same words, so it ends with one tree.
  obtain ⟨-, -, next, root, -, -, hroot, -, hrun⟩ := run_file (text_tokensOf tree.words)
  obtain ⟨-, -, next', root', -, -, hroot', -, hrun'⟩ :=
    run_file ((text_tokensOf tree.words).trans h)
  have hsame : root = root' := by
    have := congrArg Reader.expectation (Except.ok.inj (hrun.symm.trans hrun'))
    exact Expectation.finished.inj this
  have htree : tree.root = tree'.root := by rw [← hroot, ← hroot', hsame]
  have hsettings : tree.settings = tree'.settings := by
    simp only [FileTree.words, configBlock, List.cons_append, List.cons.injEq, true_and,
      List.append_assoc] at h
    exact (settings_unique h).1
  obtain ⟨settings, name, label, rows⟩ := tree
  obtain ⟨settings', name', label', rows'⟩ := tree'
  obtain ⟨rfl, rfl, rfl⟩ := SlotTree.group.inj htree
  obtain rfl : settings = settings' := hsettings
  rfl

/-- Reading comes to an end of the root exactly over a menu definition. -/
theorem finished_iff_inGrammar {tokens : List Token} {reader : Reader}
    (h : Reader.run {} tokens = .ok reader) :
    (∃ root, reader.expectation = .finished root) ↔ InGrammar (tokens.map Token.text) := by
  constructor
  · rintro ⟨root, hroot⟩
    obtain ⟨tree, htree, -⟩ := (Reader.hasRead_nil.run h).tree hroot
    exact ⟨tree, htree⟩
  · rintro ⟨tree, htree⟩
    obtain ⟨-, -, next, root, -, -, -, -, hrun⟩ := run_file htree.symm
    obtain rfl := Except.ok.inj (h.symm.trans hrun)
    exact ⟨root, rfl⟩

/-- Reading comes to the keyword of the root exactly over a block of settings. -/
theorem rootKeyword_iff_configBlock {tokens : List Token} {reader : Reader}
    (h : Reader.run {} tokens = .ok reader) :
    reader.expectation = .rootKeyword ↔
      ∃ settings, tokens.map Token.text = configBlock settings := by
  constructor
  · intro hroot
    obtain ⟨-, settings, hwords⟩ := Reader.hasRead_nil.run h
    rw [hroot] at hwords
    exact ⟨settings, by simpa [Expectation.configWords, Expectation.words] using hwords.symm⟩
  · rintro ⟨settings, hwords⟩
    obtain ⟨next, hrun⟩ := run_configBlock hwords
    obtain rfl := Except.ok.inj (h.symm.trans hrun)
    rfl

theorem finish_eq_ok_iff {reader : Reader} {place : Place} {parsed : Parsed} :
    reader.finish place = .ok parsed ↔
      ∃ root, reader.expectation = .finished root ∧
        parsed = ⟨⟨reader.config, root⟩, reader.warnings⟩ := by
  unfold Reader.finish
  cases reader.expectation <;> simp [eq_comm]

theorem parse_of_words {source : String} {tree : FileTree}
    (htree : tree.words = (tokenize source).map Token.text) :
    ∃ parsed, parse source = .ok parsed ∧ parsed.file.root.outline = tree.root ∧
      ∃ before after : List Token, tokenize source = before ++ after ∧
        before.map Token.text = configBlock tree.settings ∧ parsed.file.root.DeclaredBy after := by
  obtain ⟨before, after, next, root, hsplit, hbefore, hroot, hdeclared, hrun⟩ := run_file htree.symm
  have hparse : parse source = .ok ⟨⟨next.config, root⟩, next.warnings⟩ :=
    parseTokens_of_run hrun _
  exact ⟨_, hparse, hroot, before, after, hsplit, hbefore, hdeclared⟩

theorem words_of_parse {source : String} {parsed : Parsed} (h : parse source = .ok parsed) :
    ∃ tree : FileTree, tree.words = (tokenize source).map Token.text ∧
      tree.root = parsed.file.root.outline := by
  cases hrun : Reader.run {} (tokenize source) with
  | error error => rw [parse, parseTokens_of_error hrun] at h; cases h
  | ok reader =>
    rw [parse, parseTokens_of_run hrun, finish_eq_ok_iff] at h
    obtain ⟨root, hroot, rfl⟩ := h
    exact (Reader.hasRead_nil.run hrun).tree hroot

/-- A text is read exactly if its words are in the grammar. There is only one derivation of them,
and the tree that is read is the tree of this derivation: the words after the settings declare it,
with the place of the keyword at each node and row, and nothing has been numbered or exploded. -/
theorem parse_iff_derivation (source : String) :
    ((∃ parsed, parse source = .ok parsed) ↔ InGrammar ((tokenize source).map Token.text)) ∧
    (∀ tree tree' : FileTree, tree.words = (tokenize source).map Token.text →
      tree'.words = (tokenize source).map Token.text → tree = tree') ∧
    ∀ (parsed : Parsed) (tree : FileTree), parse source = .ok parsed →
      tree.words = (tokenize source).map Token.text →
      parsed.file.root.outline = tree.root ∧
      ∃ before after : List Token, tokenize source = before ++ after ∧
        before.map Token.text = configBlock tree.settings ∧ parsed.file.root.DeclaredBy after := by
  refine ⟨⟨?_, ?_⟩, fun tree tree' h h' => FileTree.words_injective (h.trans h'.symm), ?_⟩
  · rintro ⟨parsed, hparsed⟩
    obtain ⟨tree, htree, -⟩ := words_of_parse hparsed
    exact ⟨tree, htree⟩
  · rintro ⟨tree, htree⟩
    obtain ⟨parsed, hparsed, -⟩ := parse_of_words htree
    exact ⟨parsed, hparsed⟩
  · intro parsed tree hparsed htree
    obtain ⟨parsed', hparsed', hrest⟩ := parse_of_words htree
    obtain rfl := Except.ok.inj (hparsed.symm.trans hparsed')
    exact hrest

/-- Brackets may be names and labels. -/
example : (parse "MenuConfig [ ] MenuGroup [ ] [ MenuRow [ MenuItem [ ] ] ]").toOption.map
      (fun parsed => parsed.file.root.flatten.map fun node => (node.kind, node.name, node.label)) =
    some [(.group, "[", "]"), (.item, "[", "]")] := by
  decide +kernel

/-! ## Every state can be completed -/

namespace Expectation

/-- A word that brings the reader nearer to the end of the definition. -/
def closingWord : Expectation → String
  | .configKeyword => "MenuConfig"
  | .configOpen | .groupOpen .. | .rowOpen .. => "["
  | .configKey | .groupBody .. | .rowBody .. => "]"
  | .rootKeyword => "MenuGroup"
  | _ => "Any"

/-- The number of closing words up to the end of the definition. Every row that is open around the
reader takes two of them, for itself and for its group. -/
def distance : Expectation → Nat
  | .configKeyword => 8
  | .configOpen | .configValue .. => 7
  | .configKey => 6
  | .rootKeyword => 5
  | .groupName _ outer => 2 * outer.length + 4
  | .groupLabel _ _ outer => 2 * outer.length + 3
  | .groupOpen _ outer => 2 * outer.length + 2
  | .groupBody _ outer => 2 * outer.length + 1
  | .rowOpen _ outer => 2 * outer.length + 3
  | .rowBody _ outer => 2 * outer.length + 2
  | .itemName _ _ outer => 2 * outer.length + 4
  | .itemLabel _ _ _ outer => 2 * outer.length + 3
  | .altItemName _ _ outer => 2 * outer.length + 5
  | .altItemAltName _ _ _ outer => 2 * outer.length + 4
  | .altItemLabel _ _ _ _ outer => 2 * outer.length + 3
  | .finished _ => 0

theorem distance_eq_zero_iff {expectation : Expectation} :
    expectation.distance = 0 ↔ ∃ root, expectation = .finished root := by
  cases expectation <;> simp [distance]

end Expectation

theorem distance_afterGroup (group : OpenGroup) (outer : List OpenRow) :
    (afterGroup group outer).distance = 2 * outer.length := by
  cases outer with
  | nil => rfl
  | cons row outer =>
    rw [List.length_cons]
    exact (Nat.mul_succ 2 outer.length).symm

/-- The closing word of a state is accepted, and it brings the reader one step nearer to the end. -/
theorem Reader.step_towards (reader : Reader) {expectation : Expectation} (token : Token)
    {distance : Nat} (hdistance : expectation.distance = distance + 1)
    (htoken : token.text = expectation.closingWord) :
    ∃ next, (reader.expecting expectation).step token = .ok next ∧
      next.expectation.distance = distance := by
  cases expectation with
  | configKeyword => exact ⟨_, Reader.step_configKeyword htoken, Nat.succ.inj hdistance⟩
  | configOpen => exact ⟨_, Reader.step_configOpen htoken, Nat.succ.inj hdistance⟩
  | configKey => exact ⟨_, Reader.step_configClose htoken, Nat.succ.inj hdistance⟩
  | rootKeyword => exact ⟨_, Reader.step_rootKeyword htoken, Nat.succ.inj hdistance⟩
  | groupOpen group outer => exact ⟨_, Reader.step_groupOpen htoken, Nat.succ.inj hdistance⟩
  | groupBody group outer =>
    refine ⟨_, Reader.step_groupClose htoken, ?_⟩
    rw [Reader.expecting_expectation, distance_afterGroup]
    exact Nat.succ.inj hdistance
  | rowOpen row outer => exact ⟨_, Reader.step_rowOpen htoken, Nat.succ.inj hdistance⟩
  | rowBody row outer => exact ⟨_, Reader.step_rowClose htoken, Nat.succ.inj hdistance⟩
  | finished root => cases hdistance
  -- In all other states any word will do.
  | configValue | groupName | groupLabel | itemName | itemLabel | altItemName | altItemAltName
  | altItemLabel => exact ⟨_, rfl, Nat.succ.inj hdistance⟩

/-- From every state the reader comes to the end over as many words as its distance. -/
theorem Reader.exists_completion (reader : Reader) :
    ∃ (tokens : List Token) (next : Reader) (root : Node), reader.run tokens = .ok next ∧
      next.expectation = .finished root ∧ tokens.length = reader.expectation.distance := by
  induction hdistance : reader.expectation.distance generalizing reader with
  | zero =>
    obtain ⟨root, hroot⟩ := Expectation.distance_eq_zero_iff.1 hdistance
    exact ⟨[], reader, root, rfl, hroot, rfl⟩
  | succ distance ih =>
    let token : Token := ⟨reader.expectation.closingWord, default⟩
    obtain ⟨middle, hstep, hmiddle⟩ := reader.step_towards token hdistance rfl
    obtain ⟨tokens, next, root, hrun, hroot, hlength⟩ := ih middle hmiddle
    have hall := (Reader.run_cons_of_step hstep tokens).trans hrun
    exact ⟨token :: tokens, next, root, hall, hroot, by rw [List.length_cons, hlength]⟩

/-! ## Viable words -/

/-- The words are the beginning of a menu definition, possibly all of it. -/
def Viable (words : List String) : Prop := ∃ rest, InGrammar (words ++ rest)

/-- What has been read without a fault can be completed, by no words only if it is complete. -/
theorem viable_of_run {tokens : List Token} {reader : Reader}
    (h : Reader.run {} tokens = .ok reader) :
    ∃ rest : List String, InGrammar (tokens.map Token.text ++ rest) ∧
      rest.length = reader.expectation.distance := by
  obtain ⟨rest, next, root, hrun, hroot, hlength⟩ := reader.exists_completion
  have hall : Reader.run {} (tokens ++ rest) = .ok next :=
    (Reader.run_append_of_run h rest).trans hrun
  refine ⟨rest.map Token.text, ?_, by rw [List.length_map, hlength]⟩
  rw [← List.map_append]
  exact (finished_iff_inGrammar hall).1 ⟨root, hroot⟩

theorem not_viable_of_step_error {tokens : List Token} {reader : Reader} {token : Token}
    {error : CompileError} (h : Reader.run {} tokens = .ok reader)
    (herror : reader.step token = .error error) :
    ¬ Viable ((tokens ++ [token]).map Token.text) := by
  rintro ⟨rest, tree, htree⟩
  have htokens : (tokens ++ token :: tokensOf rest).map Token.text = tree.words := by
    rw [htree, List.map_append, List.map_append, List.map_cons, text_tokensOf]
    simp
  obtain ⟨-, -, next, root, -, -, -, -, hrun⟩ := run_file htokens
  rw [Reader.run_append_of_run h, Reader.run_cons, herror] at hrun
  cases hrun

/-- A run that fails does so at one word, after a run that does not. -/
theorem Reader.exists_step_error {reader : Reader} {tokens : List Token} {error : CompileError}
    (h : reader.run tokens = .error error) :
    ∃ (before : List Token) (token : Token) (after : List Token) (middle : Reader),
      tokens = before ++ token :: after ∧ reader.run before = .ok middle ∧
      middle.step token = .error error := by
  induction tokens generalizing reader with
  | nil => cases h
  | cons token tokens ih =>
    cases hstep : reader.step token with
    | error fault =>
      rw [Reader.run_cons, hstep] at h
      obtain rfl := Except.error.inj h
      exact ⟨[], token, tokens, reader, rfl, rfl, hstep⟩
    | ok next =>
      rw [Reader.run_cons_of_step hstep] at h
      obtain ⟨before, misfit, after, middle, rfl, hrun, hmisfit⟩ := ih h
      exact ⟨token :: before, misfit, after, middle, rfl,
        (Reader.run_cons_of_step hstep before).trans hrun, hmisfit⟩

theorem Reader.require_eq_error {reader : Reader} {word : String} {token : Token}
    {expectation : Expectation} {error : CompileError}
    (h : reader.require word token expectation = .error error) :
    error = .unexpectedToken token.text reader.expectation.instead token.place := by
  unfold Reader.require at h
  split_ifs at h
  exact (Except.error.inj h).symm

theorem Reader.step_error_cases {reader : Reader} {token : Token} {error : CompileError}
    (h : reader.step token = .error error) :
    (error = .extraRoot token.place ∧ (∃ root, reader.expectation = .finished root) ∧
        token.text = "MenuGroup") ∨
      (error = .unexpectedToken token.text reader.expectation.instead token.place ∧
        ¬ ((∃ root, reader.expectation = .finished root) ∧ token.text = "MenuGroup")) := by
  by_cases hfinished : ∃ root, reader.expectation = .finished root
  · obtain ⟨root, hroot⟩ := hfinished
    simp only [Reader.step, hroot, Reader.reject] at h
    split_ifs at h with hgroup
    · exact Or.inl ⟨(Except.error.inj h).symm, ⟨root, hroot⟩, hgroup⟩
    · exact Or.inr ⟨by rw [hroot]; exact (Except.error.inj h).symm, fun hboth => hgroup hboth.2⟩
  · refine Or.inr ⟨?_, fun hboth => hfinished hboth.1⟩
    cases he : reader.expectation with
    | configKeyword | configOpen | rootKeyword | groupOpen | rowOpen =>
      simp only [Reader.step, he] at h
      rw [Reader.require_eq_error h, he]
    | configKey =>
      simp only [Reader.step, he] at h
      split at h
      · cases h
      · rw [Reader.require_eq_error h, he]
    | groupBody group outer =>
      simp only [Reader.step, he] at h
      split_ifs at h
      rw [Reader.require_eq_error h, he]
    | rowBody row outer =>
      simp only [Reader.step, he] at h
      split_ifs at h
      rw [Reader.require_eq_error h, he]
    | finished root => exact absurd ⟨root, he⟩ hfinished
    | configValue | groupName | groupLabel | itemName | itemLabel | altItemName | altItemAltName
    | altItemLabel =>
      simp only [Reader.step, he] at h
      cases h

/-! ## Where a text is reported -/

/-- What a syntax error says about the words of the text that it is reported for. -/
def SyntaxFault (tokens : List Token) (stop : Place) : CompileError → Prop
  -- The word does not fit: what stands before it can be completed, but not with the word.
  | .unexpectedToken found _ place => ∃ (before after : List Token) (token : Token),
      tokens = before ++ token :: after ∧ place = token.place ∧ found = token.text ∧
      Viable (before.map Token.text) ∧ ¬ Viable ((before ++ [token]).map Token.text) ∧
      ¬ (InGrammar (before.map Token.text) ∧ token.text = "MenuGroup")
  -- The same, and the word begins another group after a complete definition.
  | .extraRoot place => ∃ (before after : List Token) (token : Token),
      tokens = before ++ token :: after ∧ place = token.place ∧
      Viable (before.map Token.text) ∧ ¬ Viable ((before ++ [token]).map Token.text) ∧
      InGrammar (before.map Token.text) ∧ token.text = "MenuGroup"
  -- The words are right as far as they go.
  | .unexpectedEnd _ place => place = stop ∧
      (∃ rest, rest ≠ [] ∧ InGrammar (tokens.map Token.text ++ rest)) ∧
      ¬ InGrammar (tokens.map Token.text) ∧
      ¬ ∃ settings, tokens.map Token.text = configBlock settings
  -- The same, and they are the settings alone.
  | .missingRoot place => place = stop ∧
      (∃ rest, rest ≠ [] ∧ InGrammar (tokens.map Token.text ++ rest)) ∧
      ¬ InGrammar (tokens.map Token.text) ∧
      ∃ settings, tokens.map Token.text = configBlock settings
  | _ => False

/-- A word that the reader rejects is reported as the first that cannot be right. -/
theorem syntaxFault_of_run {tokens : List Token} {error : CompileError}
    (h : Reader.run {} tokens = .error error) (stop : Place) :
    SyntaxFault tokens stop error ∧ error ≠ .missingRoot stop ∧
      ¬ ∃ settings, tokens.map Token.text = configBlock settings := by
  obtain ⟨before, token, after, reader, hsplit, hbefore, hstep⟩ := Reader.exists_step_error h
  obtain ⟨rest, hrest, -⟩ := viable_of_run hbefore
  have hviable : Viable (before.map Token.text) := ⟨rest, hrest⟩
  have hmisfit := not_viable_of_step_error hbefore hstep
  have hnoBlock : ¬ ∃ settings, tokens.map Token.text = configBlock settings := by
    rintro ⟨settings, hsettings⟩
    obtain ⟨next, hnext⟩ := run_configBlock hsettings
    rw [h] at hnext
    cases hnext
  rcases Reader.step_error_cases hstep with ⟨rfl, hfinished, hgroup⟩ | ⟨rfl, hother⟩
  · refine ⟨⟨before, after, token, hsplit, rfl, hviable, hmisfit, ?_, hgroup⟩, by simp, hnoBlock⟩
    exact (finished_iff_inGrammar hbefore).1 hfinished
  · refine ⟨⟨before, after, token, hsplit, rfl, rfl, hviable, hmisfit, ?_⟩, by simp, hnoBlock⟩
    exact fun hboth => hother ⟨(finished_iff_inGrammar hbefore).2 hboth.1, hboth.2⟩

/-- If all words are right, the error says what is missing after them. -/
theorem syntaxFault_of_finish {tokens : List Token} {reader : Reader} {stop : Place}
    {error : CompileError} (hrun : Reader.run {} tokens = .ok reader)
    (h : reader.finish stop = .error error) :
    SyntaxFault tokens stop error ∧ (error = .missingRoot stop ↔
      ∃ settings, tokens.map Token.text = configBlock settings) := by
  have hopen : ¬ ∃ root, reader.expectation = .finished root := by
    rintro ⟨root, hroot⟩
    rw [Reader.finish, hroot] at h
    cases h
  have hnot := mt (finished_iff_inGrammar hrun).2 hopen
  obtain ⟨rest, hrest, hlength⟩ := viable_of_run hrun
  have hproper : ∃ rest, rest ≠ [] ∧ InGrammar (tokens.map Token.text ++ rest) := by
    refine ⟨rest, ?_, hrest⟩
    rintro rfl
    exact hopen (Expectation.distance_eq_zero_iff.1 hlength.symm)
  have hroot := rootKeyword_iff_configBlock hrun
  by_cases hkeyword : reader.expectation = .rootKeyword
  · rw [Reader.finish, hkeyword] at h
    obtain rfl := Except.error.inj h
    exact ⟨⟨rfl, hproper, hnot, hroot.1 hkeyword⟩, iff_of_true rfl (hroot.1 hkeyword)⟩
  · have hend : error = .unexpectedEnd reader.expectation.atEnd stop := by
      unfold Reader.finish at h
      cases he : reader.expectation <;> simp_all
    subst hend
    have hnoBlock := mt hroot.2 hkeyword
    exact ⟨⟨rfl, hproper, hnot, hnoBlock⟩, iff_of_false (by simp) hnoBlock⟩

/-- A text that is not read is reported at the first word that cannot be right, or at its end if all
its words can. The error is that of a missing root exactly if the words are a block of settings. -/
theorem parse_error_place (source : String) (error : CompileError)
    (h : parse source = .error error) :
    SyntaxFault (tokenize source) (endPlace source) error ∧
      (error = .missingRoot (endPlace source) ↔
        ∃ settings, (tokenize source).map Token.text = configBlock settings) := by
  cases hrun : Reader.run {} (tokenize source) with
  | error fault =>
    rw [parse, parseTokens_of_error hrun] at h
    obtain rfl := Except.error.inj h
    obtain ⟨hfault, hne, hnoBlock⟩ := syntaxFault_of_run hrun (endPlace source)
    exact ⟨hfault, iff_of_false hne hnoBlock⟩
  | ok reader =>
    rw [parse, parseTokens_of_run hrun] at h
    exact syntaxFault_of_finish hrun h

theorem parse_error_place_second_root :
    parse "MenuConfig [ ]\nMenuGroup [ MenuRow [ ] # done\nMenuGroup" =
        .error (.extraRoot ⟨3, 46, 55⟩) ∧
      SyntaxFault (tokenize "MenuConfig [ ]\nMenuGroup [ MenuRow [ ] # done\nMenuGroup")
        (endPlace "MenuConfig [ ]\nMenuGroup [ MenuRow [ ] # done\nMenuGroup")
        (.extraRoot ⟨3, 46, 55⟩) := by
  have h : parse "MenuConfig [ ]\nMenuGroup [ MenuRow [ ] # done\nMenuGroup" =
      .error (.extraRoot ⟨3, 46, 55⟩) := by rfl
  exact ⟨h, (parse_error_place _ _ h).1⟩

end SoftMenu
