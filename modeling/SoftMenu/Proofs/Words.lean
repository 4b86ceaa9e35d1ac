import SoftMenu.Proofs.Acceptance

/-!
# What words are made of

A word of a source text has no white space in it (`unbroken_of_mem_tokenize`). The names, the
labels and the settings of a menu that has been read are words (`worded_of_parse`), so whatever is
put together from them can be taken apart again at blanks and newlines.
-/

namespace SoftMenu

/-- There is no white space in the text. -/
def Unbroken (text : List Char) : Prop := ∀ c ∈ text, isWhiteSpace c = false

instance (text : List Char) : Decidable (Unbroken text) :=
  List.decidableBAll (fun c => isWhiteSpace c = false) text

@[simp] theorem unbroken_append {first second : List Char} :
    Unbroken (first ++ second) ↔ Unbroken first ∧ Unbroken second :=
  List.forall_mem_append

theorem Unbroken.space_notMem {text : List Char} (h : Unbroken text) : ' ' ∉ text := by
  intro hmem
  have hspace := h ' ' hmem
  exact absurd hspace (by decide)

theorem Unbroken.newline_notMem {text : List Char} (h : Unbroken text) : '\n' ∉ text := by
  intro hmem
  have hnewline := h '\n' hmem
  exact absurd hnewline (by decide)

/-! ## Words of a text -/

theorem unbroken_of_mem_cutWords {line offset : Nat} {word chars : List Char} {token : Token}
    (hword : Unbroken word) (h : token ∈ cutWords line offset word chars) :
    Unbroken token.text.toList := by
  have hclose : ∀ {stop : Nat} {word : List Char}, Unbroken word →
      ∀ token ∈ closeWord line stop word, Unbroken token.text.toList := by
    intro stop word hword token htoken
    rw [closeWord] at htoken
    split_ifs at htoken with hempty
    · cases htoken
    · obtain rfl := List.mem_singleton.1 htoken
      rw [String.toList_ofList]
      intro c hc
      exact hword c (List.mem_reverse.1 hc)
  induction chars generalizing offset word with
  | nil => exact hclose hword token h
  | cons c chars ih =>
    rw [cutWords] at h
    split_ifs at h with hspace
    · rcases List.mem_append.1 h with h | h
      · exact hclose hword token h
      · have hnil : Unbroken [] := List.forall_mem_nil _
        exact ih hnil h
    · have hc : isWhiteSpace c = false := by simpa using hspace
      exact ih (List.forall_mem_cons.2 ⟨hc, hword⟩) h

theorem unbroken_of_mem_tokenize {source : String} {token : Token} (h : token ∈ tokenize source) :
    Unbroken token.text.toList := by
  obtain ⟨line, -, htoken⟩ := List.mem_flatMap.1 h
  exact unbroken_of_mem_cutWords (List.forall_mem_nil _) htoken

/-! ## Words of a derivation -/

theorem words_subset_wordsOfSlots {slot : SlotTree} {slots : List SlotTree} (h : slot ∈ slots) :
    slot.words ⊆ wordsOfSlots slots := by
  induction slots with
  | nil => cases h
  | cons first slots ih =>
    rw [wordsOfSlots]
    rcases List.mem_cons.1 h with rfl | h
    · exact List.subset_append_left _ _
    · exact List.subset_append_of_subset_right _ (ih h)

theorem wordsOfSlots_subset_wordsOfRows {row : List SlotTree} {rows : List (List SlotTree)}
    (h : row ∈ rows) : wordsOfSlots row ⊆ wordsOfRows rows := by
  induction rows with
  | nil => cases h
  | cons first rows ih =>
    intro word hword
    rw [wordsOfRows]
    rcases List.mem_cons.1 h with rfl | h
    · simp [hword]
    · simp [ih h hword]

/-- Whatever a derivation says about a node is one of its words. -/
theorem SlotTree.mem_words {tree node : SlotTree} (h : node ∈ tree.nodes) :
    node.name ∈ tree.words ∧ node.label ∈ tree.words ∧
      ∀ altName ∈ node.altName?, altName ∈ tree.words := by
  induction tree using SlotTree.induction with
  | item name label =>
    obtain rfl := List.mem_singleton.1 h
    simp [SlotTree.name, SlotTree.label, SlotTree.altName?, SlotTree.words]
  | altItem name altName label =>
    obtain rfl := List.mem_singleton.1 h
    simp [SlotTree.name, SlotTree.label, SlotTree.altName?, SlotTree.words]
  | group name label rows ih =>
    rw [SlotTree.nodes_eq, List.mem_cons] at h
    rcases h with rfl | h
    · simp [SlotTree.name, SlotTree.label, SlotTree.altName?, SlotTree.words]
    · obtain ⟨slot, hslot, hnode⟩ := List.mem_flatMap.1 h
      obtain ⟨row, hrow, hslot⟩ := List.mem_flatten.1 hslot
      have hsubset : slot.words ⊆ (SlotTree.group name label rows).words := by
        intro word hword
        have hrows : word ∈ wordsOfRows rows :=
          wordsOfSlots_subset_wordsOfRows hrow (words_subset_wordsOfSlots hslot hword)
        simp [SlotTree.words, hrows]
      obtain ⟨hname, hlabel, haltName⟩ := ih row hrow slot hslot hnode
      exact ⟨hsubset hname, hsubset hlabel, fun altName h => hsubset (haltName altName h)⟩

/-! ## Settings -/

theorem Config.get?_set {config : Config} {key other : ConfigKey} {value : String} :
    (config.set key value).get? other = if key = other then some value else config.get? other := by
  cases key <;> cases other <;> rfl

/-- A word leaves the settings alone or becomes the value of one of them. -/
theorem Reader.step_config {reader next : Reader} {token : Token}
    (h : reader.step token = .ok next) :
    next.config = reader.config ∨ ∃ key, next.config = reader.config.set key token.text := by
  have hrequire : ∀ {word : String} {expectation : Expectation},
      reader.require word token expectation = .ok next → next.config = reader.config := by
    intro word expectation h
    obtain ⟨-, rfl⟩ := require_eq_ok_iff.1 h
    rfl
  unfold Reader.step at h
  split at h
  case h_4 key _ _ =>
    cases h
    exact Or.inr ⟨key, rfl⟩
  all_goals left
  -- Wherever one certain word has to come.
  case h_1 | h_2 | h_5 | h_8 | h_10 => exact hrequire h
  -- Wherever any word will do.
  case h_6 | h_7 | h_12 | h_13 | h_14 | h_15 | h_16 =>
    cases h
    rfl
  case h_3 =>
    split at h
    · cases h
      rfl
    · exact hrequire h
  case h_9 =>
    split_ifs at h
    · cases h
      rfl
    · exact hrequire h
  case h_11 =>
    split_ifs at h
    · cases h
      rfl
    · cases h
      rfl
    · cases h
      rfl
    · exact hrequire h
  case h_17 =>
    split_ifs at h
    cases h

theorem Reader.run_config {reader next : Reader} {tokens : List Token} {key : ConfigKey}
    {value : String} (h : reader.run tokens = .ok next)
    (hvalue : next.config.get? key = some value) :
    reader.config.get? key = some value ∨ ∃ token ∈ tokens, token.text = value := by
  induction tokens generalizing reader with
  | nil =>
    cases h
    exact Or.inl hvalue
  | cons token tokens ih =>
    rw [Reader.run_cons, bind_eq_ok_iff] at h
    obtain ⟨middle, hstep, hrun⟩ := h
    rcases ih hrun with hmiddle | ⟨other, hother, htext⟩
    · rcases Reader.step_config hstep with hconfig | ⟨changed, hconfig⟩
      · rw [hconfig] at hmiddle
        exact Or.inl hmiddle
      · rw [hconfig, Config.get?_set] at hmiddle
        split_ifs at hmiddle
        · exact Or.inr ⟨token, List.mem_cons_self, Option.some.inj hmiddle⟩
        · exact Or.inl hmiddle
    · exact Or.inr ⟨other, List.mem_cons_of_mem _ hother, htext⟩

/-! ## Menus -/

/-- All names, labels and settings of a menu are without white space. -/
structure MenuFile.Worded (file : MenuFile) : Prop where
  name : ∀ node ∈ file.root.flatten, Unbroken node.name.toList
  label : ∀ node ∈ file.root.flatten, Unbroken node.label.toList
  altName : ∀ node ∈ file.root.flatten, ∀ altName ∈ node.altName?, Unbroken altName.text.toList
  setting : ∀ key, ∀ value ∈ file.config.get? key, Unbroken value.toList

/-- Whatever a menu says about a node is a word of the text. -/
theorem mem_tokenize_of_parse {source : String} {parsed : Parsed} (h : parse source = .ok parsed)
    {node : Node} (hnode : node ∈ parsed.file.root.flatten) :
    node.name ∈ (tokenize source).map Token.text ∧ node.label ∈ (tokenize source).map Token.text ∧
      ∀ altName ∈ node.altName?, altName.text ∈ (tokenize source).map Token.text := by
  obtain ⟨tree, hwords, hroot⟩ := words_of_parse h
  have hsubset : tree.root.words ⊆ (tokenize source).map Token.text := by
    rw [← hwords, FileTree.words]
    exact List.subset_append_right _ _
  have hmem : node.outline ∈ tree.root.nodes := by
    rw [hroot, Node.nodes_outline]
    exact List.mem_map_of_mem (Node.mem_flatten_iff.1 hnode)
  obtain ⟨hname, hlabel, haltNames⟩ := SlotTree.mem_words hmem
  rw [Node.name_outline] at hname
  rw [Node.label_outline] at hlabel
  rw [Node.altName?_outline] at haltNames
  refine ⟨hsubset hname, hsubset hlabel, fun altName haltName => ?_⟩
  exact hsubset (haltNames altName.text (Option.mem_map_of_mem _ haltName))

theorem worded_of_parse {source : String} {parsed : Parsed} (h : parse source = .ok parsed) :
    parsed.file.Worded := by
  have hunbroken : ∀ word ∈ (tokenize source).map Token.text, Unbroken word.toList := by
    intro word hword
    obtain ⟨token, htoken, rfl⟩ := List.mem_map.1 hword
    exact unbroken_of_mem_tokenize htoken
  refine ⟨fun node hnode => ?_, fun node hnode => ?_, fun node hnode altName haltName => ?_, ?_⟩
  · exact hunbroken _ (mem_tokenize_of_parse h hnode).1
  · exact hunbroken _ (mem_tokenize_of_parse h hnode).2.1
  · exact hunbroken _ ((mem_tokenize_of_parse h hnode).2.2 altName haltName)
  · intro key value hvalue
    cases hrun : Reader.run {} (tokenize source) with
    | error error => rw [parse, parseTokens_of_error hrun] at h; cases h
    | ok reader =>
      rw [parse, parseTokens_of_run hrun, finish_eq_ok_iff] at h
      obtain ⟨root, -, rfl⟩ := h
      rcases Reader.run_config hrun hvalue with hempty | ⟨token, htoken, rfl⟩
      · cases key <;> cases hempty
      · exact unbroken_of_mem_tokenize htoken

end SoftMenu
