import SoftMenu.Proofs.Parsing
import SoftMenu.Proofs.Stages
import SoftMenu.Proofs.Words

/-!
# Settings that are given again

The settings of a menu definition are a list of names, each with the word after it as its value. A
value may be any word, so that the names of settings and brackets among the values have to be told
from those between them (`StandIn.unique`).

A setting may be given more than once. The last value counts (`get?_configureAll`), and there is one
warning for each value that is replaced (`warnings_configureAll`). Both follow from what one more
setting does.
-/

namespace SoftMenu

/-! ## Values that are replaced -/

/-- The value that a setting has been given last. -/
def lastValue? (settings : List Setting) (key : ConfigKey) : Option String :=
  (settings.filter fun setting => setting.key = key).getLast?.map fun setting => setting.value.text

/-- The settings that had been given before, each with the value that it replaces. -/
def replacements (settings : List Setting) : List (Setting × String) :=
  settings.zipIdx.filterMap fun (setting, i) =>
    (lastValue? (settings.take i) setting.key).map fun previous => (setting, previous)

theorem lastValue?_append (settings : List Setting) (setting : Setting) (key : ConfigKey) :
    lastValue? (settings ++ [setting]) key =
      if setting.key = key then some setting.value.text else lastValue? settings key := by
  unfold lastValue?
  rw [List.filter_append]
  split_ifs with hkey
  · simp [hkey]
  · simp [hkey]

theorem replacements_append (settings : List Setting) (setting : Setting) :
    replacements (settings ++ [setting]) = replacements settings ++
      ((lastValue? settings setting.key).map fun previous => (setting, previous)).toList := by
  unfold replacements
  rw [List.zipIdx_append, List.filterMap_append]
  congr 1
  · -- The settings before an old one are the same as without the new one.
    apply List.filterMap_congr
    rintro ⟨old, i⟩ hold
    have hlt : i < settings.length := by
      obtain ⟨-, hlt, -⟩ := List.mem_zipIdx hold
      omega
    simp only [List.take_append_of_le_length hlt.le]
  · rw [List.zipIdx_singleton, Nat.zero_add]
    simp only [List.filterMap_cons, List.filterMap_nil, List.take_left]
    cases lastValue? settings setting.key <;> rfl

/-! ## Taking settings -/

/-- The warning for a value that is replaced. -/
def replacementWarning (replacement : Setting × String) : Diagnostic :=
  repeatedKey replacement.1.key replacement.1.token replacement.1.value replacement.2

theorem configureAll_append (reader : Reader) (settings : List Setting) (setting : Setting) :
    reader.configureAll (settings ++ [setting]) =
      (reader.configureAll settings).configure setting.key setting.token setting.value := by
  rw [Reader.configureAll, List.foldl_append]
  rfl

theorem get?_configureAll (settings : List Setting) (key : ConfigKey) :
    (Reader.configureAll {} settings).config.get? key = lastValue? settings key := by
  induction settings using List.reverseRecOn with
  | nil => cases key <;> rfl
  | append_singleton settings setting ih =>
    rw [configureAll_append, lastValue?_append, ← ih]
    exact Config.get?_set

theorem warnings_configureAll (settings : List Setting) :
    (Reader.configureAll {} settings).warnings =
      (replacements settings).map replacementWarning := by
  induction settings using List.reverseRecOn with
  | nil => rfl
  | append_singleton settings setting ih =>
    rw [configureAll_append, replacements_append, List.map_append, ← ih, Reader.configure,
      get?_configureAll]
    cases lastValue? settings setting.key <;> rfl

/-! ## The settings of a text -/

/-- The text begins with a block of these settings. -/
def StandIn (settings : List Setting) (source : String) : Prop :=
  ∃ block rest, tokenize source = block ++ rest ∧ IsBlock settings block

theorem flatMap_tokens_inj {settings others : List Setting} {closing closing' : Token}
    {rest rest' : List Token} (hclosing : closing.text = "]") (hclosing' : closing'.text = "]")
    (h : settings.flatMap Setting.tokens ++ closing :: rest =
      others.flatMap Setting.tokens ++ closing' :: rest') : settings = others := by
  have hne : ∀ (setting : Setting) (token : Token), token.text = "]" → setting.token ≠ token := by
    intro setting token htoken heq
    apply setting.key.word_ne_bracket
    rw [← setting.named, heq, htoken]
  induction settings generalizing others with
  | nil =>
    cases others with
    | nil => rfl
    | cons other others => exact absurd (List.cons.inj h).1.symm (hne other closing hclosing)
  | cons setting settings ih =>
    cases others with
    | nil => exact absurd (List.cons.inj h).1 (hne setting closing' hclosing')
    | cons other others =>
      obtain ⟨htoken, h⟩ := List.cons.inj h
      obtain ⟨hvalue, h⟩ := List.cons.inj h
      obtain rfl := ih h
      have hkey : setting.key = other.key := by
        apply ConfigKey.word_inj
        rw [← setting.named, ← other.named, htoken]
      obtain ⟨key, token, value, named⟩ := setting
      obtain ⟨key', token', value', named'⟩ := other
      obtain rfl : key = key' := hkey
      obtain rfl : token = token' := htoken
      obtain rfl : value = value' := hvalue
      rfl

/-- There is only one way to read the settings off a text. -/
theorem StandIn.unique {settings others : List Setting} {source : String}
    (h : StandIn settings source) (hothers : StandIn others source) : settings = others := by
  obtain ⟨block, rest, hsource, keyword, opening, closing, rfl, -, -, hclosing⟩ := h
  obtain ⟨block', rest', hsource', keyword', opening', closing', rfl, -, -, hclosing'⟩ := hothers
  have htokens := hsource.symm.trans hsource'
  simp only [List.cons_append, List.append_assoc, List.nil_append, List.cons.injEq] at htokens
  exact flatMap_tokens_inj hclosing hclosing' htokens.2.2

/-- What is read of the settings is what taking them one after the other gives. -/
theorem exists_settings_of_parse {source : String} {parsed : Parsed}
    (h : parse source = .ok parsed) :
    ∃ settings, StandIn settings source ∧
      parsed.file.config = (Reader.configureAll {} settings).config ∧
      parsed.warnings = (Reader.configureAll {} settings).warnings := by
  obtain ⟨tree, htree, -⟩ := words_of_parse h
  obtain ⟨block, rest, hsplit, hblock, hrest⟩ := List.map_eq_append_iff.1 htree.symm
  obtain ⟨settings, hsettings⟩ := exists_isBlock hblock
  obtain ⟨root, -, -, hrun⟩ := run_root hrest
  have hall : Reader.run {} (tokenize source) =
      .ok ((Reader.configureAll {} settings).expecting (.finished root)) := by
    rw [hsplit, Reader.run_append_of_run (run_isBlock hsettings), hrun]
  rw [parse, parseTokens_of_run hall, finish_eq_ok_iff] at h
  obtain ⟨-, -, rfl⟩ := h
  exact ⟨settings, ⟨block, rest, hsplit, hsettings⟩, rfl, rfl⟩

/-! ## Warnings -/

/-- The warning says that a setting has replaced a value. -/
structure Diagnostic.Reports (warning : Diagnostic) (replacement : Setting × String) : Prop where
  id_eq : warning.id = "MDL1201"
  severity_eq : warning.severity = .warn
  span_eq : warning.span = some replacement.1.token.place.span
  context_eq : warning.context =
    some (.ofPairs [("key", replacement.1.token.text), ("previous", replacement.2)])

theorem reports_replacementWarning (replacement : Setting × String) :
    (replacementWarning replacement).Reports replacement := by
  refine ⟨rfl, rfl, rfl, ?_⟩
  rw [replacement.1.named]
  rfl

theorem warnings_of_compile {options : CompileOptions} {source : String} {parsed : Parsed}
    {compilation : Compilation} (hparsed : parse source = .ok parsed)
    (h : compile options source = .ok compilation) : compilation.warnings = parsed.warnings := by
  simp only [compile, bind_eq_ok_iff, hparsed, Except.ok.injEq] at h
  obtain ⟨_, rfl, _, -, _, -, _, -, table, -, h⟩ := h
  obtain rfl := Except.ok.inj h
  rfl

/-- The settings can be read off a text in one way. Each has the value that it has been given last,
and none if it has not been given. The warnings, also those of a compilation, are one for each value
that has been replaced, in order. -/
theorem parse_settings_last_wins (source : String) (parsed : Parsed)
    (h : parse source = .ok parsed) :
    ∃ settings, StandIn settings source ∧
      (∀ others, StandIn others source → others = settings) ∧
      parsed.file.config = ⟨lastValue? settings .itemName, lastValue? settings .itemNameId,
        lastValue? settings .itemHandler, lastValue? settings .groupHandler⟩ ∧
      List.Forall₂ Diagnostic.Reports parsed.warnings (replacements settings) ∧
      ∀ options compilation, compile options source = .ok compilation →
        compilation.warnings = parsed.warnings := by
  obtain ⟨settings, hstand, hconfig, hwarnings⟩ := exists_settings_of_parse h
  refine ⟨settings, hstand, fun others hothers => hothers.unique hstand, ?_, ?_,
    fun options compilation hcompile => warnings_of_compile h hcompile⟩
  · rw [hconfig, ← get?_configureAll, ← get?_configureAll, ← get?_configureAll,
      ← get?_configureAll]
    rfl
  · rw [hwarnings, warnings_configureAll, List.forall₂_map_left_iff, List.forall₂_same]
    exact fun replacement _ => reports_replacementWarning replacement

/-- Settings with names of settings and brackets as their values. -/
def shadowedSettings : String :=
  "MenuConfig [ ItemName ] ItemHandler ItemName ItemName ItemName GroupHandler [ " ++
    "ItemName last ]\nMenuGroup Top mTop [ MenuRow [ MenuItem A mA ] ]"

theorem parse_settings_last_wins_shadowed :
    ∃ parsed settings, parse shadowedSettings = .ok parsed ∧ StandIn settings shadowedSettings ∧
      parsed.file.config = ⟨some "last", none, some "ItemName", some "["⟩ ∧
      lastValue? settings .itemName = some "last" ∧
      parsed.warnings.map Diagnostic.span = [some ⟨45, 53⟩, some ⟨78, 86⟩] ∧
      List.Forall₂ Diagnostic.Reports parsed.warnings (replacements settings) ∧
      ∃ compilation, compile ⟨"menu", .strict, false⟩ shadowedSettings = .ok compilation ∧
        compilation.warnings = parsed.warnings := by
  have hread : ((parse shadowedSettings).toOption.map fun parsed =>
      (parsed.file.config, parsed.warnings.map Diagnostic.span)) =
        some (⟨some "last", none, some "ItemName", some "["⟩,
          [some ⟨45, 53⟩, some ⟨78, 86⟩]) := by
    decide +kernel
  have hsome : (compile ⟨"menu", .strict, false⟩ shadowedSettings).toOption.isSome = true := by
    decide +kernel
  obtain ⟨parsed, hparse, hread⟩ := exists_ok_of_map hread
  obtain ⟨hconfig, hspans⟩ := Prod.mk.inj hread
  obtain ⟨settings, hstand, -, hfields, hreports, hwarnings⟩ := parse_settings_last_wins _ _ hparse
  have hlast : lastValue? settings .itemName = some "last" :=
    congrArg Config.itemName (hfields.symm.trans hconfig)
  obtain ⟨compilation, hcompile⟩ := exists_ok_of_isSome hsome
  exact ⟨parsed, settings, hparse, hstand, hconfig, hlast, hspans, hreports, compilation, hcompile,
    hwarnings _ _ hcompile⟩

end SoftMenu
