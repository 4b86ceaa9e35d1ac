import SoftMenu.Menu.Node

/-!
# The grammar of menu definitions

    File      := 'MenuConfig' '[' (ConfigKey Value)* ']' MenuGroup
    MenuGroup := 'MenuGroup' Name Label '[' MenuRow* ']'
    MenuRow   := 'MenuRow' '[' Slot* ']'
    Slot      := 'MenuItem' Name Label | 'MenuItemAlt' Name AltName Label | MenuGroup

The grammar is given by its derivation trees. A constructor of `SlotTree` is a production of
`Slot`, and it carries whatever words stand for the names and labels of the production, keywords
and brackets included. `SlotTree.words` and `FileTree.words` are what a tree derives, so a sequence
of words is in the grammar if it is what some tree derives (`InGrammar`).

A menu tree that has been read is compared with derivations through its `Node.outline`, which
forgets everything that is not a word.
-/

namespace SoftMenu

/-! ## Derivations -/

/-- A derivation of `Slot`. -/
inductive SlotTree where
  /-- By the production for items. -/
  | item (name label : String)
  /-- By the production for items with an alternate name. -/
  | altItem (name altName label : String)
  /-- By way of `MenuGroup`; each row is the list of the derivations of its slots. -/
  | group (name label : String) (rows : List (List SlotTree))
deriving Repr

mutual

/-- The words that a derivation of `Slot` derives. -/
def SlotTree.words : SlotTree → List String
  | .item name label => ["MenuItem", name, label]
  | .altItem name altName label => ["MenuItemAlt", name, altName, label]
  | .group name label rows => "MenuGroup" :: name :: label :: "[" :: wordsOfRows rows ++ ["]"]

/-- The words of a sequence of `MenuRow`. -/
def wordsOfRows : List (List SlotTree) → List String
  | [] => []
  | row :: rows => "MenuRow" :: "[" :: wordsOfSlots row ++ "]" :: wordsOfRows rows

/-- The words of a sequence of `Slot`. -/
def wordsOfSlots : List SlotTree → List String
  | [] => []
  | slot :: slots => slot.words ++ wordsOfSlots slots

end

/-- The words of a sequence of settings. -/
def wordsOfSettings (settings : List (ConfigKey × String)) : List String :=
  settings.flatMap fun setting => [setting.1.word, setting.2]

/-- The words of a complete block of settings. -/
def configBlock (settings : List (ConfigKey × String)) : List String :=
  "MenuConfig" :: "[" :: wordsOfSettings settings ++ ["]"]

/-- A derivation of `File`. -/
structure FileTree where
  /-- The settings, each with its value. -/
  settings : List (ConfigKey × String)
  /-- The name of the root group. -/
  name : String
  /-- The label of the root group. -/
  label : String
  /-- The derivations of the slots of the root group, row by row. -/
  rows : List (List SlotTree)
deriving Repr

namespace FileTree

/-- The derivation of the root group. -/
def root (tree : FileTree) : SlotTree := .group tree.name tree.label tree.rows

/-- The words that a derivation of `File` derives. -/
def words (tree : FileTree) : List String := configBlock tree.settings ++ tree.root.words

end FileTree

/-- The sequence of words is a menu definition. -/
def InGrammar (words : List String) : Prop := ∃ tree : FileTree, tree.words = words

/-- What holds of items, and of a group whenever it holds of all its slots, holds of every
derivation of `Slot`. -/
@[elab_as_elim]
theorem SlotTree.induction {P : SlotTree → Prop} (item : ∀ name label, P (.item name label))
    (altItem : ∀ name altName label, P (.altItem name altName label))
    (group : ∀ name label rows, (∀ row ∈ rows, ∀ slot ∈ row, P slot) → P (.group name label rows))
    (tree : SlotTree) : P tree :=
  @SlotTree.rec P (fun rows => ∀ row ∈ rows, ∀ slot ∈ row, P slot)
    (fun slots => ∀ slot ∈ slots, P slot) item altItem group (by simp)
    (fun _ _ hrow hrows => List.forall_mem_cons.2 ⟨hrow, hrows⟩) (by simp)
    (fun _ _ hslot hslots => List.forall_mem_cons.2 ⟨hslot, hslots⟩) tree

theorem wordsOfSlots_append (first second : List SlotTree) :
    wordsOfSlots (first ++ second) = wordsOfSlots first ++ wordsOfSlots second := by
  induction first with
  | nil => rfl
  | cons slot first ih => simp [wordsOfSlots, ih]

theorem wordsOfRows_append (first second : List (List SlotTree)) :
    wordsOfRows (first ++ second) = wordsOfRows first ++ wordsOfRows second := by
  induction first with
  | nil => rfl
  | cons row first ih => simp [wordsOfRows, ih]

theorem ConfigKey.ofWord?_word (key : ConfigKey) : ConfigKey.ofWord? key.word = some key := by
  cases key <;> decide

/-- A word names a setting only if it is the word of that setting. -/
theorem ConfigKey.word_of_ofWord? {word : String} {key : ConfigKey}
    (h : ConfigKey.ofWord? word = some key) : key.word = word := by
  unfold ConfigKey.ofWord? at h
  exact of_decide_eq_true (List.find?_some (p := fun key : ConfigKey => decide (key.word = word)) h)

theorem ConfigKey.word_ne_bracket (key : ConfigKey) : key.word ≠ "]" := by
  cases key <;> decide

/-- No two settings have the same word. -/
theorem ConfigKey.word_inj {key other : ConfigKey} (h : key.word = other.word) : key = other := by
  have hsome := congrArg ConfigKey.ofWord? h
  rwa [ConfigKey.ofWord?_word, ConfigKey.ofWord?_word, Option.some.injEq] at hsome

/-- Where the settings end can be seen from the words. -/
theorem settings_unique {settings settings' : List (ConfigKey × String)} {rest rest' : List String}
    (h : wordsOfSettings settings ++ "]" :: rest = wordsOfSettings settings' ++ "]" :: rest') :
    settings = settings' ∧ rest = rest' := by
  induction settings generalizing settings' with
  | nil =>
    cases settings' with
    | nil => exact ⟨rfl, (List.cons.inj h).2⟩
    | cons setting' settings' =>
      exact absurd (List.cons.inj h).1.symm setting'.1.word_ne_bracket
  | cons setting settings ih =>
    cases settings' with
    | nil => exact absurd (List.cons.inj h).1 setting.1.word_ne_bracket
    | cons setting' settings' =>
      obtain ⟨hkey, h⟩ := List.cons.inj h
      obtain ⟨hvalue, h⟩ := List.cons.inj h
      obtain ⟨rfl, hrest⟩ := ih h
      exact ⟨by rw [Prod.ext (ConfigKey.word_inj hkey) hvalue], hrest⟩

/-! ## Outlines -/

mutual

/-- The derivation that a menu tree comes from. -/
def Node.outline : Node → SlotTree
  | .item info => .item info.name.text info.label
  | .altItem info altName => .altItem info.name.text altName.text info.label
  | .group info rows => .group info.name.text info.label (outlineOfRows rows)

/-- The derivations that some rows come from. -/
def outlineOfRows : List (Row Node) → List (List SlotTree)
  | [] => []
  | row :: rows => outlineOfRow row :: outlineOfRows rows

/-- The derivations that the slots of a row come from. -/
def outlineOfRow : Row Node → List SlotTree
  | ⟨slots, _⟩ => outlineOfSlots slots

/-- The derivations that some slots come from. -/
def outlineOfSlots : List Node → List SlotTree
  | [] => []
  | slot :: slots => slot.outline :: outlineOfSlots slots

end

@[simp] theorem outlineOfSlots_eq (slots : List Node) :
    outlineOfSlots slots = slots.map Node.outline := by
  induction slots with
  | nil => rfl
  | cons slot slots ih => rw [outlineOfSlots, ih, List.map_cons]

@[simp] theorem outlineOfRows_eq (rows : List (Row Node)) :
    outlineOfRows rows = rows.map fun row => row.slots.map Node.outline := by
  induction rows with
  | nil => rfl
  | cons row rows ih =>
    obtain ⟨slots, place⟩ := row
    rw [outlineOfRows, ih, outlineOfRow, outlineOfSlots_eq, List.map_cons]

end SoftMenu
