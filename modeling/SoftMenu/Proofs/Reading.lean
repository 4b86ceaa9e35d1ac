import Mathlib.Data.List.Forall2
import SoftMenu.Menu.Reader
import SoftMenu.Proofs.Grammar
import SoftMenu.Proofs.Tree

/-!
# Reading follows the grammar

The reader takes one word at a time, so what it has read is a function of its state: the open
groups and rows spell all words of the menu tree up to now (`Expectation.words`), and only the
settings have to be remembered beside the state. One step appends one word (`HasRead.step`), hence
a run that comes to its end has read a menu definition.

In the other direction a derivation steers the reader. Over the words of a slot the reader goes
from the body of a row to the body of the same row with one more slot (`SlotTree.Readable`), and
that slot is the tree of the derivation with the place of each keyword.
-/

namespace SoftMenu

/-! ## Runs -/

namespace Reader

/-- Takes some words, one after the other. -/
def run (reader : Reader) (tokens : List Token) : Except CompileError Reader :=
  tokens.foldlM step reader

@[simp] theorem run_nil (reader : Reader) : reader.run [] = .ok reader := rfl

theorem run_cons (reader : Reader) (token : Token) (tokens : List Token) :
    reader.run (token :: tokens) = reader.step token >>= fun next => next.run tokens := rfl

theorem run_append (reader : Reader) (first second : List Token) :
    reader.run (first ++ second) = reader.run first >>= fun next => next.run second :=
  List.foldlM_append

theorem run_cons_of_step {reader next : Reader} {token : Token} (h : reader.step token = .ok next)
    (tokens : List Token) : reader.run (token :: tokens) = next.run tokens := by
  rw [run_cons, h]
  rfl

theorem run_append_of_run {reader next : Reader} {first : List Token}
    (h : reader.run first = .ok next) (second : List Token) :
    reader.run (first ++ second) = next.run second := by
  rw [run_append, h]
  rfl

@[simp] theorem expecting_expectation (reader : Reader) (expectation : Expectation) :
    (reader.expecting expectation).expectation = expectation := rfl

@[simp] theorem expecting_expecting (reader : Reader) (first second : Expectation) :
    (reader.expecting first).expecting second = reader.expecting second := rfl

theorem require_eq_ok_iff {reader next : Reader} {word : String} {token : Token}
    {expectation : Expectation} :
    reader.require word token expectation = .ok next ↔
      token.text = word ∧ reader.expecting expectation = next := by
  unfold require
  split_ifs with h <;> simp [h, reject]

/-! ## Steps over fixed words -/

section Steps

variable {reader : Reader} {token : Token}

theorem step_configKeyword (h : token.text = "MenuConfig") :
    (reader.expecting .configKeyword).step token = .ok (reader.expecting .configOpen) :=
  require_eq_ok_iff.2 ⟨h, rfl⟩

theorem step_configOpen (h : token.text = "[") :
    (reader.expecting .configOpen).step token = .ok (reader.expecting .configKey) :=
  require_eq_ok_iff.2 ⟨h, rfl⟩

theorem step_setting {key : ConfigKey} (h : token.text = key.word) :
    (reader.expecting .configKey).step token = .ok (reader.expecting (.configValue key token)) := by
  simp [step, h, ConfigKey.ofWord?_word]

theorem step_configClose (h : token.text = "]") :
    (reader.expecting .configKey).step token = .ok (reader.expecting .rootKeyword) := by
  have hnone : ConfigKey.ofWord? "]" = none := by decide
  simp [step, h, hnone, require]

theorem step_rootKeyword (h : token.text = "MenuGroup") :
    (reader.expecting .rootKeyword).step token = .ok (reader.expecting (.groupName token [])) :=
  require_eq_ok_iff.2 ⟨h, rfl⟩

variable {outer : List OpenRow}

theorem step_groupName {keyword : Token} :
    (reader.expecting (.groupName keyword outer)).step token =
      .ok (reader.expecting (.groupLabel keyword token outer)) := rfl

theorem step_groupLabel {keyword name : Token} :
    (reader.expecting (.groupLabel keyword name outer)).step token =
      .ok (reader.expecting (.groupOpen { info := declare keyword name token } outer)) := rfl

theorem step_groupOpen {group : OpenGroup} (h : token.text = "[") :
    (reader.expecting (.groupOpen group outer)).step token =
      .ok (reader.expecting (.groupBody group outer)) :=
  require_eq_ok_iff.2 ⟨h, rfl⟩

theorem step_groupClose {group : OpenGroup} (h : token.text = "]") :
    (reader.expecting (.groupBody group outer)).step token =
      .ok (reader.expecting (afterGroup group outer)) := by
  simp [step, h, require]

theorem step_rowKeyword {group : OpenGroup} (h : token.text = "MenuRow") :
    (reader.expecting (.groupBody group outer)).step token =
      .ok (reader.expecting (.rowOpen { group, place := token.place } outer)) := by
  simp [step, h]

variable {row : OpenRow}

theorem step_rowOpen (h : token.text = "[") :
    (reader.expecting (.rowOpen row outer)).step token =
      .ok (reader.expecting (.rowBody row outer)) :=
  require_eq_ok_iff.2 ⟨h, rfl⟩

theorem step_rowClose (h : token.text = "]") :
    (reader.expecting (.rowBody row outer)).step token =
      .ok (reader.expecting (afterRow row outer)) := by
  simp [step, h, require]

theorem step_itemKeyword (h : token.text = "MenuItem") :
    (reader.expecting (.rowBody row outer)).step token =
      .ok (reader.expecting (.itemName token row outer)) := by
  simp [step, h]

theorem step_altItemKeyword (h : token.text = "MenuItemAlt") :
    (reader.expecting (.rowBody row outer)).step token =
      .ok (reader.expecting (.altItemName token row outer)) := by
  simp [step, h]

theorem step_groupKeyword (h : token.text = "MenuGroup") :
    (reader.expecting (.rowBody row outer)).step token =
      .ok (reader.expecting (.groupName token (row :: outer))) := by
  simp [step, h]

end Steps

end Reader

/-! ## What a state has read -/

/-- The words of an open group before its bracket. -/
def OpenGroup.heading (group : OpenGroup) : List String :=
  ["MenuGroup", group.info.name.text, group.info.label]

/-- The words of an open group. -/
def OpenGroup.words (group : OpenGroup) : List String :=
  group.heading ++ "[" :: wordsOfRows (outlineOfRows group.rows.reverse)

/-- The words of an open row before its bracket, with those of its group. -/
def OpenRow.heading (row : OpenRow) : List String := row.group.words ++ ["MenuRow"]

/-- The words of an open row, with those of its group. -/
def OpenRow.words (row : OpenRow) : List String :=
  row.heading ++ "[" :: wordsOfSlots (outlineOfSlots row.slots.reverse)

/-- The words of open rows, of which the innermost comes first. -/
def wordsOfOuter : List OpenRow → List String
  | [] => []
  | row :: outer => wordsOfOuter outer ++ row.words

namespace Expectation

/-- The words of the menu tree that have been read. -/
def words : Expectation → List String
  | .configKeyword | .configOpen | .configKey | .configValue .. | .rootKeyword => []
  | .groupName _ outer => wordsOfOuter outer ++ ["MenuGroup"]
  | .groupLabel _ name outer => wordsOfOuter outer ++ ["MenuGroup", name.text]
  | .groupOpen group outer => wordsOfOuter outer ++ group.heading
  | .groupBody group outer => wordsOfOuter outer ++ group.words
  | .rowOpen row outer => wordsOfOuter outer ++ row.heading
  | .rowBody row outer => wordsOfOuter (row :: outer)
  | .itemName _ row outer => wordsOfOuter (row :: outer) ++ ["MenuItem"]
  | .itemLabel _ name row outer => wordsOfOuter (row :: outer) ++ ["MenuItem", name.text]
  | .altItemName _ row outer => wordsOfOuter (row :: outer) ++ ["MenuItemAlt"]
  | .altItemAltName _ name row outer => wordsOfOuter (row :: outer) ++ ["MenuItemAlt", name.text]
  | .altItemLabel _ name altName row outer =>
    wordsOfOuter (row :: outer) ++ ["MenuItemAlt", name.text, altName.text]
  | .finished root => root.outline.words

/-- The words before the menu tree that have been read, if these are the settings so far. -/
def configWords (settings : List (ConfigKey × String)) : Expectation → List String
  | .configKeyword => []
  | .configOpen => ["MenuConfig"]
  | .configKey => "MenuConfig" :: "[" :: wordsOfSettings settings
  | .configValue key _ => "MenuConfig" :: "[" :: wordsOfSettings settings ++ [key.word]
  | _ => configBlock settings

end Expectation

theorem words_afterSlot (slot : Node) (row : OpenRow) (outer : List OpenRow) :
    (afterSlot slot row outer).words = wordsOfOuter (row :: outer) ++ slot.outline.words := by
  simp [afterSlot, Expectation.words, wordsOfOuter, OpenRow.words, OpenRow.heading,
    wordsOfSlots_append, wordsOfSlots]

theorem words_afterRow (row : OpenRow) (outer : List OpenRow) :
    (afterRow row outer).words = wordsOfOuter (row :: outer) ++ ["]"] := by
  simp [afterRow, Expectation.words, wordsOfOuter, OpenRow.words, OpenRow.heading, OpenGroup.words,
    OpenGroup.heading, wordsOfRows_append, wordsOfRows]

theorem words_afterGroup (group : OpenGroup) (outer : List OpenRow) :
    (afterGroup group outer).words = wordsOfOuter outer ++ group.words ++ ["]"] := by
  cases outer with
  | nil =>
    simp [afterGroup, Expectation.words, wordsOfOuter, OpenGroup.words, OpenGroup.heading,
      Node.outline, SlotTree.words]
  | cons row outer =>
    rw [afterGroup, words_afterSlot]
    simp [OpenGroup.words, OpenGroup.heading, Node.outline, SlotTree.words]

theorem configWords_afterGroup (settings : List (ConfigKey × String)) (group : OpenGroup)
    (outer : List OpenRow) :
    (afterGroup group outer).configWords settings = configBlock settings := by
  cases outer <;> rfl

/-- What holds of all states that are reached: before its bracket a group has no rows and a row has
no slots, and the tree at the end is a group. -/
def Expectation.Sound : Expectation → Prop
  | .groupOpen group _ => group.rows = []
  | .rowOpen row _ => row.slots = []
  | .finished root => root.isGroup
  | _ => True

/-- After a group the reader is in the row around it, or has a group for its tree. -/
theorem sound_afterGroup (group : OpenGroup) (outer : List OpenRow) :
    (afterGroup group outer).Sound := by
  cases outer with
  | nil => rfl
  | cons row outer => trivial

/-- The reader has read these words: its state spells them, for some list of settings. -/
def Reader.HasRead (reader : Reader) (words : List String) : Prop :=
  reader.expectation.Sound ∧ ∃ settings : List (ConfigKey × String),
    reader.expectation.configWords settings ++ reader.expectation.words = words

theorem Reader.hasRead_nil : HasRead {} [] := ⟨trivial, [], rfl⟩

/-- One step reads one word. -/
theorem Reader.HasRead.step {reader next : Reader} {words : List String} {token : Token}
    (h : reader.HasRead words) (hstep : reader.step token = .ok next) :
    next.HasRead (words ++ [token.text]) := by
  obtain ⟨hsound, settings, rfl⟩ := h
  -- The list of settings grows when a value is read; after them the state itself spells the words.
  cases he : reader.expectation with
  | configKeyword =>
    simp only [Reader.step, he] at hstep
    obtain ⟨ht, rfl⟩ := Reader.require_eq_ok_iff.1 hstep
    exact ⟨trivial, [], by simp [ht, Expectation.configWords, Expectation.words]⟩
  | configOpen =>
    simp only [Reader.step, he] at hstep
    obtain ⟨ht, rfl⟩ := Reader.require_eq_ok_iff.1 hstep
    refine ⟨trivial, [], ?_⟩
    simp [ht, Expectation.configWords, Expectation.words, wordsOfSettings]
  | configKey =>
    simp only [Reader.step, he] at hstep
    cases hkey : ConfigKey.ofWord? token.text with
    | some key =>
      rw [hkey] at hstep
      obtain rfl := Except.ok.inj hstep
      have hword := ConfigKey.word_of_ofWord? hkey
      exact ⟨trivial, settings, by simp [hword, Expectation.configWords, Expectation.words]⟩
    | none =>
      rw [hkey] at hstep
      obtain ⟨ht, rfl⟩ := Reader.require_eq_ok_iff.1 hstep
      refine ⟨trivial, settings, ?_⟩
      simp [ht, Expectation.configWords, Expectation.words, configBlock]
  | configValue key keyToken =>
    simp only [Reader.step, he] at hstep
    obtain rfl := Except.ok.inj hstep
    refine ⟨trivial, settings ++ [(key, token.text)], ?_⟩
    simp [Reader.configure, Expectation.configWords, Expectation.words, wordsOfSettings]
  | rootKeyword =>
    simp only [Reader.step, he] at hstep
    obtain ⟨ht, rfl⟩ := Reader.require_eq_ok_iff.1 hstep
    refine ⟨trivial, settings, ?_⟩
    simp [ht, Expectation.configWords, Expectation.words, wordsOfOuter]
  | groupName keyword outer =>
    simp only [Reader.step, he] at hstep
    obtain rfl := Except.ok.inj hstep
    exact ⟨trivial, settings, by simp [Expectation.configWords, Expectation.words]⟩
  | groupLabel keyword name outer =>
    simp only [Reader.step, he] at hstep
    obtain rfl := Except.ok.inj hstep
    refine ⟨rfl, settings, ?_⟩
    simp [Expectation.configWords, Expectation.words, OpenGroup.heading, declare]
  | groupOpen group outer =>
    simp only [Reader.step, he] at hstep
    obtain ⟨ht, rfl⟩ := Reader.require_eq_ok_iff.1 hstep
    have hrows : group.rows = [] := by simpa only [he, Expectation.Sound] using hsound
    refine ⟨trivial, settings, ?_⟩
    simp [ht, hrows, Expectation.configWords, Expectation.words, OpenGroup.words, wordsOfRows]
  | groupBody group outer =>
    simp only [Reader.step, he] at hstep
    split_ifs at hstep with hrow
    · obtain rfl := Except.ok.inj hstep
      refine ⟨rfl, settings, ?_⟩
      simp [hrow, Expectation.configWords, Expectation.words, OpenRow.heading]
    · obtain ⟨ht, rfl⟩ := Reader.require_eq_ok_iff.1 hstep
      refine ⟨sound_afterGroup group outer, settings, ?_⟩
      rw [Reader.expecting_expectation, words_afterGroup, configWords_afterGroup, ht]
      simp [Expectation.configWords, Expectation.words]
  | rowOpen row outer =>
    simp only [Reader.step, he] at hstep
    obtain ⟨ht, rfl⟩ := Reader.require_eq_ok_iff.1 hstep
    have hslots : row.slots = [] := by simpa only [he, Expectation.Sound] using hsound
    refine ⟨trivial, settings, ?_⟩
    simp [ht, hslots, Expectation.configWords, Expectation.words, wordsOfOuter, OpenRow.words,
      wordsOfSlots]
  | rowBody row outer =>
    simp only [Reader.step, he] at hstep
    split_ifs at hstep with hitem haltItem hgroup
    · obtain rfl := Except.ok.inj hstep
      exact ⟨trivial, settings, by simp [hitem, Expectation.configWords, Expectation.words]⟩
    · obtain rfl := Except.ok.inj hstep
      exact ⟨trivial, settings, by simp [haltItem, Expectation.configWords, Expectation.words]⟩
    · obtain rfl := Except.ok.inj hstep
      exact ⟨trivial, settings, by simp [hgroup, Expectation.configWords, Expectation.words]⟩
    · obtain ⟨ht, rfl⟩ := Reader.require_eq_ok_iff.1 hstep
      refine ⟨trivial, settings, ?_⟩
      rw [Reader.expecting_expectation, words_afterRow, ht, ← List.append_assoc]
      rfl
  | itemName keyword row outer =>
    simp only [Reader.step, he] at hstep
    obtain rfl := Except.ok.inj hstep
    exact ⟨trivial, settings, by simp [Expectation.configWords, Expectation.words]⟩
  | itemLabel keyword name row outer =>
    simp only [Reader.step, he] at hstep
    obtain rfl := Except.ok.inj hstep
    refine ⟨trivial, settings, ?_⟩
    rw [Reader.expecting_expectation, words_afterSlot]
    simp [afterSlot, Expectation.configWords, Expectation.words, Node.outline, SlotTree.words,
      declare]
  | altItemName keyword row outer =>
    simp only [Reader.step, he] at hstep
    obtain rfl := Except.ok.inj hstep
    exact ⟨trivial, settings, by simp [Expectation.configWords, Expectation.words]⟩
  | altItemAltName keyword name row outer =>
    simp only [Reader.step, he] at hstep
    obtain rfl := Except.ok.inj hstep
    exact ⟨trivial, settings, by simp [Expectation.configWords, Expectation.words]⟩
  | altItemLabel keyword name altName row outer =>
    simp only [Reader.step, he] at hstep
    obtain rfl := Except.ok.inj hstep
    refine ⟨trivial, settings, ?_⟩
    rw [Reader.expecting_expectation, words_afterSlot]
    simp [afterSlot, Expectation.configWords, Expectation.words, Node.outline, SlotTree.words,
      declare]
  | finished root =>
    simp only [Reader.step, he, Reader.reject] at hstep
    split_ifs at hstep

/-- Over more words the reader has read those as well. -/
theorem Reader.HasRead.run {reader next : Reader} {words : List String} {tokens : List Token}
    (h : reader.HasRead words) (hrun : reader.run tokens = .ok next) :
    next.HasRead (words ++ tokens.map Token.text) := by
  induction tokens generalizing reader words with
  | nil =>
    obtain rfl := Except.ok.inj hrun
    simpa using h
  | cons token tokens ih =>
    cases hstep : reader.step token with
    | error error => rw [Reader.run_cons, hstep] at hrun; cases hrun
    | ok middle =>
      rw [Reader.run_cons_of_step hstep] at hrun
      simpa using ih (h.step hstep) hrun

/-- The words that a finished reader has read are a menu definition with the outline of its tree. -/
theorem Reader.HasRead.tree {reader : Reader} {words : List String} {root : Node}
    (h : reader.HasRead words) (hroot : reader.expectation = .finished root) :
    ∃ tree : FileTree, tree.words = words ∧ tree.root = root.outline := by
  obtain ⟨hsound, settings, rfl⟩ := h
  rw [hroot] at hsound ⊢
  cases root with
  | item info => cases hsound
  | altItem info altName => cases hsound
  | group info rows =>
    exact ⟨⟨settings, info.name.text, info.label, outlineOfRows rows⟩, rfl, rfl⟩

/-! ## Declarations -/

/-- A word that declares a part of a menu tree, and the place that the tree holds for it. -/
structure DeclaredWord where
  /-- The word. -/
  text : String
  /-- The place, if the word is the keyword of a node or of a row. -/
  place : Option Place := none
deriving Repr

/-- The token is the word, and it stands where the menu tree says. -/
def DeclaredWord.Matches (word : DeclaredWord) (token : Token) : Prop :=
  token.text = word.text ∧ ∀ place ∈ word.place, token.place = place

mutual

/-- The words that declare a menu tree. -/
def Node.declaration : Node → List DeclaredWord
  | .item info => [⟨"MenuItem", info.place⟩, ⟨info.name.text, none⟩, ⟨info.label, none⟩]
  | .altItem info altName =>
    [⟨"MenuItemAlt", info.place⟩, ⟨info.name.text, none⟩, ⟨altName.text, none⟩, ⟨info.label, none⟩]
  | .group info rows =>
    ⟨"MenuGroup", info.place⟩ :: ⟨info.name.text, none⟩ :: ⟨info.label, none⟩ :: ⟨"[", none⟩ ::
      declarationOfRows rows ++ [⟨"]", none⟩]

/-- The words that declare some rows. -/
def declarationOfRows : List (Row Node) → List DeclaredWord
  | [] => []
  | row :: rows => declarationOfRow row ++ declarationOfRows rows

/-- The words that declare a row. -/
def declarationOfRow : Row Node → List DeclaredWord
  | ⟨slots, place⟩ =>
    ⟨"MenuRow", place⟩ :: ⟨"[", none⟩ :: declarationOfSlots slots ++ [⟨"]", none⟩]

/-- The words that declare some slots. -/
def declarationOfSlots : List Node → List DeclaredWord
  | [] => []
  | slot :: slots => slot.declaration ++ declarationOfSlots slots

end

/-- Nothing about the node has been worked out yet: it has no ids and no exploded names. -/
structure Node.Fresh (node : Node) : Prop where
  id_eq : node.id = nullId
  parentId_eq : node.parentId = nullId
  name_eq : node.info.name.exploded = none
  altName_eq : ∀ altName ∈ node.altName?, altName.exploded = none

/-- The tokens declare this menu tree, keyword by keyword and word by word, and nothing else is
known about it. -/
structure Node.DeclaredBy (node : Node) (tokens : List Token) : Prop where
  matching : List.Forall₂ DeclaredWord.Matches node.declaration tokens
  fresh : ∀ member ∈ node.nodes, member.Fresh

/-! ## Derivations steer the reader -/

/-- Over the words of the derivation the reader adds a slot to the row that it is in, and this slot
is the tree of the derivation. -/
def SlotTree.Readable (tree : SlotTree) : Prop :=
  ∀ tokens : List Token, tokens.map Token.text = tree.words →
    ∃ node : Node, node.outline = tree ∧ node.DeclaredBy tokens ∧
      ∀ (reader : Reader) (row : OpenRow) (outer : List OpenRow),
        (reader.expecting (.rowBody row outer)).run tokens =
          .ok (reader.expecting (afterSlot node row outer))

theorem readable_item (name label : String) : (SlotTree.item name label).Readable := by
  intro tokens htokens
  obtain ⟨keyword, tokens, rfl, hkeyword, hname⟩ := List.map_eq_cons_iff.1 htokens
  obtain ⟨first, tokens, rfl, rfl, hlabel⟩ := List.map_eq_cons_iff.1 hname
  obtain ⟨second, tokens, rfl, rfl, hend⟩ := List.map_eq_cons_iff.1 hlabel
  obtain rfl := List.map_eq_nil_iff.1 hend
  refine ⟨.item (declare keyword first second), rfl, ⟨?_, ?_⟩, fun reader row outer => ?_⟩
  · simp [Node.declaration, DeclaredWord.Matches, declare, hkeyword]
  · simp only [Node.nodes, List.mem_singleton, forall_eq]
    exact ⟨rfl, rfl, rfl, by simp [Node.altName?]⟩
  · rw [Reader.run_cons_of_step (Reader.step_itemKeyword hkeyword)]
    rfl

theorem readable_altItem (name altName label : String) :
    (SlotTree.altItem name altName label).Readable := by
  intro tokens htokens
  obtain ⟨keyword, tokens, rfl, hkeyword, hname⟩ := List.map_eq_cons_iff.1 htokens
  obtain ⟨first, tokens, rfl, rfl, haltName⟩ := List.map_eq_cons_iff.1 hname
  obtain ⟨second, tokens, rfl, rfl, hlabel⟩ := List.map_eq_cons_iff.1 haltName
  obtain ⟨third, tokens, rfl, rfl, hend⟩ := List.map_eq_cons_iff.1 hlabel
  obtain rfl := List.map_eq_nil_iff.1 hend
  refine ⟨.altItem (declare keyword first third) { text := second.text }, rfl, ⟨?_, ?_⟩,
    fun reader row outer => ?_⟩
  · simp [Node.declaration, DeclaredWord.Matches, declare, hkeyword]
  · simp only [Node.nodes, List.mem_singleton, forall_eq]
    exact ⟨rfl, rfl, rfl, by simp [Node.altName?]⟩
  · rw [Reader.run_cons_of_step (Reader.step_altItemKeyword hkeyword)]
    rfl

/-- The words of slots are read as those slots, which are added to the row. -/
theorem run_slots {slots : List SlotTree} (hslots : ∀ slot ∈ slots, slot.Readable)
    {tokens : List Token} (htokens : tokens.map Token.text = wordsOfSlots slots) :
    ∃ nodes : List Node, outlineOfSlots nodes = slots ∧
      List.Forall₂ DeclaredWord.Matches (declarationOfSlots nodes) tokens ∧
      (∀ member ∈ nodesOfSlots nodes, member.Fresh) ∧
      ∀ (reader : Reader) (row : OpenRow) (outer : List OpenRow),
        (reader.expecting (.rowBody row outer)).run tokens =
          .ok (reader.expecting
            (.rowBody { row with slots := nodes.reverse ++ row.slots } outer)) := by
  induction slots generalizing tokens with
  | nil =>
    obtain rfl := List.map_eq_nil_iff.1 htokens
    refine ⟨[], rfl, List.Forall₂.nil, by simp [nodesOfSlots], fun reader row outer => ?_⟩
    simp
  | cons slot slots ih =>
    obtain ⟨first, rest, rfl, hfirst, hrest⟩ := List.map_eq_append_iff.1 htokens
    obtain ⟨node, rfl, hnode, hrun⟩ := hslots slot List.mem_cons_self first hfirst
    obtain ⟨nodes, rfl, hmatch, hfresh, hruns⟩ :=
      ih (fun other hother => hslots other (List.mem_cons_of_mem _ hother)) hrest
    refine ⟨node :: nodes, rfl, List.rel_append hnode.matching hmatch,
      List.forall_mem_append.2 ⟨hnode.fresh, hfresh⟩, fun reader row outer => ?_⟩
    rw [Reader.run_append_of_run (hrun reader row outer), afterSlot, hruns]
    simp

/-- The words of rows are read as those rows, which are added to the group. -/
theorem run_rows {rows : List (List SlotTree)} (hrows : ∀ row ∈ rows, ∀ slot ∈ row, slot.Readable)
    {tokens : List Token} (htokens : tokens.map Token.text = wordsOfRows rows) :
    ∃ nodeRows : List (Row Node), outlineOfRows nodeRows = rows ∧
      List.Forall₂ DeclaredWord.Matches (declarationOfRows nodeRows) tokens ∧
      (∀ member ∈ nodesOfRows nodeRows, member.Fresh) ∧
      ∀ (reader : Reader) (group : OpenGroup) (outer : List OpenRow),
        (reader.expecting (.groupBody group outer)).run tokens =
          .ok (reader.expecting
            (.groupBody { group with rows := nodeRows.reverse ++ group.rows } outer)) := by
  induction rows generalizing tokens with
  | nil =>
    obtain rfl := List.map_eq_nil_iff.1 htokens
    refine ⟨[], rfl, List.Forall₂.nil, by simp [nodesOfRows], fun reader group outer => ?_⟩
    simp
  | cons row rows ih =>
    obtain ⟨keyword, tokens, rfl, hkeyword, htokens₁⟩ := List.map_eq_cons_iff.1 htokens
    obtain ⟨bracket, tokens, rfl, hbracket, htokens₂⟩ := List.map_eq_cons_iff.1 htokens₁
    obtain ⟨body, tokens, rfl, hbody, htokens₃⟩ := List.map_eq_append_iff.1 htokens₂
    obtain ⟨closing, rest, rfl, hclosing, hrest⟩ := List.map_eq_cons_iff.1 htokens₃
    obtain ⟨nodes, rfl, hmatch, hfresh, hrun⟩ := run_slots (hrows row List.mem_cons_self) hbody
    obtain ⟨nodeRows, rfl, hmatches, hfreshs, hruns⟩ :=
      ih (fun other hother => hrows other (List.mem_cons_of_mem _ hother)) hrest
    refine ⟨⟨nodes, keyword.place⟩ :: nodeRows, rfl, ?_,
      List.forall_mem_append.2 ⟨hfresh, hfreshs⟩, fun reader group outer => ?_⟩
    · have hrow : List.Forall₂ DeclaredWord.Matches (declarationOfRow ⟨nodes, keyword.place⟩)
          (keyword :: bracket :: body ++ [closing]) := by
        refine List.rel_append (.cons ⟨hkeyword, by simp⟩ (.cons ⟨hbracket, by simp⟩ hmatch)) ?_
        exact .cons ⟨hclosing, by simp⟩ .nil
      have := List.rel_append hrow hmatches
      simpa [declarationOfRows] using this
    · rw [Reader.run_cons_of_step (Reader.step_rowKeyword hkeyword),
        Reader.run_cons_of_step (Reader.step_rowOpen hbracket),
        Reader.run_append_of_run (hrun reader _ outer),
        Reader.run_cons_of_step (Reader.step_rowClose hclosing), afterRow, hruns]
      simp

/-- After the keyword of a group the reader goes to its end. -/
theorem run_group {name label : String} {rows : List (List SlotTree)}
    (hrows : ∀ row ∈ rows, ∀ slot ∈ row, slot.Readable) {keyword : Token} {tokens : List Token}
    (htokens : (keyword :: tokens).map Token.text = (SlotTree.group name label rows).words) :
    ∃ (info : NodeInfo) (nodeRows : List (Row Node)),
      (Node.group info nodeRows).outline = .group name label rows ∧
      (Node.group info nodeRows).DeclaredBy (keyword :: tokens) ∧
      ∀ (reader : Reader) (outer : List OpenRow),
        (reader.expecting (.groupName keyword outer)).run tokens =
          .ok (reader.expecting (afterGroup ⟨info, nodeRows.reverse⟩ outer)) := by
  obtain ⟨hkeyword, htokens⟩ := List.cons.inj htokens
  obtain ⟨first, tokens, rfl, rfl, htokens₁⟩ := List.map_eq_cons_iff.1 htokens
  obtain ⟨second, tokens, rfl, rfl, htokens₂⟩ := List.map_eq_cons_iff.1 htokens₁
  obtain ⟨bracket, tokens, rfl, hbracket, htokens₃⟩ := List.map_eq_cons_iff.1 htokens₂
  obtain ⟨body, tokens, rfl, hbody, htokens₄⟩ := List.map_eq_append_iff.1 htokens₃
  obtain ⟨closing, tokens, rfl, hclosing, hend⟩ := List.map_eq_cons_iff.1 htokens₄
  obtain rfl := List.map_eq_nil_iff.1 hend
  obtain ⟨nodeRows, rfl, hmatch, hfresh, hrun⟩ := run_rows hrows hbody
  refine ⟨declare keyword first second, nodeRows, rfl, ⟨?_, ?_⟩, fun reader outer => ?_⟩
  · rw [Node.declaration]
    refine List.Forall₂.cons ⟨hkeyword, by simp [declare]⟩ (.cons ⟨rfl, by simp⟩ ?_)
    refine List.Forall₂.cons ⟨rfl, by simp⟩ (.cons ⟨hbracket, by simp⟩ ?_)
    exact List.rel_append hmatch (.cons ⟨hclosing, by simp⟩ .nil)
  · rw [Node.nodes]
    exact List.forall_mem_cons.2 ⟨⟨rfl, rfl, rfl, by simp [Node.altName?]⟩, hfresh⟩
  · rw [Reader.run_cons_of_step Reader.step_groupName,
      Reader.run_cons_of_step Reader.step_groupLabel,
      Reader.run_cons_of_step (Reader.step_groupOpen hbracket),
      Reader.run_append_of_run (hrun reader _ outer),
      Reader.run_cons_of_step (Reader.step_groupClose hclosing)]
    simp

/-- The words of every derivation are read as its tree. -/
theorem SlotTree.readable (tree : SlotTree) : tree.Readable := by
  induction tree using SlotTree.induction with
  | item name label => exact readable_item name label
  | altItem name altName label => exact readable_altItem name altName label
  | group name label rows ih =>
    intro tokens htokens
    obtain ⟨keyword, tokens, rfl, hkeyword, -⟩ := List.map_eq_cons_iff.1 htokens
    obtain ⟨info, nodeRows, houtline, hdeclared, hrun⟩ := run_group ih htokens
    refine ⟨.group info nodeRows, houtline, hdeclared, fun reader row outer => ?_⟩
    rw [Reader.run_cons_of_step (Reader.step_groupKeyword hkeyword), hrun, afterGroup,
      List.reverse_reverse]

/-! ## Settings -/

/-- A setting as it stands in a text: the word that names it, and the word after it. -/
structure Setting where
  /-- Which setting it is. -/
  key : ConfigKey
  /-- The word that names the setting. -/
  token : Token
  /-- The word that is its value. -/
  value : Token
  named : token.text = key.word

/-- The words of a setting. -/
def Setting.tokens (setting : Setting) : List Token := [setting.token, setting.value]

/-- Gives the settings their values, one after the other. -/
def Reader.configureAll (reader : Reader) (settings : List Setting) : Reader :=
  settings.foldl (fun reader setting => reader.configure setting.key setting.token setting.value)
    reader

/-- The tokens are a complete block of these settings. -/
def IsBlock (settings : List Setting) (tokens : List Token) : Prop :=
  ∃ keyword opening closing : Token,
    tokens = keyword :: opening :: settings.flatMap Setting.tokens ++ [closing] ∧
      keyword.text = "MenuConfig" ∧ opening.text = "[" ∧ closing.text = "]"

/-- Words of settings come in pairs of a name and a value. -/
theorem exists_settings {settings : List (ConfigKey × String)} {tokens : List Token}
    (htokens : tokens.map Token.text = wordsOfSettings settings) :
    ∃ found : List Setting, tokens = found.flatMap Setting.tokens := by
  induction settings generalizing tokens with
  | nil =>
    obtain rfl := List.map_eq_nil_iff.1 htokens
    exact ⟨[], rfl⟩
  | cons setting settings ih =>
    obtain ⟨key, tokens, rfl, hkey, htokens₁⟩ := List.map_eq_cons_iff.1 htokens
    obtain ⟨value, rest, rfl, -, hrest⟩ := List.map_eq_cons_iff.1 htokens₁
    obtain ⟨found, rfl⟩ := ih hrest
    exact ⟨⟨setting.1, key, value, hkey⟩ :: found, rfl⟩

theorem exists_isBlock {settings : List (ConfigKey × String)} {tokens : List Token}
    (htokens : tokens.map Token.text = configBlock settings) : ∃ found, IsBlock found tokens := by
  obtain ⟨keyword, tokens, rfl, hkeyword, htokens₁⟩ := List.map_eq_cons_iff.1 htokens
  obtain ⟨opening, tokens, rfl, hopening, htokens₂⟩ := List.map_eq_cons_iff.1 htokens₁
  obtain ⟨body, tokens, rfl, hbody, htokens₃⟩ := List.map_eq_append_iff.1 htokens₂
  obtain ⟨closing, tokens, rfl, hclosing, hend⟩ := List.map_eq_cons_iff.1 htokens₃
  obtain rfl := List.map_eq_nil_iff.1 hend
  obtain ⟨found, rfl⟩ := exists_settings hbody
  exact ⟨found, keyword, opening, closing, rfl, hkeyword, hopening, hclosing⟩

/-- Settings are taken over one by one. -/
theorem run_settings (settings : List Setting) (reader : Reader) :
    (reader.expecting .configKey).run (settings.flatMap Setting.tokens) =
      .ok ((reader.configureAll settings).expecting .configKey) := by
  induction settings generalizing reader with
  | nil => rfl
  | cons setting settings ih =>
    rw [List.flatMap_cons, Setting.tokens, List.cons_append,
      Reader.run_cons_of_step (Reader.step_setting setting.named), List.cons_append,
      Reader.run_cons_of_step rfl]
    exact ih (reader.configure setting.key setting.token setting.value)

/-- Over a complete block of settings the reader takes them all and comes to the keyword of the
root. -/
theorem run_isBlock {settings : List Setting} {tokens : List Token} (h : IsBlock settings tokens) :
    Reader.run {} tokens = .ok ((Reader.configureAll {} settings).expecting .rootKeyword) := by
  obtain ⟨keyword, opening, closing, rfl, hkeyword, hopening, hclosing⟩ := h
  show (Reader.expecting {} .configKeyword).run _ = _
  rw [List.cons_append, List.cons_append,
    Reader.run_cons_of_step (Reader.step_configKeyword hkeyword),
    Reader.run_cons_of_step (Reader.step_configOpen hopening),
    Reader.run_append_of_run (run_settings settings {}),
    Reader.run_cons_of_step (Reader.step_configClose hclosing), Reader.run_nil]

/-- A block of settings is read to its end, whatever the settings. -/
theorem run_configBlock {settings : List (ConfigKey × String)} {tokens : List Token}
    (htokens : tokens.map Token.text = configBlock settings) :
    ∃ next : Reader, Reader.run {} tokens = .ok (next.expecting .rootKeyword) := by
  obtain ⟨found, hfound⟩ := exists_isBlock htokens
  exact ⟨_, run_isBlock hfound⟩

/-! ## Whole definitions -/

/-- Over the words of the root the reader comes to its end, and takes nothing else from them. -/
theorem run_root {tree : FileTree} {tokens : List Token}
    (htokens : tokens.map Token.text = tree.root.words) :
    ∃ root : Node, root.outline = tree.root ∧ root.DeclaredBy tokens ∧
      ∀ reader : Reader, (reader.expecting .rootKeyword).run tokens =
        .ok (reader.expecting (.finished root)) := by
  obtain ⟨keyword, tokens, rfl, hkeyword, -⟩ := List.map_eq_cons_iff.1 htokens
  obtain ⟨info, nodeRows, houtline, hdeclared, hrun⟩ :=
    run_group (fun row _ slot _ => slot.readable) htokens
  refine ⟨.group info nodeRows, houtline, hdeclared, fun reader => ?_⟩
  rw [Reader.run_cons_of_step (Reader.step_rootKeyword hkeyword), hrun, afterGroup,
    List.reverse_reverse]

/-- Over the words of a menu definition the reader comes to the end of the root, and the root is the
tree of the derivation. -/
theorem run_file {tree : FileTree} {tokens : List Token}
    (htokens : tokens.map Token.text = tree.words) :
    ∃ (before after : List Token) (next : Reader) (root : Node), tokens = before ++ after ∧
      before.map Token.text = configBlock tree.settings ∧ root.outline = tree.root ∧
      root.DeclaredBy after ∧ Reader.run {} tokens = .ok (next.expecting (.finished root)) := by
  obtain ⟨before, after, rfl, hbefore, hafter⟩ := List.map_eq_append_iff.1 htokens
  obtain ⟨next, hnext⟩ := run_configBlock hbefore
  obtain ⟨root, houtline, hdeclared, hrun⟩ := run_root hafter
  refine ⟨before, after, next, root, rfl, hbefore, houtline, hdeclared, ?_⟩
  rw [Reader.run_append_of_run hnext, hrun]

end SoftMenu
