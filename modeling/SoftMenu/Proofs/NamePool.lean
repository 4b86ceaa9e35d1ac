import SoftMenu.Proofs.NameGrammar
import SoftMenu.Proofs.Positions
import SoftMenu.Proofs.References

/-!
# The name pool

A table has one pool for all names of a menu. A node that is not blank puts its name into it, and an
item with an alternate name puts in two, so that the last name id may be used up between the two
(`exists_overflow_of_ofFile`). If there is room, the pool is the list of all names in hybrid order
(`content_of_ofFile`).

What the pool of a compilation holds can be said in terms of the names that were declared, since the
passes in between keep them in their order and note operands only (`stores_of_compile`).
-/

namespace SoftMenu

/-! ## Lists of names -/

/-- The names of a node under its label, seen in some view: the name, then the alternate name. -/
def Node.nameList {α : Type} (view : DisplayName → α) (node : Node) :
    List (String × NameSlot × α) :=
  (node.label, .primary, view node.info.name) ::
    (node.altName?.map fun altName => (node.label, .alternate, view altName)).toList

/-- The names of all nodes of a tree that are not blank, in hybrid order. -/
def Node.allNames {α : Type} (view : DisplayName → α) (root : Node) :
    List (String × NameSlot × α) :=
  (active Node.isBlank root.flatten).flatMap (Node.nameList view)

/-- The number of names of some nodes: one for each node that is not blank, and another one if it is
an item with an alternate name. -/
def nameCount (nodes : List Node) : Nat :=
  (active Node.isBlank nodes).length +
    (active Node.isBlank nodes).countP fun node => node.kind = .altItem

/-- What an entry of the pool holds, its id apart. -/
def NameEntry.content (entry : NameEntry) : String × NameSlot × NameText :=
  (entry.label, entry.slot, entry.text)

theorem Node.isSome_altName? (node : Node) :
    node.altName?.isSome = decide (node.kind = .altItem) := by
  cases node <;> rfl

theorem length_flatMap_poolNames (nodes : List Node) :
    (nodes.flatMap Node.poolNames).length = nameCount nodes := by
  have halt : ∀ node : Node, node.wording.altName.isSome = decide (node.kind = .altItem) := by
    intro node
    rw [← Node.isSome_altName?]
    exact Option.isSome_map
  rw [length_poolNames, ← map_active_isBlank, List.length_map, List.countP_map, nameCount]
  exact congrArg _ (List.countP_congr fun node _ => by simp [halt])

theorem Node.map_poolNames (node : Node) :
    node.poolNames.map
        (fun pooled => (pooled.node.label, pooled.slot, NameText.ofName pooled.name)) =
      if node.isBlank then [] else node.nameList NameText.ofName := by
  unfold Node.poolNames
  split_ifs with hblank
  · rfl
  · rw [Node.nameList]
    cases node.altName? <;> rfl

theorem map_flatMap_poolNames (nodes : List Node) :
    (nodes.flatMap Node.poolNames).map
        (fun pooled => (pooled.node.label, pooled.slot, NameText.ofName pooled.name)) =
      (active Node.isBlank nodes).flatMap (Node.nameList NameText.ofName) := by
  rw [List.map_flatMap]
  induction nodes with
  | nil => rfl
  | cons node nodes ih =>
    rw [List.flatMap_cons, ih, Node.map_poolNames]
    cases hblank : node.isBlank with
    | true => simp [active, hblank]
    | false => simp [active, hblank]

/-! ## Room in the pool -/

/-- A member of a list that is put together from parts stands in one of the parts. -/
theorem exists_split_of_getElem?_flatMap {α β : Type} {parts : α → List β} {members : List α}
    {k : Nat} {found : β} (h : (members.flatMap parts)[k]? = some found) :
    ∃ before member after, members = before ++ member :: after ∧ found ∈ parts member ∧
      (before.flatMap parts).length ≤ k ∧ k < ((before ++ [member]).flatMap parts).length := by
  induction members generalizing k with
  | nil => cases h
  | cons first members ih =>
    rw [List.flatMap_cons] at h
    by_cases hk : k < (parts first).length
    · rw [List.getElem?_append_left hk] at h
      refine ⟨[], first, members, rfl, List.mem_of_getElem? h, Nat.zero_le _, ?_⟩
      rw [List.nil_append, List.flatMap_singleton]
      exact hk
    · rw [List.getElem?_append_right (by omega)] at h
      obtain ⟨before, member, after, rfl, hfound, hle, hlt⟩ := ih h
      refine ⟨first :: before, member, after, rfl, hfound, ?_, ?_⟩
      · rw [List.flatMap_cons, List.length_append]
        omega
      · rw [List.cons_append, List.flatMap_cons, List.length_append]
        omega

theorem exists_ofFile_error_iff (file : MenuFile) :
    (∃ error, Table.ofFile file = .error error) ↔ 254 < nameCount file.root.flatten := by
  rw [← length_flatMap_poolNames]
  simp only [ofFile_eq_error_iff, namePool, numberNames_eq_error_iff (by omega : 1 ≤ 255)]
  constructor
  · rintro ⟨error, pooled, hpooled, -⟩
    exact (List.getElem?_eq_some_iff.1 hpooled).1
  · intro hlt
    exact ⟨_, _, List.getElem?_eq_getElem hlt, rfl⟩

/-- The name without an id is that of the node at which there are 255 names. -/
theorem exists_overflow_of_ofFile {file : MenuFile} {error : CompileError}
    (h : Table.ofFile file = .error error) :
    ∃ before node after, file.root.flatten = before ++ node :: after ∧
      nameCount before < 255 ∧ 255 ≤ nameCount (before ++ [node]) ∧
      error = .nameIdOverflow 254 node.label node.place.span := by
  rw [ofFile_eq_error_iff, namePool, numberNames_eq_error_iff (by omega)] at h
  obtain ⟨pooled, hpooled, rfl⟩ := h
  obtain ⟨before, node, after, hflatten, hfound, hle, hlt⟩ :=
    exists_split_of_getElem?_flatMap hpooled
  rw [length_flatMap_poolNames] at hle hlt
  refine ⟨before, node, after, hflatten, by omega, by omega, ?_⟩
  rw [(node_of_mem_poolNames hfound).1]

/-- The pool lists all names, with ids from 1 on. -/
theorem content_of_ofFile {file : MenuFile} {table : Table} (h : Table.ofFile file = .ok table) :
    table.names.map NameEntry.content = file.root.allNames NameText.ofName ∧
      (table.names.map fun entry => entry.id.toNat) = List.range' 1 table.names.length := by
  have hpool := (ofFile_eq_ok_iff.1 h).1
  have hroom : (file.root.flatten.flatMap Node.poolNames).length ≤ 254 :=
    (namePool_eq_ok_iff file.root).1 ⟨_, hpool⟩
  have hnames := eq_numberedNames hpool
  constructor
  · rw [Node.allNames, ← map_flatMap_poolNames, hnames]
    exact map_numberedNames (fun _ _ => rfl) 1 _
  · rw [hnames, length_numberedNames]
    exact ids_numberedNames (by omega)

/-! ## Names that were declared -/

/-- How a declared name is stored: as it is, if it is made of letters and digits, and by its tokens
if it has an angle bracket. -/
structure NameText.Stores (text : NameText) (name : String) : Prop where
  literal : ∀ stored, text = .literal stored →
    stored = name ∧ name ≠ "" ∧ ∀ c ∈ name.toList, c.isAlphanum = true
  glyphs : ∀ operands, text = .glyphs operands → operands ≠ [] ∧ explode name = .ok operands
  glyphs_iff : (∃ operands, text = .glyphs operands) ↔ '<' ∈ name.toList ∨ '>' ∈ name.toList

/-- An entry of the pool stores a name that was declared under a label. -/
structure NameEntry.Stores (entry : NameEntry) (declared : String × NameSlot × String) : Prop where
  label_eq : entry.label = declared.1
  slot_eq : entry.slot = declared.2.1
  text : entry.text.Stores declared.2.2

theorem ne_nil_of_explode {name : String} {operands : List String}
    (h : explode name = .ok operands) (hname : name ≠ "") : operands ≠ [] := by
  obtain ⟨segments, hsegments, rfl⟩ := map_eq_ok_iff.1 h
  have hchars := (segments?_eq_ok_iff.1 hsegments).chars_eq
  intro hnil
  rw [List.map_eq_nil_iff] at hnil
  subst hnil
  exact hname (String.toList_inj.1 hchars.symm)

theorem stores_settled {name : DisplayName} (hfresh : name.exploded = none)
    (hspellable : Spellable name.text) (hname : name.text ≠ "") :
    (NameText.ofName name.settled).Stores name.text := by
  obtain ⟨operands, hoperands⟩ := explode_eq_ok_iff.2 hspellable
  by_cases hspecial : name.isSpecial = true
  · have htext : NameText.ofName name.settled = .glyphs operands := by
      rw [DisplayName.settled, if_pos hspecial, hoperands]
      rfl
    rw [htext]
    refine ⟨fun stored hstored => ?_, fun other hother => ?_, ?_⟩
    · cases hstored
    · obtain rfl := NameText.glyphs.inj hother
      exact ⟨ne_nil_of_explode hoperands hname, hoperands⟩
    · exact iff_of_true ⟨operands, rfl⟩ (DisplayName.isSpecial_iff.1 hspecial)
  · have htext : NameText.ofName name.settled = .literal name.text := by
      rw [DisplayName.settled, if_neg hspecial, NameText.ofName, hfresh]
    rw [htext]
    refine ⟨fun stored hstored => ?_, fun other hother => ?_, ?_⟩
    · obtain rfl := NameText.literal.inj hstored
      exact ⟨rfl, hname, letters_of_spellable hspellable (by simpa using hspecial)⟩
    · cases hother
    · refine iff_of_false ?_ (fun hbracket => hspecial (DisplayName.isSpecial_iff.2 hbracket))
      rintro ⟨other, hother⟩
      cases hother

/-- The names in a tag. -/
def Tag.nameList {α : Type} (view : DisplayName → α) (tag : Tag) : List (String × NameSlot × α) :=
  (tag.label.getD "", .primary, view tag.name) ::
    (tag.altName.map fun altName => (tag.label.getD "", .alternate, view altName)).toList

theorem Tag.nameList_face {α : Type} (view : DisplayName → α) {node : Node}
    (h : node.isBlank = false) : node.face.tag.nameList view = node.nameList view := by
  have hname : node.info.name.text ≠ blankMark := Node.isBlank_eq_false_iff.1 h
  simp [Tag.nameList, Face.tag, Node.face, hname, Node.nameList, Node.label]

theorem Tag.nameList_settled {α : Type} (view : DisplayName → α) {node : Node}
    (h : node.isBlank = false) : node.face.tag.settled.nameList view =
      node.nameList fun name => view name.settled := by
  have hname : node.face.tag.name.text ≠ blankMark := by
    rw [Face.tag]
    exact Node.isBlank_eq_false_iff.1 h
  rw [← Tag.nameList_face _ h, Tag.settled, if_neg hname, Tag.nameList, Tag.nameList,
    Option.map_map]
  rfl

/-- The names of a finished menu are those that were declared, settled. -/
theorem allNames_finishedMenu {α : Type} (view : DisplayName → α) {policy : DuplicatePolicy}
    {file : MenuFile} (h : Passes policy file) :
    (finishedMenu policy file).root.allNames view =
      file.root.allNames fun name => view name.settled := by
  have htags := congrArg (List.flatMap (Tag.nameList view)) (tags_finishedMenu h)
  rw [List.flatMap_map, List.flatMap_map] at htags
  calc
    _ = (active Node.isBlank (finishedMenu policy file).root.flatten).flatMap
          fun node => node.face.tag.nameList view :=
      List.flatMap_congr fun node hnode => (Tag.nameList_face view (mem_active.1 hnode).2).symm
    _ = (active Node.isBlank file.root.flatten).flatMap
          fun node => node.face.tag.settled.nameList view := htags
    _ = _ := List.flatMap_congr fun node hnode => Tag.nameList_settled view (mem_active.1 hnode).2

/-- What holds of all names of a tree holds of its names in any view. -/
theorem forall₂_allNames {α β : Type} {first : DisplayName → α} {second : DisplayName → β}
    {R : String × NameSlot × α → String × NameSlot × β → Prop} {root : Node}
    (hname : ∀ node ∈ active Node.isBlank root.flatten,
      R (node.label, .primary, first node.info.name) (node.label, .primary, second node.info.name))
    (haltName : ∀ node ∈ active Node.isBlank root.flatten, ∀ altName ∈ node.altName?,
      R (node.label, .alternate, first altName) (node.label, .alternate, second altName)) :
    List.Forall₂ R (root.allNames first) (root.allNames second) := by
  unfold Node.allNames
  generalize active Node.isBlank root.flatten = nodes at hname haltName
  induction nodes with
  | nil => exact .nil
  | cons node nodes ih =>
    rw [List.forall_mem_cons] at hname haltName
    rw [List.flatMap_cons, List.flatMap_cons]
    refine List.rel_append (.cons hname.1 ?_) (ih hname.2 haltName.2)
    cases halt : node.altName? with
    | none => exact .nil
    | some altName => exact .cons (haltName.1 altName halt) .nil

theorem stores_of_compile {options : CompileOptions} {source : String} {compilation : Compilation}
    (h : compile options source = .ok compilation) :
    ∃ parsed, parse source = .ok parsed ∧ List.Forall₂ NameEntry.Stores compilation.table.names
      (parsed.file.root.allNames DisplayName.text) := by
  obtain ⟨parsed, hparsed, hpasses, hfile, -, htable⟩ := passes_of_compile h
  refine ⟨parsed, hparsed, ?_⟩
  have hcontent := (content_of_ofFile htable).1
  rw [hfile, allNames_finishedMenu NameText.ofName hpasses] at hcontent
  have hwords : ∀ word ∈ (tokenize source).map Token.text, word ≠ "" := by
    intro word hword
    obtain ⟨token, htoken, rfl⟩ := List.mem_map.1 hword
    exact text_ne_empty_of_mem_tokenize htoken
  have hspelled := (passes_iff_acceptable.1 hpasses).spelled
  have hstores : List.Forall₂
      (fun stored declared => stored.1 = declared.1 ∧ stored.2.1 = declared.2.1 ∧
        stored.2.2.Stores declared.2.2)
      (compilation.table.names.map NameEntry.content)
      (parsed.file.root.allNames DisplayName.text) := by
    rw [hcontent]
    refine forall₂_allNames (fun node hnode => ?_) (fun node hnode altName haltName => ?_)
    · obtain ⟨hnode, hblank⟩ := mem_active.1 hnode
      have hne := Node.isBlank_eq_false_iff.1 hblank
      refine ⟨rfl, rfl, stores_settled (fresh_of_parse hparsed node hnode).name_eq ?_ ?_⟩
      · exact (hspelled node hnode).name hne
      · exact hwords _ (mem_tokenize_of_parse hparsed hnode).1
    · obtain ⟨hnode, hblank⟩ := mem_active.1 hnode
      have hne := Node.isBlank_eq_false_iff.1 hblank
      refine ⟨rfl, rfl,
        stores_settled ((fresh_of_parse hparsed node hnode).altName_eq altName haltName) ?_ ?_⟩
      · exact (hspelled node hnode).altName hne _ (Option.mem_map_of_mem _ haltName)
      · exact hwords _ ((mem_tokenize_of_parse hparsed hnode).2.2 altName haltName)
  refine (List.forall₂_map_left_iff.1 hstores).imp ?_
  rintro entry declared ⟨hlabel, hslot, htext⟩
  exact ⟨hlabel, hslot, htext⟩

/-- A table cannot be laid out exactly if a menu has more than 254 names. Then the error is reported
for the first node at which there are more, be it with its name or with its alternate name.
Otherwise the pool lists the names of all nodes that are not blank in hybrid order, with the ids
1, 2, 3, …. If the menu is that of a compilation, every entry stores a name that was declared, and
none is missing. -/
theorem ofFile_pools_names (file : MenuFile) :
    ((∃ error, Table.ofFile file = .error error) ↔ 254 < nameCount file.root.flatten) ∧
    (∀ error, Table.ofFile file = .error error →
      ∃ before node after, file.root.flatten = before ++ node :: after ∧
        nameCount before < 255 ∧ 255 ≤ nameCount (before ++ [node]) ∧
        error = .nameIdOverflow 254 node.label node.place.span) ∧
    (∀ table, Table.ofFile file = .ok table →
      table.names.map NameEntry.content = file.root.allNames NameText.ofName ∧
      (table.names.map fun entry => entry.id.toNat) = List.range' 1 table.names.length) ∧
    ∀ options source compilation, compile options source = .ok compilation →
      compilation.file = file → Table.ofFile file = .ok compilation.table ∧
      ∃ parsed, parse source = .ok parsed ∧ List.Forall₂ NameEntry.Stores compilation.table.names
        (parsed.file.root.allNames DisplayName.text) := by
  refine ⟨exists_ofFile_error_iff file, fun error => exists_overflow_of_ofFile,
    fun table => content_of_ofFile, ?_⟩
  rintro options source compilation hcompile rfl
  obtain ⟨parsed, -, -, -, -, htable⟩ := passes_of_compile hcompile
  exact ⟨htable, stores_of_compile hcompile⟩

end SoftMenu
