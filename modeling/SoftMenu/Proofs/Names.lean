import SoftMenu.Menu.GlyphNames
import SoftMenu.Proofs.Walk
import SoftMenu.Table.Layout

/-!
# Names of a menu

A display name can be read exactly if it can be written as a sequence of letters, digits and glyph
references, and the segments read are those that it was written with (`segments?_eq_ok_iff`). Hence
`explodeNames` goes through exactly if all names of the menu can be written so
(`explodeNames_halt_iff`), and it changes nothing but the operands of names (`bare_explodeNames`).

The names then go into a pool, which has room for 254 of them (`namePool_eq_ok_iff`).
-/

namespace SoftMenu

theorem map_eq_ok_iff {ε α β : Type} {f : α → β} {result : Except ε α} {b : β} :
    result.map f = .ok b ↔ ∃ a, result = .ok a ∧ f a = b := by
  cases result <;> simp [Except.map]

/-! ## Spelling -/

/-- The characters that a segment is written with. -/
def Segment.chars : Segment → List Char
  | .letter c => [c]
  | .glyph tag => '<' :: tag ++ ['>']

/-- A segment that can be written: an ASCII letter or digit, or a reference with a tag that it does
not cut short. -/
def Segment.Legal : Segment → Prop
  | .letter c => c.isAlphanum
  | .glyph tag => tag ≠ [] ∧ '>' ∉ tag

/-- A name is written with these segments. -/
structure Spells (segments : List Segment) (name : List Char) : Prop where
  legal : ∀ segment ∈ segments, segment.Legal
  chars_eq : segments.flatMap Segment.chars = name

theorem Spells.cons {segment : Segment} {segments : List Segment} {name : List Char}
    (hlegal : segment.Legal) (h : Spells segments name) :
    Spells (segment :: segments) (segment.chars ++ name) :=
  ⟨List.forall_mem_cons.2 ⟨hlegal, h.legal⟩, congrArg (segment.chars ++ ·) h.chars_eq⟩

/-- In an open reference the tag goes up to the next closing bracket. -/
theorem readSegments_tag {tag : List Char} (htag : '>' ∉ tag) (chars rest : List Char)
    (hne : chars.reverse ++ tag ≠ []) :
    readSegments (some chars) (tag ++ '>' :: rest) =
      (readSegments none rest).map (.glyph (chars.reverse ++ tag) :: ·) := by
  induction tag generalizing chars with
  | nil =>
    have hchars : chars ≠ [] := by simpa using hne
    rw [List.nil_append, readSegments, if_pos rfl, if_neg hchars, List.append_nil]
  | cons c tag ih =>
    obtain ⟨hc, htag⟩ := List.ne_and_not_mem_of_not_mem_cons htag
    have hshift : (c :: chars).reverse ++ tag = chars.reverse ++ c :: tag := by simp
    rw [List.cons_append, readSegments, if_neg hc.symm, ih htag (c :: chars) (by simp), hshift]

theorem readSegments_chars_append {segment : Segment} (h : segment.Legal) (rest : List Char) :
    readSegments none (segment.chars ++ rest) = (readSegments none rest).map (segment :: ·) := by
  cases segment with
  | letter c =>
    have hplain : isPlain c = true := h
    rw [Segment.chars, List.singleton_append, readSegments, if_pos hplain]
  | glyph tag =>
    obtain ⟨hne, htag⟩ := h
    have hbracket : ¬ isPlain '<' := by decide
    have happend : Segment.chars (.glyph tag) ++ rest = '<' :: (tag ++ '>' :: rest) := by
      simp [Segment.chars]
    rw [happend, readSegments, if_neg hbracket, if_pos rfl, readSegments_tag htag [] rest hne]
    rfl

/-- What is written with some segments is read as these segments. -/
theorem Spells.readSegments {segments : List Segment} {name : List Char}
    (h : Spells segments name) : readSegments none name = .ok segments := by
  obtain ⟨hlegal, rfl⟩ := h
  induction segments with
  | nil => rfl
  | cons segment segments ih =>
    obtain ⟨hsegment, hsegments⟩ := List.forall_mem_cons.1 hlegal
    rw [List.flatMap_cons, readSegments_chars_append hsegment, ih hsegments]
    rfl

/-- What is read is written with the segments read. In an open reference the bracket and the
characters of the tag so far belong to what is read. -/
theorem spells_of_readSegments {tag : Option (List Char)} {chars : List Char}
    {segments : List Segment} (h : readSegments tag chars = .ok segments) :
    match tag with
    | none => Spells segments chars
    | some read => '>' ∉ read → Spells segments ('<' :: read.reverse ++ chars) := by
  induction chars generalizing tag segments with
  | nil =>
    cases tag with
    | none => cases h; exact ⟨by simp, rfl⟩
    | some read => cases h
  | cons c chars ih =>
    cases tag with
    | none =>
      rw [readSegments] at h
      split_ifs at h with hplain hopen
      · obtain ⟨rest, hrest, rfl⟩ := map_eq_ok_iff.1 h
        have hlegal : (Segment.letter c).Legal := hplain
        exact Spells.cons hlegal (ih hrest)
      · -- The bracket opens a reference, with no characters of its tag read so far.
        subst hopen
        simpa using ih h
    | some read =>
      intro hread
      rw [readSegments] at h
      split_ifs at h with hclose hempty
      · subst hclose
        obtain ⟨rest, hrest, rfl⟩ := map_eq_ok_iff.1 h
        have hlegal : (Segment.glyph read.reverse).Legal :=
          ⟨by simpa using hempty, by simpa using hread⟩
        simpa [Segment.chars] using Spells.cons hlegal (ih hrest)
      · simpa using ih h (by simp [hread, Ne.symm hclose])

theorem segments?_eq_ok_iff {name : String} {segments : List Segment} :
    segments? name = .ok segments ↔ Spells segments name.toList := by
  refine ⟨fun h => ?_, Spells.readSegments⟩
  rw [segments?] at h
  exact spells_of_readSegments h

/-- A name can be written as a sequence of letters, digits and glyph references. -/
def Spellable (name : String) : Prop := ∃ segments, Spells segments name.toList

theorem explode_eq_ok_iff {name : String} :
    (∃ operands, explode name = .ok operands) ↔ Spellable name := by
  simp only [explode, map_eq_ok_iff, segments?_eq_ok_iff, Spellable]
  constructor
  · rintro ⟨operands, segments, hspells, -⟩
    exact ⟨segments, hspells⟩
  · rintro ⟨segments, hspells⟩
    exact ⟨_, segments, hspells, rfl⟩

/-- A name without glyphs that can be written has only letters and digits. -/
theorem letters_of_spellable {name : DisplayName} (h : Spellable name.text)
    (hplain : name.isSpecial = false) : ∀ c ∈ name.text.toList, c.isAlphanum = true := by
  obtain ⟨segments, hlegal, hchars⟩ := h
  intro c hc
  rw [← hchars, List.mem_flatMap] at hc
  obtain ⟨segment, hsegment, hc⟩ := hc
  cases segment with
  | letter letter =>
    obtain rfl := List.mem_singleton.1 hc
    exact hlegal _ hsegment
  | glyph tag =>
    have hbracket : '<' ∈ name.text.toList := by
      rw [← hchars]
      exact List.mem_flatMap.2 ⟨_, hsegment, List.mem_cons_self⟩
    have hnot := List.any_eq_false.1 hplain '<' hbracket
    exact absurd rfl hnot

/-! ## Names of nodes -/

theorem explodeName_halt_iff {place : Place} {name : DisplayName} {count : Nat} :
    (explodeName place name count).halt = none ↔ Spellable name.text := by
  rw [← explode_eq_ok_iff, explodeName]
  cases explode name.text with
  | error fault => simp
  | ok operands =>
    refine iff_of_true ?_ ⟨operands, rfl⟩
    dsimp only
    split_ifs <;> rfl

/-- A name without its operands. -/
def DisplayName.bare (name : DisplayName) : DisplayName := { name with exploded := none }

theorem bare_explodeName (place : Place) (name : DisplayName) (count : Nat) :
    (explodeName place name count).value.bare = name.bare := by
  rw [explodeName]
  cases explode name.text with
  | error fault => rfl
  | ok operands =>
    dsimp only
    split_ifs <;> rfl

/-- The names that a node is declared with. -/
structure Wording where
  /-- The name. -/
  name : String
  /-- The alternate name. -/
  altName : Option String

/-- The names that a node is declared with. -/
def Node.wording (node : Node) : Wording where
  name := node.name
  altName := node.altName?.map DisplayName.text

/-- The names can be written, unless they are those of a blank. -/
structure Wording.Spelled (wording : Wording) : Prop where
  name : wording.name ≠ blankMark → Spellable wording.name
  altName : wording.name ≠ blankMark → ∀ altName ∈ wording.altName, Spellable altName

theorem explodeVisitor_of_blank {node : Node} (hblank : node.isBlank = true) (parentId : UInt8)
    (count : Nat) : explodeVisitor parentId node count = .done node count := by
  rw [explodeVisitor, if_pos hblank]

theorem explodeVisitor_of_altName?_eq_none {node : Node} (hblank : node.isBlank = false)
    (haltName : node.altName? = none) (parentId : UInt8) (count : Nat) :
    explodeVisitor parentId node count =
      (explodeName node.place node.info.name count).map fun name =>
        node.mapInfo fun info => { info with name } := by
  rw [explodeVisitor, if_neg (by simp [hblank])]
  generalize explodeName node.place node.info.name count = first
  obtain ⟨name, state, halt⟩ := first
  cases node with
  | item info => cases halt <;> rfl
  | altItem info altName => cases haltName
  | group info rows => cases halt <;> rfl

theorem explodeVisitor_altItem {info : NodeInfo} {altName : DisplayName}
    (hblank : (Node.altItem info altName).isBlank = false) (parentId : UInt8) (count : Nat) :
    explodeVisitor parentId (.altItem info altName) count =
      match (explodeName info.place info.name count).halt with
      | none =>
        (explodeName info.place altName (explodeName info.place info.name count).state).map
          (.altItem { info with name := (explodeName info.place info.name count).value })
      | some _ =>
        (explodeName info.place info.name count).map fun name =>
          .altItem { info with name } altName := by
  rw [explodeVisitor, if_neg (by simp [hblank])]
  dsimp only [Node.place, Node.info]
  generalize explodeName info.place info.name count = first
  obtain ⟨name, state, halt⟩ := first
  cases halt <;> rfl

theorem explodeVisitor_halt_iff (parentId : UInt8) (node : Node) (count : Nat) :
    (explodeVisitor parentId node count).halt = none ↔ node.wording.Spelled := by
  cases hblank : node.isBlank with
  | true =>
    have hname := Node.isBlank_iff.1 hblank
    rw [explodeVisitor_of_blank hblank]
    exact iff_of_true rfl ⟨fun hne => absurd hname hne, fun hne => absurd hname hne⟩
  | false =>
    have hne := Node.isBlank_eq_false_iff.1 hblank
    by_cases haltName : node.altName? = none
    · rw [explodeVisitor_of_altName?_eq_none hblank haltName]
      refine explodeName_halt_iff.trans ⟨fun h => ⟨fun _ => h, ?_⟩, fun h => h.name hne⟩
      simp [Node.wording, haltName]
    · obtain ⟨info, altName, rfl⟩ := Node.eq_altItem_of_altName? haltName
      rw [explodeVisitor_altItem hblank]
      cases hfirst : (explodeName info.place info.name count).halt with
      | none =>
        have hname : Spellable info.name.text := explodeName_halt_iff.1 hfirst
        refine explodeName_halt_iff.trans ⟨fun h => ⟨fun _ => hname, ?_⟩, fun h => ?_⟩
        · intro _ other hother
          obtain rfl : altName.text = other := Option.some.inj hother
          exact h
        · exact h.altName hne altName.text rfl
      | some error =>
        refine iff_of_false (by simp [Outcome.map, hfirst]) fun h => ?_
        have hname : Spellable info.name.text := h.name hne
        rw [explodeName_halt_iff.2 hname] at hfirst
        cases hfirst

/-- A name with its operands, if it refers to glyphs. -/
def DisplayName.settled (name : DisplayName) : DisplayName :=
  if name.isSpecial then { name with exploded := (explode name.text).toOption } else name

theorem explodeName_value {place : Place} {name : DisplayName} {count : Nat}
    (h : (explodeName place name count).halt = none) :
    (explodeName place name count).value = name.settled := by
  rw [explodeName] at h ⊢
  cases hexplode : explode name.text with
  | error fault => rw [hexplode] at h; cases h
  | ok operands =>
    dsimp only
    rw [DisplayName.settled, hexplode]
    split_ifs <;> rfl

/-- What can be seen of a node whose names have been settled, unless it is a blank. -/
def Face.settled (face : Face) : Face :=
  if face.info.name.text = blankMark then face
  else
    { face with
      info := { face.info with name := face.info.name.settled }
      altName := face.altName.map DisplayName.settled }

theorem face_explodeVisitor {parentId : UInt8} {node : Node} {count : Nat}
    (h : (explodeVisitor parentId node count).halt = none) :
    (explodeVisitor parentId node count).value.face = node.face.settled := by
  cases hblank : node.isBlank with
  | true =>
    rw [explodeVisitor_of_blank hblank, Face.settled]
    exact (if_pos (Node.isBlank_iff.1 hblank)).symm
  | false =>
    have hname : ¬ node.face.info.name.text = blankMark := Node.isBlank_eq_false_iff.1 hblank
    rw [Face.settled, if_neg hname]
    by_cases haltName : node.altName? = none
    · rw [explodeVisitor_of_altName?_eq_none hblank haltName] at h ⊢
      have hvalue := explodeName_value h
      simp [Outcome.map, Node.face, hvalue, haltName]
    · obtain ⟨info, altName, rfl⟩ := Node.eq_altItem_of_altName? haltName
      rw [explodeVisitor_altItem hblank] at h ⊢
      cases hfirst : (explodeName info.place info.name count).halt with
      | some error => rw [hfirst] at h; exact absurd (hfirst.symm.trans h) (by simp)
      | none =>
        rw [hfirst] at h
        have hvalue := explodeName_value hfirst
        have haltValue := explodeName_value h
        simp [Outcome.map, Node.face, hvalue, haltValue, Node.info, Node.altName?, Node.kind,
          Node.rows]

/-- What can be seen of a node, the operands of its names apart. -/
def Face.bare (face : Face) : Face :=
  { face with
    info := { face.info with name := face.info.name.bare }
    altName := face.altName.map DisplayName.bare }

/-- A visit changes the operands of names and nothing else. -/
theorem bare_explodeVisitor (parentId : UInt8) (node : Node) (count : Nat) :
    (explodeVisitor parentId node count).value.face.bare = node.face.bare ∧
      (explodeVisitor parentId node count).value.rows = node.rows := by
  cases hblank : node.isBlank with
  | true =>
    rw [explodeVisitor_of_blank hblank]
    exact ⟨rfl, rfl⟩
  | false =>
    have hname := bare_explodeName node.place node.info.name count
    by_cases haltName : node.altName? = none
    · rw [explodeVisitor_of_altName?_eq_none hblank haltName]
      simp [Outcome.map, Face.bare, Node.face, hname]
    · obtain ⟨info, altName, rfl⟩ := Node.eq_altItem_of_altName? haltName
      rw [explodeVisitor_altItem hblank]
      dsimp only [Node.place, Node.info] at hname
      cases (explodeName info.place info.name count).halt with
      | some error =>
        refine ⟨?_, rfl⟩
        simp [Outcome.map, Face.bare, Node.face, hname, Node.info, Node.altName?, Node.kind,
          Node.rows]
      | none =>
        refine ⟨?_, rfl⟩
        simp [Outcome.map, Face.bare, Node.face, hname, Node.info, Node.altName?, Node.kind,
          Node.rows, bare_explodeName]

/-! ## Menus -/

/-- To the check of names a tree is the list of its nodes. -/
theorem flat_explodeVisitor : explodeVisitor.Flat (fun _ => false) Node.face where
  idle_depth _ h := nomatch h
  idle_visit _ _ _ h := nomatch h
  idle_face _ _ _ := rfl
  view_face _ _ h := h
  visit_kind parentId node count := congrArg Face.kind (bare_explodeVisitor parentId node count).1
  visit_slots parentId node count := by
    rw [active_false, active_false, Node.slots, (bare_explodeVisitor parentId node count).2]
    rfl
  visit_idle _ _ _ := rfl
  visit_state _ _ _ := rfl
  visit_halt _ _ _ := rfl
  visit_view _ _ _ := rfl

theorem alike_explodeNames (file : MenuFile) :
    Alike (fun _ => false) Node.face (fun file => file.root.flatten) (explodeNames file)
      (sweep (explodeVisitor nullId) file.root.flatten 0) := by
  have hwalk := flat_explodeVisitor.alike_walk file.root 0
  rw [active_false file.root.flatten] at hwalk
  exact ⟨hwalk.state_eq, hwalk.halt_eq, hwalk.view_eq⟩

/-- The check of names goes through exactly if all names can be written. -/
theorem explodeNames_halt_iff (file : MenuFile) : (explodeNames file).halt = none ↔
    ∀ wording ∈ file.root.flatten.map Node.wording, wording.Spelled := by
  rw [(alike_explodeNames file).halt_eq, List.forall_mem_map]
  exact sweep_halt_iff (explodeVisitor_halt_iff nullId) file.root.flatten 0

/-- Apart from operands the nodes are the same before and after, in the same order. -/
theorem bare_explodeNames (file : MenuFile) :
    (explodeNames file).value.root.flatten.map (fun node => node.face.bare) =
      file.root.flatten.map fun node => node.face.bare := by
  have hview := (alike_explodeNames file).view_eq
  rw [active_false] at hview
  refine (map_part hview Face.bare).trans ?_
  exact map_sweep (fun node count => (bare_explodeVisitor nullId node count).1) _ _

/-- The names of a menu that has been checked are settled. -/
theorem face_explodeNames {file : MenuFile} (h : (explodeNames file).halt = none) :
    (explodeNames file).value.root.flatten.map Node.face =
      file.root.flatten.map fun node => node.face.settled := by
  have hview := (alike_explodeNames file).view_eq
  rw [active_false] at hview
  rw [(alike_explodeNames file).halt_eq] at h
  exact hview.trans (map_sweep_of_halt (fun node count => face_explodeVisitor) h)

theorem keepsLinks_explodeVisitor : explodeVisitor.KeepsLinks where
  slots parentId node count := by
    rw [Node.slots, (bare_explodeVisitor parentId node count).2]
    rfl
  id parentId node count :=
    congrArg (fun face => face.info.id) (bare_explodeVisitor parentId node count).1
  parentId parentId node count :=
    congrArg (fun face => face.info.parentId) (bare_explodeVisitor parentId node count).1

theorem parentId_explodeNames (file : MenuFile) :
    (explodeNames file).value.root.parentId = file.root.parentId := by
  have hfaces := bare_explodeNames file
  rw [Node.flatten_eq, Node.flatten_eq, List.map_cons, List.map_cons] at hfaces
  exact congrArg (fun face => face.info.parentId) (List.cons.inj hfaces).1

theorem linked_explodeNames {file : MenuFile} (h : file.root.Linked) :
    (explodeNames file).value.root.Linked :=
  keepsLinks_explodeVisitor.linked_walk h 0

/-! ## The pool -/

theorem numberNames_eq_ok_iff {next : Nat} (h : next ≤ maxNameId.toNat + 1)
    (names : List PoolName) :
    (∃ entries, numberNames next names = .ok entries) ↔
      next + names.length ≤ maxNameId.toNat + 1 := by
  induction names generalizing next with
  | nil => exact iff_of_true ⟨[], rfl⟩ h
  | cons name names ih =>
    rw [numberNames, List.length_cons]
    split_ifs with hnext
    · exact iff_of_false (by simp) (by omega)
    · have hle : next + 1 ≤ maxNameId.toNat + 1 := by omega
      have hcount : next + (names.length + 1) = next + 1 + names.length := by omega
      rw [hcount, ← ih hle]
      simp [map_eq_ok_iff]

theorem numberNames_eq_error_iff {next : Nat} (hnext : next ≤ 255) {names : List PoolName}
    {error : CompileError} :
    numberNames next names = .error error ↔ ∃ pooled, names[255 - next]? = some pooled ∧
      error = .nameIdOverflow 254 pooled.node.label pooled.node.place.span := by
  have hmax : maxNameId.toNat = 254 := rfl
  induction names generalizing next with
  | nil => simp [numberNames]
  | cons pooled names ih =>
    rw [numberNames, hmax]
    split_ifs with hlast
    · have hzero : 255 - next = 0 := by omega
      rw [hzero, List.getElem?_cons_zero]
      simp [maxNameId, eq_comm]
    · have hroom : next + 1 ≤ 255 := by omega
      have hsucc : 255 - next = 255 - (next + 1) + 1 := by omega
      rw [hsucc, List.getElem?_cons_succ]
      refine Iff.trans ?_ (ih hroom)
      cases numberNames (next + 1) names <;> simp [Except.map]

/-- The pool has room for all names exactly if there are no more of them than ids. -/
theorem namePool_eq_ok_iff (root : Node) : (∃ names, namePool root = .ok names) ↔
    (root.flatten.flatMap Node.poolNames).length ≤ maxNameId.toNat := by
  rw [namePool, numberNames_eq_ok_iff (by decide), Nat.add_comm 1, Nat.add_le_add_iff_right]

/-- The wordings that are not those of blanks. -/
def named (wordings : List Wording) : List Wording :=
  wordings.filter fun wording => wording.name ≠ blankMark

theorem map_active_isBlank (nodes : List Node) :
    (active Node.isBlank nodes).map Node.wording = named (nodes.map Node.wording) := by
  rw [named, List.filter_map, active]
  refine congrArg _ (List.filter_congr fun node _ => ?_)
  by_cases hname : node.name = blankMark <;> simp [Node.isBlank, Node.wording, hname]

/-- Every node that is not blank puts its name into the pool, and its alternate name if it has
one. -/
theorem length_poolNames (nodes : List Node) : (nodes.flatMap Node.poolNames).length =
    (named (nodes.map Node.wording)).length +
      (named (nodes.map Node.wording)).countP fun wording => wording.altName.isSome := by
  rw [← map_active_isBlank, List.length_map, List.countP_map]
  induction nodes with
  | nil => rfl
  | cons node nodes ih =>
    rw [List.flatMap_cons, List.length_append, ih]
    cases hblank : node.isBlank with
    | true =>
      have hnames : node.poolNames = [] := by rw [Node.poolNames, if_pos hblank]
      simp [active, hblank, hnames]
    | false =>
      have hactive : active Node.isBlank (node :: nodes) = node :: active Node.isBlank nodes := by
        simp [active, hblank]
      rw [hactive, List.length_cons, List.countP_cons, Node.poolNames, if_neg (by simp [hblank])]
      cases haltName : node.altName? with
      | none => simp [Node.wording, haltName]; omega
      | some altName => simp [Node.wording, haltName]; omega

end SoftMenu
