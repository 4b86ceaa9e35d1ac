import SoftMenu.Proofs.Completion
import SoftMenu.Proofs.DenseIds
import SoftMenu.Proofs.Views

/-!
# Passes that are repeated or exchanged

The passes over a menu write what they do not read again: padding makes rows full and leaves full
rows alone, numbering looks at nothing that it writes, and the operands of a name are made from its
text. Each pass can therefore be repeated without effect. The pass that explodes names neither reads
what the others write nor writes what they read, so it can be exchanged with them.
-/

namespace SoftMenu

variable {σ ε : Type}

/-! ## Walks that change nothing -/

theorem Outcome.eq_of_parts {α : Type} {first second : Outcome σ ε α}
    (hvalue : first.value = second.value) (hstate : first.state = second.state)
    (hhalt : first.halt = second.halt) : first = second := by
  obtain ⟨value, state, halt⟩ := first
  obtain rfl : value = _ := hvalue
  obtain rfl : state = _ := hstate
  obtain rfl : halt = _ := hhalt
  rfl

theorem sweep_of_idle {α : Type} {pass : α → σ → Outcome σ ε α} {members : List α} {state : σ}
    (h : ∀ member ∈ members, pass member state = .done member state) :
    sweep pass members state = .done members state := by
  induction members with
  | nil => rfl
  | cons member members ih =>
    obtain ⟨hmember, hmembers⟩ := List.forall_mem_cons.1 h
    have hhalt : (pass member state).halt = none := by
      rw [hmember]
      rfl
    rw [sweep_cons_of_none hhalt, hmember]
    exact congrArg (Outcome.map (member :: ·)) (ih hmembers)

theorem sweepSlots_of_idle {pass : Node → σ → Outcome σ ε Node} {node : Node} {state : σ}
    (h : ∀ slot ∈ node.slots, pass slot state = .done slot state) :
    node.sweepSlots pass state = .done node state := by
  have hsweep := sweep_of_idle h
  refine Outcome.eq_of_parts (Node.eq_of_face (face_sweepSlots node state) ?_) ?_ ?_
  · rw [slots_sweepSlots, hsweep]
    rfl
  · rw [sweepSlots_state, hsweep]
    rfl
  · rw [sweepSlots_halt, hsweep]
    rfl

theorem Visitor.descend_of_idle {visitor : Visitor σ ε} {state : σ} (levels : Nat) {node : Node}
    (h : ∀ member ∈ node.flatten, ∀ parentId,
      visitor parentId member state = .done member state) :
    visitor.descend levels node state = .done node state := by
  induction levels generalizing node with
  | zero => rfl
  | succ levels ih =>
    have hslots : node.sweepSlots (visitor node.id) state = .done node state :=
      sweepSlots_of_idle fun slot hslot =>
        h slot (Node.mem_flatten_of_slot hslot slot.self_mem_flatten) node.id
    rw [descend_succ_of_none (by rw [hslots]; rfl), hslots]
    refine sweepSlots_of_idle fun slot hslot => ih fun member hmember => ?_
    exact h member (Node.mem_flatten_of_slot hslot hmember)

/-- A walk whose visits leave every node of a tree alone leaves the tree alone. -/
theorem Visitor.walk_of_idle {visitor : Visitor σ ε} {root : Node} {state : σ}
    (h : ∀ member ∈ root.flatten, ∀ parentId,
      visitor parentId member state = .done member state) :
    visitor.walk root state = .done root state := by
  have hroot := h root root.self_mem_flatten nullId
  rw [walk_of_none (by rw [hroot]; rfl), hroot]
  exact Visitor.descend_of_idle root.depth h

/-- A pass that goes through over one list goes through over another, with the same state in the
end, if it takes notice of nothing but a key that is the same for both. -/
theorem sweep_of_key {α κ : Type} {pass : α → σ → Outcome σ ε α} {key : α → κ}
    (hpass : ∀ first second state, key first = key second → (pass first state).halt = none →
      (pass second state).halt = none ∧ (pass second state).state = (pass first state).state)
    {first second : List α} (hkeys : first.map key = second.map key) {state : σ}
    (h : (sweep pass first state).halt = none) :
    (sweep pass second state).halt = none ∧
      (sweep pass second state).state = (sweep pass first state).state := by
  induction first generalizing second state with
  | nil =>
    obtain rfl := List.map_eq_nil_iff.1 hkeys.symm
    exact ⟨rfl, rfl⟩
  | cons member members ih =>
    cases second with
    | nil => cases hkeys
    | cons member' members' =>
      obtain ⟨hkey, hkeys⟩ := List.cons.inj hkeys
      cases hm : (pass member state).halt with
      | none =>
        obtain ⟨hm', hstate⟩ := hpass member member' state hkey hm
        rw [sweep_cons_of_none hm] at h
        rw [sweep_cons_of_none hm, sweep_cons_of_none hm', hstate]
        exact ih hkeys h
      | some reason =>
        rw [sweep_cons_of_some hm] at h
        exact absurd (hm.symm.trans h) (by simp)

/-! ## Checking again -/

/-- What can be seen of a node that the checks leave alone. -/
structure Face.InShape (face : Face) : Prop where
  label : LegalLabel face.kind face.info.name.text face.info.label
  full : face.Full
  rows_le : face.layout.length ≤ maxRows

theorem padRows_of_full {group : String} {index padded : Nat} {rows : List (Row Node)}
    (h : ∀ row ∈ rows, row.slots.length = rowSlots) :
    padRows group index rows padded = .done rows padded := by
  induction rows generalizing index with
  | nil => rfl
  | cons row rows ih =>
    obtain ⟨hrow, hrows⟩ := List.forall_mem_cons.1 h
    have herror : row.error? group index = none := by
      rw [Row.error?_eq_none_iff, hrow]
      exact ⟨by decide, le_rfl⟩
    have hmissing : row.missing = 0 := by
      rw [Row.missing, hrow, Nat.sub_self]
    have hpad : row.pad = row := by
      rw [Row.pad, hmissing, List.replicate_zero, List.append_nil]
    rw [padRows, herror]
    simp only [hmissing, Nat.add_zero, hpad, ih hrows]
    rfl

theorem Face.InShape.shapeVisitor_eq {node : Node} (h : node.face.InShape) (parentId : UInt8)
    (padded : Nat) : shapeVisitor parentId node padded = .done node padded := by
  have hlabel := node.labelError?_eq_none_iff.2 h.label
  by_cases hkind : node.kind = .group
  · have hrows : node.rows ≠ [] := fun hnil => h.full.rows hkind (by simp [Node.face, hnil])
    have hle : ¬ maxRows < node.rows.length := by
      have hle := h.rows_le
      rw [Node.face, List.length_map] at hle
      omega
    have hpad : padGroup node.info node.rows padded = .done node.rows padded := by
      rw [padGroup, if_neg (by simpa using hrows), if_neg hle, padRows_of_full h.full.length_slots]
    rw [shapeVisitor_of_group hlabel hkind, hpad]
    exact congrArg (Outcome.done · padded) (Node.eq_group_of_kind hkind).symm
  · exact shapeVisitor_of_leaf hlabel hkind parentId padded

theorem inShape_of_mem_validate {file : MenuFile} (h : (validate file).halt = none) :
    ∀ node ∈ (validate file).value.root.flatten, node.face.InShape := by
  have hrows : ∀ node ∈ (validate file).value.root.flatten, node.face.layout.length ≤ maxRows := by
    refine Visitor.forall_mem_walk (fun face => face.layout.length ≤ maxRows) ?_
      flat_shapeVisitor.depth_visit_le h
    intro parentId node padded hvisit
    have hshape := (shapeVisitor_halt_iff parentId node padded).1 hvisit
    rw [Node.face, List.length_map, rows_shapeVisitor hvisit, List.length_map]
    by_cases hkind : node.kind = .group
    · exact (hshape.rows hkind).2.1
    · rw [Node.rows_eq_nil_of_kind hkind]
      exact Nat.zero_le _
  intro node hnode
  exact ⟨legalLabel_of_mem_validate h node hnode, full_of_mem_validate h node hnode,
    hrows node hnode⟩

/-- A menu that has been checked passes the checks, and nothing is added to it. -/
theorem validate_validate {file : MenuFile} (h : (validate file).halt = none) :
    validate (validate file).value = .done (validate file).value 0 := by
  have hwalk : shapeVisitor.walk (validate file).value.root 0 =
      .done (validate file).value.root 0 :=
    Visitor.walk_of_idle fun node hnode parentId =>
      (inShape_of_mem_validate h node hnode).shapeVisitor_eq parentId 0
  rw [validate, Visitor.walkFile, hwalk]
  rfl

/-! ## Exploding again -/

theorem DisplayName.isSpecial_settled (name : DisplayName) :
    name.settled.isSpecial = name.isSpecial := by
  rw [isSpecial, text_settled, isSpecial]

theorem DisplayName.settled_settled (name : DisplayName) : name.settled.settled = name.settled := by
  by_cases hspecial : name.isSpecial
  · have hsettled : name.settled = { name with exploded := (explode name.text).toOption } :=
      if_pos hspecial
    rw [settled, if_pos (name.isSpecial_settled.trans hspecial), text_settled, hsettled]
  · have hsettled : name.settled = name := if_neg hspecial
    rw [hsettled, hsettled]

theorem Face.settled_settled (face : Face) : face.settled.settled = face.settled := by
  by_cases hblank : face.info.name.text = blankMark
  · have hsettled : face.settled = face := if_pos hblank
    rw [hsettled, hsettled]
  · simp [Face.settled, hblank, DisplayName.settled_settled, Function.comp_def]

/-- How many names of a node refer to glyphs; those of a blank are not looked at. -/
def Wording.glyphNames (wording : Wording) : Nat :=
  if wording.name = blankMark then 0
  else (wording.name :: wording.altName.toList).countP fun text =>
    (DisplayName.mk text none).isSpecial

theorem explodeName_state {place : Place} {name : DisplayName} {count : Nat}
    (h : (explodeName place name count).halt = none) :
    (explodeName place name count).state = count + if name.isSpecial then 1 else 0 := by
  rw [explodeName] at h ⊢
  cases hexplode : explode name.text with
  | error fault => rw [hexplode] at h; cases h
  | ok operands => split_ifs <;> rfl

/-- The pass counts the names that refer to glyphs. -/
theorem explodeVisitor_state {parentId : UInt8} {node : Node} {count : Nat}
    (h : (explodeVisitor parentId node count).halt = none) :
    (explodeVisitor parentId node count).state = count + node.wording.glyphNames := by
  cases hblank : node.isBlank with
  | true =>
    rw [explodeVisitor_of_blank hblank, Wording.glyphNames]
    rw [if_pos (show node.wording.name = blankMark from Node.isBlank_iff.1 hblank)]
    rfl
  | false =>
    have hname : node.wording.name ≠ blankMark := Node.isBlank_eq_false_iff.1 hblank
    rw [Wording.glyphNames, if_neg hname]
    by_cases haltName : node.altName? = none
    · have hwording : node.wording.altName.toList = [] := by simp [Node.wording, haltName]
      rw [explodeVisitor_of_altName?_eq_none hblank haltName] at h ⊢
      rw [hwording, List.countP_singleton]
      exact explodeName_state h
    · obtain ⟨info, altName, rfl⟩ := Node.eq_altItem_of_altName? haltName
      rw [explodeVisitor_altItem hblank] at h ⊢
      cases hfirst : (explodeName info.place info.name count).halt with
      | some error => rw [hfirst] at h; exact absurd (hfirst.symm.trans h) (by simp)
      | none =>
        rw [hfirst] at h
        refine (explodeName_state h).trans ?_
        have hnames : (Node.altItem info altName).wording.name ::
            (Node.altItem info altName).wording.altName.toList =
          [info.name.text, altName.text] := rfl
        rw [explodeName_state hfirst, Nat.add_assoc, hnames, List.countP_cons,
          List.countP_singleton]
        exact congrArg (count + ·) (Nat.add_comm ..)

/-- The pass takes notice of nothing but the texts of the names. -/
theorem explodeVisitor_of_wording (parentId : UInt8) (first second : Node) (count : Nat)
    (h : first.wording = second.wording)
    (hhalt : (explodeVisitor parentId first count).halt = none) :
    (explodeVisitor parentId second count).halt = none ∧
      (explodeVisitor parentId second count).state =
        (explodeVisitor parentId first count).state := by
  have hhalt' : (explodeVisitor parentId second count).halt = none := by
    rw [explodeVisitor_halt_iff, ← h]
    exact (explodeVisitor_halt_iff parentId first count).1 hhalt
  rw [explodeVisitor_state hhalt, explodeVisitor_state hhalt', h]
  exact ⟨hhalt', rfl⟩

/-- The names of a menu that has been exploded are exploded to the same. -/
theorem explodeNames_explodeNames {file : MenuFile} (h : (explodeNames file).halt = none) :
    explodeNames (explodeNames file).value = explodeNames file := by
  -- The pass reads texts and writes operands.
  have hsweep := h
  rw [(alike_explodeNames file).halt_eq] at hsweep
  obtain ⟨hhalt, hstate⟩ := sweep_of_key (explodeVisitor_of_wording nullId)
    (wording_explodeNames file).symm hsweep
  rw [← (alike_explodeNames _).halt_eq] at hhalt
  rw [← (alike_explodeNames _).state_eq, ← (alike_explodeNames _).state_eq] at hstate
  have hroot : (explodeNames (explodeNames file).value).value.root =
      (explodeNames file).value.root := by
    refine Node.eq_of_faces ?_
    have hsettled := map_part (face_explodeNames h) Face.settled
    simp only [Face.settled_settled] at hsettled
    rw [face_explodeNames hhalt, hsettled, face_explodeNames h]
  refine Outcome.eq_of_parts ?_ hstate (hhalt.trans h.symm)
  exact congrArg (MenuFile.mk file.config) hroot

/-! ## Numbering again -/

/-- What a registry takes notice of: name, kind, label and line. The label of a blank is none of
it. -/
def Face.entry (face : Face) : String × Kind × Option String × Nat :=
  (face.tag.name.text, face.tag.kind, face.tag.label, face.info.place.line)

theorem entry_visitor (parentId : UInt8) (node : Node) (registry : Registry) :
    (Registry.visitor parentId node registry).value.face.entry = node.face.entry := by
  have hplace : (Registry.visitor parentId node registry).value.info.place = node.info.place := by
    by_cases h : (Registry.visitor parentId node registry).halt = none
    · rw [Registry.visitor_value h, Node.stamp, Node.info_mapInfo]
    · rw [Registry.visitor_value_of_halt h]
  rw [Face.entry, tag_visitor]
  exact congrArg (fun place : Place => (node.face.tag.name.text, node.face.tag.kind,
    node.face.tag.label, place.line)) hplace

theorem entry_assignIds (policy : DuplicatePolicy) (file : MenuFile) :
    (assignIds policy file).value.root.flatten.map (fun node => node.face.entry) =
      file.root.flatten.map fun node => node.face.entry := by
  have hview := (alike_assignIds policy file).view_eq
  rw [active_false] at hview
  exact (map_part hview Face.entry).trans (map_sweep (entry_visitor nullId) _ _)

theorem entry_explodeNames (file : MenuFile) :
    (explodeNames file).value.root.flatten.map (fun node => node.face.entry) =
      file.root.flatten.map fun node => node.face.entry :=
  map_part (bare_explodeNames file) Face.entry

theorem visitor_of_entry (parentId : UInt8) (first second : Node) (registry : Registry)
    (h : first.face.entry = second.face.entry)
    (hhalt : (Registry.visitor parentId first registry).halt = none) :
    (Registry.visitor parentId second registry).halt = none ∧
      (Registry.visitor parentId second registry).state =
        (Registry.visitor parentId first registry).state := by
  have hname : second.name = first.name := congrArg Prod.fst h.symm
  have hkind : second.kind = first.kind := congrArg (fun entry => entry.2.1) h.symm
  have hline : second.place.line = first.place.line := congrArg (fun entry => entry.2.2.2) h.symm
  have hlabels : second.face.tag.label = first.face.tag.label :=
    congrArg (fun entry => entry.2.2.1) h.symm
  have hblank : second.isBlank = first.isBlank := by rw [Node.isBlank, hname, Node.isBlank]
  have hlabel : first.isBlank = false → second.label = first.label := by
    intro hfirst
    have htag : ∀ node : Node, node.isBlank = false → node.face.tag.label = some node.label :=
      fun node hnode => if_neg (Node.isBlank_eq_false_iff.1 hnode)
    rw [htag first hfirst, htag second (hblank.trans hfirst)] at hlabels
    exact Option.some.inj hlabels
  have hnote : (registry.note second).1 = (registry.note first).1 := by
    rw [Registry.note_fst, Registry.note_fst, hname, hkind]
  obtain ⟨hle, hfree⟩ := Registry.visitor_halt_iff.1 hhalt
  have hhalt' : (Registry.visitor parentId second registry).halt = none := by
    refine Registry.visitor_halt_iff.2 ⟨hle, fun hsecond => ?_⟩
    have hfirst := hblank.symm.trans hsecond
    rw [Registry.note_eq_none_iff, hname, hkind, hlabel hfirst]
    exact Registry.note_eq_none_iff.1 (hfree hfirst)
  refine ⟨hhalt', ?_⟩
  rw [Registry.visitor_state hhalt, Registry.visitor_state hhalt', hblank, hline, hnote]
  cases hfirst : first.isBlank with
  | true => rfl
  | false => rw [hlabel hfirst]

/-- To a registry two menus are the same if their nodes have the same entries. -/
theorem assignIds_of_entries {policy : DuplicatePolicy} {first second : MenuFile}
    (h : first.root.flatten.map (fun node => node.face.entry) =
      second.root.flatten.map fun node => node.face.entry)
    (hhalt : (assignIds policy first).halt = none) :
    (assignIds policy second).halt = none ∧
      (assignIds policy second).state = (assignIds policy first).state := by
  rw [(alike_assignIds policy first).halt_eq] at hhalt
  rw [(alike_assignIds policy first).state_eq, (alike_assignIds policy second).halt_eq,
    (alike_assignIds policy second).state_eq]
  exact sweep_of_key (visitor_of_entry nullId) h hhalt

/-- What can be seen of a node that is given an id, but the id of its group; a blank gets the label
that goes with the id. -/
def Face.stamped (id : UInt8) (face : Face) : Face :=
  { face with
    info := { face.info with
      id, parentId := nullId
      label := if face.info.name.text = blankMark then blankLabel id else face.info.label } }

/-- The faces of a list stamped with their positions. -/
def stampFaces (faces : List Face) : List Face :=
  faces.mapIdx fun i face => face.stamped (.ofNat (i + rootId))

theorem Node.unlinked_stamp (id : UInt8) (node : Node) :
    (node.stamp id nullId).unlinked = node.unlinked.stamped id := by
  by_cases hname : node.info.name.text = blankMark
  · have hblank : node.isBlank = true := Node.isBlank_iff.2 hname
    simp [Node.unlinked, Node.face, Node.stamp, Face.stamped, hname, hblank]
  · have hblank : node.isBlank = false := Node.isBlank_eq_false_iff.2 hname
    simp [Node.unlinked, Node.face, Node.stamp, Face.stamped, hname, hblank]

theorem stampFaces_map {α : Type} (f : α → Face) (members : List α) :
    stampFaces (members.map f) =
      members.mapIdx fun i member => (f member).stamped (.ofNat (i + rootId)) := by
  refine List.ext_getElem? fun i => ?_
  simp [stampFaces, List.getElem?_mapIdx, Function.comp_def]

theorem unlinked_assignIds {policy : DuplicatePolicy} {file : MenuFile}
    (h : (assignIds policy file).halt = none) :
    (assignIds policy file).value.root.flatten.map Node.unlinked =
      stampFaces (file.root.flatten.map Node.unlinked) := by
  rw [stamped_assignIds h, stampFaces_map]
  simp only [Node.unlinked_stamp]

theorem Face.stamped_stamped (id : UInt8) (face : Face) :
    (face.stamped id).stamped id = face.stamped id := by
  by_cases hname : face.info.name.text = blankMark <;> simp [Face.stamped, hname]

theorem stampFaces_stampFaces (faces : List Face) :
    stampFaces (stampFaces faces) = stampFaces faces := by
  rw [stampFaces, stampFaces, List.mapIdx_mapIdx]
  refine congrArg (List.mapIdx · faces) ?_
  funext i face
  exact face.stamped_stamped _

/-- A menu that has been numbered is numbered to the same, and the same is known about it. -/
theorem assignIds_assignIds {policy : DuplicatePolicy} {file : MenuFile}
    (h : (assignIds policy file).halt = none) :
    assignIds policy (assignIds policy file).value = assignIds policy file := by
  obtain ⟨hhalt, hstate⟩ := assignIds_of_entries (entry_assignIds policy file).symm h
  obtain ⟨hparentId, hlinked⟩ := linked_assignIds h
  obtain ⟨hparentId', hlinked'⟩ := linked_assignIds hhalt
  have hroot : (assignIds policy (assignIds policy file).value).value.root =
      (assignIds policy file).value.root := by
    refine Node.eq_of_unlinked hlinked' hlinked (hparentId'.trans hparentId.symm) ?_
    rw [unlinked_assignIds hhalt, unlinked_assignIds h, stampFaces_stampFaces]
  refine Outcome.eq_of_parts ?_ hstate (hhalt.trans h.symm)
  exact congrArg (MenuFile.mk file.config) hroot

/-! ## Exchanging passes -/

/-- What a pass leaves if it goes through. -/
def Outcome.result? {α : Type} (outcome : Outcome σ ε α) : Option α :=
  if outcome.halt.isNone then some outcome.value else none

theorem Outcome.result?_eq_some_iff {α : Type} {outcome : Outcome σ ε α} {value : α} :
    outcome.result? = some value ↔ outcome.halt = none ∧ outcome.value = value := by
  rw [result?]
  cases outcome.halt <;> simp

theorem Outcome.bind_result?_eq_some_iff {τ α : Type} {first : Outcome σ ε α}
    {second : α → Outcome τ ε α} {value : α} :
    (first.result?.bind fun value => (second value).result?) = some value ↔
      first.halt = none ∧ (second first.value).halt = none ∧
        (second first.value).value = value := by
  simp only [Option.bind_eq_some_iff, result?_eq_some_iff]
  constructor
  · rintro ⟨_, ⟨hfirst, rfl⟩, hsecond⟩
    exact ⟨hfirst, hsecond⟩
  · rintro ⟨hfirst, hsecond⟩
    exact ⟨_, ⟨hfirst, rfl⟩, hsecond⟩

/-- Two passes can be exchanged if they go through in both orders or in neither, and leave the same
in the end. -/
theorem Outcome.bind_result?_eq {τ α : Type} {first : Outcome σ ε α} {first' : Outcome τ ε α}
    {second : α → Outcome τ ε α} {second' : α → Outcome σ ε α}
    (hhalt : first.halt = none ∧ (second first.value).halt = none ↔
      first'.halt = none ∧ (second' first'.value).halt = none)
    (hvalue : first.halt = none → (second first.value).halt = none → first'.halt = none →
      (second' first'.value).halt = none →
      (second first.value).value = (second' first'.value).value) :
    (first.result?.bind fun value => (second value).result?) =
      first'.result?.bind fun value => (second' value).result? := by
  refine Option.ext fun value => ?_
  rw [bind_result?_eq_some_iff, bind_result?_eq_some_iff]
  constructor
  · rintro ⟨hfirst, hsecond, rfl⟩
    obtain ⟨hfirst', hsecond'⟩ := hhalt.1 ⟨hfirst, hsecond⟩
    exact ⟨hfirst', hsecond', (hvalue hfirst hsecond hfirst' hsecond').symm⟩
  · rintro ⟨hfirst', hsecond', rfl⟩
    obtain ⟨hfirst, hsecond⟩ := hhalt.2 ⟨hfirst', hsecond'⟩
    exact ⟨hfirst, hsecond, hvalue hfirst hsecond hfirst' hsecond'⟩

theorem explodeNames_halt_of_wording {first second : MenuFile}
    (h : first.root.flatten.map Node.wording = second.root.flatten.map Node.wording) :
    (explodeNames first).halt = none ↔ (explodeNames second).halt = none := by
  rw [explodeNames_halt_iff, explodeNames_halt_iff, h]

/-! ### Names and numbers -/

theorem unlinked_explodeNames {file : MenuFile} (h : (explodeNames file).halt = none) :
    (explodeNames file).value.root.flatten.map Node.unlinked =
      (file.root.flatten.map Node.unlinked).map Face.settled := by
  have hsettled : ∀ face : Face,
      { face.settled with info := { face.settled.info with parentId := nullId } } =
        Face.settled { face with info := { face.info with parentId := nullId } } := by
    intro face
    by_cases hname : face.info.name.text = blankMark <;> simp [Face.settled, hname]
  have hfaces := map_part (face_explodeNames h) fun face =>
    { face with info := { face.info with parentId := nullId } }
  rw [List.map_map]
  refine hfaces.trans (List.map_congr_left fun node _ => ?_)
  exact hsettled node.face

theorem map_settled_stampFaces (faces : List Face) :
    (stampFaces faces).map Face.settled = stampFaces (faces.map Face.settled) := by
  have hface : ∀ (id : UInt8) (face : Face),
      (face.stamped id).settled = face.settled.stamped id := by
    intro id face
    by_cases hname : face.info.name.text = blankMark <;>
      simp [Face.settled, Face.stamped, hname]
  rw [stampFaces_map, stampFaces, map_mapIdx]
  simp only [hface]

/-- The operands of names are of no interest to a registry, and its ids are of none to the names. -/
theorem explodeNames_assignIds (policy : DuplicatePolicy) (file : MenuFile) :
    ((assignIds policy file).result?.bind fun numbered => (explodeNames numbered).result?) =
      (explodeNames file).result?.bind fun exploded => (assignIds policy exploded).result? := by
  have hnames := explodeNames_halt_of_wording (wording_assignIds policy file)
  apply Outcome.bind_result?_eq
  · constructor
    · rintro ⟨hids, hexplode⟩
      exact ⟨hnames.1 hexplode, (assignIds_of_entries (entry_explodeNames file).symm hids).1⟩
    · rintro ⟨hexplode, hids⟩
      exact ⟨(assignIds_of_entries (entry_explodeNames file) hids).1, hnames.2 hexplode⟩
  · intro hids hexplode hexplode' hids'
    obtain ⟨hparentId, hlinked⟩ := linked_assignIds hids
    obtain ⟨hparentId', hlinked'⟩ := linked_assignIds hids'
    -- The parent ids are read off the tree, so the other data decide.
    have hroot : (explodeNames (assignIds policy file).value).value.root =
        (assignIds policy (explodeNames file).value).value.root := by
      refine Node.eq_of_unlinked (linked_explodeNames hlinked) hlinked' ?_ ?_
      · rw [parentId_explodeNames, hparentId, hparentId']
      · rw [unlinked_explodeNames hexplode, unlinked_assignIds hids, unlinked_assignIds hids',
          unlinked_explodeNames hexplode', map_settled_stampFaces]
    exact congrArg (MenuFile.mk file.config) hroot

/-! ### Names and rows -/

/-- A face with as many slots in each row as there are buttons. -/
def Face.padded (face : Face) : Face :=
  { face with layout := face.layout.map fun entry => (entry.1 + (rowSlots - entry.1), entry.2) }

theorem face_shapeVisitor {parentId : UInt8} {node : Node} {padded : Nat}
    (h : (shapeVisitor parentId node padded).halt = none) :
    (shapeVisitor parentId node padded).value.face = node.face.padded := by
  have hframe := (shapeVisitor_value parentId node padded).1
  have hinfo : (shapeVisitor parentId node padded).value.info = node.info :=
    congrArg Prod.fst hframe
  have hkind : (shapeVisitor parentId node padded).value.kind = node.kind :=
    congrArg (fun frame => frame.2.1) hframe
  have haltName : (shapeVisitor parentId node padded).value.altName? = node.altName? :=
    congrArg (fun frame => frame.2.2.1) hframe
  have hlayout : ∀ row : Row Node, (row.pad.slots.length, row.pad.place) =
      (row.slots.length + (rowSlots - row.slots.length), row.place) := by
    intro row
    simp [Row.pad, Row.missing]
  rw [Node.face, hinfo, hkind, haltName, rows_shapeVisitor h, List.map_map]
  simp only [Face.padded, Node.face, List.map_map, Function.comp_def, hlayout]

theorem Face.settled_padded (face : Face) : face.padded.settled = face.settled.padded := by
  by_cases hname : face.info.name.text = blankMark <;> simp [Face.padded, Face.settled, hname]

theorem forall₂_slots_of_pairs {R : Node → Node → Prop} {first second : List (Row Node)}
    (h : List.Forall₂ (Row.Pairs R) first second) :
    List.Forall₂ R (first.flatMap Row.slots) (second.flatMap Row.slots) := by
  induction h with
  | nil => exact .nil
  | cons hrow _ ih =>
    obtain ⟨place, hslots⟩ := hrow
    exact List.rel_append hslots ih

/-- Rows that go together are filled up with the same blanks. -/
theorem Row.Pairs.pad {R : Node → Node → Prop} {first second : Row Node}
    (h : Row.Pairs R first second) :
    Row.Pairs (fun slot slot' => R slot slot' ∨ ∃ place, slot = .blank place ∧ slot' = .blank place)
      first.pad second.pad := by
  obtain ⟨place, hslots⟩ := h
  refine .mk place (List.rel_append (hslots.imp fun _ _ => Or.inl) ?_)
  rw [Row.missing, Row.missing, hslots.length_eq]
  refine List.forall₂_same.2 fun slot hslot => Or.inr ⟨place, ?_⟩
  exact ⟨List.eq_of_mem_replicate hslot, List.eq_of_mem_replicate hslot⟩

/-- A leaf that visits leave alone is left by a walk. -/
theorem Visitor.Yields.eq_of_idle {visitor : Visitor σ ε} {node final : Node}
    (h : visitor.Yields node final) (hslots : node.slots = [])
    (hidle : ∀ parentId state, visitor parentId node state = .done node state) : final = node := by
  obtain ⟨parentId, state, -, hface, hrows⟩ := h
  rw [hidle] at hface hrows
  have hlength : node.slots.length = final.slots.length := (forall₂_slots_of_pairs hrows).length_eq
  rw [hslots] at hlength
  refine Node.eq_of_face hface ?_
  rw [hslots]
  exact List.length_eq_zero_iff.1 hlength.symm

theorem eq_blank_of_yields {place : Place} {final : Node} :
    (shapeVisitor.Yields (.blank place) final → final = .blank place) ∧
      (explodeVisitor.Yields (.blank place) final → final = .blank place) := by
  refine ⟨fun h => h.eq_of_idle rfl fun parentId padded => ?_,
    fun h => h.eq_of_idle rfl fun parentId count => ?_⟩
  · exact flat_shapeVisitor.idle_visit parentId _ padded (isFiller_blank place)
  · exact explodeVisitor_of_blank rfl parentId count

/-- Padding and exploding lead to the same tree in both orders. -/
theorem eq_of_exchanged {declared exploded padded first second : Node}
    (hexploded : explodeVisitor.Yields declared exploded)
    (hpadded : shapeVisitor.Yields declared padded) (hfirst : explodeVisitor.Yields padded first)
    (hsecond : shapeVisitor.Yields exploded second) : first = second := by
  induction declared using Node.slotInduction generalizing exploded padded first second with
  | step declared ih =>
    obtain ⟨_, _, hhalt, hface, hrows⟩ := hexploded
    obtain ⟨_, _, hhalt', hface', hrows'⟩ := hpadded
    obtain ⟨_, _, hhalt₁, hface₁, hrows₁⟩ := hfirst
    obtain ⟨_, _, hhalt₂, hface₂, hrows₂⟩ := hsecond
    rw [face_explodeVisitor hhalt] at hface
    rw [face_shapeVisitor hhalt'] at hface'
    rw [face_explodeVisitor hhalt₁, hface', Face.settled_padded] at hface₁
    rw [face_shapeVisitor hhalt₂, hface] at hface₂
    rw [(bare_explodeVisitor ..).2] at hrows hrows₁
    rw [rows_shapeVisitor hhalt'] at hrows'
    rw [rows_shapeVisitor hhalt₂] at hrows₂
    refine Node.eq_of_face (hface₁.trans hface₂.symm) ?_
    -- Slot by slot: from a slot of the padded rows to what the two orders make of it.
    have hslots : List.Forall₂
        (Row.Pairs fun slot slot' => slot ∈ declared.slots ∧ explodeVisitor.Yields slot slot')
        declared.rows exploded.rows := by
      refine ((List.forall₂_and_left _ _).2 ⟨fun _ hrow => hrow, hrows⟩).imp ?_
      rintro _ _ ⟨hrow, place, hpairs⟩
      refine .mk place ((List.forall₂_and_left _ _).2 ⟨fun slot hslot => ?_, hpairs⟩)
      exact Node.mem_slots_of_mem_rows hrow hslot
    have hpads : List.Forall₂ _ (declared.rows.map Row.pad) (exploded.rows.map Row.pad) :=
      List.forall₂_map_left_iff.2
        (List.forall₂_map_right_iff.2 (hslots.imp fun _ _ => Row.Pairs.pad))
    have hleft := forall₂_comp (T := fun slot final => ∃ middle,
      shapeVisitor.Yields slot middle ∧ explodeVisitor.Yields middle final)
      (fun _ middle _ h h' => ⟨middle, h, h'⟩) (forall₂_slots_of_pairs hrows')
      (forall₂_slots_of_pairs hrows₁)
    have hright := forall₂_comp (T := fun slot final => ∃ middle,
      ((slot ∈ declared.slots ∧ explodeVisitor.Yields slot middle) ∨
        ∃ place, slot = .blank place ∧ middle = .blank place) ∧ shapeVisitor.Yields middle final)
      (fun _ middle _ h h' => ⟨middle, h, h'⟩) (forall₂_slots_of_pairs hpads)
      (forall₂_slots_of_pairs hrows₂)
    have hsame := forall₂_comp (T := Eq) ?_ hleft.flip hright
    · rwa [List.forall₂_eq_eq_eq] at hsame
    · rintro left slot right ⟨middle, hmiddle, hleft⟩ ⟨middle', hslot | ⟨place, rfl, rfl⟩, hright⟩
      · exact ih slot hslot.1 hslot.2 hmiddle hleft hright
      · obtain rfl := eq_blank_of_yields.1 hmiddle
        rw [eq_blank_of_yields.2 hleft, eq_blank_of_yields.1 hright]

/-- The rules of the shape of a menu do not speak of operands. -/
theorem wellShaped_of_bare {first second : Node} (h : first.face.bare = second.face.bare)
    (hshape : first.WellShaped) : second.WellShaped := by
  have hname : first.name = second.name := congrArg (fun face => face.info.name.text) h
  have hlabel : first.label = second.label := congrArg (fun face => face.info.label) h
  have hkind : first.kind = second.kind := congrArg Face.kind h
  have hlayout : first.face.layout = second.face.layout := congrArg (fun face => face.layout) h
  refine ⟨?_, fun hgroup => ?_⟩
  · rw [← hname, ← hlabel, ← hkind]
    exact hshape.label
  · obtain ⟨hrows, hle, hslots⟩ := hshape.rows (hkind.trans hgroup)
    have hlength : first.rows.length = second.rows.length := by
      simpa [Node.face] using congrArg List.length hlayout
    refine ⟨?_, by omega, fun row hrow => ?_⟩
    · rwa [← List.length_pos_iff, ← hlength, List.length_pos_iff]
    · have hmem : (row.slots.length, row.place) ∈ first.face.layout := by
        rw [hlayout]
        exact List.mem_map_of_mem (f := fun row : Row Node => (row.slots.length, row.place)) hrow
      obtain ⟨row', hrow', heq⟩ := List.mem_map.1 hmem
      have hsame : row'.slots.length = row.slots.length := congrArg Prod.fst heq
      rw [← hsame]
      exact hslots row' hrow'

theorem validate_halt_of_bare {first second : MenuFile}
    (h : first.root.flatten.map (fun node => node.face.bare) =
      second.root.flatten.map fun node => node.face.bare)
    (hhalt : (validate first).halt = none) : (validate second).halt = none := by
  rw [validate_halt_iff] at hhalt ⊢
  intro node hnode
  have hmem := List.mem_map_of_mem (f := fun node : Node => node.face.bare) hnode
  rw [← h] at hmem
  obtain ⟨other, hother, hbare⟩ := List.mem_map.1 hmem
  exact wellShaped_of_bare hbare (hhalt other hother)

/-- The operands of names are of no interest to the checks, and padding adds nothing that has a
name. -/
theorem explodeNames_validate (file : MenuFile) :
    ((validate file).result?.bind fun padded => (explodeNames padded).result?) =
      (explodeNames file).result?.bind fun exploded => (validate exploded).result? := by
  have hshapes : (validate (explodeNames file).value).halt = none ↔ (validate file).halt = none :=
    ⟨validate_halt_of_bare (bare_explodeNames file),
      validate_halt_of_bare (bare_explodeNames file).symm⟩
  have hnames : (validate file).halt = none →
      ((explodeNames (validate file).value).halt = none ↔ (explodeNames file).halt = none) := by
    intro hshape
    rw [explodeNames_halt_iff, explodeNames_halt_iff, spelled_iff_named, named_validate hshape,
      ← spelled_iff_named]
  apply Outcome.bind_result?_eq
  · constructor
    · rintro ⟨hshape, hexplode⟩
      exact ⟨(hnames hshape).1 hexplode, hshapes.2 hshape⟩
    · rintro ⟨hexplode, hshape⟩
      exact ⟨hshapes.1 hshape, (hnames (hshapes.1 hshape)).2 hexplode⟩
  · intro hshape hexplode hexplode' hshape'
    have hroot : (explodeNames (validate file).value).value.root =
        (validate (explodeNames file).value).value.root :=
      eq_of_exchanged (Visitor.yields_walk flat_explodeVisitor.depth_visit_le hexplode')
        (Visitor.yields_walk flat_shapeVisitor.depth_visit_le hshape)
        (Visitor.yields_walk flat_explodeVisitor.depth_visit_le hexplode)
        (Visitor.yields_walk flat_shapeVisitor.depth_visit_le hshape')
    exact congrArg (MenuFile.mk file.config) hroot

/-! ## All passes -/

/-- Each pass over a menu can be repeated without effect if it goes through: checking adds nothing,
the same names are exploded, and the same ids are assigned and known. Exploding can be exchanged
with checking and with numbering: both orders go through or neither does, and they lead to the same
menu. -/
theorem passes_repeat_and_exchange (policy : DuplicatePolicy) (file : MenuFile) :
    ((validate file).halt = none →
      validate (validate file).value = .done (validate file).value 0) ∧
    ((explodeNames file).halt = none →
      explodeNames (explodeNames file).value = explodeNames file) ∧
    ((assignIds policy file).halt = none →
      assignIds policy (assignIds policy file).value = assignIds policy file) ∧
    ((validate file).result?.bind fun padded => (explodeNames padded).result?) =
      ((explodeNames file).result?.bind fun exploded => (validate exploded).result?) ∧
    ((assignIds policy file).result?.bind fun numbered => (explodeNames numbered).result?) =
      (explodeNames file).result?.bind fun exploded => (assignIds policy exploded).result? :=
  ⟨validate_validate, explodeNames_explodeNames, assignIds_assignIds, explodeNames_validate file,
    explodeNames_assignIds policy file⟩

/-- A menu with rows to pad, a declared blank, names that refer to glyphs and a name used twice. -/
def arrowsMenu : MenuFile :=
  let place : Place := ⟨1, .empty 0⟩
  let info (name label : String) : NodeInfo := { name := ⟨name, none⟩, label, place }
  let group (name label : String) (rows : List (List Node)) : Node :=
    .group (info name label) (rows.map fun slots => ⟨slots, place⟩)
  let moves := group "Move" "mMove" [[.item (info "<up>" "mUp"), .item (info "<down>" "mDown")]]
  ⟨{}, group "Top" "mTop" [[.item (info "A" "mA"), .blank place, .item (info "A" "mB")],
    [moves, .altItem (info "<go>" "mGo") ⟨"Stop", none⟩]]⟩

theorem passes_repeat_and_exchange_arrows :
    ((validate arrowsMenu).halt = none ∧
      validate (validate arrowsMenu).value = .done (validate arrowsMenu).value 0) ∧
    ((explodeNames arrowsMenu).halt = none ∧
      explodeNames (explodeNames arrowsMenu).value = explodeNames arrowsMenu) ∧
    ((assignIds .anyLeaves arrowsMenu).halt = none ∧
      assignIds .anyLeaves (assignIds .anyLeaves arrowsMenu).value =
        assignIds .anyLeaves arrowsMenu) := by
  have hshape : (validate arrowsMenu).halt = none := by decide +kernel
  have hnames : (explodeNames arrowsMenu).halt = none := by decide +kernel
  have hids : (assignIds .anyLeaves arrowsMenu).halt = none := by decide +kernel
  obtain ⟨hvalidate, hexplode, hassign, -, -⟩ := passes_repeat_and_exchange .anyLeaves arrowsMenu
  exact ⟨⟨hshape, hvalidate hshape⟩, ⟨hnames, hexplode hnames⟩, hids, hassign hids⟩

end SoftMenu
