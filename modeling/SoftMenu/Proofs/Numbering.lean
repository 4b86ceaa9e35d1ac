import Mathlib.Data.List.Pairwise
import SoftMenu.Menu.Registry
import SoftMenu.Proofs.Walk

/-!
# Numbering a menu

`assignIds` goes through exactly if there are ids enough and any two nodes that are not blank are
compatible (`assignIds_halt_iff`). The registry compares a node only with the first user of its
name; that this comes to the same as comparing it with all users is
`DuplicatePolicy.MayShare.euclidean`.

The ids of the numbered menu are 1, 2, 3, … in hybrid order (`ids_assignIds`), every slot carries
the id of its group (`linked_assignIds`), and nothing else is changed but the labels of blanks
(`content_assignIds`).
-/

namespace SoftMenu

/-! ## Compatible nodes -/

/-- Two nodes of these kinds may have the same name. -/
def DuplicatePolicy.MayShare : DuplicatePolicy → Kind → Kind → Prop
  | .strict, _, _ => False
  | .sameKindLeaves, first, second => first = second ∧ first ≠ .group
  | .anyLeaves, first, second => first ≠ .group ∧ second ≠ .group

namespace DuplicatePolicy

variable {policy : DuplicatePolicy} {first second third : Kind}

theorem allows_iff : policy.allows first second ↔ policy.MayShare first second := by
  cases policy <;> cases first <;> cases second <;> simp [allows, MayShare]

theorem MayShare.symm (h : policy.MayShare first second) : policy.MayShare second first := by
  cases policy with
  | strict => exact h
  | sameKindLeaves => exact ⟨h.1.symm, h.1 ▸ h.2⟩
  | anyLeaves => exact ⟨h.2, h.1⟩

/-- Two kinds that may share a name with a third one may share it with each other. -/
theorem MayShare.euclidean (hsecond : policy.MayShare first second)
    (hthird : policy.MayShare first third) : policy.MayShare second third := by
  cases policy with
  | strict => exact hsecond
  | sameKindLeaves => exact ⟨hsecond.1.symm.trans hthird.1, hsecond.1 ▸ hsecond.2⟩
  | anyLeaves => exact ⟨hsecond.2, hthird.2⟩

end DuplicatePolicy

/-- Two nodes can both be in a menu under a policy: they have different labels, and they do not have
the same name unless they may share it. -/
structure Compatible (policy : DuplicatePolicy) (first second : Node) : Prop where
  label : first.label ≠ second.label
  name : first.name = second.name → policy.MayShare first.kind second.kind

theorem Compatible.symm {policy : DuplicatePolicy} {first second : Node}
    (h : Compatible policy first second) : Compatible policy second first :=
  ⟨h.label.symm, fun hname => (h.name hname.symm).symm⟩

instance (policy : DuplicatePolicy) : Std.Symm (Compatible policy) := ⟨fun _ _ => Compatible.symm⟩

/-- There are ids for all nodes of a list, and those that are not blank are compatible. -/
structure Registrable (policy : DuplicatePolicy) (nodes : List Node) : Prop where
  length_le : nodes.length ≤ maxNodeId.toNat
  pairwise : (active Node.isBlank nodes).Pairwise (Compatible policy)

theorem Registrable.of_append {policy : DuplicatePolicy} {first second : List Node}
    (h : Registrable policy (first ++ second)) : Registrable policy first := by
  obtain ⟨hlength, hpairwise⟩ := h
  rw [List.length_append] at hlength
  rw [active_append, List.pairwise_append] at hpairwise
  exact ⟨by omega, hpairwise.1⟩

theorem registrable_concat_iff {policy : DuplicatePolicy} {seen : List Node} {node : Node}
    (h : Registrable policy seen) :
    Registrable policy (seen ++ [node]) ↔ seen.length < maxNodeId.toNat ∧
      (node.isBlank = false →
        ∀ other ∈ active Node.isBlank seen, Compatible policy other node) := by
  constructor
  · rintro ⟨hlength, hpairwise⟩
    rw [List.length_append, List.length_singleton] at hlength
    rw [active_append, List.pairwise_append] at hpairwise
    refine ⟨hlength, fun hblank other hother => hpairwise.2.2 other hother node ?_⟩
    exact mem_active.2 ⟨List.mem_cons_self, hblank⟩
  · rintro ⟨hlength, hcompatible⟩
    refine ⟨by rw [List.length_append, List.length_singleton]; exact hlength, ?_⟩
    rw [active_append, List.pairwise_append]
    refine ⟨h.pairwise, (List.pairwise_singleton _ node).filter _, ?_⟩
    intro other hother last hlast
    obtain ⟨hlast, hblank⟩ := mem_active.1 hlast
    obtain rfl := List.mem_singleton.1 hlast
    exact hcompatible hblank other hother

/-! ## One node -/

/-- A node with the numbers that it is given, and with the label that goes with them if it is
blank. -/
def Node.stamp (id parentId : UInt8) (node : Node) : Node :=
  node.mapInfo fun info =>
    { info with id, parentId, label := if node.isBlank then blankLabel id else info.label }

namespace Registry

variable {registry : Registry} {node : Node} {parentId : UInt8}

theorem number_of_le (h : registry.nextId ≤ maxNodeId.toNat) :
    registry.number parentId node = .done (node.stamp (.ofNat registry.nextId) parentId)
      { registry with
        nextId := registry.nextId + 1
        labels := if node.isBlank then registry.labels else
          (node.label, ⟨.ofNat registry.nextId, node.place.line⟩) :: registry.labels } := by
  unfold number Node.stamp
  rw [if_neg (Nat.not_lt.2 h)]
  split_ifs <;> rfl

theorem number_of_gt (h : maxNodeId.toNat < registry.nextId) :
    (registry.number parentId node).value = node ∧ (registry.number parentId node).halt ≠ none := by
  unfold number
  rw [if_pos h]
  exact ⟨rfl, by simp⟩

theorem number_halt_iff :
    (registry.number parentId node).halt = none ↔ registry.nextId ≤ maxNodeId.toNat := by
  by_cases h : registry.nextId ≤ maxNodeId.toNat
  · rw [number_of_le h]
    exact iff_of_true rfl h
  · exact iff_of_false (number_of_gt (by omega)).2 h

/-- Nothing is in the way of a node if it may use its name and its label is not in use. -/
theorem note_eq_none_iff : (registry.note node).2 = none ↔
    (∀ kind, registry.kindOfName? node.name = some kind → registry.policy.MayShare kind node.kind) ∧
      node.label ∉ registry.labels.map Prod.fst := by
  have hclash : registry.labelClash? node = none ↔ node.label ∉ registry.labels.map Prod.fst := by
    rw [labelClash?, Option.map_eq_none_iff, List.lookup_eq_none_iff]
    simp only [bne_iff_ne, List.mem_map, not_exists, not_and]
    exact forall₂_congr fun entry _ => ne_comm
  unfold note
  cases hkind : registry.kindOfName? node.name with
  | none => simp [hclash]
  | some kind =>
    simp only [Option.some.injEq, forall_eq', ← DuplicatePolicy.allows_iff]
    split_ifs with hallowed
    · simp [hallowed, hclash]
    · simp [hallowed]

/-- Noting a node changes nothing but the names. -/
theorem note_fst : (registry.note node).1 =
    { registry with
      names := if (registry.kindOfName? node.name).isSome then registry.names
        else (node.name, node.kind) :: registry.names } := by
  unfold note
  cases registry.kindOfName? node.name with
  | none => rfl
  | some kind =>
    by_cases hallowed : registry.policy.allows kind node.kind <;> simp [hallowed]

@[simp] theorem policy_note : (registry.note node).1.policy = registry.policy := by rw [note_fst]

@[simp] theorem nextId_note : (registry.note node).1.nextId = registry.nextId := by rw [note_fst]

@[simp] theorem labels_note : (registry.note node).1.labels = registry.labels := by rw [note_fst]

/-- A name is noted for its first user. -/
theorem kindOfName?_note (name : String) : (registry.note node).1.kindOfName? name =
    (registry.kindOfName? name).or (if node.name = name then some node.kind else none) := by
  rw [note_fst]
  by_cases hname : node.name = name
  · subst hname
    cases hkind : registry.kindOfName? node.name with
    | some kind => simpa using hkind
    | none => simp [kindOfName?]
  · have hother : (name == node.name) = false := by simpa using Ne.symm hname
    cases registry.kindOfName? node.name with
    | some kind => simp [hname, kindOfName?]
    | none => simp [hname, kindOfName?, List.lookup_cons, hother]

theorem visitor_of_blank (h : node.isBlank = true) :
    visitor parentId node registry = registry.number parentId node := by
  rw [visitor, if_pos h]

theorem visitor_of_none (h : node.isBlank = false) (hnote : (registry.note node).2 = none) :
    visitor parentId node registry = (registry.note node).1.number parentId node := by
  rw [visitor, if_neg (by simp [h])]
  generalize registry.note node = noted at hnote
  obtain ⟨noted, reason⟩ := noted
  obtain rfl : reason = none := hnote
  rfl

theorem visitor_of_some {error : CompileError} (h : node.isBlank = false)
    (hnote : (registry.note node).2 = some error) :
    visitor parentId node registry = ⟨node, (registry.note node).1, some error⟩ := by
  rw [visitor, if_neg (by simp [h])]
  generalize registry.note node = noted at hnote
  obtain ⟨noted, reason⟩ := noted
  obtain rfl : reason = some error := hnote
  rfl

theorem visitor_halt_iff : (visitor parentId node registry).halt = none ↔
    registry.nextId ≤ maxNodeId.toNat ∧ (node.isBlank = false → (registry.note node).2 = none) := by
  cases hblank : node.isBlank with
  | true => simp [visitor_of_blank hblank, number_halt_iff]
  | false =>
    cases hnote : (registry.note node).2 with
    | none =>
      simp [visitor_of_none hblank hnote, number_halt_iff]
    | some error => simp [visitor_of_some hblank hnote]

/-- A visit stamps a node with the next id, unless it gives up. -/
theorem visitor_value (h : (visitor parentId node registry).halt = none) :
    (visitor parentId node registry).value = node.stamp (.ofNat registry.nextId) parentId := by
  obtain ⟨hle, hnote⟩ := visitor_halt_iff.1 h
  cases hblank : node.isBlank with
  | true => rw [visitor_of_blank hblank, number_of_le hle, Outcome.done]
  | false =>
    have hle' : (registry.note node).1.nextId ≤ maxNodeId.toNat := by rwa [nextId_note]
    rw [visitor_of_none hblank (hnote hblank), number_of_le hle', Outcome.done, nextId_note]

theorem visitor_value_of_halt (h : (visitor parentId node registry).halt ≠ none) :
    (visitor parentId node registry).value = node := by
  cases hblank : node.isBlank with
  | true =>
    rw [visitor_of_blank hblank, Ne, number_halt_iff, Nat.not_le] at h
    rw [visitor_of_blank hblank]
    exact (number_of_gt h).1
  | false =>
    cases hnote : (registry.note node).2 with
    | some error => rw [visitor_of_some hblank hnote]
    | none =>
      rw [visitor_of_none hblank hnote, Ne, number_halt_iff, Nat.not_le] at h
      rw [visitor_of_none hblank hnote]
      exact (number_of_gt h).1

/-! ## What is known after some nodes -/

/-- The registry is what it should be after the nodes of a list. -/
structure Knows (registry : Registry) (policy : DuplicatePolicy) (seen : List Node) : Prop where
  policy_eq : registry.policy = policy
  nextId_eq : registry.nextId = seen.length + rootId
  kindOfName_eq : ∀ name, registry.kindOfName? name =
    ((active Node.isBlank seen).find? fun node => node.name = name).map Node.kind
  labels_eq : registry.labels.map Prod.fst = ((active Node.isBlank seen).map Node.label).reverse
  registrable : Registrable policy seen

theorem knows_nil (policy : DuplicatePolicy) : Knows { policy } policy [] where
  policy_eq := rfl
  nextId_eq := rfl
  kindOfName_eq _ := rfl
  labels_eq := rfl
  registrable := ⟨Nat.zero_le _, .nil⟩

namespace Knows

variable {policy : DuplicatePolicy} {seen : List Node}

/-- Nothing is in the way of a node if it is compatible with all nodes before it. -/
theorem note_iff (h : registry.Knows policy seen) : (registry.note node).2 = none ↔
    ∀ other ∈ active Node.isBlank seen, Compatible policy other node := by
  rw [note_eq_none_iff, h.policy_eq, h.labels_eq, h.kindOfName_eq]
  constructor
  · rintro ⟨hkind, hlabel⟩ other hother
    refine ⟨?_, fun hname => ?_⟩
    · rintro hother'
      rw [List.mem_reverse, ← hother'] at hlabel
      exact hlabel (List.mem_map_of_mem hother)
    · -- The registry only knows the first user of the name, which goes together with both.
      obtain ⟨first, hfirst⟩ : ∃ first, (active Node.isBlank seen).find?
          (fun user => user.name = node.name) = some first := by
        rw [← Option.isSome_iff_exists, List.find?_isSome]
        exact ⟨other, hother, by simpa using hname⟩
      have hshare := hkind first.kind (by rw [hfirst]; rfl)
      have hsame : first.name = node.name := by simpa using List.find?_some hfirst
      by_cases heq : first = other
      · exact heq ▸ hshare
      · have hpair : Compatible policy first other :=
          h.registrable.pairwise.forall
            (List.mem_of_find?_eq_some hfirst) hother heq
        exact (hpair.name (hsame.trans hname.symm)).euclidean hshare
  · intro hcompatible
    refine ⟨fun kind hkind => ?_, fun hlabel => ?_⟩
    · obtain ⟨first, hfirst, rfl⟩ := Option.map_eq_some_iff.1 hkind
      have hsame : first.name = node.name := by simpa using List.find?_some hfirst
      exact (hcompatible first (List.mem_of_find?_eq_some hfirst)).name hsame
    · obtain ⟨other, hother, hsame⟩ := List.mem_map.1 (List.mem_reverse.1 hlabel)
      exact (hcompatible other hother).label hsame

theorem halt_iff (h : registry.Knows policy seen) :
    (visitor parentId node registry).halt = none ↔ Registrable policy (seen ++ [node]) := by
  rw [visitor_halt_iff, registrable_concat_iff h.registrable, h.note_iff, h.nextId_eq]
  rfl

/-- After a visit that goes through the registry knows one node more. -/
theorem step (h : registry.Knows policy seen)
    (hhalt : (visitor parentId node registry).halt = none) :
    (visitor parentId node registry).state.Knows policy (seen ++ [node]) := by
  have hregistrable := h.halt_iff.1 hhalt
  obtain ⟨hle, hnote⟩ := visitor_halt_iff.1 hhalt
  have hnext : registry.nextId + 1 = (seen ++ [node]).length + rootId := by
    rw [h.nextId_eq, List.length_append, List.length_singleton]
    omega
  cases hblank : node.isBlank with
  | true =>
    have hactive : active Node.isBlank (seen ++ [node]) = active Node.isBlank seen := by
      simp [active, hblank]
    rw [visitor_of_blank hblank, number_of_le hle]
    refine ⟨h.policy_eq, hnext, fun name => ?_, ?_, hregistrable⟩
    · rw [hactive]
      exact h.kindOfName_eq name
    · rw [hactive, hblank]
      exact h.labels_eq
  | false =>
    have hactive : active Node.isBlank (seen ++ [node]) = active Node.isBlank seen ++ [node] := by
      simp [active, hblank]
    have hle' : (registry.note node).1.nextId ≤ maxNodeId.toNat := by rwa [nextId_note]
    rw [visitor_of_none hblank (hnote hblank), number_of_le hle']
    refine ⟨policy_note.trans h.policy_eq, ?_, fun name => ?_, ?_, hregistrable⟩
    · simpa only [Outcome.done, nextId_note] using hnext
    · have hname : (registry.note node).1.kindOfName? name = _ := kindOfName?_note name
      rw [hactive, List.find?_append, Option.map_or, ← h.kindOfName_eq]
      refine hname.trans (congrArg _ ?_)
      by_cases hsame : node.name = name
      · simp [hsame]
      · simp [hsame]
    · simp only [hactive, hblank, Outcome.done, labels_note, List.map_append, List.reverse_append]
      exact congrArg (node.label :: ·) h.labels_eq

theorem sweep_halt_iff (h : registry.Knows policy seen) (nodes : List Node) :
    (sweep (visitor nullId) nodes registry).halt = none ↔ Registrable policy (seen ++ nodes) := by
  induction nodes generalizing registry seen with
  | nil =>
    rw [List.append_nil]
    exact iff_of_true rfl h.registrable
  | cons node nodes ih =>
    have hsplit : seen ++ node :: nodes = (seen ++ [node]) ++ nodes := by simp
    cases hnode : (visitor nullId node registry).halt with
    | none =>
      rw [sweep_cons_of_none hnode, hsplit]
      exact ih (h.step hnode)
    | some error =>
      -- The node does not go with those before it, whatever comes after.
      rw [sweep_cons_of_some hnode, hsplit]
      refine iff_of_false (by simp [Outcome.map, hnode]) fun hall => ?_
      rw [h.halt_iff.2 hall.of_append] at hnode
      cases hnode

/-- After a sweep that goes through the registry knows all nodes, and they have been given the ids
that follow each other. -/
theorem sweep (h : registry.Knows policy seen) {nodes : List Node}
    (hhalt : (sweep (visitor nullId) nodes registry).halt = none) :
    (sweep (visitor nullId) nodes registry).state.Knows policy (seen ++ nodes) ∧
      (sweep (visitor nullId) nodes registry).value.map Node.id =
        (List.range' (seen.length + rootId) nodes.length).map UInt8.ofNat := by
  induction nodes generalizing registry seen with
  | nil =>
    rw [List.append_nil]
    exact ⟨h, rfl⟩
  | cons node nodes ih =>
    cases hnode : (visitor nullId node registry).halt with
    | none =>
      rw [sweep_cons_of_none hnode] at hhalt ⊢
      obtain ⟨hknows, hids⟩ := ih (h.step hnode) hhalt
      rw [List.append_assoc, List.singleton_append] at hknows
      refine ⟨hknows, ?_⟩
      have hid : (visitor nullId node registry).value.id = UInt8.ofNat (seen.length + rootId) := by
        rw [visitor_value hnode, h.nextId_eq]
        exact congrArg NodeInfo.id (Node.info_mapInfo _ node)
      rw [List.length_cons, List.range'_succ, List.map_cons, ← hid]
      refine congrArg (_ :: ·) (hids.trans ?_)
      rw [List.length_append, List.length_singleton, Nat.add_right_comm]
    | some error =>
      rw [sweep_cons_of_some hnode] at hhalt
      exact absurd (hnode.symm.trans hhalt) (by simp)

end Knows

end Registry

/-! ## Menus -/

/-- What numbering keeps of a node. -/
def Node.content (node : Node) : DisplayName × Kind × Option DisplayName × List (Nat × Place) :=
  (node.info.name, node.kind, node.altName?, node.face.layout)

/-- All that can be seen of a node but the id of its group. -/
def Node.unlinked (node : Node) : Face :=
  { node.face with info := { node.info with parentId := nullId } }

theorem Node.content_stamp (id parentId : UInt8) (node : Node) :
    (node.stamp id parentId).content = node.content := by
  simp [Node.stamp, Node.content, Node.face]

theorem content_visitor (parentId : UInt8) (node : Node) (registry : Registry) :
    (Registry.visitor parentId node registry).value.content = node.content := by
  by_cases h : (Registry.visitor parentId node registry).halt = none
  · rw [Registry.visitor_value h, Node.content_stamp]
  · rw [Registry.visitor_value_of_halt h]

theorem rows_visitor (parentId : UInt8) (node : Node) (registry : Registry) :
    (Registry.visitor parentId node registry).value.rows = node.rows := by
  by_cases h : (Registry.visitor parentId node registry).halt = none
  · rw [Registry.visitor_value h, Node.stamp, Node.rows_mapInfo]
  · rw [Registry.visitor_value_of_halt h]

/-- What is declared about a node; the label of a blank is none of it. -/
structure Tag where
  name : DisplayName
  kind : Kind
  altName : Option DisplayName
  label : Option String

/-- What is declared about a node that looks like this. -/
def Face.tag (face : Face) : Tag where
  name := face.info.name
  kind := face.kind
  altName := face.altName
  label := if face.info.name.text = blankMark then none else some face.info.label

theorem tag_visitor (parentId : UInt8) (node : Node) (registry : Registry) :
    (Registry.visitor parentId node registry).value.face.tag = node.face.tag := by
  by_cases h : (Registry.visitor parentId node registry).halt = none
  · rw [Registry.visitor_value h]
    simp only [Face.tag, Node.face, Node.stamp, Node.info_mapInfo, Node.kind_mapInfo,
      Node.altName?_mapInfo]
    by_cases hname : node.info.name.text = blankMark
    · simp [hname]
    · have hblank : node.isBlank = false := Node.isBlank_eq_false_iff.2 hname
      simp [hname, hblank]
  · rw [Registry.visitor_value_of_halt h]

theorem number_parentId (parentId : UInt8) (node : Node) (registry : Registry) :
    (registry.number parentId node).state = (registry.number nullId node).state ∧
    (registry.number parentId node).halt = (registry.number nullId node).halt ∧
    (registry.number parentId node).value.unlinked =
      (registry.number nullId node).value.unlinked := by
  by_cases hle : registry.nextId ≤ maxNodeId.toNat
  · rw [Registry.number_of_le hle, Registry.number_of_le hle]
    exact ⟨rfl, rfl, by simp [Outcome.done, Node.unlinked, Node.stamp, Node.face]⟩
  · rw [Registry.number, Registry.number, if_pos (by omega), if_pos (by omega)]
    exact ⟨rfl, rfl, rfl⟩

/-- The group of a node has a part in nothing but the parent id. -/
theorem visitor_parentId (parentId : UInt8) (node : Node) (registry : Registry) :
    (Registry.visitor parentId node registry).state =
      (Registry.visitor nullId node registry).state ∧
    (Registry.visitor parentId node registry).halt =
      (Registry.visitor nullId node registry).halt ∧
    (Registry.visitor parentId node registry).value.unlinked =
      (Registry.visitor nullId node registry).value.unlinked := by
  cases hblank : node.isBlank with
  | true =>
    rw [Registry.visitor_of_blank hblank, Registry.visitor_of_blank hblank]
    exact number_parentId parentId node registry
  | false =>
    cases hnote : (registry.note node).2 with
    | none =>
      rw [Registry.visitor_of_none hblank hnote, Registry.visitor_of_none hblank hnote]
      exact number_parentId parentId node _
    | some error =>
      rw [Registry.visitor_of_some hblank hnote, Registry.visitor_of_some hblank hnote]
      exact ⟨rfl, rfl, rfl⟩

/-- To the registry a tree is the list of its nodes. -/
theorem flat_registryVisitor : Registry.visitor.Flat (fun _ => false) Node.unlinked where
  idle_depth _ h := nomatch h
  idle_visit _ _ _ h := nomatch h
  idle_face _ _ _ := rfl
  view_face first second h := by
    have hinfo : first.info = second.info := congrArg Face.info h
    rw [Node.unlinked, Node.unlinked, h, hinfo]
  visit_kind parentId node registry :=
    congrArg (fun content => content.2.1) (content_visitor parentId node registry)
  visit_slots parentId node registry := by
    rw [active_false, active_false, Node.slots, rows_visitor]
    rfl
  visit_idle _ _ _ := rfl
  visit_state parentId node registry := (visitor_parentId parentId node registry).1
  visit_halt parentId node registry := (visitor_parentId parentId node registry).2.1
  visit_view parentId node registry := (visitor_parentId parentId node registry).2.2

section AssignIds

variable {policy : DuplicatePolicy} {file : MenuFile}

theorem alike_assignIds (policy : DuplicatePolicy) (file : MenuFile) :
    Alike (fun _ => false) Node.unlinked (fun file => file.root.flatten) (assignIds policy file)
      (sweep (Registry.visitor nullId) file.root.flatten { policy }) := by
  have hwalk := flat_registryVisitor.alike_walk file.root { policy }
  rw [active_false file.root.flatten] at hwalk
  exact ⟨hwalk.state_eq, hwalk.halt_eq, hwalk.view_eq⟩

/-- Numbering goes through exactly if there are ids enough and all nodes are compatible. -/
theorem assignIds_halt_iff :
    (assignIds policy file).halt = none ↔ Registrable policy file.root.flatten := by
  rw [(alike_assignIds policy file).halt_eq]
  exact (Registry.knows_nil policy).sweep_halt_iff file.root.flatten

theorem knows_assignIds (h : (assignIds policy file).halt = none) :
    (assignIds policy file).state.Knows policy file.root.flatten := by
  rw [(alike_assignIds policy file).halt_eq] at h
  rw [(alike_assignIds policy file).state_eq]
  exact ((Registry.knows_nil policy).sweep h).1

theorem nodeCount_assignIds (h : (assignIds policy file).halt = none) :
    (assignIds policy file).state.nodeCount = file.root.flatten.length := by
  rw [Registry.nodeCount, (knows_assignIds h).nextId_eq, Nat.add_sub_cancel]

/-- The ids follow the hybrid order. -/
theorem ids_assignIds (h : (assignIds policy file).halt = none) :
    (assignIds policy file).value.root.flatten.map Node.id =
      (List.range' rootId file.root.flatten.length).map UInt8.ofNat := by
  have hview := (alike_assignIds policy file).view_eq
  rw [active_false] at hview
  rw [(alike_assignIds policy file).halt_eq] at h
  exact (map_part hview fun face => face.info.id).trans ((Registry.knows_nil policy).sweep h).2

theorem toNat_ids_assignIds (h : (assignIds policy file).halt = none) :
    (assignIds policy file).value.root.flatten.map (fun node => node.id.toNat) =
      List.range' rootId file.root.flatten.length := by
  have hlength := (assignIds_halt_iff.1 h).length_le
  have hnumbers := congrArg (List.map UInt8.toNat) (ids_assignIds h)
  rw [List.map_map, List.map_map] at hnumbers
  refine hnumbers.trans ((List.map_congr_left fun number hnumber => ?_).trans (List.map_id _))
  have hbound := (List.mem_range'_1.1 hnumber).2
  have hmax : maxNodeId.toNat = 254 := rfl
  have hbyte : number < UInt8.size := by
    rw [rootId] at hbound
    rw [UInt8.size]
    omega
  exact UInt8.toNat_ofNat_of_lt' hbyte

/-- Apart from labels and numbers the nodes are the same before and after, in the same order. -/
theorem content_assignIds (policy : DuplicatePolicy) (file : MenuFile) :
    (assignIds policy file).value.root.flatten.map Node.content =
      file.root.flatten.map Node.content := by
  have hview := (alike_assignIds policy file).view_eq
  rw [active_false] at hview
  have hcontent := map_part hview fun face => (face.info.name, face.kind, face.altName, face.layout)
  exact hcontent.trans (map_sweep (content_visitor nullId) _ _)

/-- The labels of nodes that are not blank are the same before and after. -/
theorem tag_assignIds (policy : DuplicatePolicy) (file : MenuFile) :
    (assignIds policy file).value.root.flatten.map (fun node => node.face.tag) =
      file.root.flatten.map fun node => node.face.tag := by
  have hview := (alike_assignIds policy file).view_eq
  rw [active_false] at hview
  exact (map_part hview Face.tag).trans (map_sweep (tag_visitor nullId) _ _)

/-- The blanks have been given labels. -/
theorem blankLabel_of_mem_assignIds (h : (assignIds policy file).halt = none) :
    ∀ node ∈ (assignIds policy file).value.root.flatten, node.isBlank = true →
      node.label = blankLabel node.id := by
  intro node hnode hblank
  refine Visitor.forall_mem_walk
    (fun face => face.info.name.text = blankMark → face.info.label = blankLabel face.info.id) ?_
    flat_registryVisitor.depth_visit_le h node hnode (Node.isBlank_iff.1 hblank)
  intro parentId node registry hvisit hname
  rw [Registry.visitor_value hvisit] at hname ⊢
  simp only [Node.face, Node.stamp, Node.info_mapInfo] at hname ⊢
  rw [if_pos (Node.isBlank_iff.2 hname)]

/-- The parent ids are those of the groups. -/
theorem linked_assignIds (h : (assignIds policy file).halt = none) :
    (assignIds policy file).value.root.parentId = nullId ∧
      (assignIds policy file).value.root.Linked := by
  refine Visitor.walk_post (fun parentId face => face.info.parentId = parentId) ?_
    flat_registryVisitor.depth_visit_le h
  intro parentId node registry hvisit
  rw [Registry.visitor_value hvisit]
  exact congrArg NodeInfo.parentId (Node.info_mapInfo _ node)

end AssignIds

end SoftMenu
