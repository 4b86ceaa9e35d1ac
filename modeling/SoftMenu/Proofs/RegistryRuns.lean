import Mathlib.Data.List.Nodup
import SoftMenu.Proofs.Numbering
import SoftMenu.Proofs.Records

/-!
# Any run of a registry

One registry may number several trees, one after the other. A walk that gives up leaves behind what
the visits before have noted, and half of what the failed visit was about to note: a name may be
known although its node has no id. The next walk goes on from there.

A run is described by the record of its visits (`Visitor.recorded`). After any number of visits the
registry answers for exactly those that went through (`Registry.Accounts`): they have the ids 1, 2,
3, … in order, and their labels are the labels that are known. All else follows from that
(`sound_of_run`).
-/

namespace SoftMenu

/-! ## One visit -/

theorem mem_of_lookup {α β : Type} [BEq α] [LawfulBEq α] {entries : List (α × β)} {key : α}
    {value : β} (h : entries.lookup key = some value) : (key, value) ∈ entries := by
  obtain ⟨before, after, rfl, -⟩ := List.lookup_eq_some_iff.1 h
  exact List.mem_append_right _ List.mem_cons_self

namespace Registry

variable {registry : Registry} {node : Node} {parentId : UInt8}

theorem number_state_of_gt (h : maxNodeId.toNat < registry.nextId) :
    (registry.number parentId node).state = registry := by
  unfold number
  rw [if_pos h]

/-- A visit that gives up may have noted a name. -/
theorem visitor_state_of_halt (h : (visitor parentId node registry).halt ≠ none) :
    (visitor parentId node registry).state =
      if node.isBlank then registry else (registry.note node).1 := by
  cases hblank : node.isBlank with
  | true =>
    rw [visitor_of_blank hblank, Ne, number_halt_iff, Nat.not_le] at h
    rw [visitor_of_blank hblank, number_state_of_gt h]
    rfl
  | false =>
    cases hnote : (registry.note node).2 with
    | some error =>
      rw [visitor_of_some hblank hnote]
      rfl
    | none =>
      rw [visitor_of_none hblank hnote, Ne, number_halt_iff, Nat.not_le] at h
      rw [visitor_of_none hblank hnote, number_state_of_gt h]
      rfl

theorem visitor_state (h : (visitor parentId node registry).halt = none) :
    (visitor parentId node registry).state =
      { (if node.isBlank then registry else (registry.note node).1) with
        nextId := registry.nextId + 1
        labels := if node.isBlank then registry.labels else
          (node.label, ⟨.ofNat registry.nextId, node.place.line⟩) :: registry.labels } := by
  obtain ⟨hle, hnote⟩ := visitor_halt_iff.1 h
  cases hblank : node.isBlank with
  | true =>
    rw [visitor_of_blank hblank, number_of_le hle, hblank]
    rfl
  | false =>
    have hle' : (registry.note node).1.nextId ≤ maxNodeId.toNat := by rwa [nextId_note]
    rw [visitor_of_none hblank (hnote hblank), number_of_le hle', hblank, nextId_note, labels_note]
    rfl

theorem id_visitor (h : (visitor parentId node registry).halt = none) :
    (visitor parentId node registry).value.id = .ofNat registry.nextId := by
  rw [visitor_value h]
  exact congrArg NodeInfo.id (Node.info_mapInfo _ node)

/-- The names that are known after a visit do not depend on how the visit ended. -/
theorem kindOfName?_visitor (name : String) :
    (visitor parentId node registry).state.kindOfName? name = (registry.kindOfName? name).or
      (if node.isBlank = false ∧ node.name = name then some node.kind else none) := by
  have hstate : (visitor parentId node registry).state.names =
      (if node.isBlank then registry else (registry.note node).1).names := by
    by_cases h : (visitor parentId node registry).halt = none
    · rw [visitor_state h]
    · rw [visitor_state_of_halt h]
  unfold kindOfName?
  rw [hstate]
  cases hblank : node.isBlank with
  | true => simp
  | false =>
    have hnote : (registry.note node).1.kindOfName? name = _ := kindOfName?_note name
    simpa [kindOfName?] using hnote

/-! ## What is never lost -/

/-- The later registry gives every answer that the earlier one gave. -/
structure KeptBy (earlier later : Registry) : Prop where
  idOfLabel : ∀ label id, earlier.idOfLabel? label = some id → later.idOfLabel? label = some id
  kindOfName : ∀ name kind,
    earlier.kindOfName? name = some kind → later.kindOfName? name = some kind

theorem KeptBy.refl (registry : Registry) : registry.KeptBy registry :=
  ⟨fun _ _ h => h, fun _ _ h => h⟩

theorem KeptBy.trans {first second third : Registry} (h : first.KeptBy second)
    (h' : second.KeptBy third) : first.KeptBy third :=
  ⟨fun label id hid => h'.idOfLabel label id (h.idOfLabel label id hid),
    fun name kind hkind => h'.kindOfName name kind (h.kindOfName name kind hkind)⟩

/-- A visit takes no answer back: an id is only given to a label that has none. -/
theorem keptBy_visitor (registry : Registry) (parentId : UInt8) (node : Node) :
    registry.KeptBy (visitor parentId node registry).state := by
  refine ⟨fun label id hid => ?_, fun name kind hkind => ?_⟩
  · have hsame : ∀ later : Registry, later.labels = registry.labels →
        later.idOfLabel? label = some id := by
      intro later hlabels
      rw [idOfLabel?, hlabels]
      exact hid
    by_cases hhalt : (visitor parentId node registry).halt = none
    · rw [visitor_state hhalt]
      cases hblank : node.isBlank with
      | true => exact hsame _ rfl
      | false =>
        obtain ⟨-, hfree⟩ := note_eq_none_iff.1 ((visitor_halt_iff.1 hhalt).2 hblank)
        have hne : label ≠ node.label := by
          rintro rfl
          obtain ⟨use, huse, -⟩ := Option.map_eq_some_iff.1 hid
          exact hfree (List.mem_map_of_mem (mem_of_lookup huse))
        have hother : (label == node.label) = false := by simpa using hne
        simpa [idOfLabel?, List.lookup_cons, hother] using hid
    · rw [visitor_state_of_halt hhalt]
      cases node.isBlank with
      | true => exact hsame _ rfl
      | false => exact hsame _ labels_note
  · rw [kindOfName?_visitor, hkind]
    rfl

end Registry

/-! ## What a registry answers for -/

/-- The visits of a record that went through. -/
def granted (visits : List (Visit Registry CompileError)) :
    List (Visit Registry CompileError) :=
  visits.filter fun visit => visit.outcome.halt.isNone

/-- The number that a visit has given to its node. -/
def Visit.issued (visit : Visit Registry CompileError) : Nat := visit.outcome.value.id.toNat

/-- What is noted about the label of the node of a visit that went through. -/
def Visit.labelEntry (visit : Visit Registry CompileError) : String × LabelUse :=
  (visit.node.label, ⟨visit.outcome.value.id, visit.node.place.line⟩)

namespace Registry

/-- The registry is what the visits that went through have made of it; of the others only names may
be known. -/
structure Accounts (registry : Registry) (visits : List (Visit Registry CompileError)) : Prop where
  nextId_eq : registry.nextId = (granted visits).length + rootId
  nextId_le : registry.nextId ≤ maxNodeId.toNat + 1
  ids_eq : (granted visits).map Visit.issued = List.range' rootId (granted visits).length
  labels_eq : registry.labels =
    (((granted visits).filter fun visit => !visit.node.isBlank).map Visit.labelEntry).reverse
  names : ∀ visit ∈ granted visits, visit.node.isBlank = false →
    (registry.kindOfName? visit.node.name).isSome

theorem accounts_nil (policy : DuplicatePolicy) : Accounts { policy } [] where
  nextId_eq := rfl
  nextId_le := Nat.le_of_ble_eq_true rfl
  ids_eq := rfl
  labels_eq := rfl
  names := by simp [granted]

variable {registry : Registry} {visits : List (Visit Registry CompileError)}

theorem granted_concat_of_none {visit : Visit Registry CompileError}
    (h : visit.outcome.halt = none) : granted (visits ++ [visit]) = granted visits ++ [visit] := by
  simp [granted, h]

theorem granted_concat_of_halt {visit : Visit Registry CompileError}
    (h : visit.outcome.halt ≠ none) : granted (visits ++ [visit]) = granted visits := by
  have hsome : visit.outcome.halt.isNone = false := by
    rwa [Option.isNone_eq_false_iff, Option.isSome_iff_ne_none]
  simp [granted, hsome]

/-- A name that is known stays known. -/
theorem isSome_kindOfName?_visitor {name : String} (h : (registry.kindOfName? name).isSome)
    (parentId : UInt8) (node : Node) :
    ((visitor parentId node registry).state.kindOfName? name).isSome := by
  rw [kindOfName?_visitor, Option.isSome_or, h, Bool.true_or]

/-- A visit that gives up is not accounted for. -/
theorem Accounts.visit_of_halt (h : registry.Accounts visits) {parentId : UInt8} {node : Node}
    (hhalt : (visitor parentId node registry).halt ≠ none) :
    (visitor parentId node registry).state.Accounts
      (visits ++ [⟨parentId, node, visitor parentId node registry⟩]) := by
  have hstate : (visitor parentId node registry).state.nextId = registry.nextId ∧
      (visitor parentId node registry).state.labels = registry.labels := by
    rw [visitor_state_of_halt hhalt]
    cases node.isBlank with
    | true => exact ⟨rfl, rfl⟩
    | false => exact ⟨nextId_note, labels_note⟩
  refine ⟨?_, ?_, ?_, ?_, fun visit hvisit hblank => ?_⟩
  · rw [granted_concat_of_halt hhalt, hstate.1]
    exact h.nextId_eq
  · rw [hstate.1]
    exact h.nextId_le
  · rw [granted_concat_of_halt hhalt]
    exact h.ids_eq
  · rw [granted_concat_of_halt hhalt, hstate.2]
    exact h.labels_eq
  · rw [granted_concat_of_halt hhalt] at hvisit
    exact isSome_kindOfName?_visitor (h.names visit hvisit hblank) parentId node

/-- A visit that goes through gives out the next id. -/
theorem Accounts.visit_of_none (h : registry.Accounts visits) {parentId : UInt8} {node : Node}
    (hhalt : (visitor parentId node registry).halt = none) :
    (visitor parentId node registry).state.Accounts
      (visits ++ [⟨parentId, node, visitor parentId node registry⟩]) := by
  have hle := (visitor_halt_iff.1 hhalt).1
  have hnext : (visitor parentId node registry).state.nextId = registry.nextId + 1 := by
    rw [visitor_state hhalt]
  have hid := id_visitor hhalt
  have hissued : (visitor parentId node registry).value.id.toNat = registry.nextId := by
    have hsize : maxNodeId.toNat < UInt8.size := by decide
    rw [hid]
    exact UInt8.toNat_ofNat_of_lt' (by omega)
  have hgranted : granted (visits ++ [⟨parentId, node, visitor parentId node registry⟩]) =
      granted visits ++ [⟨parentId, node, visitor parentId node registry⟩] :=
    granted_concat_of_none hhalt
  refine ⟨?_, ?_, ?_, ?_, ?_⟩
  · rw [hgranted, hnext, h.nextId_eq, List.length_append, List.length_singleton]
    omega
  · rw [hnext]
    omega
  · rw [hgranted, List.map_append, h.ids_eq, List.length_append, List.length_singleton,
      List.range'_concat, Nat.one_mul, Nat.add_comm rootId, ← h.nextId_eq, ← hissued]
    rfl
  · rw [hgranted, List.filter_append, List.map_append, List.reverse_append, ← h.labels_eq,
      visitor_state hhalt]
    cases hblank : node.isBlank with
    | true => simp [hblank]
    | false => simp [hblank, Visit.labelEntry, hid]
  · rw [hgranted, List.forall_mem_append]
    refine ⟨fun visit hvisit hblank => ?_, ?_⟩
    · exact isSome_kindOfName?_visitor (h.names visit hvisit hblank) parentId node
    · intro visit hvisit hblank
      obtain rfl := List.mem_singleton.1 hvisit
      rw [kindOfName?_visitor, if_pos ⟨hblank, rfl⟩, Option.isSome_or, Option.isSome_some,
        Bool.or_true]

theorem keptBy_take {policy : DuplicatePolicy} (h : visitor.Traces { policy } visits)
    (point more : Nat) :
    (stateAfter ({ policy } : Registry) (visits.take point)).KeptBy
      (stateAfter { policy } (visits.take (point + more))) := by
  let good : List (Visit Registry CompileError) → Prop := fun visits => ∀ point,
    (stateAfter ({ policy } : Registry) (visits.take point)).KeptBy (stateAfter { policy } visits)
  suffices hgood : good (visits.take (point + more)) by
    have hkept := hgood point
    rwa [List.take_take, Nat.min_eq_left (Nat.le_add_right point more)] at hkept
  refine h.forall_take (fun point => ?_) (fun visits parentId node hvisits point => ?_)
    (point + more)
  · rw [List.take_nil]
    exact .refl _
  · by_cases hpoint : point ≤ visits.length
    · rw [List.take_append_of_le_length hpoint, stateAfter_concat]
      exact (hvisits point).trans (keptBy_visitor _ parentId node)
    · rw [List.take_of_length_le (by rw [List.length_append, List.length_singleton]; omega)]
      exact .refl _

theorem accounts_take {policy : DuplicatePolicy} (h : visitor.Traces { policy } visits)
    (point : Nat) :
    (stateAfter ({ policy } : Registry) (visits.take point)).Accounts (visits.take point) := by
  let good : List (Visit Registry CompileError) → Prop := fun visits =>
    (stateAfter { policy } visits).Accounts visits
  suffices hgood : good (visits.take point) from hgood
  refine h.forall_take ?_ (fun visits parentId node hvisits => ?_) point
  · exact accounts_nil policy
  · show Accounts (stateAfter _ (_ ++ [_])) _
    rw [stateAfter_concat]
    by_cases hhalt : (visitor parentId node (stateAfter { policy } visits)).halt = none
    · exact hvisits.visit_of_none hhalt
    · exact hvisits.visit_of_halt hhalt

/-! ## Runs -/

/-- What is said of a registry after some visits, the last of which may have given up. -/
structure Sound (registry : Registry) (visits : List (Visit Registry CompileError)) : Prop where
  one_le_nextId : 1 ≤ registry.nextId
  nextId_le : registry.nextId ≤ 255
  nodeCount_le : registry.nodeCount ≤ 254
  nodeCount_eq : registry.nodeCount = (granted visits).length
  ids_eq : (granted visits).map Visit.issued = List.range' 1 registry.nodeCount
  label_inj : ∀ label label' id, registry.idOfLabel? label = some id →
    registry.idOfLabel? label' = some id → label = label'
  id_mem : ∀ label id, registry.idOfLabel? label = some id →
    1 ≤ id.toNat ∧ id.toNat ≤ registry.nodeCount
  name_known : ∀ label id, registry.idOfLabel? label = some id →
    ∃ visit ∈ granted visits, visit.node.label = label ∧ visit.outcome.value.id = id ∧
      ∃ kind, registry.kindOfName? visit.node.name = some kind

/-- A label that is known is that of a node that has been given the id. -/
theorem Accounts.exists_visit (h : registry.Accounts visits) {label : String} {id : UInt8}
    (hid : registry.idOfLabel? label = some id) :
    ∃ visit ∈ granted visits, visit.node.isBlank = false ∧ visit.node.label = label ∧
      visit.outcome.value.id = id := by
  obtain ⟨use, huse, rfl⟩ := Option.map_eq_some_iff.1 hid
  have hmem := mem_of_lookup huse
  rw [h.labels_eq, List.mem_reverse, List.mem_map] at hmem
  obtain ⟨visit, hvisit, hentry⟩ := hmem
  obtain ⟨hgranted, hblank⟩ := List.mem_filter.1 hvisit
  cases hentry
  exact ⟨visit, hgranted, by simpa using hblank, rfl, rfl⟩

theorem Accounts.sound (h : registry.Accounts visits) : registry.Sound visits := by
  have hmax : maxNodeId.toNat = 254 := rfl
  have hroot : rootId = 1 := rfl
  have hnext := h.nextId_eq
  have hle := h.nextId_le
  have hcount : registry.nodeCount = (granted visits).length := by
    unfold nodeCount
    omega
  have hids : (granted visits).map Visit.issued = List.range' 1 registry.nodeCount := by
    rw [hcount]
    exact h.ids_eq
  refine ⟨by omega, by omega, by omega, hcount, hids, ?_, ?_, ?_⟩
  · -- Two visits that have given out the same id are one visit.
    intro label label' id hlabel hlabel'
    obtain ⟨visit, hvisit, -, rfl, hid⟩ := h.exists_visit hlabel
    obtain ⟨visit', hvisit', -, rfl, hid'⟩ := h.exists_visit hlabel'
    have hnodup : ((granted visits).map Visit.issued).Nodup := by
      rw [hids]
      exact List.nodup_range'
    have hsame : visit.issued = visit'.issued := by
      unfold Visit.issued
      rw [hid, hid']
    rw [List.inj_on_of_nodup_map hnodup hvisit hvisit' hsame]
  · intro label id hlabel
    obtain ⟨visit, hvisit, -, -, rfl⟩ := h.exists_visit hlabel
    have hmem := List.mem_map_of_mem (f := Visit.issued) hvisit
    rw [hids, List.mem_range'_1] at hmem
    unfold Visit.issued at hmem
    omega
  · intro label id hlabel
    obtain ⟨visit, hvisit, hblank, hnode, hid⟩ := h.exists_visit hlabel
    refine ⟨visit, hvisit, hnode, hid, ?_⟩
    exact Option.isSome_iff_exists.1 (h.names visit hvisit hblank)

/-- The registry after it has numbered trees one after the other, whether or not the walks went
through. -/
def numberTrees (policy : DuplicatePolicy) (roots : List Node) : Registry :=
  roots.foldl (fun registry root => (visitor.walk root registry).state) { policy }

/-- The visits of all these walks. -/
def visitsOf (policy : DuplicatePolicy) (roots : List Node) : List (Visit Registry CompileError) :=
  (roots.foldl (fun recorded root => (visitor.recorded.walk root recorded).state)
    (({ policy } : Registry), [])).2

theorem keptBy_numberTrees (policy : DuplicatePolicy) (roots next : List Node) :
    (numberTrees policy roots).KeptBy (numberTrees policy (roots ++ next)) := by
  induction next using List.reverseRecOn with
  | nil =>
    rw [List.append_nil]
    exact .refl _
  | append_singleton next root ih =>
    have hwalk : numberTrees policy (roots ++ (next ++ [root])) =
        (visitor.walk root (numberTrees policy (roots ++ next))).state := by
      rw [numberTrees, ← List.append_assoc, List.foldl_append]
      rfl
    rw [hwalk]
    have hvisit : ∀ parentId node later, (numberTrees policy roots).KeptBy later →
        (numberTrees policy roots).KeptBy (visitor parentId node later).state :=
      fun parentId node later hlater => hlater.trans (keptBy_visitor later parentId node)
    exact Visitor.walk_keeps hvisit root ih

theorem traces_visitsOf (policy : DuplicatePolicy) (roots : List Node) :
    visitor.Traces { policy } (visitsOf policy roots) ∧
      stateAfter { policy } (visitsOf policy roots) = numberTrees policy roots := by
  -- The record goes on from walk to walk, and its state is that of the walks.
  have hrun : ∀ (recorded : Registry × List (Visit Registry CompileError)),
      visitor.Traces { policy } recorded.2 ∧ recorded.1 = stateAfter { policy } recorded.2 →
      ∀ final, final = roots.foldl (fun recorded root =>
          (visitor.recorded.walk root recorded).state) recorded →
        visitor.Traces { policy } final.2 ∧ final.1 = stateAfter { policy } final.2 ∧
          final.1 = roots.foldl (fun registry root => (visitor.walk root registry).state)
            recorded.1 := by
    induction roots with
    | nil =>
      rintro recorded ⟨htraces, hstate⟩ _ rfl
      exact ⟨htraces, hstate, rfl⟩
    | cons root roots ih =>
      intro recorded h final hfinal
      have hwalk := Visitor.traces_walk root h
      have hplain : (visitor.recorded.walk root recorded).state.1 = _ :=
        (Visitor.recorded_walk root recorded.1 recorded.2).2.1
      obtain ⟨htraces, hstate, hfold⟩ := ih _ hwalk final hfinal
      refine ⟨htraces, hstate, ?_⟩
      rw [hfold, List.foldl_cons, ← hplain]
  obtain ⟨htraces, hstate, hfold⟩ := hrun ({ policy }, []) ⟨.nil, rfl⟩ _ rfl
  exact ⟨htraces, hstate.symm.trans hfold⟩

/-- However often one registry is used, and however its walks end: at every point of the run it
answers for the visits that went through by then and for no others, with ids that go on from walk to
walk, and what it answers it answers at every later point. -/
theorem sound_of_run (policy : DuplicatePolicy) (roots next : List Node) (point more : Nat) :
    visitor.Traces { policy } (visitsOf policy roots) ∧
    stateAfter { policy } (visitsOf policy roots) = numberTrees policy roots ∧
    (stateAfter { policy } ((visitsOf policy roots).take point)).Sound
      ((visitsOf policy roots).take point) ∧
    (stateAfter { policy } ((visitsOf policy roots).take point)).KeptBy
      (stateAfter { policy } ((visitsOf policy roots).take (point + more))) ∧
    (numberTrees policy roots).KeptBy (numberTrees policy (roots ++ next)) := by
  obtain ⟨htraces, hstate⟩ := traces_visitsOf policy roots
  exact ⟨htraces, hstate, (accounts_take htraces point).sound, keptBy_take htraces point more,
    keptBy_numberTrees policy roots next⟩

end Registry

end SoftMenu
