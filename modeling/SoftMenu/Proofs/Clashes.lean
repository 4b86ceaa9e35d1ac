import SoftMenu.Proofs.DenseIds
import SoftMenu.Proofs.Exploration
import SoftMenu.Proofs.Views

/-!
# Where numbering stops

A node is refused because of its name, because of its label, or because there is no id left, in this
order. `Node.refusal?` says so in terms of the nodes before it, while a registry only knows the
first user of each name and the line of each label; `Registry.Recalls.visitor_halt` is the link
between the two.

Numbering stops at the first node that is refused. The nodes before it have got their numbers and
all else is as it was: how far numbering has come is `Node.NumberedUpTo`, which is the same for runs
that go through and for those that do not.
-/

namespace SoftMenu

/-! ## Walks that keep all slots -/

section Kept

variable {σ ε : Type} {visitor : Visitor σ ε}

theorem Visitor.Traces.outcome_eq {first : σ} {visits : List (Visit σ ε)}
    (h : visitor.Traces first visits) {j : Nat} {visit : Visit σ ε}
    (hvisit : visits[j]? = some visit) :
    visit.outcome = visitor visit.parentId visit.node (stateAfter first (visits.take j)) := by
  induction h with
  | nil => cases hvisit
  | @concat visits h parentId node ih =>
    rcases Nat.lt_trichotomy j visits.length with hlt | rfl | hlt
    · rw [List.getElem?_append_left hlt] at hvisit
      rw [List.take_append_of_le_length hlt.le]
      exact ih hvisit
    · rw [List.getElem?_concat_length] at hvisit
      obtain rfl := Option.some.inj hvisit
      rw [List.take_left]
    · have hlength := (List.getElem?_eq_some_iff.1 hvisit).1
      rw [List.length_append, List.length_singleton] at hlength
      omega

/-- The visits of a walk that never deepens a tree, from the root on. -/
theorem Visitor.exists_visits_of_walk
    (hdepth : ∀ parentId node state, (visitor parentId node state).value.depth ≤ node.depth)
    (root : Node) (state : σ) :
    ∃ visits, visits.head? = some ⟨nullId, root, visitor nullId root state⟩ ∧
      visitor.Traces state visits ∧ (visitor.walk root state).state = stateAfter state visits ∧
      Ended visits (visitor.walk root state).halt ∧
      Explored (visitor.walk root state).value visits ∧
      ((visitor.walk root state).halt = none →
        visits.length = (visitor.walk root state).value.flatten.length) := by
  obtain ⟨levels, hlevels, hle⟩ := (Visitor.walks_walk hdepth root state).exists_levels
  obtain ⟨hvalue, hstate, hhalt⟩ := visitor.recorded_walkLevels levels root state []
  have htraces : visitor.Traces state
        (visitor.recorded.walkLevels levels root (state, [])).state.2 ∧
      (visitor.recorded.walkLevels levels root (state, [])).state.1 =
        stateAfter state (visitor.recorded.walkLevels levels root (state, [])).state.2 :=
    Visitor.traces_walkLevels levels root ⟨.nil, rfl⟩
  rw [hlevels] at hvalue hstate hhalt
  rw [← hvalue] at hle
  obtain ⟨below, hbelow, hended, hexplored, hcomplete⟩ := explored_walkLevels hle
  rw [hbelow, hstate] at htraces
  rw [hhalt] at hended hcomplete
  rw [hvalue] at hexplored hcomplete
  refine ⟨_, rfl, htraces.1, htraces.2, hended, hexplored, fun hnone => ?_⟩
  rw [Node.flatten_eq, List.length_cons, List.length_cons, hcomplete hnone]

/-- The id of the group that the node at a path is a slot of, or the null id at the root. -/
def Node.groupId (root : Node) (path : List Nat) : UInt8 :=
  if path = [] then nullId else ((root.at? path.dropLast).map Node.id).getD nullId

namespace Explored

variable {final : Node} {visits : List (Visit σ ε)} {own : Visit σ ε} {path : List Nat}
  {node : Node}

theorem at?_of_mem_tale {visit : Visit σ ε} (h : ((path, node), visit) ∈ final.tale visits) :
    final.at? path = some node :=
  Node.mem_spots_iff.1 (List.of_mem_zip h).1

theorem eq_own_of_nil (hfirst : visits.head? = some own) {visit : Visit σ ε}
    (h : (([], node), visit) ∈ final.tale visits) : visit = own := by
  cases visits with
  | nil => cases hfirst
  | cons first below =>
    obtain rfl := Option.some.inj hfirst
    exact (Assembled.nil_mem_tale_iff.1 h).2

/-- A visit is told the id of the group that its node is a slot of. -/
theorem parentId_eq (h : Explored final visits) (hfirst : visits.head? = some own)
    (hroot : own.parentId = nullId) {visit : Visit σ ε}
    (hmem : ((path, node), visit) ∈ final.tale visits) :
    visit.parentId = final.groupId path := by
  cases path using List.reverseRecOn with
  | nil =>
    rw [eq_own_of_nil hfirst hmem, hroot]
    rfl
  | append_singleton path k =>
    obtain ⟨group, above, habove, htold, -⟩ := h.met path k node visit hmem
    rw [Node.groupId, if_neg (by simp), List.dropLast_concat, at?_of_mem_tale habove, htold]
    rfl

variable (hkept : ∀ visit ∈ visits, visit.outcome.value.slots = visit.node.slots)

include hkept

/-- If no visit changes the slots of its node, the nodes are met as they were declared. -/
theorem node_eq (h : Explored final visits) (hfirst : visits.head? = some own)
    {visit : Visit σ ε} (hmem : ((path, node), visit) ∈ final.tale visits) :
    own.node.at? path = some visit.node := by
  induction path using List.reverseRecOn generalizing node visit with
  | nil =>
    rw [eq_own_of_nil hfirst hmem]
    rfl
  | append_singleton path k ih =>
    obtain ⟨group, above, habove, -, hslot⟩ := h.met path k node visit hmem
    rw [hkept above (List.of_mem_zip habove).2] at hslot
    rw [Node.at?_concat (ih habove), hslot]

/-- If no visit changes the slots of its node, what is not visited is as it was declared. -/
theorem at?_of_length_le (h : Explored final visits) (hfirst : visits.head? = some own) {j : Nat}
    (hspot : final.spots[j]? = some (path, node)) (hj : visits.length ≤ j) :
    own.node.at? path = some node := by
  have hnot : ∀ other visit, ((path, other), visit) ∉ final.tale visits := by
    intro other visit hmem
    obtain ⟨i, hi⟩ := List.getElem?_of_mem hmem
    obtain ⟨hspot', hvisit⟩ := List.getElem?_zip_eq_some.1 hi
    -- No path occurs twice, so that this would be visit `j`.
    have hsame : i = j := by
      refine (List.getElem?_inj ?_ final.nodup_paths_spots).1 ?_
      · rw [List.length_map]
        exact (List.getElem?_eq_some_iff.1 hspot').1
      · rw [List.getElem?_map, List.getElem?_map, hspot, hspot']
        rfl
    have hlt := (List.getElem?_eq_some_iff.1 hvisit).1
    omega
  have hat := Node.mem_spots_iff.1 (List.mem_of_getElem? hspot)
  obtain ⟨above, rest, group, visit, rfl, hmem, hleft, -⟩ := h.left path node hat (hnot node)
  cases rest with
  | nil =>
    rw [List.append_nil] at hnot
    exact absurd hmem (hnot group visit)
  | cons k rest =>
    rw [Node.at?_cons, hkept visit (List.of_mem_zip hmem).2] at hleft
    rw [Node.at?_append, h.node_eq hkept hfirst hmem]
    exact hleft

end Explored

/-- A walk that keeps the slots of every node keeps all paths. -/
theorem Visitor.paths_walk
    (hkept : ∀ parentId node state, (visitor parentId node state).value.slots = node.slots)
    (root : Node) (state : σ) :
    (visitor.walk root state).value.spots.map Prod.fst = root.spots.map Prod.fst := by
  have hbelow : root.spotsBelow.map Prod.fst =
      (visitor.walk root state).value.spotsBelow.map Prod.fst := by
    refine Visitor.relates_walk
      (R := fun first second => first.spotsBelow.map Prod.fst = second.spotsBelow.map Prod.fst)
      (fun _ => rfl) (fun _ _ _ => Eq.trans) (fun first second _ hslots => ?_)
      (fun parentId node state => ?_) root state
    · have hpaths : first.slots.map (fun slot => slot.spotsBelow.map Prod.fst) =
          second.slots.map fun slot => slot.spotsBelow.map Prod.fst := by
        rw [← List.forall₂_eq_eq_eq, List.forall₂_map_left_iff, List.forall₂_map_right_iff]
        exact hslots
      rw [Node.paths_spotsBelow, Node.paths_spotsBelow, hpaths]
    · rw [Node.paths_spotsBelow, Node.paths_spotsBelow, hkept]
  exact congrArg ([] :: ·) hbelow.symm

end Kept

/-! ## How far numbering has come -/

/-- The first nodes of a tree in hybrid order, so many of them, have got their numbers: the id of
their position, the id of their group and, if they are blank, the label that goes with the id. All
other nodes are as they were declared. -/
structure Node.NumberedUpTo (count : Nat) (declared final : Node) : Prop where
  paths_eq : final.spots.map Prod.fst = declared.spots.map Prod.fst
  stamped : ∀ j path node left, declared.spots[j]? = some (path, node) →
    final.spots[j]? = some (path, left) → j < count →
    left.face = (node.stamp (.ofNat (j + 1)) (final.groupId path)).face
  untouched : ∀ j path node left, declared.spots[j]? = some (path, node) →
    final.spots[j]? = some (path, left) → count ≤ j → left = node

theorem granted_eq_self {visits : List (Visit Registry CompileError)}
    (h : ∀ visit ∈ visits, visit.outcome.halt = none) : granted visits = visits := by
  refine List.filter_eq_self.2 fun visit hvisit => ?_
  rw [h visit hvisit]
  rfl

/-- All visits went through, except perhaps the last one. -/
theorem Ended.exists_granted {visits : List (Visit Registry CompileError)}
    {halt : Option CompileError} (h : Ended visits halt) :
    ∃ earlier last, visits = earlier ++ last ∧ granted visits = earlier ∧ last.length ≤ 1 ∧
      (∀ visit ∈ earlier, visit.outcome.halt = none) ∧
      ∀ visit ∈ last, visit.outcome.halt ≠ none := by
  cases halt with
  | none =>
    exact ⟨visits, [], (List.append_nil visits).symm, granted_eq_self h, Nat.zero_le _, h, by simp⟩
  | some reason =>
    obtain ⟨earlier, last, rfl, hearlier, hlast⟩ := h
    refine ⟨earlier, [last], rfl, ?_, le_rfl, hearlier, by simp [hlast]⟩
    rw [Registry.granted_concat_of_halt (by simp [hlast]), granted_eq_self hearlier]

theorem slots_visitor (parentId : UInt8) (node : Node) (registry : Registry) :
    (Registry.visitor parentId node registry).value.slots = node.slots := by
  rw [Node.slots, rows_visitor]
  rfl

section Progress

variable {policy : DuplicatePolicy} {visits : List (Visit Registry CompileError)}

theorem slots_of_mem_visits (h : Registry.visitor.Traces { policy } visits) :
    ∀ visit ∈ visits, visit.outcome.value.slots = visit.node.slots := by
  intro visit hvisit
  obtain ⟨j, hj⟩ := List.getElem?_of_mem hvisit
  rw [h.outcome_eq hj, slots_visitor]

/-- After `j` visits that went through the next number is `j + 1`. -/
theorem nextId_take (h : Registry.visitor.Traces { policy } visits) {j : Nat}
    (hj : j ≤ visits.length) (hhalt : ∀ visit ∈ visits.take j, visit.outcome.halt = none) :
    (stateAfter ({ policy } : Registry) (visits.take j)).nextId = j + 1 := by
  rw [(Registry.accounts_take h j).nextId_eq, granted_eq_self hhalt, List.length_take,
    Nat.min_eq_left hj]
  rfl

/-- What a visit has left, in terms of what was declared at the place that it came to. -/
theorem Explored.outcome_eq {root final node left : Node} (h : Explored final visits)
    (htraces : Registry.visitor.Traces { policy } visits)
    (hfirst : visits.head? = some ⟨nullId, root, Registry.visitor nullId root { policy }⟩)
    {j : Nat} {path : List Nat} {visit : Visit Registry CompileError}
    (hnode : root.spots[j]? = some (path, node)) (hleft : final.spots[j]? = some (path, left))
    (hvisit : visits[j]? = some visit) :
    left.face = visit.outcome.value.face ∧ visit.outcome =
      Registry.visitor (final.groupId path) node (stateAfter { policy } (visits.take j)) := by
  have hmem : ((path, left), visit) ∈ final.tale visits :=
    List.mem_of_getElem? (List.getElem?_zip_eq_some.2 ⟨hleft, hvisit⟩)
  have hmet : visit.node = node := Option.some.inj
    ((h.node_eq (slots_of_mem_visits htraces) hfirst hmem).symm.trans
      (Node.mem_spots_iff.1 (List.mem_of_getElem? hnode)))
  refine ⟨h.face_eq path left visit hmem, ?_⟩
  rw [← hmet, ← h.parentId_eq hfirst rfl hmem]
  exact htraces.outcome_eq hvisit

/-- If a node has come last and looks as declared, it is as declared: its slots come later. -/
theorem Explored.eq_of_last {root final node left : Node} (h : Explored final visits)
    (htraces : Registry.visitor.Traces { policy } visits)
    (hfirst : visits.head? = some ⟨nullId, root, Registry.visitor nullId root { policy }⟩)
    {j : Nat} {path : List Nat} (hj : visits.length ≤ j + 1)
    (hnode : root.spots[j]? = some (path, node)) (hleft : final.spots[j]? = some (path, left))
    (hface : left.face = node.face) : left = node := by
  have hat := Node.mem_spots_iff.1 (List.mem_of_getElem? hnode)
  have hat' := Node.mem_spots_iff.1 (List.mem_of_getElem? hleft)
  refine Node.eq_of_face hface
    (List.ext_getElem (Node.length_slots_of_face hface) fun k hk hk' => ?_)
  have hslot : final.at? (path ++ [k]) = some left.slots[k] := by
    rw [Node.at?_concat hat', List.getElem?_eq_getElem hk]
  obtain ⟨i, hi⟩ := List.getElem?_of_mem (Node.mem_spots_iff.2 hslot)
  have hlater := Node.index_lt_of_slot hleft hi
  have hdeclared := h.at?_of_length_le (slots_of_mem_visits htraces) hfirst hi (by omega)
  rw [Node.at?_concat hat, List.getElem?_eq_getElem hk'] at hdeclared
  exact (Option.some.inj hdeclared).symm

/-- As many nodes have got their numbers as there are ids handed out, however the run ends. -/
theorem numberedUpTo_walk (policy : DuplicatePolicy) (root : Node) :
    root.NumberedUpTo (Registry.visitor.walk root { policy }).state.nodeCount
      (Registry.visitor.walk root { policy }).value := by
  obtain ⟨visits, hfirst, htraces, hstate, hended, hexplored, -⟩ :=
    Visitor.exists_visits_of_walk flat_registryVisitor.depth_visit_le root ({ policy } : Registry)
  obtain ⟨earlier, last, hvisits, hgranted, hlast, hearlier, hhalted⟩ := hended.exists_granted
  have hlength : visits.length = earlier.length + last.length := by
    rw [hvisits, List.length_append]
  have hcount : (Registry.visitor.walk root { policy }).state.nodeCount = earlier.length := by
    have haccounts := (Registry.accounts_take htraces visits.length).nextId_eq
    rw [List.take_length, ← hstate, hgranted] at haccounts
    exact Nat.sub_eq_of_eq_add haccounts
  rw [hcount]
  refine ⟨Visitor.paths_walk slots_visitor root _, fun j path node left hnode hleft hj => ?_,
    fun j path node left hnode hleft hj => ?_⟩
  · have hvisit : visits[j]? = some earlier[j] := by
      rw [hvisits, List.getElem?_append_left hj, List.getElem?_eq_getElem hj]
    obtain ⟨hface, houtcome⟩ := hexplored.outcome_eq htraces hfirst hnode hleft hvisit
    have hhalt := hearlier earlier[j] (List.getElem_mem hj)
    have hnext : (stateAfter ({ policy } : Registry) (visits.take j)).nextId = j + 1 := by
      refine nextId_take htraces (by omega) fun visit hmem => hearlier visit ?_
      rw [hvisits, List.take_append_of_le_length hj.le] at hmem
      exact List.mem_of_mem_take hmem
    rw [houtcome] at hface hhalt
    rw [hface, Registry.visitor_value hhalt, hnext]
  · by_cases hleft' : visits.length ≤ j
    · have hat := hexplored.at?_of_length_le (slots_of_mem_visits htraces) hfirst hleft hleft'
      rw [Node.mem_spots_iff.1 (List.mem_of_getElem? hnode)] at hat
      exact (Option.some.inj hat).symm
    · -- The visit of the node gave up.
      obtain ⟨visit, hvisit⟩ : ∃ visit, visits[j]? = some visit :=
        ⟨_, List.getElem?_eq_getElem (Nat.lt_of_not_le hleft')⟩
      obtain ⟨hface, houtcome⟩ := hexplored.outcome_eq htraces hfirst hnode hleft hvisit
      have hhalt : visit.outcome.halt ≠ none := by
        rw [hvisits, List.getElem?_append_right hj] at hvisit
        exact hhalted visit (List.mem_of_getElem? hvisit)
      rw [houtcome] at hface hhalt
      rw [Registry.visitor_value_of_halt hhalt] at hface
      exact hexplored.eq_of_last htraces hfirst (by omega) hnode hleft hface

end Progress

/-! ## Why a node is refused -/

namespace Node

variable (policy : DuplicatePolicy) (earlier : List Node) (node : Node)

/-- The policy does not let a node have the name of the first node with that name. -/
def nameClash? : Option CompileError :=
  (earlier.find? fun other => other.name = node.name).bind fun first =>
    if policy.allows first.kind node.kind then none
    else some (.duplicateName node.name node.kind first.kind node.place)

/-- A node has the label of an earlier one that is not blank. -/
def labelClash? : Option CompileError :=
  (earlier.find? fun other => other.isBlank = false ∧ other.label = node.label).map fun first =>
    .duplicateLabel node.label first.place.line node.place

/-- A node comes right after the last one that there is an id for. -/
def overflow? : Option CompileError :=
  if earlier.length = maxNodeId.toNat then some (.idOverflow maxNodeId node.label node.place)
  else none

/-- Why a node is refused, given the nodes before it. A blank is only refused for want of an id. -/
def refusal? : Option CompileError :=
  (if node.isBlank then none
    else (node.nameClash? policy earlier).or (node.labelClash? earlier)).or
    (node.overflow? earlier)

end Node

namespace Registry

variable {policy : DuplicatePolicy} {seen : List Node} {registry : Registry} {node : Node}
  {parentId : UInt8}

/-- The registry knows the nodes of a list and, for each label, where it was declared. -/
structure Recalls (registry : Registry) (policy : DuplicatePolicy) (seen : List Node) : Prop
    extends registry.Knows policy seen where
  line_eq : ∀ label, (registry.labels.lookup label).map LabelUse.line =
    ((active Node.isBlank seen).find? fun node => node.label = label).map fun node =>
      node.place.line

theorem recalls_nil (policy : DuplicatePolicy) : Recalls { policy } policy [] :=
  ⟨knows_nil policy, fun _ => rfl⟩

theorem number_halt : (registry.number parentId node).halt =
    if maxNodeId.toNat < registry.nextId then some (.idOverflow maxNodeId node.label node.place)
    else none := by
  unfold number
  split_ifs <;> rfl

namespace Recalls

theorem step (h : registry.Recalls policy seen)
    (hhalt : (visitor parentId node registry).halt = none) :
    (visitor parentId node registry).state.Recalls policy (seen ++ [node]) := by
  refine ⟨h.toKnows.step hhalt, fun label => ?_⟩
  rw [visitor_state hhalt, active_append, List.find?_append, Option.map_or, ← h.line_eq label]
  cases hblank : node.isBlank with
  | true => simp [active, hblank]
  | false =>
    have hactive : active Node.isBlank [node] = [node] := by simp [active, hblank]
    rw [hactive]
    by_cases hlabel : label = node.label
    · -- The label is new, or the node would have been refused.
      have hnew := (note_eq_none_iff.1 ((visitor_halt_iff.1 hhalt).2 hblank)).2
      have hnone : registry.labels.lookup label = none := by
        refine Option.eq_none_iff_forall_ne_some.2 fun use huse => hnew ?_
        rw [← hlabel]
        exact List.mem_map_of_mem (f := Prod.fst) (mem_of_lookup huse)
      rw [hnone, hlabel]
      simp
    · have hother : (label == node.label) = false := by simpa using hlabel
      simp [List.lookup_cons, hother, Ne.symm hlabel]

theorem sweep (h : registry.Recalls policy seen) {nodes : List Node}
    (hhalt : (sweep (visitor nullId) nodes registry).halt = none) :
    (sweep (visitor nullId) nodes registry).state.Recalls policy (seen ++ nodes) := by
  induction nodes generalizing registry seen with
  | nil =>
    rw [List.append_nil]
    exact h
  | cons node nodes ih =>
    cases hnode : (visitor nullId node registry).halt with
    | none =>
      rw [sweep_cons_of_none hnode] at hhalt ⊢
      rw [List.append_cons]
      exact ih (h.step hnode) hhalt
    | some error =>
      rw [sweep_cons_of_some hnode] at hhalt
      exact absurd (hnode.symm.trans hhalt) (by simp)

theorem number_halt_eq (h : registry.Recalls policy seen) :
    (registry.number parentId node).halt = node.overflow? seen := by
  have hnext : registry.nextId = seen.length + 1 := h.nextId_eq
  have hle := h.registrable.length_le
  rw [number_halt, Node.overflow?]
  exact if_congr (by omega) rfl rfl

/-- Blanks need not be left out when the user of a name is looked for. -/
theorem kindOfName?_eq (h : registry.Recalls policy seen) (hblank : node.isBlank = false) :
    registry.kindOfName? node.name =
      (seen.find? fun other => other.name = node.name).map Node.kind := by
  rw [h.kindOfName_eq, active, List.find?_filter]
  refine congrArg (Option.map Node.kind) (congrArg (seen.find? ·) (funext fun other => ?_))
  by_cases hname : other.name = node.name
  · have hother : other.isBlank = false := by rwa [Node.isBlank, hname]
    simp [hname, hother]
  · simp [hname]

theorem labelClash?_eq (h : registry.Recalls policy seen) :
    registry.labelClash? node = node.labelClash? seen := by
  have hfind : (active Node.isBlank seen).find? (fun other => other.label = node.label) =
      seen.find? fun other => other.isBlank = false ∧ other.label = node.label := by
    rw [active, List.find?_filter]
    exact congrArg (seen.find? ·) (funext fun other => by simp)
  have hclash := congrArg
    (Option.map fun line => CompileError.duplicateLabel node.label line node.place)
    (h.line_eq node.label)
  rw [hfind, Option.map_map, Option.map_map] at hclash
  exact hclash

/-- What is noted in the registry is enough to tell why a node is refused. -/
theorem visitor_halt (h : registry.Recalls policy seen) (parentId : UInt8) (node : Node) :
    (visitor parentId node registry).halt = node.refusal? policy seen := by
  unfold Node.refusal?
  cases hblank : node.isBlank with
  | true =>
    rw [visitor_of_blank hblank, h.number_halt_eq]
    rfl
  | false =>
    have hnote : (registry.note node).2 =
        (node.nameClash? policy seen).or (node.labelClash? seen) := by
      rw [note, h.kindOfName?_eq hblank, Node.nameClash?, h.policy_eq, h.labelClash?_eq]
      cases seen.find? fun other => other.name = node.name with
      | none => rfl
      | some first =>
        by_cases hallowed : policy.allows first.kind node.kind = true
        · simp [hallowed]
        · simp [hallowed]
    rw [← hnote]
    cases hclash : (registry.note node).2 with
    | none =>
      have hnumber : ((registry.note node).1.number parentId node).halt =
          (registry.number parentId node).halt := by
        rw [number_halt, number_halt, nextId_note]
      rw [visitor_of_none hblank hclash, hnumber, h.number_halt_eq]
      rfl
    | some error =>
      rw [visitor_of_some hblank hclash]
      rfl

end Recalls

/-- A visit that gives up gives out no number. -/
theorem nextId_visitor_of_halt (h : (visitor parentId node registry).halt ≠ none) :
    (visitor parentId node registry).state.nextId = registry.nextId := by
  rw [visitor_state_of_halt h]
  cases node.isBlank with
  | true => rfl
  | false => exact nextId_note

end Registry

/-! ## The first refusal -/

section Refused

variable {policy : DuplicatePolicy} {file : MenuFile}

/-- Instead of labels and names pair by pair, the labels may be compared all at once. -/
theorem registrable_iff {nodes : List Node} :
    Registrable policy nodes ↔ nodes.length ≤ 254 ∧
      ((active Node.isBlank nodes).map Node.label).Nodup ∧
      (active Node.isBlank nodes).Pairwise fun earlier later =>
        earlier.name = later.name → policy.allows earlier.kind later.kind := by
  rw [List.Nodup, List.pairwise_map, ← List.pairwise_and_iff]
  simp only [DuplicatePolicy.allows_iff]
  constructor
  · rintro ⟨hlength, hpairwise⟩
    exact ⟨hlength, hpairwise.imp fun h => ⟨h.label, h.name⟩⟩
  · rintro ⟨hlength, hpairwise⟩
    exact ⟨hlength, hpairwise.imp fun h => ⟨h.1, h.2⟩⟩

/-- Nodes that can be registered together are not refused, one after the other. -/
theorem refusal?_of_registrable {before : List Node} (h : Registrable policy before)
    {earlier later : List Node} {other : Node} (hsplit : before = earlier ++ other :: later) :
    other.refusal? policy earlier = none := by
  rw [hsplit, List.append_cons] at h
  have hother := h.of_append
  have hsweep : (sweep (Registry.visitor nullId) earlier { policy }).halt = none :=
    ((Registry.knows_nil policy).sweep_halt_iff earlier).2 hother.of_append
  have hrecalls :
      (sweep (Registry.visitor nullId) earlier { policy }).state.Recalls policy earlier :=
    (Registry.recalls_nil policy).sweep hsweep
  rw [← hrecalls.visitor_halt nullId other]
  exact hrecalls.toKnows.halt_iff.2 hother

theorem exists_refused {error : CompileError} (h : (assignIds policy file).halt = some error) :
    ∃ before node after, file.root.flatten = before ++ node :: after ∧
      node.refusal? policy before = some error ∧ Registrable policy before ∧
      (assignIds policy file).state.nodeCount = before.length := by
  rw [(alike_assignIds policy file).halt_eq] at h
  obtain ⟨before, node, after, hflatten, hbefore, hnode, hstate, -⟩ := exists_split_of_sweep h
  have hrecalls : (sweep (Registry.visitor nullId) before { policy }).state.Recalls policy before :=
    (Registry.recalls_nil policy).sweep hbefore
  refine ⟨before, node, after, hflatten, (hrecalls.visitor_halt nullId node).symm.trans hnode,
    hrecalls.registrable, ?_⟩
  rw [(alike_assignIds policy file).state_eq, hstate, Registry.nodeCount,
    Registry.nextId_visitor_of_halt (by simp [hnode]), hrecalls.nextId_eq, Nat.add_sub_cancel]

/-- Numbering goes through exactly if there are at most 254 nodes, the labels are distinct and every
two nodes with one name may share it. Otherwise it stops at the first node that is refused: the
nodes before it have got their numbers as in a run that goes through, and all else is as it was. -/
theorem assignIds_stops_at_first_refusal (policy : DuplicatePolicy) (file : MenuFile) :
    ((assignIds policy file).halt = none ↔ file.root.flatten.length ≤ 254 ∧
      ((active Node.isBlank file.root.flatten).map Node.label).Nodup ∧
      (active Node.isBlank file.root.flatten).Pairwise fun earlier later =>
        earlier.name = later.name → policy.allows earlier.kind later.kind) ∧
    ((assignIds policy file).halt = none → file.root.NumberedUpTo file.root.flatten.length
      (assignIds policy file).value.root) ∧
    (∀ error, (assignIds policy file).halt = some error →
      ∃ before node after, file.root.flatten = before ++ node :: after ∧
        node.refusal? policy before = some error ∧
        (∀ earlier other later, before = earlier ++ other :: later →
          other.refusal? policy earlier = none) ∧
        file.root.NumberedUpTo before.length (assignIds policy file).value.root) ∧
    (assignIds policy file).value.config = file.config := by
  have hnumbered : file.root.NumberedUpTo (assignIds policy file).state.nodeCount
      (assignIds policy file).value.root := numberedUpTo_walk policy file.root
  refine ⟨assignIds_halt_iff.trans registrable_iff, fun hnone => ?_, fun error herror => ?_, rfl⟩
  · rwa [nodeCount_assignIds hnone] at hnumbered
  · obtain ⟨before, node, after, hflatten, hrefusal, hbefore, hcount⟩ := exists_refused herror
    rw [hcount] at hnumbered
    exact ⟨before, node, after, hflatten, hrefusal,
      fun earlier other later hsplit => refusal?_of_registrable hbefore hsplit, hnumbered⟩

end Refused

/-- The last item of the second level has the name of the root and the label of an item of the first
level; the item before shares its name with that item. -/
def refusedMenu : MenuFile :=
  let info (name label : String) (line : Nat) : NodeInfo :=
    { name := ⟨name, none⟩, label, place := ⟨line, .empty line⟩ }
  let place : Place := ⟨9, .empty 9⟩
  let sub := Node.group (info "Sub" "mSub" 3)
    [⟨[.item (info "A" "mB" 5), .blank place, .item (info "Top" "mA" 6)], place⟩]
  ⟨{}, .group (info "Top" "mTop" 1)
    [⟨[.item (info "A" "mA" 2), sub], place⟩, ⟨[.item (info "C" "mC" 4)], place⟩]⟩

/-- The name is in the way first. All nodes before the last one have got their numbers. -/
theorem assignIds_stops_at_first_refusal_name :
    refusedMenu.root.flatten.length = 7 ∧
    (assignIds .sameKindLeaves refusedMenu).halt =
      some (.duplicateName "Top" .item .group ⟨6, .empty 6⟩) ∧
    ∃ before node after, refusedMenu.root.flatten = before ++ node :: after ∧
      node.refusal? .sameKindLeaves before =
        some (.duplicateName "Top" .item .group ⟨6, .empty 6⟩) ∧
      (∀ earlier other later, before = earlier ++ other :: later →
        other.refusal? .sameKindLeaves earlier = none) ∧
      refusedMenu.root.NumberedUpTo before.length
        (assignIds .sameKindLeaves refusedMenu).value.root := by
  have hhalt : (assignIds .sameKindLeaves refusedMenu).halt =
      some (.duplicateName "Top" .item .group ⟨6, .empty 6⟩) := by decide +kernel
  obtain ⟨-, -, hfailed, -⟩ := assignIds_stops_at_first_refusal .sameKindLeaves refusedMenu
  exact ⟨by decide +kernel, hhalt, hfailed _ hhalt⟩

end SoftMenu
