import SoftMenu.Menu.Walk
import SoftMenu.Proofs.Tree

/-!
# Walks as sweeps over lists

A walk goes through a tree in hybrid order, so it should come to the same end as a sweep over the
list of nodes in that order. `Visitor.Flat.alike_walk` says so, for the state, for the reason of
giving up and for what the walk has done to the nodes.

The visitor may add slots to the node that it visits if these are *idle*: leaves that a visit leaves
alone. It is told the id of the group of a node, which a sweep over a list does not know; hence what
it does may only show that id in parts of the node that the theorem does not look at. These parts
are settled by `Visitor.walk_post`.
-/

namespace SoftMenu

/-! ## Sweeps -/

section Sweep

variable {σ ε α β : Type} {pass : α → σ → Outcome σ ε α}

@[simp] theorem sweep_nil (state : σ) : sweep pass [] state = .done [] state := rfl

theorem sweep_cons_of_none {member : α} {state : σ} (h : (pass member state).halt = none)
    (members : List α) :
    sweep pass (member :: members) state =
      (sweep pass members (pass member state).state).map ((pass member state).value :: ·) := by
  rw [sweep, h]

theorem sweep_cons_of_some {member : α} {state : σ} {reason : ε}
    (h : (pass member state).halt = some reason) (members : List α) :
    sweep pass (member :: members) state = (pass member state).map (· :: members) := by
  rw [sweep, h]

theorem sweep_append_of_none {first : List α} {state : σ} (h : (sweep pass first state).halt = none)
    (second : List α) :
    sweep pass (first ++ second) state =
      (sweep pass second (sweep pass first state).state).map
        ((sweep pass first state).value ++ ·) := by
  induction first generalizing state with
  | nil => rfl
  | cons member first ih =>
    cases hm : (pass member state).halt with
    | none =>
      rw [sweep_cons_of_none hm] at h
      rw [List.cons_append, sweep_cons_of_none hm, sweep_cons_of_none hm, ih h]
      rfl
    | some reason =>
      rw [sweep_cons_of_some hm] at h
      exact absurd (hm.symm.trans h) (by simp)

theorem sweep_append_of_some {first : List α} {state : σ} {reason : ε}
    (h : (sweep pass first state).halt = some reason) (second : List α) :
    sweep pass (first ++ second) state = (sweep pass first state).map (· ++ second) := by
  induction first generalizing state with
  | nil => exact absurd h (by simp [Outcome.done])
  | cons member first ih =>
    cases hm : (pass member state).halt with
    | none =>
      rw [sweep_cons_of_none hm] at h
      rw [List.cons_append, sweep_cons_of_none hm, sweep_cons_of_none hm, ih h]
      rfl
    | some _ => rw [List.cons_append, sweep_cons_of_some hm, sweep_cons_of_some hm]; rfl

theorem forall₂_sweep {R : α → α → Prop}
    (hpass : ∀ member state, R member (pass member state).value)
    (hrefl : ∀ member, R member member) (members : List α) (state : σ) :
    List.Forall₂ R members (sweep pass members state).value := by
  induction members generalizing state with
  | nil => exact .nil
  | cons member members ih =>
    cases hm : (pass member state).halt with
    | none =>
      rw [sweep_cons_of_none hm]
      exact .cons (hpass member state) (ih _)
    | some reason =>
      rw [sweep_cons_of_some hm]
      exact .cons (hpass member state) (List.forall₂_same.2 fun other _ => hrefl other)

/-- If a pass gives up or not by the member alone, a sweep goes through exactly if every member is
in order. -/
theorem sweep_halt_iff {inOrder : α → Prop}
    (h : ∀ member state, (pass member state).halt = none ↔ inOrder member) (members : List α)
    (state : σ) :
    (sweep pass members state).halt = none ↔ ∀ member ∈ members, inOrder member := by
  induction members generalizing state with
  | nil => simp [Outcome.done]
  | cons member members ih =>
    rw [List.forall_mem_cons, ← h member state]
    cases hm : (pass member state).halt with
    | none =>
      rw [sweep_cons_of_none hm]
      exact (ih _).trans ⟨fun hrest => ⟨rfl, hrest⟩, And.right⟩
    | some reason =>
      rw [sweep_cons_of_some hm]
      refine iff_of_false (fun hnone => ?_) (fun hnone => nomatch hnone.1)
      exact absurd (hm.symm.trans hnone) (by simp)

theorem map_sweep {view : α → β} (h : ∀ member state, view (pass member state).value = view member)
    (members : List α) (state : σ) :
    (sweep pass members state).value.map view = members.map view := by
  induction members generalizing state with
  | nil => rfl
  | cons member members ih =>
    cases hm : (pass member state).halt with
    | none =>
      rw [sweep_cons_of_none hm]
      exact congrArg₂ List.cons (h member state) (ih _)
    | some reason =>
      rw [sweep_cons_of_some hm]
      exact congrArg (· :: members.map view) (h member state)

/-- A sweep that did not give up leaves what the passes make of the members. -/
theorem map_sweep_of_halt {view result : α → β} {members : List α} {state : σ}
    (hpass : ∀ member state, (pass member state).halt = none →
      view (pass member state).value = result member)
    (h : (sweep pass members state).halt = none) :
    (sweep pass members state).value.map view = members.map result := by
  induction members generalizing state with
  | nil => rfl
  | cons member members ih =>
    cases hm : (pass member state).halt with
    | none =>
      rw [sweep_cons_of_none hm] at h ⊢
      exact congrArg₂ List.cons (hpass member state hm) (ih h)
    | some reason =>
      rw [sweep_cons_of_some hm] at h
      exact absurd (hm.symm.trans h) (by simp)

theorem forall_mem_sweep {good : α → Prop}
    (hpass : ∀ member state, good member → good (pass member state).value) {members : List α}
    (h : ∀ member ∈ members, good member) (state : σ) :
    ∀ member ∈ (sweep pass members state).value, good member := by
  induction members generalizing state with
  | nil => exact h
  | cons member members ih =>
    obtain ⟨hmember, hmembers⟩ := List.forall_mem_cons.1 h
    cases hm : (pass member state).halt with
    | none =>
      rw [sweep_cons_of_none hm]
      exact List.forall_mem_cons.2 ⟨hpass member state hmember, ih hmembers _⟩
    | some reason =>
      rw [sweep_cons_of_some hm]
      exact List.forall_mem_cons.2 ⟨hpass member state hmember, hmembers⟩

/-- After a sweep that did not give up, every member is what a pass has left. -/
theorem exists_of_mem_sweep {members : List α} {state : σ} {result : α}
    (h : (sweep pass members state).halt = none)
    (hresult : result ∈ (sweep pass members state).value) :
    ∃ member ∈ members, ∃ before : σ, (pass member before).halt = none ∧
      result = (pass member before).value := by
  induction members generalizing state with
  | nil => cases hresult
  | cons member members ih =>
    cases hm : (pass member state).halt with
    | none =>
      rw [sweep_cons_of_none hm] at h hresult
      rcases List.mem_cons.1 hresult with rfl | hresult
      · exact ⟨member, List.mem_cons_self, state, hm, rfl⟩
      · obtain ⟨other, hother, before, hbefore⟩ := ih h hresult
        exact ⟨other, List.mem_cons_of_mem _ hother, before, hbefore⟩
    | some reason =>
      rw [sweep_cons_of_some hm] at h
      exact absurd (hm.symm.trans h) (by simp)

end Sweep

/-! ## Faces -/

/-- What can be seen of a node without its slots. -/
structure Face where
  /-- The data that all kinds of node carry. -/
  info : NodeInfo
  /-- The kind. -/
  kind : Kind
  /-- The alternate name. -/
  altName : Option DisplayName
  /-- How many slots each row has, and where the row is declared. -/
  layout : List (Nat × Place)

/-- What can be seen of a node without its slots. -/
def Node.face (node : Node) : Face where
  info := node.info
  kind := node.kind
  altName := node.altName?
  layout := node.rows.map fun row => (row.slots.length, row.place)

section SweepSlots

variable {σ ε : Type} {pass : Node → σ → Outcome σ ε Node}

/-- A sweep row by row is a sweep over all slots of the rows, and the rows keep their lengths. -/
theorem sweep_rows (rows : List (Row Node)) (state : σ) :
    (sweep (Row.sweep pass) rows state).state = (sweep pass (rows.flatMap Row.slots) state).state ∧
    (sweep (Row.sweep pass) rows state).halt = (sweep pass (rows.flatMap Row.slots) state).halt ∧
    (sweep (Row.sweep pass) rows state).value.flatMap Row.slots =
      (sweep pass (rows.flatMap Row.slots) state).value ∧
    (sweep (Row.sweep pass) rows state).value.map (fun row => (row.slots.length, row.place)) =
      rows.map fun row => (row.slots.length, row.place) := by
  induction rows generalizing state with
  | nil => exact ⟨rfl, rfl, rfl, rfl⟩
  | cons row rows ih =>
    have hlength : (sweep pass row.slots state).value.length = row.slots.length :=
      (forall₂_sweep (R := fun _ _ => True) (fun _ _ => trivial) (fun _ => trivial)
        row.slots state).length_eq.symm
    rw [List.flatMap_cons]
    cases hrow : (sweep pass row.slots state).halt with
    | none =>
      have hhalt : (Row.sweep pass row state).halt = none := hrow
      obtain ⟨hstate, hhalts, hvalue, hlayout⟩ := ih (sweep pass row.slots state).state
      rw [sweep_cons_of_none hhalt, sweep_append_of_none hrow]
      refine ⟨hstate, hhalts, ?_, ?_⟩
      · exact congrArg ((sweep pass row.slots state).value ++ ·) hvalue
      · exact congrArg₂ List.cons (congrArg (·, row.place) hlength) hlayout
    | some reason =>
      have hhalt : (Row.sweep pass row state).halt = some reason := hrow
      rw [sweep_cons_of_some hhalt, sweep_append_of_some hrow]
      refine ⟨rfl, rfl, rfl, ?_⟩
      exact congrArg₂ List.cons (congrArg (·, row.place) hlength) rfl

theorem sweepSlots_state (node : Node) (state : σ) :
    (node.sweepSlots pass state).state = (sweep pass node.slots state).state := by
  cases node with
  | item info => rfl
  | altItem info altName => rfl
  | group info rows => exact (sweep_rows rows state).1

theorem sweepSlots_halt (node : Node) (state : σ) :
    (node.sweepSlots pass state).halt = (sweep pass node.slots state).halt := by
  cases node with
  | item info => rfl
  | altItem info altName => rfl
  | group info rows => exact (sweep_rows rows state).2.1

theorem slots_sweepSlots (node : Node) (state : σ) :
    (node.sweepSlots pass state).value.slots = (sweep pass node.slots state).value := by
  cases node with
  | item info => rfl
  | altItem info altName => rfl
  | group info rows => exact (sweep_rows rows state).2.2.1

/-- A sweep over the slots of a node changes nothing else about it. -/
theorem face_sweepSlots (node : Node) (state : σ) :
    (node.sweepSlots pass state).value.face = node.face := by
  cases node with
  | item info => rfl
  | altItem info altName => rfl
  | group info rows =>
    exact congrArg (Face.mk info .group none) (sweep_rows rows state).2.2.2

theorem exists_of_mem_sweepSlots {node slot : Node} {state : σ}
    (h : (node.sweepSlots pass state).halt = none)
    (hslot : slot ∈ (node.sweepSlots pass state).value.slots) :
    ∃ original ∈ node.slots, ∃ before : σ, (pass original before).halt = none ∧
      slot = (pass original before).value := by
  rw [sweepSlots_halt] at h
  rw [slots_sweepSlots] at hslot
  exact exists_of_mem_sweep h hslot

end SweepSlots

/-! ## Going down -/

theorem Node.id_eq_of_face {first second : Node} (h : first.face = second.face) :
    first.id = second.id :=
  congrArg (fun face => face.info.id) h

theorem Node.depth_eq_zero_iff {node : Node} : node.depth = 0 ↔ node.kind ≠ .group := by
  cases node <;> simp [Node.depth, Node.kind]

section Descend

variable {σ ε γ : Type} {visitor : Visitor σ ε}

theorem descend_succ_of_none {levels : Nat} {node : Node} {state : σ}
    (h : (node.sweepSlots (visitor node.id) state).halt = none) :
    visitor.descend (levels + 1) node state =
      (node.sweepSlots (visitor node.id) state).value.sweepSlots (visitor.descend levels)
        (node.sweepSlots (visitor node.id) state).state := by
  rw [Visitor.descend, Outcome.andThen, h]

theorem descend_succ_of_some {levels : Nat} {node : Node} {state : σ} {reason : ε}
    (h : (node.sweepSlots (visitor node.id) state).halt = some reason) :
    visitor.descend (levels + 1) node state = node.sweepSlots (visitor node.id) state := by
  rw [Visitor.descend, Outcome.andThen, h]

/-- Going down from a node changes nothing about the node but its slots. -/
theorem face_descend (levels : Nat) (node : Node) (state : σ) :
    (visitor.descend levels node state).value.face = node.face := by
  cases levels with
  | zero => rfl
  | succ levels =>
    cases h : (node.sweepSlots (visitor node.id) state).halt with
    | none => rw [descend_succ_of_none h, face_sweepSlots, face_sweepSlots]
    | some reason => rw [descend_succ_of_some h, face_sweepSlots]

theorem walkLevels_of_none {levels : Nat} {root : Node} {state : σ}
    (h : (visitor nullId root state).halt = none) :
    visitor.walkLevels levels root state = visitor.descend levels (visitor nullId root state).value
      (visitor nullId root state).state := by
  rw [Visitor.walkLevels, Outcome.andThen, h]

theorem walkLevels_of_some {levels : Nat} {root : Node} {state : σ} {reason : ε}
    (h : (visitor nullId root state).halt = some reason) :
    visitor.walkLevels levels root state = visitor nullId root state := by
  rw [Visitor.walkLevels, Outcome.andThen, h]

theorem walk_of_none {root : Node} {state : σ} (h : (visitor nullId root state).halt = none) :
    visitor.walk root state = visitor.descend root.depth (visitor nullId root state).value
      (visitor nullId root state).state :=
  walkLevels_of_none h

theorem walk_of_some {root : Node} {state : σ} {reason : ε}
    (h : (visitor nullId root state).halt = some reason) :
    visitor.walk root state = visitor nullId root state :=
  walkLevels_of_some h

/-- What a visit makes sure of when it does not give up holds in the tree that a walk leaves, for
all slots of a node with the id that the node has there. -/
theorem Visitor.descend_post {post : UInt8 → Face → Prop}
    (hpost : ∀ parentId node state, (visitor parentId node state).halt = none →
      post parentId (visitor parentId node state).value.face)
    (hdepth : ∀ parentId node state, (visitor parentId node state).value.depth ≤ node.depth)
    {levels : Nat} {node : Node} {state : σ} (hlevels : node.depth ≤ levels)
    (h : (visitor.descend levels node state).halt = none) :
    ∀ member ∈ (visitor.descend levels node state).value.flatten, ∀ slot ∈ member.slots,
      post member.id slot.face := by
  induction levels generalizing node state with
  | zero =>
    intro member hmember slot hslot
    have hnone := Node.slots_eq_nil_of_depth hlevels
    rw [Visitor.descend, Outcome.done, Node.mem_flatten_iff_slots, hnone] at hmember
    obtain rfl : member = node := by simpa using hmember
    rw [hnone] at hslot
    cases hslot
  | succ levels ih =>
    cases hfirst : (node.sweepSlots (visitor node.id) state).halt with
    | some reason =>
      rw [descend_succ_of_some hfirst] at h
      exact absurd (hfirst.symm.trans h) (by simp)
    | none =>
      intro member hmember slot hslot
      -- The slots as the visits left them, then the slots as going down from them left them.
      generalize hmiddle : (node.sweepSlots (visitor node.id) state).value = middle
      generalize hbetween : (node.sweepSlots (visitor node.id) state).state = between
      have hid : middle.id = node.id := by
        rw [← hmiddle]; exact Node.id_eq_of_face (face_sweepSlots node state)
      have hvisited : ∀ slot ∈ middle.slots, post node.id slot.face ∧ slot.depth ≤ levels := by
        intro slot hslot
        rw [← hmiddle] at hslot
        obtain ⟨original, horiginal, before, hbefore, rfl⟩ := exists_of_mem_sweepSlots hfirst hslot
        refine ⟨hpost _ _ _ hbefore, (hdepth _ _ _).trans ?_⟩
        exact Node.depth_le_succ_iff.1 hlevels original horiginal
      have hdescend : visitor.descend (levels + 1) node state = _ := descend_succ_of_none hfirst
      rw [hmiddle, hbetween] at hdescend
      rw [hdescend] at h hmember
      rcases Node.mem_flatten_iff_slots.1 hmember with rfl | ⟨top, htop, hmember⟩
      · obtain ⟨original, horiginal, before, -, rfl⟩ := exists_of_mem_sweepSlots h hslot
        rw [Node.id_eq_of_face (face_sweepSlots middle between), hid, face_descend]
        exact (hvisited original horiginal).1
      · obtain ⟨original, horiginal, before, hbefore, rfl⟩ := exists_of_mem_sweepSlots h htop
        exact ih (hvisited original horiginal).2 hbefore member hmember slot hslot

theorem Visitor.walk_post (post : UInt8 → Face → Prop)
    (hpost : ∀ parentId node state, (visitor parentId node state).halt = none →
      post parentId (visitor parentId node state).value.face)
    (hdepth : ∀ parentId node state, (visitor parentId node state).value.depth ≤ node.depth)
    {root : Node} {state : σ} (h : (visitor.walk root state).halt = none) :
    post nullId (visitor.walk root state).value.face ∧
      ∀ member ∈ (visitor.walk root state).value.flatten, ∀ slot ∈ member.slots,
        post member.id slot.face := by
  cases hfirst : (visitor nullId root state).halt with
  | some reason =>
    rw [walk_of_some hfirst] at h
    exact absurd (hfirst.symm.trans h) (by simp)
  | none =>
    rw [walk_of_none hfirst] at h ⊢
    refine ⟨?_, Visitor.descend_post hpost hdepth (hdepth nullId root state) h⟩
    rw [face_descend]
    exact hpost nullId root state hfirst

theorem Visitor.forall_mem_walk (post : Face → Prop)
    (hpost : ∀ parentId node state, (visitor parentId node state).halt = none →
      post (visitor parentId node state).value.face)
    (hdepth : ∀ parentId node state, (visitor parentId node state).value.depth ≤ node.depth)
    {root : Node} {state : σ} (h : (visitor.walk root state).halt = none) :
    ∀ node ∈ (visitor.walk root state).value.flatten, post node.face := by
  obtain ⟨hroot, hslots⟩ := Visitor.walk_post (fun _ => post) hpost hdepth h
  intro node hnode
  rcases Node.eq_or_mem_slots_of_mem_flatten hnode with rfl | ⟨group, hgroup, hslot⟩
  · exact hroot
  · exact hslots group hgroup node hslot

end Descend

/-! ## Walks and sweeps -/

section Flat

variable {σ ε γ : Type}

/-- The nodes of a list that are not idle. -/
def active (idle : Node → Bool) (nodes : List Node) : List Node :=
  nodes.filter fun node => !idle node

@[simp] theorem active_append (idle : Node → Bool) (first second : List Node) :
    active idle (first ++ second) = active idle first ++ active idle second :=
  List.filter_append first second

@[simp] theorem mem_active {idle : Node → Bool} {nodes : List Node} {node : Node} :
    node ∈ active idle nodes ↔ node ∈ nodes ∧ idle node = false := by
  simp [active]

@[simp] theorem active_false (nodes : List Node) : active (fun _ => false) nodes = nodes :=
  List.filter_true nodes

/-- Lists that look the same look the same in every part of the view. -/
theorem map_part {α α' β : Type} {view : α → β} {view' : α' → β} {first : List α}
    {second : List α'} (h : first.map view = second.map view') (part : β → γ) :
    (first.map fun member => part (view member)) =
      second.map fun member => part (view' member) := by
  simpa only [List.map_map, Function.comp_def] using congrArg (List.map part) h

/-- A visitor that treats a tree like the list of its nodes: it keeps the slots of a node apart from
idle ones, and as far as `view` shows it takes no notice of the group that a node is in. -/
structure Visitor.Flat (visitor : Visitor σ ε) (idle : Node → Bool) (view : Node → γ) : Prop where
  idle_depth : ∀ node, idle node → node.depth = 0
  idle_visit : ∀ parentId node state, idle node → visitor parentId node state = .done node state
  idle_face : ∀ first second : Node, first.face = second.face → idle first = idle second
  view_face : ∀ first second : Node, first.face = second.face → view first = view second
  visit_kind : ∀ parentId node state, (visitor parentId node state).value.kind = node.kind
  visit_slots : ∀ parentId node state,
    active idle (visitor parentId node state).value.slots = active idle node.slots
  visit_idle : ∀ parentId node state, idle (visitor parentId node state).value = idle node
  visit_state : ∀ parentId node state,
    (visitor parentId node state).state = (visitor nullId node state).state
  visit_halt : ∀ parentId node state,
    (visitor parentId node state).halt = (visitor nullId node state).halt
  visit_view : ∀ parentId node state,
    view (visitor parentId node state).value = view (visitor nullId node state).value

/-- Two outcomes are alike: a pass over something that contains nodes, and a pass over a list of
nodes. They leave the same state, give up for the same reason, and leave the same nodes to see. -/
structure Alike {α : Type} (idle : Node → Bool) (view : Node → γ) (members : α → List Node)
    (outcome : Outcome σ ε α) (flat : Outcome σ ε (List Node)) : Prop where
  state_eq : outcome.state = flat.state
  halt_eq : outcome.halt = flat.halt
  view_eq : (active idle (members outcome.value)).map view = flat.value.map view

/-- If each pass over a member is like a sweep over the nodes of the member, the sweep over the
members is like one sweep over all nodes. -/
theorem alike_sweep {α : Type} {idle : Node → Bool} {view : Node → γ} {members : α → List Node}
    {pass : α → σ → Outcome σ ε α} {flat : Node → σ → Outcome σ ε Node} (list : List α)
    (h : ∀ member ∈ list, ∀ state, Alike idle view members (pass member state)
      (sweep flat (active idle (members member)) state)) (state : σ) :
    Alike idle view (List.flatMap members) (sweep pass list state)
      (sweep flat (active idle (list.flatMap members)) state) := by
  induction list generalizing state with
  | nil => exact ⟨rfl, rfl, rfl⟩
  | cons member list ih =>
    obtain ⟨hstate, hhalt, hview⟩ := h member List.mem_cons_self state
    rw [List.flatMap_cons, active_append]
    cases hm : (pass member state).halt with
    | none =>
      obtain ⟨hstates, hhalts, hviews⟩ :=
        ih (fun other hother => h other (List.mem_cons_of_mem _ hother)) (pass member state).state
      rw [sweep_cons_of_none hm, sweep_append_of_none (hhalt.symm.trans hm), ← hstate]
      refine ⟨hstates, hhalts, ?_⟩
      simp only [Outcome.map, List.flatMap_cons, active_append, List.map_append, hview, hviews]
    | some reason =>
      rw [sweep_cons_of_some hm, sweep_append_of_some (hhalt.symm.trans hm)]
      refine ⟨hstate, hhalt, ?_⟩
      simp only [Outcome.map, List.flatMap_cons, active_append, List.map_append, hview]

namespace Visitor.Flat

variable {visitor : Visitor σ ε} {idle : Node → Bool} {view : Node → γ}

theorem alike_visit (h : visitor.Flat idle view) (parentId : UInt8) (node : Node) (state : σ) :
    Alike idle view (fun node => [node]) (visitor parentId node state)
      (sweep (visitor nullId) (active idle [node]) state) := by
  cases hidle : idle node with
  | true =>
    rw [h.idle_visit parentId node state hidle]
    refine ⟨?_, ?_, ?_⟩ <;> simp [active, hidle, Outcome.done]
  | false =>
    have hlist : active idle [node] = [node] := by simp [active, hidle]
    have hvalue : active idle [(visitor parentId node state).value] =
        [(visitor parentId node state).value] := by
      simp [active, h.visit_idle, hidle]
    rw [hlist]
    cases hm : (visitor nullId node state).halt with
    | none =>
      rw [sweep_cons_of_none hm]
      refine ⟨h.visit_state .., (h.visit_halt ..).trans hm, ?_⟩
      rw [hvalue, List.map_singleton, h.visit_view]
      rfl
    | some reason =>
      rw [sweep_cons_of_some hm]
      refine ⟨h.visit_state .., h.visit_halt .., ?_⟩
      rw [hvalue, List.map_singleton, h.visit_view]
      rfl

theorem active_flatMap_descendants (h : visitor.Flat idle view) (slots : List Node) :
    slots.flatMap Node.descendants = (active idle slots).flatMap Node.descendants := by
  induction slots with
  | nil => rfl
  | cons slot slots ih =>
    cases hidle : idle slot with
    | true =>
      have hnone := Node.slots_eq_nil_of_depth (h.idle_depth slot hidle).le
      have hbelow : slot.descendants = [] := by rw [Node.descendants_eq, hnone]; rfl
      simpa [active, hidle, hbelow] using ih
    | false => simpa [active, hidle] using ih

/-- A visit changes nothing below a node but idle nodes. -/
theorem active_descendants_visit (h : visitor.Flat idle view) (parentId : UInt8) (node : Node)
    (state : σ) : active idle (visitor parentId node state).value.descendants =
      active idle node.descendants := by
  rw [Node.descendants_eq, Node.descendants_eq, active_append, active_append, h.visit_slots,
    h.active_flatMap_descendants, h.visit_slots, ← h.active_flatMap_descendants]

theorem depth_visit_le (h : visitor.Flat idle view) (parentId : UInt8) (node : Node) (state : σ) :
    (visitor parentId node state).value.depth ≤ node.depth := by
  cases hdepth : node.depth with
  | zero =>
    rw [Nat.le_zero, Node.depth_eq_zero_iff, h.visit_kind]
    exact Node.depth_eq_zero_iff.1 hdepth
  | succ levels =>
    refine Node.depth_le_succ_iff.2 fun slot hslot => ?_
    cases hidle : idle slot with
    | true => rw [h.idle_depth slot hidle]; exact Nat.zero_le _
    | false =>
      have hactive : slot ∈ active idle (visitor parentId node state).value.slots :=
        mem_active.2 ⟨hslot, hidle⟩
      rw [h.visit_slots] at hactive
      exact Node.depth_le_succ_iff.1 hdepth.le slot (mem_active.1 hactive).1

theorem view_eq_of_faces (h : visitor.Flat idle view) {first second : List Node}
    (hfaces : List.Forall₂ (fun a b : Node => a.face = b.face) first second) :
    (active idle first).map view = (active idle second).map view := by
  induction hfaces with
  | nil => rfl
  | @cons a b first second hface _ ih =>
    have hidle := h.idle_face a b hface
    cases hb : idle b with
    | true => simpa [active, hidle, hb] using ih
    | false => simpa [active, hidle, hb, h.view_face a b hface] using ih

/-- Visiting the slots of a node is like a sweep over them, and changes nothing below them but idle
nodes. -/
theorem alike_slots (h : visitor.Flat idle view) (node : Node) (state : σ) :
    Alike idle view Node.slots (node.sweepSlots (visitor node.id) state)
        (sweep (visitor nullId) (active idle node.slots) state) ∧
      active idle ((node.sweepSlots (visitor node.id) state).value.slots.flatMap Node.descendants) =
        active idle (node.slots.flatMap Node.descendants) := by
  have hsweep := alike_sweep node.slots
    (fun member _ state => h.alike_visit node.id member state) state
  simp only [List.flatMap_singleton'] at hsweep
  have hbelow : List.Forall₂
      (fun a b : Node => active idle b.descendants = active idle a.descendants) node.slots
      (sweep (visitor node.id) node.slots state).value := by
    apply forall₂_sweep
    · exact h.active_descendants_visit node.id
    · exact fun _ => rfl
  refine ⟨⟨?_, ?_, ?_⟩, ?_⟩
  · rw [sweepSlots_state, hsweep.state_eq]
  · rw [sweepSlots_halt, hsweep.halt_eq]
  · rw [slots_sweepSlots]
    simpa only [List.flatMap_singleton'] using hsweep.view_eq
  · rw [slots_sweepSlots]
    generalize node.slots = slots,
      (sweep (visitor node.id) node.slots state).value = results at hbelow
    induction hbelow with
    | nil => rfl
    | cons hslot _ ih => simp only [List.flatMap_cons, active_append, hslot, ih]

/-- Going down from a node is like a sweep over what stands below it. -/
theorem alike_descend (h : visitor.Flat idle view) {levels : Nat} {node : Node}
    (hlevels : node.depth ≤ levels) (state : σ) :
    Alike idle view Node.descendants (visitor.descend levels node state)
      (sweep (visitor nullId) (active idle node.descendants) state) := by
  induction levels generalizing node state with
  | zero =>
    have hnone := Node.slots_eq_nil_of_depth hlevels
    have hbelow : node.descendants = [] := by rw [Node.descendants_eq, hnone]; rfl
    refine ⟨?_, ?_, ?_⟩ <;> simp [Visitor.descend, Outcome.done, hbelow, active]
  | succ levels ih =>
    obtain ⟨⟨hstate, hhalt, hview⟩, hbelow⟩ := h.alike_slots node state
    rw [Node.descendants_eq node, active_append]
    cases hfirst : (node.sweepSlots (visitor node.id) state).halt with
    | some reason =>
      rw [descend_succ_of_some hfirst, sweep_append_of_some (hhalt.symm.trans hfirst)]
      refine ⟨hstate, hhalt, ?_⟩
      rw [Node.descendants_eq, active_append, hbelow]
      simp only [Outcome.map, List.map_append, hview]
    | none =>
      rw [descend_succ_of_none hfirst, sweep_append_of_none (hhalt.symm.trans hfirst), ← hstate,
        ← hbelow]
      have hdepth : ∀ slot ∈ (node.sweepSlots (visitor node.id) state).value.slots,
          slot.depth ≤ levels := by
        intro slot hslot
        obtain ⟨original, horiginal, before, -, rfl⟩ := exists_of_mem_sweepSlots hfirst hslot
        exact (h.depth_visit_le ..).trans (Node.depth_le_succ_iff.1 hlevels original horiginal)
      -- The slots have been visited; now each of them is like a sweep over what stands below it.
      generalize (node.sweepSlots (visitor node.id) state).value = middle at hview hdepth ⊢
      generalize (node.sweepSlots (visitor node.id) state).state = between
      obtain ⟨hstates, hhalts, hviews⟩ := alike_sweep middle.slots
        (fun slot hslot state => ih (hdepth slot hslot) state) between
      have hfaces : List.Forall₂ (fun a b : Node => a.face = b.face) middle.slots
          (sweep (visitor.descend levels) middle.slots between).value :=
        forall₂_sweep (R := fun a b : Node => a.face = b.face)
          (fun slot state => (face_descend levels slot state).symm) (fun _ => rfl) _ _
      refine ⟨?_, ?_, ?_⟩
      · rw [sweepSlots_state, hstates]
        rfl
      · rw [sweepSlots_halt, hhalts]
        rfl
      · rw [Node.descendants_eq, slots_sweepSlots, active_append, List.map_append, hviews,
          ← h.view_eq_of_faces hfaces, hview, ← List.map_append]
        rfl

/-- A walk through a tree is like a sweep over the list of its nodes in hybrid order. -/
theorem alike_walk (h : visitor.Flat idle view) (root : Node) (state : σ) :
    Alike idle view Node.flatten (visitor.walk root state)
      (sweep (visitor nullId) (active idle root.flatten) state) := by
  obtain ⟨hstate, hhalt, hview⟩ := h.alike_visit nullId root state
  rw [Node.flatten_eq, ← List.singleton_append, active_append]
  cases hfirst : (visitor nullId root state).halt with
  | some reason =>
    rw [walk_of_some hfirst, sweep_append_of_some (hhalt.symm.trans hfirst)]
    refine ⟨hstate, hhalt, ?_⟩
    rw [Node.flatten_eq, ← List.singleton_append, active_append, h.active_descendants_visit,
      List.map_append, hview, ← List.map_append]
    rfl
  | none =>
    obtain ⟨hstates, hhalts, hviews⟩ := h.alike_descend (h.depth_visit_le nullId root state)
      (visitor nullId root state).state
    rw [walk_of_none hfirst, sweep_append_of_none (hhalt.symm.trans hfirst), ← hstate,
      ← h.active_descendants_visit nullId root state]
    refine ⟨hstates, hhalts, ?_⟩
    have hface : (visitor.descend root.depth (visitor nullId root state).value
        (visitor nullId root state).state).value.face = (visitor nullId root state).value.face :=
      face_descend ..
    rw [Node.flatten_eq, ← List.singleton_append, active_append, List.map_append, hviews,
      h.view_eq_of_faces (.cons hface .nil), hview, ← List.map_append]
    rfl

end Visitor.Flat

end Flat

/-! ## Links -/

/-- Every slot of a tree carries the id of its group. -/
def Node.Linked (root : Node) : Prop :=
  ∀ group ∈ root.flatten, ∀ slot ∈ group.slots, slot.parentId = group.id

theorem Node.linked_iff {root : Node} :
    root.Linked ↔ ∀ slot ∈ root.slots, slot.parentId = root.id ∧ slot.Linked := by
  constructor
  · intro h slot hslot
    refine ⟨h root root.self_mem_flatten slot hslot, fun group hgroup => ?_⟩
    exact h group (Node.mem_flatten_of_slot hslot hgroup)
  · intro h group hgroup slot hslot
    rcases Node.mem_flatten_iff_slots.1 hgroup with rfl | ⟨top, htop, hgroup⟩
    · exact (h slot hslot).1
    · exact (h top htop).2 group hgroup slot hslot

section Links

variable {σ ε : Type}

theorem linked_sweepSlots {pass : Node → σ → Outcome σ ε Node}
    (hlinked : ∀ slot state, slot.Linked → (pass slot state).value.Linked)
    (hparentId : ∀ slot state, (pass slot state).value.parentId = slot.parentId) {node : Node}
    (h : node.Linked) (state : σ) : (node.sweepSlots pass state).value.Linked := by
  rw [Node.linked_iff] at h ⊢
  rw [slots_sweepSlots, Node.id_eq_of_face (face_sweepSlots node state)]
  refine forall_mem_sweep (fun slot state hslot => ?_) h state
  exact ⟨(hparentId slot state).trans hslot.1, hlinked slot state hslot.2⟩

/-- A visitor that changes neither the slots of a node nor its numbers. -/
structure Visitor.KeepsLinks (visitor : Visitor σ ε) : Prop where
  slots : ∀ parentId node state, (visitor parentId node state).value.slots = node.slots
  id : ∀ parentId node state, (visitor parentId node state).value.id = node.id
  parentId : ∀ parentId node state, (visitor parentId node state).value.parentId = node.parentId

namespace Visitor.KeepsLinks

variable {visitor : Visitor σ ε} {node : Node}

theorem linked_visit (h : visitor.KeepsLinks) (hnode : node.Linked) (parentId : UInt8) (state : σ) :
    (visitor parentId node state).value.Linked := by
  rw [Node.linked_iff] at hnode ⊢
  rw [h.slots, h.id]
  exact hnode

theorem linked_descend (h : visitor.KeepsLinks) (levels : Nat) (hnode : node.Linked) (state : σ) :
    (visitor.descend levels node state).value.Linked := by
  induction levels generalizing node state with
  | zero => exact hnode
  | succ levels ih =>
    have hfirst : (node.sweepSlots (visitor node.id) state).value.Linked :=
      linked_sweepSlots (fun slot state hslot => h.linked_visit hslot node.id state)
        (h.parentId node.id) hnode state
    cases hhalt : (node.sweepSlots (visitor node.id) state).halt with
    | some reason =>
      rw [descend_succ_of_some hhalt]
      exact hfirst
    | none =>
      rw [descend_succ_of_none hhalt]
      refine linked_sweepSlots (fun slot state hslot => ih hslot state) ?_ hfirst _
      intro slot state
      exact congrArg (fun face => face.info.parentId) (face_descend levels slot state)

theorem linked_walk (h : visitor.KeepsLinks) {root : Node} (hroot : root.Linked) (state : σ) :
    (visitor.walk root state).value.Linked := by
  have hvisit := h.linked_visit hroot nullId state
  cases hhalt : (visitor nullId root state).halt with
  | some reason =>
    rw [walk_of_some hhalt]
    exact hvisit
  | none =>
    rw [walk_of_none hhalt]
    exact h.linked_descend root.depth hvisit _

end Visitor.KeepsLinks

end Links

end SoftMenu
