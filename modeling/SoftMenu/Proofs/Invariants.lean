import SoftMenu.Proofs.Walk

/-!
# What a walk keeps

A property of the state that every visit keeps is kept by a walk, whether or not it goes through
(`Visitor.walk_keeps`), and so is a property of all nodes of the tree (`Visitor.all_walk`). What
every visit makes of a node is related to the node; the tree that a walk leaves is related to the
tree in the same way, if the relation can be put together step by step and slot by slot
(`Visitor.relates_walk`). Where a walk gives up, it does so at a node of the tree
(`exists_of_sweep_halt`).
-/

namespace SoftMenu

variable {σ ε : Type}

/-! ## The state -/

section State

variable {good : σ → Prop}

/-- A property of the state that is kept at each member of a list is kept by a sweep. -/
theorem sweep_keeps {α : Type} {pass : α → σ → Outcome σ ε α}
    (hpass : ∀ member state, good state → good (pass member state).state) (members : List α)
    {state : σ} (h : good state) : good (sweep pass members state).state := by
  induction members generalizing state with
  | nil => exact h
  | cons member members ih =>
    have hfirst := hpass member state h
    cases hm : (pass member state).halt with
    | none =>
      rw [sweep_cons_of_none hm]
      exact ih hfirst
    | some reason =>
      rw [sweep_cons_of_some hm]
      exact hfirst

variable {visitor : Visitor σ ε}

/-- A property of the state that every visit keeps is kept below a node. -/
theorem Visitor.descend_keeps
    (hvisit : ∀ parentId node state, good state → good (visitor parentId node state).state)
    (levels : Nat) (node : Node) {state : σ} (h : good state) :
    good (visitor.descend levels node state).state := by
  induction levels generalizing node state with
  | zero => exact h
  | succ levels ih =>
    have hslots : good (node.sweepSlots (visitor node.id) state).state := by
      rw [sweepSlots_state]
      exact sweep_keeps (hvisit node.id) node.slots h
    cases hhalt : (node.sweepSlots (visitor node.id) state).halt with
    | none =>
      rw [descend_succ_of_none hhalt, sweepSlots_state]
      exact sweep_keeps (fun slot state => ih slot) _ hslots
    | some reason =>
      rw [descend_succ_of_some hhalt]
      exact hslots

/-- A property of the state that every visit keeps is kept by a walk through any number of levels.
-/
theorem Visitor.walkLevels_keeps
    (hvisit : ∀ parentId node state, good state → good (visitor parentId node state).state)
    (levels : Nat) (root : Node) {state : σ} (h : good state) :
    good (visitor.walkLevels levels root state).state := by
  have hroot := hvisit nullId root state h
  cases hhalt : (visitor nullId root state).halt with
  | none =>
    rw [walkLevels_of_none hhalt]
    exact Visitor.descend_keeps hvisit levels _ hroot
  | some reason =>
    rw [walkLevels_of_some hhalt]
    exact hroot

/-- A property of the state that every visit keeps is kept by a walk. -/
theorem Visitor.walk_keeps
    (hvisit : ∀ parentId node state, good state → good (visitor parentId node state).state)
    (root : Node) {state : σ} (h : good state) : good (visitor.walk root state).state :=
  Visitor.walkLevels_keeps hvisit root.depth root h

end State

/-! ## The tree -/

/-- All nodes of a tree look right. -/
def Node.All (good : Face → Prop) (root : Node) : Prop := ∀ node ∈ root.flatten, good node.face

section Tree

variable {good : Face → Prop}

/-- All nodes of a tree look right if the root does and so do all nodes below each of its slots. -/
theorem Node.all_iff {root : Node} :
    root.All good ↔ good root.face ∧ ∀ slot ∈ root.slots, slot.All good := by
  constructor
  · intro h
    refine ⟨h root root.self_mem_flatten, fun slot hslot node hnode => ?_⟩
    exact h node (Node.mem_flatten_of_slot hslot hnode)
  · rintro ⟨hroot, hslots⟩ node hnode
    rcases Node.mem_flatten_iff_slots.1 hnode with rfl | ⟨slot, hslot, hnode⟩
    · exact hroot
    · exact hslots slot hslot node hnode

/-- All nodes below a node look right after a sweep over its slots, if the sweep sees to that slot
by slot. -/
theorem all_sweepSlots {pass : Node → σ → Outcome σ ε Node}
    (hpass : ∀ slot state, slot.All good → (pass slot state).value.All good) {node : Node}
    (h : node.All good) (state : σ) : (node.sweepSlots pass state).value.All good := by
  rw [Node.all_iff] at h ⊢
  rw [face_sweepSlots, slots_sweepSlots]
  exact ⟨h.1, forall_mem_sweep hpass h.2 state⟩

variable {visitor : Visitor σ ε}

/-- Below a node, all nodes go on looking right if every visit sees to that. -/
theorem Visitor.all_descend
    (hvisit : ∀ parentId node state, node.All good →
      (visitor parentId node state).value.All good)
    (levels : Nat) {node : Node} (h : node.All good) (state : σ) :
    (visitor.descend levels node state).value.All good := by
  induction levels generalizing node state with
  | zero => exact h
  | succ levels ih =>
    have hslots := all_sweepSlots (hvisit node.id) h state
    cases hhalt : (node.sweepSlots (visitor node.id) state).halt with
    | none =>
      rw [descend_succ_of_none hhalt]
      exact all_sweepSlots (fun slot state hslot => ih hslot state) hslots _
    | some reason =>
      rw [descend_succ_of_some hhalt]
      exact hslots

/-- After a walk all nodes look right, if they did before and every visit sees to that. -/
theorem Visitor.all_walk
    (hvisit : ∀ parentId node state, node.All good →
      (visitor parentId node state).value.All good)
    {root : Node} (h : root.All good) (state : σ) : (visitor.walk root state).value.All good := by
  have hroot := hvisit nullId root state h
  cases hhalt : (visitor nullId root state).halt with
  | none =>
    rw [walk_of_none hhalt]
    exact Visitor.all_descend hvisit root.depth hroot _
  | some reason =>
    rw [walk_of_some hhalt]
    exact hroot

end Tree

/-! ## The tree before and after -/

section Relation

variable {visitor : Visitor σ ε} {R : Node → Node → Prop} (hrefl : ∀ node, R node node)
  (htrans : ∀ first second third, R first second → R second third → R first third)
  (hslots : ∀ first second : Node, first.face = second.face →
    List.Forall₂ R first.slots second.slots → R first second)
  (hvisit : ∀ parentId node state, R node (visitor parentId node state).value)

include hrefl hslots in
/-- A relation that can be put together slot by slot holds across a sweep over the slots. -/
theorem relates_sweepSlots {pass : Node → σ → Outcome σ ε Node}
    (hpass : ∀ slot state, R slot (pass slot state).value) (node : Node) (state : σ) :
    R node (node.sweepSlots pass state).value := by
  refine hslots node _ (face_sweepSlots node state).symm ?_
  rw [slots_sweepSlots]
  exact forall₂_sweep hpass hrefl node.slots state

include hrefl htrans hslots hvisit

/-- A node is related to what a walk below it makes of it. -/
theorem Visitor.relates_descend (levels : Nat) (node : Node) (state : σ) :
    R node (visitor.descend levels node state).value := by
  induction levels generalizing node state with
  | zero => exact hrefl node
  | succ levels ih =>
    have hfirst := relates_sweepSlots hrefl hslots (hvisit node.id) node state
    cases hhalt : (node.sweepSlots (visitor node.id) state).halt with
    | none =>
      rw [descend_succ_of_none hhalt]
      exact htrans _ _ _ hfirst (relates_sweepSlots hrefl hslots ih _ _)
    | some reason =>
      rw [descend_succ_of_some hhalt]
      exact hfirst

/-- A tree is related to what a walk makes of it as a node is to what a visit makes of it. -/
theorem Visitor.relates_walk (root : Node) (state : σ) :
    R root (visitor.walk root state).value := by
  have hroot := hvisit nullId root state
  cases hhalt : (visitor nullId root state).halt with
  | none =>
    rw [walk_of_none hhalt]
    exact htrans _ _ _ hroot
      (Visitor.relates_descend hrefl htrans hslots hvisit root.depth _ _)
  | some reason =>
    rw [walk_of_some hhalt]
    exact hroot

end Relation

/-! ## Giving up -/

/-- A sweep gives up because of one of its members. -/
theorem exists_of_sweep_halt {α : Type} {pass : α → σ → Outcome σ ε α} {members : List α}
    {state : σ} {reason : ε} (h : (sweep pass members state).halt = some reason) :
    ∃ member ∈ members, ∃ before : σ, (pass member before).halt = some reason := by
  induction members generalizing state with
  | nil => cases h
  | cons member members ih =>
    cases hm : (pass member state).halt with
    | none =>
      rw [sweep_cons_of_none hm] at h
      obtain ⟨other, hother, before, hbefore⟩ := ih h
      exact ⟨other, List.mem_cons_of_mem _ hother, before, hbefore⟩
    | some first =>
      rw [sweep_cons_of_some hm] at h
      have hsame : some first = some reason := hm.symm.trans h
      exact ⟨member, List.mem_cons_self, state, hm.trans hsame⟩

/-- A sweep that gives up has gone through the members before one, has given up at that one and has
left the members after it alone. -/
theorem exists_split_of_sweep {α : Type} {pass : α → σ → Outcome σ ε α} {members : List α}
    {state : σ} {reason : ε} (h : (sweep pass members state).halt = some reason) :
    ∃ before member after, members = before ++ member :: after ∧
      (sweep pass before state).halt = none ∧
      (pass member (sweep pass before state).state).halt = some reason ∧
      (sweep pass members state).state = (pass member (sweep pass before state).state).state ∧
      (sweep pass members state).value = (sweep pass before state).value ++
        (pass member (sweep pass before state).state).value :: after := by
  induction members generalizing state with
  | nil => cases h
  | cons member members ih =>
    cases hm : (pass member state).halt with
    | none =>
      rw [sweep_cons_of_none hm] at h ⊢
      obtain ⟨before, bad, after, rfl, hbefore, hbad, hstate, hvalue⟩ := ih h
      refine ⟨member :: before, bad, after, rfl, ?_⟩
      rw [sweep_cons_of_none hm]
      exact ⟨hbefore, hbad, hstate, congrArg (_ :: ·) hvalue⟩
    | some first =>
      rw [sweep_cons_of_some hm] at h ⊢
      exact ⟨[], member, members, rfl, rfl, h, rfl, rfl⟩

end SoftMenu
