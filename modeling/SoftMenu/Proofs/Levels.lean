import SoftMenu.Proofs.Walk

/-!
# Walks with levels enough

A visitor may deepen the tree while it is walked through. `Visitor.Walks` is the outcome of a walk
that is given levels enough: more of them make no difference. A walk has come to it if it leaves no
more levels of groups than it was given (`Visitor.walks_of_depth`). For visitors that never deepen a
tree it is the outcome of `Visitor.walk` (`Visitor.walks_walk`).
-/

namespace SoftMenu

variable {σ ε : Type}

/-- The outcome of a walk through all levels of a tree: with so many levels or more, a walk comes to
this outcome. -/
def Visitor.Walks (visitor : Visitor σ ε) (root : Node) (state : σ) (outcome : Outcome σ ε Node) :
    Prop :=
  ∃ levels, ∀ more, visitor.walkLevels (levels + more) root state = outcome

/-- Passes that agree wherever the first one has a good result sweep alike if all results are good.
-/
theorem sweep_congr_of_results {α : Type} {pass pass' : α → σ → Outcome σ ε α} (good : α → Prop)
    (hpass : ∀ member state, good (pass member state).value →
      pass' member state = pass member state) {members : List α} {state : σ}
    (h : ∀ result ∈ (sweep pass members state).value, good result) :
    sweep pass' members state = sweep pass members state := by
  induction members generalizing state with
  | nil => rfl
  | cons member members ih =>
    cases hm : (pass member state).halt with
    | none =>
      rw [sweep_cons_of_none hm] at h ⊢
      obtain ⟨hfirst, hrest⟩ := List.forall_mem_cons.1 h
      have hsame := hpass member state hfirst
      rw [← hsame] at hm
      rw [sweep_cons_of_none hm, hsame, ih hrest]
    | some reason =>
      rw [sweep_cons_of_some hm] at h ⊢
      obtain ⟨hfirst, -⟩ := List.forall_mem_cons.1 h
      have hsame := hpass member state hfirst
      rw [← hsame] at hm
      rw [sweep_cons_of_some hm, hsame]

theorem sweepSlots_congr_of_results {pass pass' : Node → σ → Outcome σ ε Node} (good : Node → Prop)
    (hpass : ∀ slot state, good (pass slot state).value → pass' slot state = pass slot state)
    {node : Node} {state : σ} (h : ∀ slot ∈ (node.sweepSlots pass state).value.slots, good slot) :
    node.sweepSlots pass' state = node.sweepSlots pass state := by
  cases node with
  | item info => rfl
  | altItem info altName => rfl
  | group info rows =>
    have hrows : sweep (Row.sweep pass') rows state = sweep (Row.sweep pass) rows state := by
      refine sweep_congr_of_results (fun row : Row Node => ∀ slot ∈ row.slots, good slot)
        (fun row state hrow => ?_) fun row hrow slot hslot => ?_
      · unfold Row.sweep
        rw [sweep_congr_of_results good hpass hrow]
      · exact h slot (List.mem_flatMap.2 ⟨row, hrow, hslot⟩)
    exact congrArg (Outcome.map (Node.group info)) hrows

variable {visitor : Visitor σ ε} {node root : Node} {state : σ} {levels : Nat}

/-- A walk that has left no more levels of groups than it was given has not been cut short, so it
makes no use of another level. -/
theorem descend_succ_of_depth (h : (visitor.descend levels node state).value.depth ≤ levels) :
    visitor.descend (levels + 1) node state = visitor.descend levels node state := by
  induction levels generalizing node state with
  | zero =>
    have hkind := Node.depth_eq_zero_iff.1 (Nat.le_zero.1 h)
    cases node with
    | item info => rfl
    | altItem info altName => rfl
    | group info rows => exact absurd rfl hkind
  | succ levels ih =>
    cases hfirst : (node.sweepSlots (visitor node.id) state).halt with
    | some reason => rw [descend_succ_of_some hfirst, descend_succ_of_some hfirst]
    | none =>
      rw [descend_succ_of_none hfirst] at h
      rw [descend_succ_of_none hfirst, descend_succ_of_none hfirst]
      exact sweepSlots_congr_of_results (fun slot => slot.depth ≤ levels)
        (fun slot state hslot => ih hslot) (Node.depth_le_succ_iff.1 h)

/-- A walk that leaves no more levels than it was given has nothing to do on a further one. -/
theorem walkLevels_succ_of_depth (h : (visitor.walkLevels levels root state).value.depth ≤ levels) :
    visitor.walkLevels (levels + 1) root state = visitor.walkLevels levels root state := by
  cases hfirst : (visitor nullId root state).halt with
  | some reason => rw [walkLevels_of_some hfirst, walkLevels_of_some hfirst]
  | none =>
    rw [walkLevels_of_none hfirst] at h
    rw [walkLevels_of_none hfirst, walkLevels_of_none hfirst, descend_succ_of_depth h]

/-- A walk that leaves no more levels than it was given is the whole walk. -/
theorem Visitor.walks_of_depth (h : (visitor.walkLevels levels root state).value.depth ≤ levels) :
    visitor.Walks root state (visitor.walkLevels levels root state) := by
  refine ⟨levels, fun more => ?_⟩
  induction more with
  | zero => rfl
  | succ more ih =>
    have hdepth : (visitor.walkLevels (levels + more) root state).value.depth ≤ levels + more := by
      rw [ih]
      omega
    exact (walkLevels_succ_of_depth hdepth).trans ih

/-- A whole walk is a walk through some number of levels that is enough for what it leaves. -/
theorem Visitor.Walks.exists_levels {outcome : Outcome σ ε Node}
    (h : visitor.Walks root state outcome) :
    ∃ levels, visitor.walkLevels levels root state = outcome ∧ outcome.value.depth ≤ levels := by
  obtain ⟨levels, h⟩ := h
  exact ⟨levels + outcome.value.depth, h _, by omega⟩

theorem depth_sweepSlots_le {pass : Node → σ → Outcome σ ε Node}
    (hpass : ∀ slot state, (pass slot state).value.depth ≤ slot.depth) (node : Node) (state : σ) :
    (node.sweepSlots pass state).value.depth ≤ node.depth := by
  cases hdepth : node.depth with
  | zero =>
    have hkind : (node.sweepSlots pass state).value.kind = node.kind :=
      congrArg Face.kind (face_sweepSlots node state)
    rw [Nat.le_zero, Node.depth_eq_zero_iff, hkind]
    exact Node.depth_eq_zero_iff.1 hdepth
  | succ levels =>
    rw [Node.depth_le_succ_iff, slots_sweepSlots]
    refine forall_mem_sweep (fun slot state hslot => ?_) (Node.depth_le_succ_iff.1 hdepth.le) state
    exact (hpass slot state).trans hslot

/-- A visitor that never deepens a tree walks through all levels of it. -/
theorem Visitor.walks_walk
    (hdepth : ∀ parentId node state, (visitor parentId node state).value.depth ≤ node.depth)
    (root : Node) (state : σ) : visitor.Walks root state (visitor.walk root state) := by
  have hdescend : ∀ levels node state,
      (visitor.descend levels node state).value.depth ≤ node.depth := by
    intro levels
    induction levels with
    | zero => exact fun node state => le_rfl
    | succ levels ih =>
      intro node state
      have hslots := depth_sweepSlots_le (hdepth node.id) node state
      cases hfirst : (node.sweepSlots (visitor node.id) state).halt with
      | some reason =>
        rw [descend_succ_of_some hfirst]
        exact hslots
      | none =>
        rw [descend_succ_of_none hfirst]
        exact (depth_sweepSlots_le ih _ _).trans hslots
  refine Visitor.walks_of_depth ?_
  have hroot := hdepth nullId root state
  cases hfirst : (visitor nullId root state).halt with
  | some reason =>
    rw [walkLevels_of_some hfirst]
    exact hroot
  | none =>
    rw [walkLevels_of_none hfirst]
    exact (hdescend root.depth _ _).trans hroot

end SoftMenu
