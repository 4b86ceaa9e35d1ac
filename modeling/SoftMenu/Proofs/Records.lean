import SoftMenu.Proofs.Invariants
import SoftMenu.Proofs.Lockstep

/-!
# Records of walks

A walk is described by the record of its visits: what each visit met and what it left behind
(`Visitor.recorded`). Keeping a record changes nothing about the walk
(`Visitor.recorded_walkLevels`), and each visit begins in the state that the one before has left
(`Visitor.traces_walkLevels`).
-/

namespace SoftMenu

variable {σ ε : Type}

/-- A visit of a walk, and what it has left behind. -/
structure Visit (σ ε : Type) where
  /-- The id of the group that the visitor was told. -/
  parentId : UInt8
  /-- The node as the visitor met it. -/
  node : Node
  /-- What the visitor made of it. -/
  outcome : Outcome σ ε Node

/-- Visits like another visitor, and keeps a record of the visits. -/
def Visitor.recorded (visitor : Visitor σ ε) : Visitor (σ × List (Visit σ ε)) ε :=
  fun parentId node state =>
    let outcome := visitor parentId node state.1
    ⟨outcome.value, (outcome.state, state.2 ++ [⟨parentId, node, outcome⟩]), outcome.halt⟩

/-- The state after some visits that began in the state `first`. -/
def stateAfter (first : σ) (visits : List (Visit σ ε)) : σ :=
  (visits.getLast?.map fun visit => visit.outcome.state).getD first

@[simp] theorem stateAfter_concat (first : σ) (visits : List (Visit σ ε)) (visit : Visit σ ε) :
    stateAfter first (visits ++ [visit]) = visit.outcome.state := by
  simp [stateAfter]

/-- Each visit of the record begins in the state that the visits before it have left. -/
inductive Visitor.Traces (visitor : Visitor σ ε) (first : σ) : List (Visit σ ε) → Prop where
  | nil : Traces visitor first []
  | concat {visits : List (Visit σ ε)} (h : Traces visitor first visits) (parentId : UInt8)
    (node : Node) :
    Traces visitor first
      (visits ++ [⟨parentId, node, visitor parentId node (stateAfter first visits)⟩])

variable {visitor : Visitor σ ε}

/-- What holds at the beginning, and after a visit if it held before, holds at every point. -/
theorem Visitor.Traces.forall_take {first : σ} {visits : List (Visit σ ε)}
    {good : List (Visit σ ε) → Prop} (h : visitor.Traces first visits) (hnil : good [])
    (hconcat : ∀ visits parentId node, good visits →
      good (visits ++ [⟨parentId, node, visitor parentId node (stateAfter first visits)⟩]))
    (point : Nat) : good (visits.take point) := by
  induction h generalizing point with
  | nil =>
    rw [List.take_nil]
    exact hnil
  | @concat visits h parentId node ih =>
    by_cases hpoint : point ≤ visits.length
    · rw [List.take_append_of_le_length hpoint]
      exact ih point
    · rw [List.take_of_length_le (by rw [List.length_append, List.length_singleton]; omega)]
      have hall := ih visits.length
      rw [List.take_length] at hall
      exact hconcat visits parentId node hall

/-- The recorded walk is the walk. -/
theorem Visitor.recorded_walkLevels (visitor : Visitor σ ε) (levels : Nat) (root : Node) (state : σ)
    (visits : List (Visit σ ε)) :
    (visitor.recorded.walkLevels levels root (state, visits)).value =
      (visitor.walkLevels levels root state).value ∧
    (visitor.recorded.walkLevels levels root (state, visits)).state.1 =
      (visitor.walkLevels levels root state).state ∧
    (visitor.recorded.walkLevels levels root (state, visits)).halt =
      (visitor.walkLevels levels root state).halt := by
  let comparison : Comparison σ (σ × List (Visit σ ε)) ε ε :=
    ⟨fun state recorded => recorded.1 = state, id, fun _ => False⟩
  have hvisit : ∀ (parentId : UInt8) (node : Node) (state : σ) (recorded : σ × List (Visit σ ε)),
      comparison.state state recorded →
      comparison.Holds (Node.relocate id) (visitor parentId node state)
        (visitor.recorded parentId (node.relocate id) recorded) := by
    rintro parentId node _ recorded rfl
    rw [relocate_id]
    exact .together (relocate_id _).symm rfl Option.map_id'.symm
  have hfirst : comparison.state state (state, visits) := rfl
  have hwalk := Comparison.holds_walkLevels hvisit levels root hfirst
  rw [relocate_id] at hwalk
  cases hwalk with
  | alone _ _ h => exact h.elim
  | together hvalue hstate hhalt =>
    rw [relocate_id] at hvalue
    exact ⟨hvalue, hstate, hhalt.trans Option.map_id'⟩

theorem Visitor.recorded_walk (root : Node) (state : σ) (visits : List (Visit σ ε)) :
    (visitor.recorded.walk root (state, visits)).value = (visitor.walk root state).value ∧
    (visitor.recorded.walk root (state, visits)).state.1 = (visitor.walk root state).state ∧
    (visitor.recorded.walk root (state, visits)).halt = (visitor.walk root state).halt :=
  visitor.recorded_walkLevels root.depth root state visits

/-- A recorded walk goes on with the record. -/
theorem Visitor.traces_walkLevels (levels : Nat) (root : Node) {first : σ}
    {recorded : σ × List (Visit σ ε)}
    (h : visitor.Traces first recorded.2 ∧ recorded.1 = stateAfter first recorded.2) :
    visitor.Traces first (visitor.recorded.walkLevels levels root recorded).state.2 ∧
      (visitor.recorded.walkLevels levels root recorded).state.1 =
        stateAfter first (visitor.recorded.walkLevels levels root recorded).state.2 := by
  let good : σ × List (Visit σ ε) → Prop := fun recorded =>
    visitor.Traces first recorded.2 ∧ recorded.1 = stateAfter first recorded.2
  suffices hvisit : ∀ parentId node recorded, good recorded →
      good (visitor.recorded parentId node recorded).state from
    Visitor.walkLevels_keeps hvisit levels root h
  intro parentId node recorded h
  have hnext := h.1.concat parentId node
  rw [← h.2] at hnext
  refine ⟨hnext, ?_⟩
  unfold Visitor.recorded
  rw [stateAfter_concat]

theorem Visitor.traces_walk (root : Node) {first : σ} {recorded : σ × List (Visit σ ε)}
    (h : visitor.Traces first recorded.2 ∧ recorded.1 = stateAfter first recorded.2) :
    visitor.Traces first (visitor.recorded.walk root recorded).state.2 ∧
      (visitor.recorded.walk root recorded).state.1 =
        stateAfter first (visitor.recorded.walk root recorded).state.2 :=
  Visitor.traces_walkLevels root.depth root h

end SoftMenu
