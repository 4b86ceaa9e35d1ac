import Mathlib.Data.List.Forall2
import Mathlib.Data.List.Lex
import SoftMenu.Proofs.ErrorPlaces
import SoftMenu.Proofs.Spots
import SoftMenu.Proofs.WordRuns

/-!
# The order of nodes in the text

Nodes are declared in the order of their paths (`before_of_lt`), where paths are compared number by
number. The hybrid order is not quite the same: a slot comes before all that is below the other
slots of its group, also below those that are declared before it. This is the only difference
(`Node.lt_or_overtakes_spots`).
-/

namespace SoftMenu

open scoped List

/-! ## Paths in hybrid order -/

/-- The second path leads below an earlier slot of the group that the first one leads to a slot
of. -/
def Overtakes (first second : List Nat) : Prop :=
  ∃ group i j below, first = group ++ [i] ∧ second = group ++ j :: below ∧ below ≠ [] ∧ j < i

theorem Overtakes.cons {first second : List Nat} (h : Overtakes first second) (k : Nat) :
    Overtakes (k :: first) (k :: second) := by
  obtain ⟨group, i, j, below, rfl, rfl, hbelow, hlt⟩ := h
  exact ⟨k :: group, i, j, below, rfl, rfl, hbelow, hlt⟩

theorem Overtakes.lt {first second : List Nat} (h : Overtakes first second) : second < first := by
  obtain ⟨group, i, j, below, rfl, rfl, -, hlt⟩ := h
  induction group with
  | nil => exact List.cons_lt_cons_iff.2 (Or.inl hlt)
  | cons k group ih => exact List.cons_lt_cons_iff.2 (Or.inr ⟨rfl, ih⟩)

theorem Node.lt_or_overtakes_spotsBelow (node : Node) :
    node.spotsBelow.Pairwise fun first second =>
      first.1 < second.1 ∨ Overtakes first.1 second.1 := by
  induction node using Node.slotInduction with
  | step node ih =>
    have hnumbers : node.slots.zipIdx.Pairwise fun first second => first.2 < second.2 := by
      refine List.pairwise_map.1 ?_
      rw [List.zipIdx_map_snd]
      exact List.pairwise_lt_range'
    rw [Node.spotsBelow_eq, List.pairwise_append]
    refine ⟨?_, ?_, ?_⟩
    · refine List.pairwise_map.2 (hnumbers.imp fun hlt => ?_)
      exact Or.inl (List.cons_lt_cons_iff.2 (Or.inl hlt))
    · rw [List.pairwise_flatMap]
      constructor
      · rintro ⟨slot, k⟩ hslot
        have hmem : slot ∈ node.slots :=
          List.mem_of_getElem? (List.mem_zipIdx_iff_getElem?.1 hslot)
        refine List.pairwise_map.2 ((ih slot hmem).imp ?_)
        rintro first second (hlt | hovertakes)
        · exact Or.inl (List.cons_lt_cons_iff.2 (Or.inr ⟨rfl, hlt⟩))
        · exact Or.inr (hovertakes.cons k)
      · refine hnumbers.imp ?_
        intro first second hlt spot hspot spot' hspot'
        obtain ⟨below, -, rfl⟩ := List.mem_map.1 hspot
        obtain ⟨below', -, rfl⟩ := List.mem_map.1 hspot'
        exact Or.inl (List.cons_lt_cons_iff.2 (Or.inl hlt))
    · -- A slot against a node below a slot: only here the numbers may go down.
      intro spot hspot spot' hspot'
      obtain ⟨⟨slot, i⟩, -, rfl⟩ := List.mem_map.1 hspot
      obtain ⟨⟨slot', j⟩, -, hspot'⟩ := List.mem_flatMap.1 hspot'
      obtain ⟨⟨below, found⟩, hmem, rfl⟩ := List.mem_map.1 hspot'
      have hbelow : below ≠ [] := by
        rintro rfl
        exact slot'.nil_notMem_spotsBelow found hmem
      rcases Nat.lt_trichotomy i j with hlt | rfl | hlt
      · exact Or.inl (List.cons_lt_cons_iff.2 (Or.inl hlt))
      · refine Or.inl (List.cons_lt_cons_iff.2 (Or.inr ⟨rfl, ?_⟩))
        obtain ⟨k, rest, rfl⟩ := List.exists_cons_of_ne_nil hbelow
        exact List.nil_lt_cons k rest
      · exact Or.inr ⟨[], i, j, below, rfl, rfl, hbelow, hlt⟩

theorem Node.lt_or_overtakes_spots (root : Node) :
    root.spots.Pairwise fun first second =>
      first.1 < second.1 ∨ Overtakes first.1 second.1 := by
  refine List.pairwise_cons.2 ⟨fun spot hspot => Or.inl ?_, root.lt_or_overtakes_spotsBelow⟩
  obtain ⟨path, found⟩ := spot
  cases path with
  | nil => exact absurd hspot (root.nil_notMem_spotsBelow found)
  | cons k path => exact List.nil_lt_cons k path

/-! ## Paths in the order of declaration -/

theorem pair_sublist_append {α : Type} {a b : α} {first second : List α} (ha : a ∈ first)
    (hb : b ∈ second) : [a, b] <+ first ++ second :=
  (List.singleton_sublist.2 ha).append (List.singleton_sublist.2 hb)

theorem Node.mem_nodes_of_at? {root found : Node} {path : List Nat}
    (h : root.at? path = some found) : found ∈ root.nodes := by
  rw [← Node.mem_flatten_iff, ← Node.map_snd_spots]
  exact List.mem_map_of_mem (f := Prod.snd) (Node.mem_spots_iff.2 h)

/-- Of two nodes the one with the smaller path is declared first. -/
theorem Node.sublist_nodes_of_lt {root a b : Node} {first second : List Nat}
    (ha : root.at? first = some a) (hb : root.at? second = some b) (hlt : first < second) :
    [a, b] <+ root.nodes := by
  induction first generalizing root second with
  | nil =>
    obtain rfl : root = a := Option.some.inj ha
    cases second with
    | nil => exact absurd hlt (List.lt_irrefl [])
    | cons j second =>
      obtain ⟨slot, hslot, hb⟩ := Node.at?_cons_eq_some_iff.1 hb
      rw [Node.nodes_eq]
      refine List.Sublist.cons_cons root (List.singleton_sublist.2 (List.mem_flatMap.2 ?_))
      exact ⟨slot, List.mem_of_getElem? hslot, Node.mem_nodes_of_at? hb⟩
  | cons i first ih =>
    cases second with
    | nil => exact absurd hlt (List.not_lt_nil _)
    | cons j second =>
      obtain ⟨slot, hslot, ha⟩ := Node.at?_cons_eq_some_iff.1 ha
      obtain ⟨slot', hslot', hb⟩ := Node.at?_cons_eq_some_iff.1 hb
      rw [Node.nodes_eq]
      refine List.Sublist.cons root ?_
      rcases List.cons_lt_cons_iff.1 hlt with hij | ⟨rfl, hbelow⟩
      · -- The first one is below the slots before the slot `j`, the second one is not.
        have hbefore : slot ∈ root.slots.take j := by
          refine List.mem_of_getElem? (i := i) ?_
          rw [List.getElem?_take_of_lt hij, hslot]
        have hafter : slot' ∈ root.slots.drop j := by
          refine List.mem_of_getElem? (i := 0) ?_
          rw [List.getElem?_drop, Nat.add_zero, hslot']
        rw [← List.take_append_drop j root.slots, List.flatMap_append]
        apply pair_sublist_append
        · exact List.mem_flatMap.2 ⟨slot, hbefore, Node.mem_nodes_of_at? ha⟩
        · exact List.mem_flatMap.2 ⟨slot', hafter, Node.mem_nodes_of_at? hb⟩
      · obtain rfl := Option.some.inj (hslot.symm.trans hslot')
        obtain ⟨before, after, hslots⟩ := List.append_of_mem (List.mem_of_getElem? hslot)
        refine (ih ha hb hbelow).trans ?_
        rw [hslots, List.flatMap_append, List.flatMap_cons]
        exact (List.sublist_append_left _ _).trans (List.sublist_append_right _ _)

/-! ## Keywords in the text -/

/-- The keyword of a node, at its place. -/
def Node.keyword (node : Node) : DeclaredWord := ⟨node.kind.keyword, some node.place⟩

theorem keywords_sublist_slots {slots : List Node}
    (h : ∀ slot ∈ slots, slot.nodes.map Node.keyword <+ slot.declaration) :
    (slots.flatMap Node.nodes).map Node.keyword <+ declarationOfSlots slots := by
  induction slots with
  | nil => exact List.Sublist.slnil
  | cons slot slots ih =>
    rw [List.forall_mem_cons] at h
    rw [List.flatMap_cons, List.map_append, declarationOfSlots]
    exact h.1.append (ih h.2)

theorem keywords_sublist_rows {rows : List (Row Node)}
    (h : ∀ slot ∈ rows.flatMap Row.slots, slot.nodes.map Node.keyword <+ slot.declaration) :
    ((rows.flatMap Row.slots).flatMap Node.nodes).map Node.keyword <+ declarationOfRows rows := by
  induction rows with
  | nil => exact List.Sublist.slnil
  | cons row rows ih =>
    rw [List.flatMap_cons, List.forall_mem_append] at h
    have hrow : (row.slots.flatMap Node.nodes).map Node.keyword <+ declarationOfRow row := by
      rw [declarationOfRow_eq]
      exact (((keywords_sublist_slots h.1).trans (List.sublist_append_left _ _)).cons _).cons _
    rw [List.flatMap_cons, List.flatMap_append, List.map_append, declarationOfRows]
    exact hrow.append (ih h.2)

/-- The declaration of a tree has the keywords of its nodes in the order of declaration. -/
theorem Node.keywords_sublist (node : Node) : node.nodes.map Node.keyword <+ node.declaration := by
  induction node using Node.slotInduction with
  | step node ih =>
    rw [Node.nodes_eq, List.map_cons]
    cases node with
    | item info => exact (List.nil_sublist _).cons_cons _
    | altItem info altName => exact (List.nil_sublist _).cons_cons _
    | group info rows =>
      have hrows := (keywords_sublist_rows ih).trans
        (List.sublist_append_left (declarationOfRows rows) [⟨"]", none⟩])
      exact (((hrows.cons _).cons _).cons _).cons_cons _

theorem exists_sublist_of_forall₂ {α β : Type} {R : α → β → Prop} {part all : List α}
    {others : List β} (hpart : part <+ all) (h : List.Forall₂ R all others) :
    ∃ found, found <+ others ∧ List.Forall₂ R part found := by
  induction hpart generalizing others with
  | slnil => exact ⟨[], List.nil_sublist _, .nil⟩
  | cons first _ ih =>
    obtain ⟨other, others, -, hrest, rfl⟩ := List.forall₂_cons_left_iff.1 h
    obtain ⟨found, hfound, hall⟩ := ih hrest
    exact ⟨found, hfound.cons other, hall⟩
  | cons_cons first _ ih =>
    obtain ⟨other, others, hfirst, hrest, rfl⟩ := List.forall₂_cons_left_iff.1 h
    obtain ⟨found, hfound, hall⟩ := ih hrest
    exact ⟨other :: found, hfound.cons_cons other, .cons hfirst hall⟩

/-! ## Places in the text -/

/-- What stands at the first place ends before what stands at the second begins. -/
structure Place.Before (first second : Place) : Prop where
  stop_lt : first.span.stop < second.span.start
  line_le : first.line ≤ second.line

theorem pairwise_before_tokenize (source : String) :
    (tokenize source).Pairwise fun first second => first.place.Before second.place := by
  obtain ⟨runs, hwords, hruns⟩ := exists_runs_tokenize source
  rw [hwords, List.pairwise_map]
  refine hruns.ordered.imp_of_mem fun {first second} hfirst hsecond hlt => ?_
  have hrun := ((hruns.mem_iff second.1 second.2).1 hsecond).2
  have hlength := (hrun.ink second.1 (Nat.le_refl _) hrun.lt).lt_length
  have hstart := (((hruns.mem_iff first.1 first.2).1 hfirst).2).lt
  constructor
  · exact byteLength_take_lt (by omega) hlt
  · show 1 + _ ≤ 1 + _
    exact Nat.add_le_add_left
      ((List.take_sublist_take_left (by omega : first.1 ≤ second.1)).count_le '\n') 1

theorem start_lt_stop_of_mem_tokenize {source : String} {token : Token}
    (h : token ∈ tokenize source) : token.place.span.start < token.place.span.stop := by
  obtain ⟨runs, hwords, hruns⟩ := exists_runs_tokenize source
  rw [hwords] at h
  obtain ⟨run, hrun, rfl⟩ := List.mem_map.1 h
  have hrun := ((hruns.mem_iff run.1 run.2).1 hrun).2
  exact byteLength_take_lt (hrun.ink run.1 (Nat.le_refl _) hrun.lt).lt_length hrun.lt

section Parsed

variable {source : String} {parsed : Parsed} {first second : List Nat} {a b : Node}

theorem start_lt_stop_of_parse (h : parse source = .ok parsed) {node : Node}
    (hnode : node ∈ parsed.file.root.flatten) : node.place.span.start < node.place.span.stop := by
  obtain ⟨token, htoken, -, hplace⟩ := (all_declared_of_parse h node hnode).node
  have hlt := start_lt_stop_of_mem_tokenize htoken
  rwa [hplace] at hlt

/-- Of two nodes that have been read, the one with the smaller path stands first in the text. -/
theorem before_of_lt (h : parse source = .ok parsed)
    (ha : parsed.file.root.at? first = some a) (hb : parsed.file.root.at? second = some b)
    (hlt : first < second) : a.place.Before b.place := by
  obtain ⟨tree, hwords, -⟩ := words_of_parse h
  obtain ⟨parsed', hparsed', -, before, after, hsplit, -, hdeclared⟩ := parse_of_words hwords
  obtain rfl := Except.ok.inj (h.symm.trans hparsed')
  have hkeywords : [a.keyword, b.keyword] <+ parsed.file.root.declaration :=
    ((Node.sublist_nodes_of_lt ha hb hlt).map Node.keyword).trans
      parsed.file.root.keywords_sublist
  obtain ⟨found, hfound, hmatching⟩ := exists_sublist_of_forall₂ hkeywords hdeclared.matching
  obtain ⟨token, rest, hfirst, hrest, rfl⟩ := List.forall₂_cons_left_iff.1 hmatching
  obtain ⟨token', rest, hsecond, hend, rfl⟩ := List.forall₂_cons_left_iff.1 hrest
  obtain rfl := List.forall₂_nil_left_iff.1 hend
  have htokens : [token, token'] <+ tokenize source := by
    rw [hsplit]
    exact hfound.trans (List.sublist_append_right _ _)
  have hbefore := List.pairwise_pair.1 ((pairwise_before_tokenize source).sublist htokens)
  rwa [hfirst.2 a.place rfl, hsecond.2 b.place rfl] at hbefore

theorem before_iff_lt (h : parse source = .ok parsed)
    (ha : parsed.file.root.at? first = some a) (hb : parsed.file.root.at? second = some b) :
    a.place.Before b.place ↔ first < second := by
  have hspan : a.place.span.start < a.place.span.stop :=
    start_lt_stop_of_parse h (Node.mem_flatten_iff.2 (Node.mem_nodes_of_at? ha))
  have hspan' : b.place.span.start < b.place.span.stop :=
    start_lt_stop_of_parse h (Node.mem_flatten_iff.2 (Node.mem_nodes_of_at? hb))
  refine ⟨fun hbefore => ?_, before_of_lt h ha hb⟩
  have hstop := hbefore.stop_lt
  rcases lt_trichotomy first second with hlt | rfl | hlt
  · exact hlt
  · obtain rfl := Option.some.inj (ha.symm.trans hb)
    omega
  · have hback := (before_of_lt h hb ha hlt).stop_lt
    omega

/-- No two nodes that have been read have the same span. -/
theorem path_eq_of_span_eq (h : parse source = .ok parsed)
    (ha : parsed.file.root.at? first = some a) (hb : parsed.file.root.at? second = some b)
    (hspan : a.place.span = b.place.span) : first = second := by
  have hnonempty : b.place.span.start < b.place.span.stop :=
    start_lt_stop_of_parse h (Node.mem_flatten_iff.2 (Node.mem_nodes_of_at? hb))
  rcases lt_trichotomy first second with hlt | heq | hlt
  · have hstop := (before_of_lt h ha hb hlt).stop_lt
    rw [hspan] at hstop
    omega
  · exact heq
  · have hstop := (before_of_lt h hb ha hlt).stop_lt
    rw [hspan] at hstop
    omega

end Parsed

end SoftMenu
