import Mathlib.Order.Bounds.Basic
import SoftMenu.Proofs.Names

/-!
# The grammar of display names

A name is read from left to right. `Spells` says which names are accepted; this module says what
becomes of all others. Some beginning of a name can always be written with segments, and the longest
one ends where no segment begins (`exists_stuck_rest`). What stands there decides the fault
(`faultAt?`), and the reader comes to the same place (`readSegments_of_stuck`), so that it reports
the leftmost fault (`explode_follows_grammar`).
-/

namespace SoftMenu

/-! ## Where reading stops -/

/-- The fault at the beginning of characters that no segment begins: a bracket that nothing closes,
a bracket that is closed at once, or a character that may not stand for itself. -/
def faultAt? : List Char → Option NameFault
  | [] => none
  | c :: rest =>
    if c = '<' ∧ '>' ∉ rest then some .missingClose
    else if c = '<' ∧ rest.head? = some '>' then some .emptyTag
    else some (.unsupported c)

/-- There are characters left, and no segment begins with them. -/
structure Stuck (chars : List Char) : Prop where
  ne_nil : chars ≠ []
  no_segment : ∀ segment rest, Segment.Legal segment → chars ≠ segment.chars ++ rest

/-- The first characters of a name, so many of them, can be written with segments. -/
def SpelledUpTo (name : List Char) (stop : Nat) : Prop :=
  stop ≤ name.length ∧ ∃ segments, Spells segments (name.take stop)

theorem Segment.chars_ne_nil (segment : Segment) : segment.chars ≠ [] := by
  cases segment with
  | letter c => exact List.cons_ne_nil c []
  | glyph tag => exact List.cons_ne_nil '<' (tag ++ ['>'])

/-- A reference that nothing closes is read to the end. -/
theorem readSegments_of_unclosed {chars : List Char} (h : '>' ∉ chars) (tag : List Char) :
    readSegments (some tag) chars = .error .missingClose := by
  induction chars generalizing tag with
  | nil => rfl
  | cons c chars ih =>
    obtain ⟨hc, hchars⟩ := List.ne_and_not_mem_of_not_mem_cons h
    rw [readSegments, if_neg hc.symm]
    exact ih hchars (c :: tag)

/-- Where no segment begins, reading fails with the fault that stands there. -/
theorem readSegments_of_stuck {chars : List Char} (h : Stuck chars) :
    ∃ fault, faultAt? chars = some fault ∧ readSegments none chars = .error fault := by
  cases chars with
  | nil => exact absurd rfl h.ne_nil
  | cons c chars =>
    have hplain : ¬ isPlain c = true := by
      intro hplain
      exact h.no_segment (.letter c) chars hplain rfl
    rw [readSegments, if_neg hplain, faultAt?]
    by_cases hopen : c = '<'
    · subst hopen
      by_cases hclose : '>' ∈ chars
      · obtain ⟨tag, rest, rfl, htag⟩ := List.eq_append_cons_of_mem hclose
        -- A tag between the brackets would make them a segment.
        have hempty : tag = [] := by
          by_contra hne
          refine h.no_segment (.glyph tag) rest ⟨hne, htag⟩ ?_
          simp [Segment.chars]
        subst hempty
        exact ⟨.emptyTag, by simp, rfl⟩
      · refine ⟨.missingClose, by simp [hclose], ?_⟩
        exact readSegments_of_unclosed hclose []
    · exact ⟨.unsupported c, by simp [hopen], if_neg hopen⟩

/-- Segments are taken off a name until none begins. -/
theorem exists_stuck_rest (name : List Char) :
    ∃ segments rest, Spells segments (segments.flatMap Segment.chars) ∧
      name = segments.flatMap Segment.chars ++ rest ∧ (rest = [] ∨ Stuck rest) := by
  induction hlength : name.length using Nat.strong_induction_on generalizing name with
  | _ length ih =>
    by_cases hsegment : ∃ segment rest, Segment.Legal segment ∧ name = segment.chars ++ rest
    · obtain ⟨segment, rest, hlegal, rfl⟩ := hsegment
      have hshorter : rest.length < length := by
        have hpos := List.length_pos_iff.2 segment.chars_ne_nil
        rw [List.length_append] at hlength
        omega
      obtain ⟨segments, left, hspells, rfl, hleft⟩ := ih rest.length hshorter rest rfl
      refine ⟨segment :: segments, left, hspells.cons hlegal, ?_, hleft⟩
      rw [List.flatMap_cons, List.append_assoc]
    · refine ⟨[], name, ⟨by simp, rfl⟩, rfl, ?_⟩
      by_cases hnil : name = []
      · exact Or.inl hnil
      · refine Or.inr ⟨hnil, ?_⟩
        intro segment rest hlegal heq
        exact hsegment ⟨segment, rest, hlegal, heq⟩

/-- Over what is written with segments, reading goes on to the rest. -/
theorem Spells.readSegments_append {segments : List Segment} {name : List Char}
    (h : Spells segments name) (rest : List Char) :
    SoftMenu.readSegments none (name ++ rest) =
      (SoftMenu.readSegments none rest).map (segments ++ ·) := by
  obtain ⟨hlegal, rfl⟩ := h
  induction segments with
  | nil =>
    show SoftMenu.readSegments none rest = _
    cases SoftMenu.readSegments none rest <;> rfl
  | cons segment segments ih =>
    obtain ⟨hsegment, hsegments⟩ := List.forall_mem_cons.1 hlegal
    rw [List.flatMap_cons, List.append_assoc, readSegments_chars_append hsegment, ih hsegments]
    cases SoftMenu.readSegments none rest <;> rfl

theorem Spells.unique {segments segments' : List Segment} {name : List Char}
    (h : Spells segments name) (h' : Spells segments' name) : segments = segments' :=
  Except.ok.inj (h.readSegments.symm.trans h'.readSegments)

/-- Nothing more can be written with segments than what comes before a place where none begins. -/
theorem isGreatest_spelledUpTo {segments : List Segment} {name rest : List Char}
    (h : Spells segments name) (hrest : rest = [] ∨ Stuck rest) :
    IsGreatest {stop | SpelledUpTo (name ++ rest) stop} name.length := by
  constructor
  · refine ⟨by simp, segments, ?_⟩
    rw [List.take_left]
    exact h
  · rintro stop ⟨hstop, longer, hlonger⟩
    rcases hrest with rfl | hstuck
    · rwa [List.append_nil] at hstop
    · -- A longer beginning is read as the segments before the place and some after it.
      by_contra hlt
      have htake : (name ++ rest).take stop = name ++ rest.take (stop - name.length) := by
        rw [List.take_append, List.take_of_length_le (by omega)]
      rw [htake] at hlonger
      have hread := hlonger.readSegments
      rw [h.readSegments_append, map_eq_ok_iff] at hread
      obtain ⟨more, hmore, -⟩ := hread
      have hspells : Spells more (rest.take (stop - name.length)) :=
        spells_of_readSegments hmore
      cases more with
      | nil =>
        have hempty : rest.take (stop - name.length) = [] := hspells.chars_eq.symm
        rcases List.take_eq_nil_iff.1 hempty with hzero | hnil
        · omega
        · exact hstuck.ne_nil hnil
      | cons segment more =>
        have hlegal := hspells.legal segment List.mem_cons_self
        have hsplit := List.take_append_drop (stop - name.length) rest
        rw [← hspells.chars_eq, List.flatMap_cons, List.append_assoc] at hsplit
        exact hstuck.no_segment segment _ hlegal hsplit.symm

/-! ## Names -/

/-- The characters of the token that stands for a segment: a letter or digit in quotes, or the bare
tag. -/
def Segment.token : Segment → List Char
  | .letter c => ['\'', c, '\'']
  | .glyph tag => tag

theorem Segment.toList_operand (segment : Segment) :
    segment.operand.toList = segment.token := by
  cases segment with
  | letter c => exact String.toList_ofList
  | glyph tag => exact String.toList_ofList

theorem segments?_eq_error_iff {name : String} {fault : NameFault} :
    segments? name = .error fault ↔
      ∃ stop, IsGreatest {stop | SpelledUpTo name.toList stop} stop ∧
        faultAt? (name.toList.drop stop) = some fault := by
  obtain ⟨segments, rest, hspells, hname, hrest⟩ := exists_stuck_rest name.toList
  have hgreatest := isGreatest_spelledUpTo hspells hrest
  have hread := hspells.readSegments_append rest
  rw [← hname] at hgreatest hread
  -- There is only one place where reading can stop, and the rest stands after it.
  have hplace : (∃ stop, IsGreatest {stop | SpelledUpTo name.toList stop} stop ∧
      faultAt? (name.toList.drop stop) = some fault) ↔ faultAt? rest = some fault := by
    constructor
    · rintro ⟨stop, hstop, hfault⟩
      obtain rfl := hstop.unique hgreatest
      rwa [hname, List.drop_left] at hfault
    · intro hfault
      refine ⟨_, hgreatest, ?_⟩
      rwa [hname, List.drop_left]
  rw [hplace, segments?, hread]
  rcases hrest with rfl | hstuck
  · exact iff_of_false (by simp [readSegments, Except.map]) (by simp [faultAt?])
  · obtain ⟨found, hfound, herror⟩ := readSegments_of_stuck hstuck
    rw [hfound, herror]
    simp [Except.map]

theorem Spells.exists_glyph_iff {segments : List Segment} {name : List Char}
    (h : Spells segments name) :
    ('<' ∈ name ∨ '>' ∈ name) ↔ ∃ tag, Segment.glyph tag ∈ segments := by
  rw [← h.chars_eq]
  simp only [List.mem_flatMap]
  constructor
  · intro hbracket
    obtain ⟨segment, hmem, hnot⟩ :
        ∃ segment ∈ segments, '<' ∈ segment.chars ∨ '>' ∈ segment.chars := by
      rcases hbracket with ⟨segment, hmem, hc⟩ | ⟨segment, hmem, hc⟩
      · exact ⟨segment, hmem, Or.inl hc⟩
      · exact ⟨segment, hmem, Or.inr hc⟩
    cases segment with
    | glyph tag => exact ⟨tag, hmem⟩
    | letter c =>
      have hplain : c.isAlphanum = true := h.legal _ hmem
      rcases hnot with hc | hc
      · obtain rfl := List.mem_singleton.1 hc
        exact absurd hplain (by decide)
      · obtain rfl := List.mem_singleton.1 hc
        exact absurd hplain (by decide)
  · rintro ⟨tag, htag⟩
    exact Or.inl ⟨.glyph tag, htag, List.mem_cons_self⟩

theorem DisplayName.isSpecial_iff {name : DisplayName} :
    name.isSpecial = true ↔ '<' ∈ name.text.toList ∨ '>' ∈ name.text.toList := by
  rw [isSpecial, List.any_eq_true]
  constructor
  · rintro ⟨c, hc, hbracket⟩
    rcases Bool.or_eq_true_iff.1 hbracket with hopen | hclose
    · exact Or.inl (of_decide_eq_true hopen ▸ hc)
    · exact Or.inr (of_decide_eq_true hclose ▸ hc)
  · rintro (hopen | hclose)
    · exact ⟨'<', hopen, rfl⟩
    · exact ⟨'>', hclose, rfl⟩

/-- A name is accepted exactly if it can be written with segments. They are the only ones that it
can be written with, and its tokens are theirs. Otherwise the fault is the one that stands after the
longest beginning that can be written with segments. An accepted name has an angle bracket exactly
if one of its segments refers to a glyph. -/
theorem explode_follows_grammar (name : String) :
    (∀ operands, explode name = .ok operands ↔ ∃ segments, Spells segments name.toList ∧
      operands.map String.toList = segments.map Segment.token) ∧
    (∀ segments segments', Spells segments name.toList → Spells segments' name.toList →
      segments = segments') ∧
    (∀ fault, explode name = .error fault ↔
      ∃ stop, IsGreatest {stop | SpelledUpTo name.toList stop} stop ∧
        faultAt? (name.toList.drop stop) = some fault) ∧
    ∀ segments, Spells segments name.toList →
      (('<' ∈ name.toList ∨ '>' ∈ name.toList) ↔ ∃ tag, Segment.glyph tag ∈ segments) ∧
      ((DisplayName.mk name none).isSpecial = true ↔ ∃ tag, Segment.glyph tag ∈ segments) := by
  refine ⟨fun operands => ?_, fun _ _ h h' => h.unique h', fun fault => ?_, fun segments h => ?_⟩
  · have htokens : ∀ segments : List Segment, segments.map Segment.operand = operands ↔
        operands.map String.toList = segments.map Segment.token := by
      intro segments
      have hmap : segments.map Segment.token =
          (segments.map Segment.operand).map String.toList := by
        rw [List.map_map]
        exact List.map_congr_left fun segment _ => segment.toList_operand.symm
      rw [hmap, List.map_inj_right fun _ _ => String.toList_inj.1]
      exact eq_comm
    rw [explode, map_eq_ok_iff]
    simp only [segments?_eq_ok_iff, htokens]
  · rw [← segments?_eq_error_iff, explode]
    cases segments? name <;> simp [Except.map]
  · exact ⟨h.exists_glyph_iff, DisplayName.isSpecial_iff.trans h.exists_glyph_iff⟩

/-- A bracket within a tag belongs to the tag, and of several faults the first is reported. -/
example : explode "é<" = .error (.unsupported 'é') ∧ explode "x<a<é>2" = .ok ["'x'", "a<é", "'2'"] ∧
    explode "A<><" = .error .emptyTag ∧ explode "A<B" = .error .missingClose := by
  decide +kernel

end SoftMenu
