import Mathlib.Data.List.Basic
import Mathlib.Order.Basic
import SoftMenu.Token

/-!
# Where words stand

The offsets of a word are counted while its line is cut, and the offset and the number of the line
while the text is cut. Together they are right (`standsIn_of_mem_tokenize`): the text can be split
in three such that the word is the middle part, its offsets are those of the middle part in bytes,
and its line is one more than the number of newlines in the first part. So the span of a word lies
within the text and does not cut a character (`Token.StandsIn.within`).
-/

namespace SoftMenu

/-! ## Bytes -/

@[simp] theorem byteLength_nil : byteLength [] = 0 := rfl

@[simp] theorem byteLength_cons (c : Char) (chars : List Char) :
    byteLength (c :: chars) = c.utf8Size + byteLength chars := rfl

@[simp] theorem byteLength_append (first second : List Char) :
    byteLength (first ++ second) = byteLength first + byteLength second := by
  induction first with
  | nil => simp
  | cons c first ih => simp [ih, Nat.add_assoc]

@[simp] theorem byteLength_reverse (chars : List Char) :
    byteLength chars.reverse = byteLength chars := by
  induction chars with
  | nil => rfl
  | cons c chars ih => simp [ih, Nat.add_comm]

theorem byteLength_eq_zero_iff {chars : List Char} : byteLength chars = 0 ↔ chars = [] := by
  cases chars with
  | nil => simp
  | cons c chars =>
    have hpos := c.utf8Size_pos
    simp only [byteLength_cons, reduceCtorEq, iff_false]
    omega

theorem utf8ByteSize_ofList (chars : List Char) :
    (String.ofList chars).utf8ByteSize = byteLength chars := by
  induction chars with
  | nil => rfl
  | cons c chars ih =>
    rw [String.ofList_cons, String.utf8ByteSize_append, String.utf8ByteSize_singleton, ih]
    rfl

theorem byteLength_toList (text : String) : byteLength text.toList = text.utf8ByteSize := by
  rw [← utf8ByteSize_ofList, String.ofList_toList]

/-! ## Lines -/

/-- A line that is cut off is a part of the text; its offset counts the bytes before it, and its
number the newlines before it. -/
theorem split_of_mem_placeLines {number offset : Nat} {chars : List Char} {line : SourceLine}
    (h : line ∈ placeLines number offset (cutLines chars)) :
    ∃ before after, chars = before ++ line.chars ++ after ∧
      line.offset = offset + byteLength before ∧ line.number = number + before.count '\n' ∧
      '\n' ∉ line.chars := by
  induction chars generalizing number offset line with
  | nil => cases h
  | cons c chars ih =>
    rw [cutLines] at h
    split_ifs at h with hc
    · subst hc
      rcases List.mem_cons.1 h with rfl | h
      · exact ⟨[], '\n' :: chars, rfl, rfl, rfl, List.not_mem_nil⟩
      · obtain ⟨before, after, rfl, hoffset, hnumber, hnewline⟩ := ih h
        have hsize : Char.utf8Size '\n' = 1 := rfl
        refine ⟨'\n' :: before, after, rfl, ?_, ?_, hnewline⟩
        · rw [hoffset, byteLength_cons, byteLength_nil, hsize]
          omega
        · rw [hnumber, List.count_cons_self]
          omega
    · cases hcut : cutLines chars with
      | nil =>
        rw [hcut] at h
        obtain rfl := List.mem_singleton.1 h
        exact ⟨[], chars, rfl, rfl, rfl, by simpa using Ne.symm hc⟩
      | cons first lines =>
        rw [hcut] at h
        rcases List.mem_cons.1 h with rfl | h
        · -- Nothing stands before the first line of the rest.
          have hfirst : ⟨number, offset, first⟩ ∈ placeLines number offset (cutLines chars) := by
            rw [hcut]
            exact List.mem_cons_self
          obtain ⟨before, after, hchars, hoffset, -, hnewline⟩ := ih hfirst
          obtain rfl : before = [] := byteLength_eq_zero_iff.1 (Nat.left_eq_add.1 hoffset)
          refine ⟨[], after, by rw [hchars]; rfl, rfl, rfl, ?_⟩
          simpa [Ne.symm hc] using hnewline
        · have hrest : line ∈ placeLines number (offset + c.utf8Size) (cutLines chars) := by
            rw [hcut, placeLines]
            refine List.mem_cons_of_mem _ ?_
            rwa [Nat.add_assoc offset, ← byteLength_cons]
          obtain ⟨before, after, rfl, hoffset, hnumber, hnewline⟩ := ih hrest
          refine ⟨c :: before, after, rfl, ?_, ?_, hnewline⟩
          · rw [hoffset, byteLength_cons, Nat.add_assoc]
          · rw [hnumber, List.count_cons_of_ne hc]

theorem cutLines_append {line : List Char} (h : '\n' ∉ line) (rest : List Char) :
    cutLines (line ++ '\n' :: rest) = line :: cutLines rest := by
  induction line with
  | nil => simp [cutLines]
  | cons c line ih =>
    rw [List.mem_cons, not_or] at h
    rw [List.cons_append, cutLines, if_neg (Ne.symm h.1), ih h.2]

theorem length_cutLines {chars : List Char} (h : chars ≠ []) :
    (cutLines chars).length = 1 + chars.dropLast.count '\n' := by
  induction chars with
  | nil => exact absurd rfl h
  | cons c chars ih =>
    cases chars with
    | nil =>
      rw [cutLines]
      split_ifs <;> rfl
    | cons d chars =>
      have hrest := ih (List.cons_ne_nil d chars)
      rw [cutLines, List.dropLast_cons_of_ne_nil (List.cons_ne_nil d chars)]
      split_ifs with hc
      · rw [hc, List.length_cons, List.count_cons_self, hrest, Nat.add_assoc]
      · rw [List.count_cons_of_ne hc, ← hrest]
        cases hcut : cutLines (d :: chars) with
        | nil =>
          rw [hcut, List.length_nil] at hrest
          omega
        | cons first lines => rfl

theorem length_placeLines (number offset : Nat) (lines : List (List Char)) :
    (placeLines number offset lines).length = lines.length := by
  induction lines generalizing number offset with
  | nil => rfl
  | cons line lines ih => rw [placeLines, List.length_cons, List.length_cons, ih]

/-- The last line of a text is one more than the number of newlines with something after them. -/
theorem lastLine_eq (source : String) :
    lastLine source = 1 + source.toList.dropLast.count '\n' := by
  rw [lastLine, sourceLines, length_placeLines]
  by_cases h : source.toList = []
  · rw [h]
    rfl
  · rw [length_cutLines h]
    omega

/-! ## Words -/

/-- The word is a part of these characters of a line, the first of which stands at the offset
`base`. -/
def Token.CutFrom (token : Token) (line base : Nat) (chars : List Char) : Prop :=
  ∃ before after, chars = before ++ token.text.toList ++ after ∧
    token.place = ⟨line, base + byteLength before,
      base + byteLength before + byteLength token.text.toList⟩

theorem cutFrom_of_mem_closeWord {line base : Nat} {word : List Char} {token : Token}
    (h : token ∈ closeWord line (base + byteLength word) word) (rest : List Char) :
    token.CutFrom line base (word.reverse ++ rest) := by
  rw [closeWord] at h
  split_ifs at h
  · cases h
  · obtain rfl := List.mem_singleton.1 h
    refine ⟨[], rest, by simp, ?_⟩
    rw [String.toList_ofList, byteLength_reverse, Nat.add_sub_cancel]
    rfl

theorem cutFrom_of_mem_cutWords {line base : Nat} {word chars : List Char} {token : Token}
    (h : token ∈ cutWords line (base + byteLength word) word chars) :
    token.CutFrom line base (word.reverse ++ chars) := by
  -- The word that has begun is a part as well, so that the parts always begin at `base`.
  induction chars generalizing base word with
  | nil => exact cutFrom_of_mem_closeWord h []
  | cons c chars ih =>
    rw [cutWords] at h
    split_ifs at h
    · rcases List.mem_append.1 h with h | h
      · exact cutFrom_of_mem_closeWord h (c :: chars)
      · have hrest : token ∈ cutWords line (base + byteLength word + c.utf8Size + byteLength []) []
            chars := h
        obtain ⟨before, after, hchars, hplace⟩ := ih hrest
        rw [List.reverse_nil, List.nil_append] at hchars
        refine ⟨word.reverse ++ c :: before, after, by simp [hchars], ?_⟩
        rw [hplace, byteLength_append, byteLength_reverse, byteLength_cons]
        simp only [Nat.add_assoc]
    · have hrest : token ∈ cutWords line (base + byteLength (c :: word)) (c :: word) chars := by
        rwa [byteLength_cons, Nat.add_comm c.utf8Size, ← Nat.add_assoc]
      have hword := ih hrest
      rwa [List.reverse_cons, List.append_assoc] at hword

theorem text_ne_empty_of_mem_cutWords {line offset : Nat} {word chars : List Char} {token : Token}
    (h : token ∈ cutWords line offset word chars) : token.text ≠ "" := by
  have hclose : ∀ {stop : Nat} {word : List Char},
      ∀ token ∈ closeWord line stop word, token.text ≠ "" := by
    intro stop word token htoken hempty
    rw [closeWord] at htoken
    split_ifs at htoken with hnil
    · cases htoken
    · obtain rfl := List.mem_singleton.1 htoken
      have hchars := congrArg String.toList hempty
      rw [String.toList_ofList] at hchars
      exact hnil (List.reverse_eq_nil_iff.1 hchars)
  induction chars generalizing offset word with
  | nil => exact hclose token h
  | cons c chars ih =>
    rw [cutWords] at h
    split_ifs at h
    · rcases List.mem_append.1 h with h | h
      · exact hclose token h
      · exact ih h
    · exact ih h

/-- No word is empty. -/
theorem text_ne_empty_of_mem_tokenize {source : String} {token : Token}
    (h : token ∈ tokenize source) : token.text ≠ "" := by
  obtain ⟨line, -, htoken⟩ := List.mem_flatMap.1 h
  exact text_ne_empty_of_mem_cutWords htoken

/-- The text can be split such that the word is the middle part, at its place. -/
def Token.StandsIn (token : Token) (source : String) : Prop :=
  ∃ before after, source.toList = before ++ token.text.toList ++ after ∧
    token.place = ⟨1 + before.count '\n', byteLength before,
      byteLength before + byteLength token.text.toList⟩

/-- Every word of a text stands where its place says. -/
theorem standsIn_of_mem_tokenize {source : String} {token : Token} (h : token ∈ tokenize source) :
    token.StandsIn source := by
  obtain ⟨line, hline, htoken⟩ := List.mem_flatMap.1 h
  obtain ⟨before, after, hsource, hoffset, hnumber, hnewline⟩ := split_of_mem_placeLines hline
  have hword : token ∈ cutWords line.number (line.offset + byteLength []) [] line.code := htoken
  obtain ⟨left, right, hcode, hplace⟩ := cutFrom_of_mem_cutWords hword
  rw [List.reverse_nil, List.nil_append] at hcode
  obtain ⟨comment, hcomment⟩ : ∃ comment, line.chars = line.code ++ comment :=
    ⟨_, List.takeWhile_append_dropWhile.symm⟩
  rw [hcode] at hcomment
  have hleft : left.count '\n' = 0 := by
    rw [List.count_eq_zero]
    intro hmem
    rw [hcomment, List.append_assoc, List.append_assoc] at hnewline
    exact hnewline (List.mem_append_left _ hmem)
  refine ⟨before ++ left, right ++ comment ++ after, ?_, ?_⟩
  · rw [hsource, hcomment]
    simp only [List.append_assoc]
  · rw [hplace, hoffset, hnumber, List.count_append, hleft, byteLength_append, Nat.zero_add]
    rfl

/-! ## Spans -/

/-- The span lies within the text and does not cut a character. -/
structure Span.Within (span : Span) (source : String) : Prop where
  start_le_stop : span.start ≤ span.stop
  stop_le : span.stop ≤ source.utf8ByteSize
  isValid_start : String.Pos.Raw.IsValid source ⟨span.start⟩
  isValid_stop : String.Pos.Raw.IsValid source ⟨span.stop⟩

/-- There is a boundary between two characters wherever a text can be split. -/
theorem isValid_of_split {source : String} {before after : List Char}
    (h : source.toList = before ++ after) :
    String.Pos.Raw.IsValid source ⟨byteLength before⟩ := by
  rw [String.Pos.Raw.isValid_iff_exists_append]
  refine ⟨String.ofList before, String.ofList after, ?_, ?_⟩
  · rw [← String.ofList_append, ← h, String.ofList_toList]
  · rw [← utf8ByteSize_ofList]
    rfl

theorem Token.StandsIn.within {token : Token} {source : String} (h : token.StandsIn source) :
    token.place.span.Within source := by
  obtain ⟨before, after, hsource, hplace⟩ := h
  have hsize := byteLength_toList source
  rw [hsource, byteLength_append, byteLength_append] at hsize
  rw [hplace]
  refine ⟨?_, ?_, ?_, ?_⟩
  · exact Nat.le_add_right _ _
  · show byteLength before + byteLength token.text.toList ≤ _
    omega
  · rw [List.append_assoc] at hsource
    exact isValid_of_split hsource
  · have hstop := isValid_of_split hsource
    rwa [byteLength_append] at hstop

theorem within_empty (source : String) : (Span.empty source.utf8ByteSize).Within source :=
  ⟨Nat.le_refl _, Nat.le_refl _, String.Pos.Raw.isValid_rawEndPos, String.Pos.Raw.isValid_rawEndPos⟩

/-- A span within a text is not clamped. -/
theorem Span.Within.clamp_eq {span : Span} {source : String} (h : span.Within source) :
    span.clamp source.utf8ByteSize = span := by
  obtain ⟨start, stop⟩ := span
  have hle := h.start_le_stop
  have hstop := h.stop_le
  simp only [Span.clamp, Span.mk.injEq] at hle hstop ⊢
  omega

end SoftMenu
