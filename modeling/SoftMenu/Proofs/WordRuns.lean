import SoftMenu.Proofs.Positions

/-!
# The words of a text are its runs of ink

A text is cut into lines, comments are cut off, and the rest of each line is cut at white space.
What comes out can be said of the text as a whole: a character is ink (`InkAt`) if it is no white
space and no part of a comment, and a word is a run of ink that cannot be made longer (`IsRun`).

To compare the two, the words are gathered in one pass over the whole text (`wordsFrom`). The pass
gives what cutting the text into lines gives (`tokenize_eq_wordsFrom`), and it finds the runs from
left to right (`exists_runs`).
-/

namespace SoftMenu

/-! ## Ink -/

/-- The character with the given index stands at or after a `#` on its own line. -/
def Commented (chars : List Char) (k : Nat) : Prop :=
  ∃ m ≤ k, chars[m]? = some '#' ∧ ∀ l, m ≤ l → l ≤ k → chars[l]? ≠ some '\n'

/-- The character with the given index is no white space, and no part of a comment. -/
def InkAt (chars : List Char) (k : Nat) : Prop :=
  ∃ c, chars[k]? = some c ∧ isWhiteSpace c = false ∧ ¬ Commented chars k

/-- The characters from one index up to another are ink, and those next to them are not. -/
structure IsRun (chars : List Char) (start stop : Nat) : Prop where
  lt : start < stop
  ink : ∀ k, start ≤ k → k < stop → InkAt chars k
  left : ∀ k, start = k + 1 → ¬ InkAt chars k
  right : ¬ InkAt chars stop

/-- The word between two indices. -/
def wordBetween (chars : List Char) (run : Nat × Nat) : Token where
  text := String.ofList ((chars.take run.2).drop run.1)
  place := ⟨1 + (chars.take run.1).count '\n', byteLength (chars.take run.1),
    byteLength (chars.take run.2)⟩

/-- Whether some characters end within a comment. -/
def endsInComment (chars : List Char) : Bool :=
  chars.foldl (fun inside c => c = '#' || inside && c ≠ '\n') false

theorem endsInComment_concat (chars : List Char) (c : Char) :
    endsInComment (chars ++ [c]) = (c = '#' || endsInComment chars && c ≠ '\n') := by
  rw [endsInComment, List.foldl_append]
  rfl

/-- Whether a character is ink that comes after some others. -/
def isInk (before : List Char) (c : Char) : Bool :=
  !isWhiteSpace c && !endsInComment (before ++ [c])

theorem commented_of_hash {chars : List Char} {k : Nat} (h : chars[k]? = some '#') :
    Commented chars k := by
  refine ⟨k, Nat.le_refl k, h, fun l hl hk => ?_⟩
  obtain rfl : l = k := by omega
  rw [h]
  decide

theorem commented_zero_iff {chars : List Char} : Commented chars 0 ↔ chars[0]? = some '#' := by
  constructor
  · rintro ⟨m, hm, hhash, -⟩
    obtain rfl : m = 0 := by omega
    exact hhash
  · exact commented_of_hash

theorem commented_succ_iff {chars : List Char} {k : Nat} : Commented chars (k + 1) ↔
    chars[k + 1]? = some '#' ∨ (Commented chars k ∧ chars[k + 1]? ≠ some '\n') := by
  constructor
  · rintro ⟨m, hm, hhash, hline⟩
    by_cases hlast : m = k + 1
    · exact Or.inl (hlast ▸ hhash)
    · refine Or.inr ⟨⟨m, by omega, hhash, fun l hl hk => hline l hl (by omega)⟩, ?_⟩
      exact hline (k + 1) hm (Nat.le_refl _)
  · rintro (hhash | ⟨⟨m, hm, hhash, hline⟩, hnext⟩)
    · exact commented_of_hash hhash
    · refine ⟨m, by omega, hhash, fun l hl hk => ?_⟩
      by_cases hlast : l = k + 1
      · exact hlast ▸ hnext
      · exact hline l hl (by omega)

theorem commented_iff {chars : List Char} {k : Nat} (h : k < chars.length) :
    Commented chars k ↔ endsInComment (chars.take (k + 1)) = true := by
  induction k with
  | zero =>
    rw [commented_zero_iff, List.take_succ_eq_append_getElem h, endsInComment_concat,
      List.getElem?_eq_getElem h]
    simp [endsInComment]
  | succ k ih =>
    rw [commented_succ_iff, ih (by omega), List.take_succ_eq_append_getElem h,
      endsInComment_concat, List.getElem?_eq_getElem h]
    simp

theorem commented_append_iff {before : List Char} {c : Char} {rest : List Char} :
    Commented (before ++ c :: rest) before.length ↔ endsInComment (before ++ [c]) = true := by
  rw [commented_iff (by simp), List.append_cons]
  have hlength : (before ++ [c]).length = before.length + 1 := by simp
  rw [List.take_left' hlength]

theorem inkAt_append_iff {before : List Char} {c : Char} {rest : List Char} :
    InkAt (before ++ c :: rest) before.length ↔ isInk before c = true := by
  have hchar : (before ++ c :: rest)[before.length]? = some c := by
    rw [List.getElem?_append_right (Nat.le_refl _), Nat.sub_self, List.getElem?_cons_zero]
  rw [InkAt, hchar, commented_append_iff, isInk]
  simp

theorem not_inkAt_of_length_le {chars : List Char} {k : Nat} (h : chars.length ≤ k) :
    ¬ InkAt chars k := by
  rintro ⟨c, hc, -⟩
  rw [List.getElem?_eq_none_iff.2 h] at hc
  cases hc

/-! ## One pass over a text -/

/-- The word made of the characters `word`, after the characters `before`, or nothing if there are
none. -/
def wordAfter (before word : List Char) : List Token :=
  if word = [] then []
  else [⟨String.ofList word, ⟨1 + before.count '\n', byteLength before,
    byteLength before + byteLength word⟩⟩]

/-- The words of a text of which the characters `before` have been read, and after them those of a
word that has begun. -/
def wordsFrom (before word : List Char) : List Char → List Token
  | [] => wordAfter before word
  | c :: cs =>
    if isInk (before ++ word) c then wordsFrom before (word ++ [c]) cs
    else wordAfter before word ++ wordsFrom (before ++ word ++ [c]) [] cs

theorem closeWord_eq_wordAfter (before word : List Char) :
    closeWord (1 + before.count '\n') (byteLength (before ++ word)) word.reverse =
      wordAfter before word := by
  unfold closeWord wordAfter
  by_cases hword : word = []
  · simp [hword]
  · rw [if_neg hword, if_neg (by simpa using hword), List.reverse_reverse, byteLength_append,
      byteLength_reverse, Nat.add_sub_cancel]

theorem wordsFrom_of_gap {before word rest : List Char}
    (h : ∀ c cs, rest = c :: cs → isInk (before ++ word) c = false) :
    wordsFrom before word rest = wordAfter before word ++ wordsFrom (before ++ word) [] rest := by
  cases rest with
  | nil => simp [wordsFrom, wordAfter]
  | cons c cs =>
    have hc := h c cs rfl
    simp [wordsFrom, hc, wordAfter]

/-- Characters of a line before its comment are cut at white space. -/
theorem wordsFrom_code {before word code : List Char}
    (hcode : ∀ c ∈ code, c ≠ '#' ∧ c ≠ '\n') (hword : '\n' ∉ word)
    (hcomment : endsInComment (before ++ word) = false) (rest : List Char)
    (hgap : ∀ c cs, rest = c :: cs → isInk (before ++ word ++ code) c = false) :
    wordsFrom before word (code ++ rest) =
      cutWords (1 + before.count '\n') (byteLength (before ++ word)) word.reverse code ++
        wordsFrom (before ++ word ++ code) [] rest := by
  induction code generalizing before word with
  | nil =>
    rw [List.append_nil] at hgap
    rw [List.nil_append, List.append_nil, cutWords, closeWord_eq_wordAfter, wordsFrom_of_gap hgap]
  | cons c code ih =>
    obtain ⟨⟨hhash, hnewline⟩, hcode⟩ := List.forall_mem_cons.1 hcode
    have hnext : endsInComment (before ++ word ++ [c]) = false := by
      rw [endsInComment_concat, hcomment]
      simp [hhash]
    have hoffset : byteLength (before ++ word) + c.utf8Size =
        byteLength (before ++ word ++ [c]) := by
      rw [byteLength_append (before ++ word), byteLength_cons, byteLength_nil, Nat.add_zero]
    have hsplit : before ++ word ++ [c] ++ code = before ++ word ++ c :: code :=
      (List.append_cons ..).symm
    rw [← hsplit] at hgap
    rw [List.cons_append, wordsFrom, cutWords, hoffset]
    by_cases hspace : isWhiteSpace c = true
    · have hink : isInk (before ++ word) c = false := by
        rw [isInk, hspace]
        rfl
      have hcount : (before ++ word ++ [c]).count '\n' = before.count '\n' := by
        rw [List.count_append, List.count_append, List.count_eq_zero.2 hword,
          List.count_singleton, if_neg (by simpa using hnewline)]
        rfl
      rw [hink, if_neg Bool.false_ne_true, if_pos hspace, closeWord_eq_wordAfter,
        List.append_assoc (wordAfter before word), ← hcount, ← hsplit]
      refine congrArg (wordAfter before word ++ ·) ?_
      refine (ih hcode List.not_mem_nil ?_ ?_).trans ?_
      · rwa [List.append_nil]
      · rwa [List.append_nil]
      · rw [List.append_nil, List.reverse_nil]
    · have hink : isInk (before ++ word) c = true := by
        rw [isInk, hnext]
        simpa using hspace
      have hword' : '\n' ∉ word ++ [c] := by
        simp [hword, Ne.symm hnewline]
      rw [hink, if_pos rfl, if_neg hspace, ← hsplit]
      refine (ih hcode hword' ?_ ?_).trans ?_
      · rwa [← List.append_assoc]
      · rwa [← List.append_assoc]
      · rw [← List.append_assoc, List.reverse_append]
        rfl

/-- The characters of a comment give no words. -/
theorem wordsFrom_comment {before comment : List Char} (hnewline : '\n' ∉ comment)
    (h : endsInComment before = true) (rest : List Char) :
    wordsFrom before [] (comment ++ rest) = wordsFrom (before ++ comment) [] rest := by
  induction comment generalizing before with
  | nil => simp
  | cons c comment ih =>
    rw [List.mem_cons, not_or] at hnewline
    have hnext : endsInComment (before ++ [c]) = true := by
      simp [endsInComment_concat, h, Ne.symm hnewline.1]
    have hink : isInk before c = false := by simp [isInk, hnext]
    have hrest := ih hnewline.2 hnext
    simp [wordsFrom, hink, wordAfter, hrest]

theorem isInk_newline (before : List Char) : isInk before '\n' = false := rfl

theorem isInk_hash (before : List Char) : isInk before '#' = false := by
  rw [isInk, endsInComment_concat]
  rfl

theorem wordsFrom_cons_of_not_ink {before : List Char} {c : Char} (h : isInk before c = false)
    (rest : List Char) : wordsFrom before [] (c :: rest) = wordsFrom (before ++ [c]) [] rest := by
  rw [wordsFrom, List.append_nil, h, if_neg Bool.false_ne_true, wordAfter, if_pos rfl,
    List.nil_append]

/-- A line is code, and perhaps a comment after it. -/
theorem SourceLine.exists_comment (line : SourceLine) :
    (∀ c ∈ line.code, c ≠ '#') ∧
      (line.chars = line.code ∨ ∃ comment, line.chars = line.code ++ '#' :: comment) := by
  have hsplit : line.chars = line.code ++ line.chars.dropWhile (· ≠ '#') :=
    List.takeWhile_append_dropWhile.symm
  refine ⟨fun c hc => by simpa using List.all_eq_true.1 List.all_takeWhile c hc, ?_⟩
  cases hcomment : line.chars.dropWhile (· ≠ '#') with
  | nil =>
    rw [hcomment, List.append_nil] at hsplit
    exact Or.inl hsplit
  | cons c comment =>
    have hhead := List.head?_dropWhile_not (fun c => decide (c ≠ '#')) line.chars
    rw [hcomment] at hhead
    obtain rfl : c = '#' := by simpa using hhead
    exact Or.inr ⟨comment, hsplit.trans (congrArg _ hcomment)⟩

/-- The pass finds the words of a line, and then goes on behind it. -/
theorem wordsFrom_line {before : List Char} (line : SourceLine) (rest : List Char)
    (hnumber : line.number = 1 + before.count '\n') (hoffset : line.offset = byteLength before)
    (hline : '\n' ∉ line.chars) (hbefore : endsInComment before = false)
    (hrest : ∀ c cs, rest = c :: cs → c = '\n') :
    wordsFrom before [] (line.chars ++ rest) =
      line.tokens ++ wordsFrom (before ++ line.chars) [] rest := by
  obtain ⟨hhash, hcomment⟩ := line.exists_comment
  have hcode : ∀ c ∈ line.code, c ≠ '#' ∧ c ≠ '\n' := by
    intro c hc
    refine ⟨hhash c hc, ?_⟩
    rintro rfl
    exact hline ((List.takeWhile_sublist _).subset hc)
  have hwords : ∀ after, (∀ c cs, after = c :: cs → isInk (before ++ line.code) c = false) →
      wordsFrom before [] (line.code ++ after) =
        line.tokens ++ wordsFrom (before ++ line.code) [] after := by
    intro after hgap
    have hpass := wordsFrom_code hcode List.not_mem_nil (by rwa [List.append_nil]) after
      (by rwa [List.append_nil])
    rw [List.append_nil, List.reverse_nil] at hpass
    rw [hpass, SourceLine.tokens, hnumber, hoffset]
  rcases hcomment with hall | ⟨comment, hall⟩
  · rw [hall]
    refine hwords rest fun c cs hc => ?_
    rw [hrest c cs hc]
    exact isInk_newline _
  · have hnewline : '\n' ∉ comment := by
      intro hmem
      rw [hall] at hline
      exact hline (List.mem_append_right _ (List.mem_cons_of_mem _ hmem))
    have hinside : endsInComment (before ++ line.code ++ ['#']) = true := by
      rw [endsInComment_concat]
      rfl
    rw [hall, List.append_assoc, hwords, List.cons_append, wordsFrom_cons_of_not_ink (isInk_hash _),
      wordsFrom_comment hnewline hinside, ← List.append_assoc before, List.append_assoc _ ['#']]
    · rfl
    · intro c cs hc
      obtain ⟨rfl, -⟩ := List.cons.inj hc
      exact isInk_hash _

theorem cutLines_of_notMem {line : List Char} (hline : '\n' ∉ line) (hne : line ≠ []) :
    cutLines line = [line] := by
  induction line with
  | nil => exact absurd rfl hne
  | cons c line ih =>
    rw [List.mem_cons, not_or] at hline
    rw [cutLines, if_neg (Ne.symm hline.1)]
    by_cases hnil : line = []
    · rw [hnil]
      rfl
    · rw [ih hline.2 hnil]

/-- Cutting a text into lines and these into words is one pass over the text. -/
theorem flatMap_tokens_eq_wordsFrom {before : List Char} (h : endsInComment before = false)
    (chars : List Char) :
    (placeLines (1 + before.count '\n') (byteLength before) (cutLines chars)).flatMap
      SourceLine.tokens = wordsFrom before [] chars := by
  induction hlength : chars.length using Nat.strongRecOn generalizing before chars with
  | _ length ih =>
    by_cases hnewline : '\n' ∈ chars
    · obtain ⟨line, rest, rfl, hline⟩ := List.eq_append_cons_of_mem hnewline
      have hnext : endsInComment (before ++ line ++ ['\n']) = false := by
        rw [endsInComment_concat, Bool.or_eq_false_iff]
        simp
      have hlines := ih rest.length (by simp [← hlength]; omega) hnext rest rfl
      have hnumber : 1 + (before ++ line ++ ['\n']).count '\n' = 1 + before.count '\n' + 1 := by
        rw [List.count_append, List.count_append, List.count_eq_zero.2 hline]
        rfl
      have hoffset : byteLength (before ++ line ++ ['\n']) =
          byteLength before + byteLength line + 1 := by
        rw [byteLength_append, byteLength_append]
        rfl
      rw [hnumber, hoffset] at hlines
      rw [cutLines_append hline, placeLines, List.flatMap_cons, hlines,
        wordsFrom_line ⟨1 + before.count '\n', byteLength before, line⟩ ('\n' :: rest) rfl rfl hline
          h (by simp),
        wordsFrom_cons_of_not_ink (isInk_newline _)]
    · by_cases hnil : chars = []
      · rw [hnil]
        rfl
      · have hpass := wordsFrom_line ⟨1 + before.count '\n', byteLength before, chars⟩ [] rfl rfl
          hnewline h (by simp)
        rw [List.append_nil] at hpass
        rw [cutLines_of_notMem hnewline hnil, hpass]
        rfl

theorem tokenize_eq_wordsFrom (source : String) :
    tokenize source = wordsFrom [] [] source.toList := by
  have hnothing : endsInComment [] = false := rfl
  exact flatMap_tokens_eq_wordsFrom hnothing source.toList

/-! ## The runs, from left to right -/

/-- Of two runs, the one that does not begin first is the same or begins after the other. -/
theorem IsRun.eq_or_lt {chars : List Char} {start stop i j : Nat} (h : IsRun chars start stop)
    (hother : IsRun chars i j) (hle : start ≤ i) : (i = start ∧ j = stop) ∨ stop < i := by
  have hlt := h.lt
  have hij := hother.lt
  by_cases hstop : stop < i
  · exact Or.inr hstop
  · have hnot : i ≠ stop := fun heq => h.right (hother.ink stop (by omega) (by omega))
    have hstart : i = start := by
      by_contra hne
      exact hother.left (i - 1) (by omega) (h.ink (i - 1) (by omega) (by omega))
    refine Or.inl ⟨hstart, ?_⟩
    rcases Nat.lt_trichotomy j stop with hj | hj | hj
    · exact absurd (h.ink j (by omega) hj) hother.right
    · exact hj
    · exact absurd (hother.ink stop (by omega) hj) h.right

/-- The runs of a text that begin at an index or after it, from left to right. -/
structure ListsRuns (chars : List Char) (base : Nat) (runs : List (Nat × Nat)) : Prop where
  mem_iff : ∀ start stop, (start, stop) ∈ runs ↔ base ≤ start ∧ IsRun chars start stop
  ordered : runs.Pairwise fun first second => first.2 < second.1
  covers : ∀ k, base ≤ k → InkAt chars k → ∃ run ∈ runs, run.1 ≤ k ∧ k < run.2

namespace ListsRuns

variable {chars : List Char} {runs : List (Nat × Nat)}

theorem nil {base : Nat} (h : chars.length ≤ base) : ListsRuns chars base [] := by
  have hnone : ∀ k, base ≤ k → ¬ InkAt chars k := fun k hk =>
    not_inkAt_of_length_le (Nat.le_trans h hk)
  refine ⟨fun start stop => ?_, List.Pairwise.nil, fun k hk hink => absurd hink (hnone k hk)⟩
  constructor
  · intro hmem
    cases hmem
  · rintro ⟨hstart, hrun⟩
    exact absurd (hrun.ink start (Nat.le_refl _) hrun.lt) (hnone start hstart)

/-- No run begins where there is no ink. -/
theorem of_gap {base : Nat} (h : ListsRuns chars (base + 1) runs) (hgap : ¬ InkAt chars base) :
    ListsRuns chars base runs := by
  refine ⟨fun start stop => ?_, h.ordered, fun k hk hink => ?_⟩
  · rw [h.mem_iff]
    refine and_congr_left fun hrun => ⟨fun hstart => by omega, fun hstart => ?_⟩
    have hne : start ≠ base := by
      rintro rfl
      exact hgap (hrun.ink start (Nat.le_refl _) hrun.lt)
    omega
  · have hne : k ≠ base := by
      rintro rfl
      exact hgap hink
    exact h.covers k (by omega) hink

theorem cons {start stop : Nat} (h : ListsRuns chars (stop + 1) runs)
    (hrun : IsRun chars start stop) : ListsRuns chars start ((start, stop) :: runs) := by
  have hlt := hrun.lt
  refine ⟨fun i j => ?_, ?_, fun k hk hink => ?_⟩
  · rw [List.mem_cons, Prod.mk.injEq, h.mem_iff]
    constructor
    · rintro (⟨rfl, rfl⟩ | ⟨hi, hother⟩)
      · exact ⟨Nat.le_refl _, hrun⟩
      · exact ⟨by omega, hother⟩
    · rintro ⟨hi, hother⟩
      rcases hrun.eq_or_lt hother hi with heq | hafter
      · exact Or.inl heq
      · exact Or.inr ⟨hafter, hother⟩
  · refine List.pairwise_cons.2 ⟨fun run hmem => ?_, h.ordered⟩
    exact ((h.mem_iff run.1 run.2).1 hmem).1
  · by_cases hkstop : k < stop
    · exact ⟨(start, stop), List.mem_cons_self, hk, hkstop⟩
    · have hne : k ≠ stop := by
        rintro rfl
        exact hrun.right hink
      obtain ⟨run, hmem, hcover⟩ := h.covers k (by omega) hink
      exact ⟨run, List.mem_cons_of_mem _ hmem, hcover⟩

end ListsRuns

/-- A word that has begun ends where there is no ink, and is a run then. -/
theorem exists_runs_of_gap {full before word rest : List Char} {runs : List (Nat × Nat)}
    (hfull : full = before ++ word ++ rest)
    (hink : ∀ k, before.length ≤ k → k < (before ++ word).length → InkAt full k)
    (hleft : ∀ k, before.length = k + 1 → ¬ InkAt full k)
    (hgap : ¬ InkAt full (before ++ word).length)
    (hruns : ListsRuns full ((before ++ word).length + 1) runs) :
    ∃ all, wordAfter before word ++ runs.map (wordBetween full) = all.map (wordBetween full) ∧
      ListsRuns full before.length all := by
  by_cases hword : word = []
  · subst hword
    rw [List.append_nil] at hgap hruns
    exact ⟨runs, by simp [wordAfter], hruns.of_gap hgap⟩
  · have hlt : before.length < (before ++ word).length := by
      have hpos := List.length_pos_iff.2 hword
      rw [List.length_append]
      omega
    have hstart : full.take before.length = before := by
      rw [hfull, List.append_assoc, List.take_left' rfl]
    have hstop : full.take (before ++ word).length = before ++ word := by
      rw [hfull, List.take_left' rfl]
    refine ⟨(before.length, (before ++ word).length) :: runs, ?_,
      hruns.cons ⟨hlt, hink, hleft, hgap⟩⟩
    rw [wordAfter, if_neg hword, List.map_cons, wordBetween]
    simp only [hstart, hstop, List.drop_left' rfl, byteLength_append]
    rfl

/-- The pass finds the runs of a text, from left to right. -/
theorem exists_runs {full before word chars : List Char} (hfull : full = before ++ word ++ chars)
    (hink : ∀ k, before.length ≤ k → k < (before ++ word).length → InkAt full k)
    (hleft : ∀ k, before.length = k + 1 → ¬ InkAt full k) :
    ∃ runs, wordsFrom before word chars = runs.map (wordBetween full) ∧
      ListsRuns full before.length runs := by
  induction chars generalizing before word with
  | nil =>
    have hlength : full.length ≤ (before ++ word).length := by simp [hfull]
    obtain ⟨runs, hwords, hruns⟩ := exists_runs_of_gap hfull hink hleft
      (not_inkAt_of_length_le hlength) (ListsRuns.nil (Nat.le_succ_of_le hlength))
    refine ⟨runs, ?_, hruns⟩
    rwa [List.map_nil, List.append_nil] at hwords
  | cons c chars ih =>
    have hnext : InkAt full (before ++ word).length ↔ isInk (before ++ word) c = true := by
      rw [hfull]
      exact inkAt_append_iff
    rw [wordsFrom]
    split_ifs with hc
    · refine ih (by simp [hfull]) (fun k hk hlt => ?_) hleft
      by_cases hlast : k = (before ++ word).length
      · rw [hlast]
        exact hnext.2 hc
      · simp only [List.length_append, List.length_singleton] at hlt hlast
        exact hink k hk (by rw [List.length_append]; omega)
    · have hgap : ¬ InkAt full (before ++ word).length := fun hink => hc (hnext.1 hink)
      have hlength : (before ++ word ++ [c]).length = (before ++ word).length + 1 :=
        List.length_append
      have hnoink : ∀ k, (before ++ word ++ [c]).length ≤ k →
          k < (before ++ word ++ [c] ++ []).length → InkAt full k := by
        intro k hk hlt
        rw [List.append_nil] at hlt
        omega
      have hbehind : ∀ k, (before ++ word ++ [c]).length = k + 1 → ¬ InkAt full k := by
        intro k hk
        obtain rfl : k = (before ++ word).length := by omega
        exact hgap
      obtain ⟨runs, hwords, hruns⟩ := ih (by simp [hfull]) hnoink hbehind
      rw [hlength] at hruns
      rw [hwords]
      exact exists_runs_of_gap hfull hink hleft hgap hruns

theorem exists_runs_tokenize (source : String) :
    ∃ runs, tokenize source = runs.map (wordBetween source.toList) ∧
      ListsRuns source.toList 0 runs := by
  have hsource : source.toList = [] ++ [] ++ source.toList := rfl
  rw [tokenize_eq_wordsFrom]
  refine exists_runs hsource ?_ ?_
  · intro k _ hk
    exact absurd hk (Nat.not_lt_zero k)
  · intro k hk
    exact absurd hk.symm (Nat.succ_ne_zero k)

/-! ## The places of the runs -/

theorem byteLength_take_le (chars : List Char) {i j : Nat} (h : i ≤ j) :
    byteLength (chars.take i) ≤ byteLength (chars.take j) := by
  obtain ⟨more, rfl⟩ := Nat.exists_eq_add_of_le h
  rw [List.take_add, byteLength_append]
  omega

theorem byteLength_take_lt {chars : List Char} {i j : Nat} (hi : i < chars.length) (h : i < j) :
    byteLength (chars.take i) < byteLength (chars.take j) := by
  have hnext : byteLength (chars.take (i + 1)) = byteLength (chars.take i) + chars[i].utf8Size := by
    rw [List.take_succ_eq_append_getElem hi, byteLength_append]
    rfl
  have hpos := chars[i].utf8Size_pos
  have hle := byteLength_take_le chars (Nat.succ_le_of_lt h)
  rw [Nat.succ_eq_add_one] at hle
  omega

theorem InkAt.lt_length {chars : List Char} {k : Nat} (h : InkAt chars k) : k < chars.length := by
  by_contra hk
  exact not_inkAt_of_length_le (by omega) h

/-- The characters of a run are no white space and no `#`. -/
theorem IsRun.mem {chars : List Char} {start stop : Nat} (h : IsRun chars start stop) {c : Char}
    (hc : c ∈ (chars.take stop).drop start) : isWhiteSpace c = false ∧ c ≠ '#' := by
  obtain ⟨k, hk⟩ := List.mem_iff_getElem?.1 hc
  rw [List.getElem?_drop, List.getElem?_take] at hk
  split_ifs at hk with hlt
  obtain ⟨d, hd, hspace, hcomment⟩ := h.ink (start + k) (by omega) hlt
  obtain rfl : c = d := Option.some.inj (hk.symm.trans hd)
  refine ⟨hspace, ?_⟩
  rintro rfl
  exact hcomment (commented_of_hash hd)

/-- The bytes between two splits of a text are those of the characters between them. -/
theorem toUTF8_extract_of_split {source : String} {before word after : List Char}
    (h : source.toList = before ++ word ++ after) :
    source.toUTF8.extract (byteLength before) (byteLength before + byteLength word) =
      (String.ofList word).toUTF8 := by
  have hsource : source = String.ofList before ++ (String.ofList word ++ String.ofList after) := by
    rw [← String.ofList_append, ← String.ofList_append, ← List.append_assoc, ← h,
      String.ofList_toList]
  have hbytes : source.toUTF8 = (String.ofList before).toUTF8 ++
      ((String.ofList word).toUTF8 ++ (String.ofList after).toUTF8) := by
    rw [hsource]
    rfl
  have hsize : ∀ chars, byteLength chars = (String.ofList chars).toUTF8.size :=
    fun chars => (utf8ByteSize_ofList chars).symm
  rw [hbytes, ← Nat.add_zero (byteLength before), Nat.add_assoc,
    ByteArray.extract_append_size_add' (hsize before), Nat.zero_add,
    ByteArray.extract_append_eq_left (hsize word)]

/-- The word and its place are right. -/
structure Token.Marks (token : Token) (source : String) : Prop where
  start_lt_stop : token.place.span.start < token.place.span.stop
  isValid_start : String.Pos.Raw.IsValid source ⟨token.place.span.start⟩
  isValid_stop : String.Pos.Raw.IsValid source ⟨token.place.span.stop⟩
  bytes : source.toUTF8.extract token.place.span.start token.place.span.stop = token.text.toUTF8
  ink : ∀ c ∈ token.text.toList, isWhiteSpace c = false ∧ c ≠ '#'
  line : ∃ before after, source.toList = before ++ after ∧
    byteLength before = token.place.span.start ∧ token.place.line = 1 + before.count '\n'

/-- A word that stands in a text and is a run of it marks the run. -/
theorem IsRun.marks {source : String} {start stop : Nat} (h : IsRun source.toList start stop)
    (hstands : (wordBetween source.toList (start, stop)).StandsIn source) :
    (wordBetween source.toList (start, stop)).Marks source := by
  have hlength := (h.ink start (Nat.le_refl _) h.lt).lt_length
  have hwithin := hstands.within
  obtain ⟨before, after, hsource, hplace⟩ := hstands
  refine ⟨byteLength_take_lt hlength h.lt, hwithin.isValid_start, hwithin.isValid_stop, ?_, ?_, ?_⟩
  · rw [hplace, toUTF8_extract_of_split hsource, String.ofList_toList]
  · intro c hc
    rw [wordBetween, String.toList_ofList] at hc
    exact h.mem hc
  · rw [List.append_assoc] at hsource
    exact ⟨before, _, hsource, by rw [hplace], by rw [hplace]⟩

/-- The words of a text are its runs of ink, from left to right. Each of them marks its run and ends
before the next, and a character that is not white space and has no word over it is in a comment. -/
theorem tokenize_eq_runs (source : String) :
    ∃ runs : List (Nat × Nat),
      tokenize source = runs.map (wordBetween source.toList) ∧
      (∀ start stop, (start, stop) ∈ runs ↔ IsRun source.toList start stop) ∧
      runs.Pairwise (fun first second => first.2 < second.1) ∧
      (∀ token ∈ tokenize source, token.Marks source) ∧
      (tokenize source).Pairwise
        (fun first second => first.place.span.stop ≤ second.place.span.start) ∧
      ∀ k c, source.toList[k]? = some c → isWhiteSpace c = false →
        (∀ token ∈ tokenize source,
          ¬ (token.place.span.start ≤ byteLength (source.toList.take k) ∧
            byteLength (source.toList.take k) < token.place.span.stop)) →
        Commented source.toList k := by
  obtain ⟨runs, hwords, hruns⟩ := exists_runs_tokenize source
  have hmem : ∀ start stop, (start, stop) ∈ runs ↔ IsRun source.toList start stop := by
    intro start stop
    rw [hruns.mem_iff, and_iff_right (Nat.zero_le start)]
  refine ⟨runs, hwords, hmem, hruns.ordered, ?_, ?_, ?_⟩
  · intro token htoken
    have hstands := standsIn_of_mem_tokenize htoken
    rw [hwords] at htoken
    obtain ⟨run, hrun, rfl⟩ := List.mem_map.1 htoken
    exact ((hmem run.1 run.2).1 hrun).marks hstands
  · rw [hwords, List.pairwise_map]
    refine hruns.ordered.imp fun hlt => ?_
    exact byteLength_take_le _ (Nat.le_of_lt hlt)
  · intro k c hc hspace huncovered
    by_contra hcomment
    have hink : InkAt source.toList k := ⟨c, hc, hspace, hcomment⟩
    obtain ⟨run, hrun, hstart, hstop⟩ := hruns.covers k (Nat.zero_le k) hink
    refine huncovered (wordBetween source.toList run) ?_ ⟨?_, ?_⟩
    · rw [hwords]
      exact List.mem_map_of_mem hrun
    · exact byteLength_take_le _ hstart
    · exact byteLength_take_lt hink.lt_length hstop

-- A comment ends a word, and a carriage return or a wide space is not part of one.
example : tokenize "né #x\r\n\u3000a\r\nb#" =
    [⟨"né", ⟨1, 0, 3⟩⟩, ⟨"a", ⟨2, 11, 12⟩⟩, ⟨"b", ⟨3, 14, 15⟩⟩] := by
  decide

end SoftMenu
