import SoftMenu.Proofs.Positions

/-!
# Any run of a lexer

A lexer may be asked for its next word and for its line in any order. It reads a whole line before
it hands out the first word of it, and passes over lines without words, so its line moves ahead of
the words and does so in leaps. Yet every answer depends only on how many words have been asked for
before (`Lexer.At`, `At.fits_of_answers`): the words come in order, and the line is that of the last
word, or at the end of the text the last line. What this means for a run is put together in
`steady_answers`.
-/

namespace SoftMenu

/-! ## Lines -/

/-- The number of lines of a text: that of its newlines, and one more if something stands after the
last of them. -/
def lineCount (source : String) : Nat :=
  source.toList.count '\n' +
    if source ≠ "" ∧ source.toList.getLast? ≠ some '\n' then 1 else 0

theorem length_sourceLines (source : String) : (sourceLines source).length = lineCount source := by
  rw [sourceLines, length_placeLines, lineCount]
  rcases List.eq_nil_or_concat source.toList with hnil | ⟨chars, last, hconcat⟩
  · rw [if_neg fun h => h.1 (String.toList_eq_nil_iff.1 hnil), hnil]
    rfl
  · rw [List.concat_eq_append] at hconcat
    have hchars : source.toList ≠ [] := by
      rw [hconcat]
      exact List.concat_ne_nil _ _
    have hsource : source ≠ "" := fun h => hchars (String.toList_eq_nil_iff.2 h)
    rw [length_cutLines hchars, hconcat, List.dropLast_concat, List.getLast?_concat,
      List.count_append, List.count_singleton]
    by_cases hlast : last = '\n'
    · simp [hlast, Nat.add_comm]
    · simp [hlast, hsource, Nat.add_comm]

/-- The words of a line carry its number. -/
theorem SourceLine.line_of_mem_tokens {line : SourceLine} {token : Token}
    (h : token ∈ line.tokens) : token.place.line = line.number := by
  have hword : token ∈ cutWords line.number (line.offset + byteLength []) [] line.code := h
  obtain ⟨before, after, -, hplace⟩ := cutFrom_of_mem_cutWords hword
  rw [hplace]

namespace Lexer

/-! ## Calls and answers -/

/-- A call on a lexer. -/
inductive Call where
  /-- Asks for the next word. -/
  | next
  /-- Asks for the line. -/
  | line
deriving DecidableEq, Repr

/-- What a lexer returns from a call. -/
inductive Answer where
  /-- The next word, or nothing at the end of the text. -/
  | next (word : Option Token)
  /-- The number of the line. -/
  | line (number : Nat)
deriving DecidableEq, Repr

/-- The call that an answer belongs to. -/
def Answer.call : Answer → Call
  | .next _ => .next
  | .line _ => .line

/-- The word that an answer hands out. -/
def Answer.word? : Answer → Option Token
  | .next word => word
  | .line _ => none

/-- The answer to a call, and the lexer after it. -/
def answer (lexer : Lexer) : Call → Answer × Lexer
  | .next => (.next lexer.next.1, lexer.next.2)
  | .line => (.line lexer.line, lexer)

/-- The answers to calls that are made one after the other. -/
def answers (lexer : Lexer) : List Call → List Answer
  | [] => []
  | call :: calls => (lexer.answer call).1 :: (lexer.answer call).2.answers calls

/-- How many words some answers were asked for. -/
def asked (answers : List Answer) : Nat := answers.countP fun answer => answer.call = .next

/-! ## One word -/

/-- The lines ahead have the numbers after those that have been read, up to the last, and the words
that are held are those of the line read last. -/
structure Numbered (last : Nat) (lexer : Lexer) : Prop where
  ahead : ∃ offset lines, lexer.ahead = placeLines (lexer.linesRead + 1) offset lines
  last : lexer.linesRead + lexer.ahead.length = last
  pending : ∀ token ∈ lexer.pending, token.place.line = lexer.linesRead

/-- From a lexer that has these words left, in a text with the last line given, a word is taken. -/
structure Takes (words : List Token) (last : Nat) (word : Option Token) (after : Lexer) :
    Prop where
  rest : after.rest.1 = words.tail
  linesRead : after.linesRead = (word.map fun token => token.place.line).getD last
  word_eq : word = words.head?
  numbered : after.Numbered last

/-- Lines without words are passed over on the way to the next word. -/
theorem takes_advance (number offset : Nat) (lines : List (List Char)) :
    Takes ((placeLines (number + 1) offset lines).flatMap SourceLine.tokens)
      (number + lines.length) (advance number (placeLines (number + 1) offset lines)).1
      (advance number (placeLines (number + 1) offset lines)).2 := by
  induction lines generalizing number offset with
  | nil =>
    refine ⟨rfl, rfl, rfl, ⟨0, [], rfl⟩, rfl, ?_⟩
    intro token htoken
    exact absurd htoken List.not_mem_nil
  | cons chars lines ih =>
    have hlast : number + (chars :: lines).length = number + 1 + lines.length := by
      rw [List.length_cons]
      omega
    rw [placeLines, List.flatMap_cons, advance, hlast]
    cases htokens : SourceLine.tokens ⟨number + 1, offset, chars⟩ with
    | nil =>
      -- A line without words is passed over, and counts as read.
      exact ih (number + 1) _
    | cons token pending =>
      have hline : ∀ word ∈ token :: pending, word.place.line = number + 1 := by
        intro word hword
        rw [← htokens] at hword
        exact SourceLine.line_of_mem_tokens hword
      refine ⟨rfl, (hline token List.mem_cons_self).symm, rfl, ⟨_, lines, rfl⟩, ?_, ?_⟩
      · show number + 1 + (placeLines _ _ lines).length = _
        rw [length_placeLines]
      · intro word hword
        exact hline word (List.mem_cons_of_mem token hword)

/-- Asking for the next word takes the first one that is left. -/
theorem Numbered.takes_next {lexer : Lexer} {last : Nat} (h : lexer.Numbered last) :
    Takes lexer.rest.1 last lexer.next.1 lexer.next.2 := by
  obtain ⟨ahead, linesRead, pending⟩ := lexer
  obtain ⟨⟨offset, lines, hahead⟩, hlast, hpending⟩ := h
  cases pending with
  | nil =>
    dsimp only at hahead hlast
    rw [hahead, length_placeLines] at hlast
    rw [hahead, ← hlast]
    exact takes_advance linesRead offset lines
  | cons token pending =>
    obtain ⟨htoken, hpending⟩ := List.forall_mem_cons.1 hpending
    exact ⟨rfl, htoken.symm, rfl, ⟨offset, lines, hahead⟩, hlast, hpending⟩

/-! ## Any number of words -/

/-- The line of a lexer that has been asked for some number of words. -/
def lineAfter (source : String) : Nat → Nat
  | 0 => 1
  | asked + 1 =>
    ((tokenize source)[asked]?.map fun token => token.place.line).getD (lastLine source)

/-- Once a word was asked for in vain, the line is the last one. -/
theorem lineAfter_of_length_lt {source : String} {asked : Nat}
    (h : (tokenize source).length < asked) : lineAfter source asked = lastLine source := by
  cases asked with
  | zero => exact absurd h (Nat.not_lt_zero _)
  | succ asked =>
    rw [lineAfter, List.getElem?_eq_none (Nat.le_of_lt_succ h)]
    rfl

/-- A lexer over a text that has been asked for some number of words. -/
structure At (source : String) (asked : Nat) (lexer : Lexer) : Prop where
  rest : lexer.rest.1 = (tokenize source).drop asked
  line : lexer.line = lineAfter source asked
  numbered : lexer.Numbered (sourceLines source).length

theorem at_ofSource (source : String) : At source 0 (ofSource source) := by
  refine ⟨rfl, rfl, ⟨0, cutLines source.toList, rfl⟩, ?_, ?_⟩
  · exact Nat.zero_add _
  · intro token htoken
    exact absurd htoken List.not_mem_nil

variable {source : String} {count : Nat} {lexer : Lexer}

theorem At.next_eq (h : At source count lexer) : lexer.next.1 = (tokenize source)[count]? := by
  rw [h.numbered.takes_next.word_eq, h.rest, List.head?_drop]

/-- Asking for the next word takes one, or leaves the lexer at the end. -/
theorem At.next (h : At source count lexer) : At source (count + 1) lexer.next.2 := by
  have htakes := h.numbered.takes_next
  refine ⟨?_, ?_, htakes.numbered⟩
  · rw [htakes.rest, h.rest, List.tail_drop]
  · rw [Lexer.line, htakes.linesRead, h.next_eq, lineAfter]
    cases hword : (tokenize source)[count]? with
    | none => rfl
    | some token =>
      obtain ⟨before, -, -, hplace⟩ := standsIn_of_mem_tokenize (List.mem_of_getElem? hword)
      have hline : 1 ≤ token.place.line := by
        rw [hplace]
        exact Nat.le_add_right 1 _
      exact Nat.max_eq_right hline

/-! ## Any run -/

/-- The answer is right for a lexer that has been asked for some number of words. -/
def Answer.Fits (source : String) (count : Nat) : Answer → Prop
  | .next word => word = (tokenize source)[count]?
  | .line number => number = lineAfter source count

/-- An answer depends only on the number of words that were asked for. -/
theorem At.fits (h : At source count lexer) (call : Call) :
    (lexer.answer call).1.Fits source count := by
  cases call with
  | next => exact h.next_eq
  | line => exact h.line

theorem asked_append (first second : List Answer) :
    asked (first ++ second) = asked first + asked second := List.countP_append

theorem asked_cons (answer : Answer) (answers : List Answer) :
    asked (answer :: answers) = asked [answer] + asked answers := asked_append [answer] answers

theorem asked_eq_zero_iff {answers : List Answer} :
    asked answers = 0 ↔ ∀ answer ∈ answers, answer.call = .line := by
  rw [asked, List.countP_eq_zero]
  refine forall₂_congr fun answer _ => ?_
  cases answer <;> simp [Answer.call]

/-- After a call the lexer stands where the number of words that were asked for says. -/
theorem At.answer (h : At source count lexer) (call : Call) :
    At source (count + asked [(lexer.answer call).1]) (lexer.answer call).2 := by
  cases call with
  | next => exact h.next
  | line => exact h

/-- Every answer of a run fits the number of words that have been asked for before. -/
theorem At.fits_of_answers (h : At source count lexer) {calls : List Call}
    {before after : List Answer} {answer : Answer}
    (hsplit : lexer.answers calls = before ++ answer :: after) :
    answer.Fits source (count + asked before) := by
  induction calls generalizing lexer count before with
  | nil => simp [answers] at hsplit
  | cons call calls ih =>
    rw [answers] at hsplit
    cases before with
    | nil =>
      obtain ⟨rfl, -⟩ := List.cons.inj hsplit
      exact h.fits call
    | cons first before =>
      obtain ⟨rfl, hrest⟩ := List.cons.inj hsplit
      rw [asked_cons, ← Nat.add_assoc]
      exact ih (h.answer call) hrest

/-- Every answer of a run fits what was asked for before it. -/
theorem fits_of_split {calls : List Call} {before after : List Answer} {answer : Answer}
    (hsplit : (ofSource source).answers calls = before ++ answer :: after) :
    answer.Fits source (asked before) := by
  have hfits := (at_ofSource source).fits_of_answers hsplit
  rwa [Nat.zero_add] at hfits

/-- There is no next word only after all words were asked for. -/
theorem length_le_of_none {calls : List Call} {before after : List Answer}
    (hsplit : (ofSource source).answers calls = before ++ .next none :: after) :
    (tokenize source).length ≤ asked before := by
  have hnone : none = (tokenize source)[asked before]? := fits_of_split hsplit
  exact List.getElem?_eq_none_iff.1 hnone.symm

/-- The words of a run are as many words of the text as have been asked for, as far as there are
so many. -/
theorem At.words_of_answers (h : At source count lexer) (calls : List Call) :
    (lexer.answers calls).filterMap Answer.word? =
      ((tokenize source).drop count).take (asked (lexer.answers calls)) := by
  induction calls generalizing lexer count with
  | nil => rfl
  | cons call calls ih =>
    have hrest := ih (h.answer call)
    rw [answers, asked_cons]
    cases call with
    | line =>
      rw [List.filterMap_cons_none rfl, hrest]
      simp [Lexer.answer, asked, Answer.call]
    | next =>
      have hword : (lexer.answer .next).1.word? = (tokenize source)[count]? := h.next_eq
      have hasked : asked [(lexer.answer .next).1] = 1 := rfl
      rw [hasked] at hrest ⊢
      cases hget : (tokenize source)[count]? with
      | none =>
        have hlength := List.getElem?_eq_none_iff.1 hget
        rw [List.filterMap_cons_none (hword.trans hget), hrest, List.drop_of_length_le hlength,
          List.drop_of_length_le (Nat.le_succ_of_le hlength), List.take_nil, List.take_nil]
      | some token =>
        have hdrop :
            (tokenize source).drop count = token :: (tokenize source).drop (count + 1) := by
          rw [List.drop_eq_getElem?_toList_append, hget]
          rfl
        rw [List.filterMap_cons_some (hword.trans hget), hrest, hdrop, Nat.add_comm 1,
          List.take_succ_cons]

theorem map_call_answers (lexer : Lexer) (calls : List Call) :
    (lexer.answers calls).map Answer.call = calls := by
  induction calls generalizing lexer with
  | nil => rfl
  | cons call calls ih =>
    rw [answers, List.map_cons, ih]
    cases call <;> rfl

/-- What holds of the answers to any calls on a lexer over a text. -/
structure Steady (source : String) (calls : List Call) (answers : List Answer) : Prop where
  /-- Every call is answered. -/
  answered : answers.map Answer.call = calls
  /-- The words are words of the text, in order and from the first on. -/
  words : answers.filterMap Answer.word? <+: tokenize source
  /-- That there is no other word is said only after the last one. -/
  complete : .next none ∈ answers → answers.filterMap Answer.word? = tokenize source
  /-- Before a word is asked for, the line is 1. -/
  line_at_start : ∀ before number after, answers = before ++ .line number :: after →
    (∀ answer ∈ before, answer.call = .line) → number = 1
  /-- After a word, the line is that of the word. -/
  line_of_word : ∀ before token between number after,
    answers = before ++ .next (some token) :: (between ++ .line number :: after) →
    (∀ answer ∈ between, answer.call = .line) → number = token.place.line
  /-- Once there was no word, there is none any more, and the line is the last one. -/
  ended : ∀ before after, answers = before ++ .next none :: after →
    ∀ answer ∈ after, answer = .next none ∨ answer = .line (max 1 (lineCount source))

/-- A lexer hands out the words of its text one after the other and then says that there are no
more, whenever it is asked for its line in between. Its line is 1 at first, then that of the word
handed out last, and at the end the last line of the text. -/
theorem steady_answers (source : String) (calls : List Call) :
    Steady source calls ((ofSource source).answers calls) := by
  refine ⟨map_call_answers _ calls, ?_, ?_, ?_, ?_, ?_⟩
  · rw [(at_ofSource source).words_of_answers]
    exact List.take_prefix _ _
  · -- An answer without a word comes when at least as many have been asked for as there are.
    intro hnone
    obtain ⟨before, after, hsplit⟩ := List.append_of_mem hnone
    have hlength := length_le_of_none hsplit
    rw [(at_ofSource source).words_of_answers, List.drop_zero, List.take_of_length_le]
    rw [hsplit, asked_append]
    exact Nat.le_add_right_of_le hlength
  · intro before number after hsplit hbefore
    have hfits := fits_of_split hsplit
    rw [asked_eq_zero_iff.2 hbefore] at hfits
    exact hfits
  · intro before token between number after hsplit hbetween
    have htoken : some token = (tokenize source)[asked before]? := fits_of_split hsplit
    rw [← List.cons_append, ← List.append_assoc] at hsplit
    have hfits : number = lineAfter source _ := fits_of_split hsplit
    have hasked : asked (before ++ .next (some token) :: between) = asked before + 1 := by
      rw [asked_append, asked_cons, asked_eq_zero_iff.2 hbetween]
      rfl
    rw [hfits, hasked, lineAfter, ← htoken]
    rfl
  · intro before after hsplit answer hanswer
    obtain ⟨between, rest, rfl⟩ := List.append_of_mem hanswer
    have hlength := length_le_of_none hsplit
    rw [← List.cons_append, ← List.append_assoc] at hsplit
    have hfits := fits_of_split hsplit
    have hasked : (tokenize source).length < asked (before ++ .next none :: between) := by
      rw [asked_append, asked_cons]
      show _ < asked before + (1 + asked between)
      omega
    cases answer with
    | next word =>
      left
      have hword : word = (tokenize source)[_]? := hfits
      rw [hword, List.getElem?_eq_none (Nat.le_of_lt hasked)]
    | line number =>
      right
      have hnumber : number = lineAfter source _ := hfits
      rw [hnumber, lineAfter_of_length_lt hasked, lastLine, length_sourceLines]

/-- With the second word, the line goes from 1 to 4; with the end of the text, to 5. -/
example : (ofSource "a\n\n# b\n c\n\n").answers [.line, .next, .line, .next, .line, .next, .line] =
    [.line 1, .next (some ⟨"a", ⟨1, ⟨0, 1⟩⟩⟩), .line 1, .next (some ⟨"c", ⟨4, ⟨8, 9⟩⟩⟩), .line 4,
      .next none, .line 5] := by
  decide +kernel

end Lexer

end SoftMenu
