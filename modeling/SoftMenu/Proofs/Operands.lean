import SoftMenu.Proofs.Statements

/-!
# Comments and operands

An assembler drops what follows a semicolon, and it cuts what follows a directive at commas; inside
quotes neither sign counts. `Reading.ofLine` reads a line by these rules, for either view of which
marks are quotes.

A text is *inert* if it has neither sign outside of quotes and closes the quotes that it opens. A
line that is made of inert texts is read as what it was printed for (`ofLine_chars_of_inert`). A
text that is not inert is never read back as an operand if something follows it, be it a remark
(`operands_remark_iff`) or another operand (`operands_terminated_iff`).
-/

namespace SoftMenu

/-- Which marks enclose quoted text. -/
inductive Quoting where
  /-- Double quotes. -/
  | double
  /-- Double quotes and single quotes. -/
  | both
deriving DecidableEq, Repr

namespace Quoting

/-- Whether a character is a quote. -/
def isMark : Quoting → Char → Bool
  | .double, c => c = '"'
  | .both, c => c = '"' || c = '\''

/-- The quote that is open after a character, if `mark` is the one that was open before it. -/
def after (quoting : Quoting) (mark : Option Char) (c : Char) : Option Char :=
  match mark with
  | none => if quoting.isMark c then some c else none
  | some opened => if c = opened then none else some opened

/-- The characters before the comment. -/
def code (quoting : Quoting) : Option Char → List Char → List Char
  | _, [] => []
  | mark, c :: cs =>
    if mark = none ∧ c = ';' then [] else c :: quoting.code (quoting.after mark c) cs

/-- Puts characters in front of the first of some texts. -/
def prepend (chars : List Char) : List (List Char) → List (List Char)
  | [] => [chars]
  | text :: texts => (chars ++ text) :: texts

/-- Cuts characters at the commas. -/
def cut (quoting : Quoting) : Option Char → List Char → List (List Char)
  | _, [] => [[]]
  | mark, c :: cs =>
    if mark = none ∧ c = ',' then [] :: quoting.cut none cs
    else prepend [c] (quoting.cut (quoting.after mark c) cs)

/-- Characters without the blanks at both ends. -/
def trim (chars : List Char) : List Char :=
  ((chars.dropWhile (· = ' ')).reverse.dropWhile (· = ' ')).reverse

/-- The operands that follow a directive. -/
def operands (quoting : Quoting) (chars : List Char) : List String :=
  (quoting.cut none chars).map fun operand => .ofList (trim operand)

/-- Whether a text that begins inside of `mark` neither ends an operand nor begins a comment, and
closes all quotes. -/
def inert (quoting : Quoting) : Option Char → List Char → Bool
  | mark, [] => mark = none
  | mark, c :: cs =>
    if mark = none ∧ (c = ';' ∨ c = ',') then false
    else quoting.inert (quoting.after mark c) cs

/-- Whether a text can stand anywhere in a line without changing how the rest is read. -/
def Inert (quoting : Quoting) (text : String) : Prop := quoting.inert none text.toList = true

instance (quoting : Quoting) (text : String) : Decidable (quoting.Inert text) :=
  inferInstanceAs (Decidable (quoting.inert none text.toList = true))

end Quoting

/-- What a line of assembly text says, with its operands. -/
inductive Reading where
  /-- Nothing: the line is empty or a comment. -/
  | nothing
  /-- The symbol stands for the current address. -/
  | label (symbol : String)
  /-- The symbol stands for a number. -/
  | equate (symbol : String) (value : Nat)
  /-- Bytes, or the bytes of strings. -/
  | bytes (operands : List String)
  /-- Words of two bytes. -/
  | words (operands : List String)
  /-- Something else. -/
  | unknown
deriving DecidableEq, Repr

/-- Reads a line. -/
def Reading.ofLine (quoting : Quoting) (line : List Char) : Reading :=
  let code := quoting.code none line
  if code = [] then .nothing
  else if Statement.bytesStart.isPrefixOf code then
    .bytes (quoting.operands (code.drop Statement.bytesStart.length))
  else if Statement.wordStart.isPrefixOf code then
    .words (quoting.operands (code.drop Statement.wordStart.length))
  else match Statement.ofDefinition code with
    | .label symbol => .label symbol
    | .equate symbol value => .equate symbol value
    | _ => .unknown

/-! ## Inert texts -/

namespace Quoting

variable {quoting : Quoting} {mark : Option Char} {text : List Char}

theorem prepend_prepend (first second : List Char) (texts : List (List Char)) :
    prepend first (prepend second texts) = prepend (first ++ second) texts := by
  cases texts <;> simp [prepend]

theorem cut_ne_nil (mark : Option Char) (chars : List Char) : quoting.cut mark chars ≠ [] := by
  cases chars with
  | nil => simp [cut]
  | cons c cs =>
    rw [cut]
    split_ifs
    · simp
    · cases quoting.cut (quoting.after mark c) cs <;> simp [prepend]

theorem inert_cons {c : Char} : quoting.inert mark (c :: text) = true ↔
    ¬ (mark = none ∧ (c = ';' ∨ c = ',')) ∧ quoting.inert (quoting.after mark c) text = true := by
  rw [inert]
  split_ifs with h <;> simp [h]

theorem code_append (h : quoting.inert mark text = true) (rest : List Char) :
    quoting.code mark (text ++ rest) = text ++ quoting.code none rest := by
  induction text generalizing mark with
  | nil =>
    obtain rfl : mark = none := by simpa [inert] using h
    rfl
  | cons c text ih =>
    obtain ⟨hplain, hrest⟩ := inert_cons.1 h
    rw [List.cons_append, code, if_neg (fun hc => hplain ⟨hc.1, .inl hc.2⟩), ih hrest,
      List.cons_append]

theorem code_of_inert (h : quoting.inert mark text = true) : quoting.code mark text = text := by
  have happend := code_append h []
  rw [List.append_nil] at happend
  rw [happend]
  exact List.append_nil text

theorem cut_append (h : quoting.inert mark text = true) (rest : List Char) :
    quoting.cut mark (text ++ rest) = prepend text (quoting.cut none rest) := by
  induction text generalizing mark with
  | nil =>
    obtain rfl : mark = none := by simpa [inert] using h
    obtain ⟨operand, operands, hcut⟩ := List.exists_cons_of_ne_nil (quoting.cut_ne_nil none rest)
    rw [List.nil_append, hcut]
    rfl
  | cons c text ih =>
    obtain ⟨hplain, hrest⟩ := inert_cons.1 h
    rw [List.cons_append, cut, if_neg (fun hc => hplain ⟨hc.1, .inr hc.2⟩), ih hrest,
      prepend_prepend]
    rfl

/-- The quotes that can be open. -/
def Valid (quoting : Quoting) (mark : Option Char) : Prop := ∀ c ∈ mark, quoting.isMark c = true

theorem valid_none (quoting : Quoting) : quoting.Valid none := by simp [Valid]

/-- Only quotes can be left open. -/
theorem Valid.after (h : quoting.Valid mark) (c : Char) :
    quoting.Valid (quoting.after mark c) := by
  intro opened hopened
  cases mark with
  | none =>
    rw [Quoting.after] at hopened
    split_ifs at hopened with hc
    · obtain rfl := Option.some.inj hopened
      exact hc
    · cases hopened
  | some other =>
    rw [Quoting.after] at hopened
    split_ifs at hopened
    · cases hopened
    · exact h opened hopened

/-- A character that is no quote neither opens nor closes one. -/
theorem after_of_not_isMark (h : quoting.Valid mark) {c : Char} (hc : quoting.isMark c = false) :
    quoting.after mark c = mark := by
  cases mark with
  | none => simp [after, hc]
  | some opened =>
    have hne : c ≠ opened := by
      rintro rfl
      exact absurd (hc.symm.trans (h c rfl)) (by simp)
    simp [after, hne]

/-- Letters and digits are no quotes and no signs. -/
theorem plain_of_isAlphanum (quoting : Quoting) {c : Char} (h : c.isAlphanum = true) :
    quoting.isMark c = false ∧ c ≠ ';' ∧ c ≠ ',' := by
  have hne : ∀ sign : Char, sign.isAlphanum = false → c ≠ sign := by
    rintro sign hsign rfl
    exact absurd (hsign.symm.trans h) (by simp)
  refine ⟨?_, hne ';' (by decide), hne ',' (by decide)⟩
  cases quoting with
  | double => simp [isMark, hne '"' (by decide)]
  | both => simp [isMark, hne '"' (by decide), hne '\'' (by decide)]

theorem inert_letters_append (h : quoting.Valid mark) {letters : List Char}
    (hletters : ∀ c ∈ letters, c.isAlphanum = true) (text : List Char) :
    quoting.inert mark (letters ++ text) = quoting.inert mark text := by
  induction letters with
  | nil => rfl
  | cons c letters ih =>
    obtain ⟨hc, hletters⟩ := List.forall_mem_cons.1 hletters
    obtain ⟨hmark, hsemicolon, hcomma⟩ := plain_of_isAlphanum quoting hc
    rw [List.cons_append, inert, if_neg (by simp [hsemicolon, hcomma]),
      after_of_not_isMark h hmark, ih hletters]

theorem inert_append_letters (h : quoting.Valid mark) (text : List Char) {letters : List Char}
    (hletters : ∀ c ∈ letters, c.isAlphanum = true) :
    quoting.inert mark (text ++ letters) = quoting.inert mark text := by
  induction text generalizing mark with
  | nil =>
    have hnil := inert_letters_append h hletters []
    rwa [List.append_nil] at hnil
  | cons c text ih => rw [List.cons_append, inert, inert, ih (h.after c)]

/-- Letters and digits are inert. -/
theorem inert_letters {letters : List Char} (h : ∀ c ∈ letters, c.isAlphanum = true) :
    quoting.inert none letters = true := by
  have hnil := inert_append_letters quoting.valid_none [] h
  rw [List.nil_append] at hnil
  rw [hnil]
  rfl

theorem inert_toDigits (number : Nat) : quoting.inert none (Nat.toDigits 10 number) = true := by
  refine inert_letters fun c hc => ?_
  have hdigit : c.isDigit = true := Nat.isDigit_of_mem_toDigits (by decide) (by decide) hc
  rw [Char.isAlphanum, hdigit, Bool.or_true]

/-- An ending of letters and digits does not change whether a text is inert. -/
theorem inert_append_iff (text ending : String)
    (h : ending.toList.all Char.isAlphanum = true) :
    quoting.Inert (text ++ ending) ↔ quoting.Inert text := by
  rw [Inert, Inert, String.toList_append,
    inert_append_letters quoting.valid_none _ (List.all_eq_true.1 h)]

/-- What follows a text in a line: another operand, or a remark. -/
def Separates (rest : List Char) : Prop := ∃ after, rest = ',' :: after ∨ rest = ' ' :: ';' :: after

/-- A character that does not end an operand belongs to the first one. -/
theorem cut_cons_eq {c : Char} {cs operand : List Char} {operands : List (List Char)}
    (hc : ¬ (mark = none ∧ c = ',')) (h : quoting.cut mark (c :: cs) = operand :: operands) :
    ∃ first, quoting.cut (quoting.after mark c) cs = first :: operands ∧ operand = c :: first := by
  rw [cut, if_neg hc] at h
  obtain ⟨first, others, hcut⟩ :=
    List.exists_cons_of_ne_nil (quoting.cut_ne_nil (quoting.after mark c) cs)
  rw [hcut] at h ⊢
  obtain ⟨rfl, rfl⟩ := List.cons.inj h
  exact ⟨first, rfl, rfl⟩

/-- If a text is not inert, what is read in its place has more or fewer characters. The induction is
on the text, with the quote that is open before it. -/
theorem countP_of_cut_code (hvalid : quoting.Valid mark) (h : quoting.inert mark text = false)
    (hblank : ' ' ∉ text) {rest : List Char} (hrest : Separates rest) {operand : List Char}
    {operands : List (List Char)}
    (hcut : quoting.cut mark (quoting.code mark (text ++ rest)) = operand :: operands) :
    operand.countP (· ≠ ' ') ≠ text.length := by
  induction text generalizing mark operand operands with
  | nil =>
    -- A quote is still open, so what follows belongs to the operand.
    have hmark : mark ≠ none := by
      rintro rfl
      simp [inert] at h
    obtain ⟨after, rfl | rfl⟩ := hrest
    · rw [List.nil_append, code, if_neg (by simp [hmark])] at hcut
      obtain ⟨first, -, rfl⟩ := cut_cons_eq (by simp [hmark]) hcut
      simp
    · have hopen : quoting.after mark ' ' = mark :=
        after_of_not_isMark hvalid (by cases quoting <;> decide)
      rw [List.nil_append, code, if_neg (by simp [hmark]), hopen, code,
        if_neg (by simp [hmark])] at hcut
      obtain ⟨second, hsecond, rfl⟩ := cut_cons_eq (by simp) hcut
      obtain ⟨first, -, rfl⟩ := cut_cons_eq (by simp) hsecond
      simp
  | cons c text ih =>
    rw [List.mem_cons, not_or] at hblank
    rw [inert] at h
    by_cases hsemicolon : mark = none ∧ c = ';'
    · rw [List.cons_append, code, if_pos hsemicolon, cut] at hcut
      obtain ⟨rfl, -⟩ := List.cons.inj hcut
      simp
    · rw [List.cons_append, code, if_neg hsemicolon] at hcut
      by_cases hcomma : mark = none ∧ c = ','
      · rw [cut, if_pos hcomma] at hcut
        obtain ⟨rfl, -⟩ := List.cons.inj hcut
        simp
      · obtain ⟨first, hrest, rfl⟩ := cut_cons_eq hcomma hcut
        have hsigns : ¬ (mark = none ∧ (c = ';' ∨ c = ',')) := by
          rintro ⟨hnone, hc | hc⟩
          · exact hsemicolon ⟨hnone, hc⟩
          · exact hcomma ⟨hnone, hc⟩
        rw [if_neg hsigns] at h
        have hfirst := ih (hvalid.after c) h hblank.2 hrest
        rw [List.countP_cons_of_pos (by simp [Ne.symm hblank.1]), List.length_cons]
        omega

/-! ## Operands -/

theorem countP_trim (chars : List Char) :
    (trim chars).countP (· ≠ ' ') = chars.countP (· ≠ ' ') := by
  have hdrop : ∀ chars : List Char,
      (chars.dropWhile (· = ' ')).countP (· ≠ ' ') = chars.countP (· ≠ ' ') := by
    intro chars
    induction chars with
    | nil => rfl
    | cons c cs ih =>
      by_cases hc : c = ' '
      · rw [List.dropWhile_cons_of_pos (by simp [hc]), ih,
          List.countP_cons_of_neg (by simp [hc])]
      · rw [List.dropWhile_cons_of_neg (by simp [hc])]
  rw [trim, List.countP_reverse, hdrop, List.countP_reverse, hdrop]

theorem dropWhile_blank {chars : List Char} (h : ' ' ∉ chars) :
    chars.dropWhile (· = ' ') = chars := by
  cases chars with
  | nil => rfl
  | cons c cs =>
    have hc : c ≠ ' ' := fun heq => h (heq ▸ List.mem_cons_self)
    simp [hc]

theorem trim_of_notMem {chars : List Char} (h : ' ' ∉ chars) : trim chars = chars := by
  rw [trim, dropWhile_blank h, dropWhile_blank (by simpa using h), List.reverse_reverse]

theorem trim_cons (chars : List Char) : trim (' ' :: chars) = trim chars := by
  simp [trim]

theorem trim_concat {chars : List Char} (h : ' ' ∉ chars) : trim (chars ++ [' ']) = chars := by
  cases chars with
  | nil => decide
  | cons c cs =>
    have hc : c ≠ ' ' := fun heq => h (heq ▸ List.mem_cons_self)
    have hreverse : ((c :: cs) ++ [' ']).reverse.dropWhile (· = ' ') = (c :: cs).reverse := by
      rw [List.reverse_append]
      simp only [List.reverse_singleton, List.singleton_append, List.dropWhile_cons_of_pos,
        decide_true]
      exact dropWhile_blank (by rwa [List.mem_reverse])
    have hfirst : ((c :: cs) ++ [' ']).dropWhile (· = ' ') = (c :: cs) ++ [' '] := by simp [hc]
    rw [trim, hfirst, hreverse, List.reverse_reverse]

/-- A text that is not inert is not read as the first operand, whatever separates it from the rest.
-/
theorem operands_ne_of_not_inert {operand : String} (h : ¬ quoting.Inert operand)
    (hblank : ' ' ∉ operand.toList) {rest : List Char} (hrest : Separates rest)
    (others : List String) :
    quoting.operands (quoting.code none (operand.toList ++ rest)) ≠ operand :: others := by
  intro heq
  rw [Inert, Bool.not_eq_true] at h
  obtain ⟨first, texts, hcut⟩ := List.exists_cons_of_ne_nil
    (quoting.cut_ne_nil none (quoting.code none (operand.toList ++ rest)))
  rw [operands, hcut, List.map_cons] at heq
  have htrim : trim first = operand.toList := by
    rw [← (List.cons.inj heq).1, String.toList_ofList]
  refine countP_of_cut_code quoting.valid_none h hblank hrest hcut ?_
  rw [← countP_trim, htrim]
  exact List.countP_eq_length.2 fun c hc => decide_eq_true fun heq => hblank (heq ▸ hc)

theorem separates_remarkChars (remark : String) :
    Separates (AsmLine.remarkChars (some remark)) := ⟨' ' :: remark.toList, .inr rfl⟩

theorem operands_operand_of_inert {operand : String} (h : quoting.Inert operand)
    (hblank : ' ' ∉ operand.toList) (remark : Option String) :
    quoting.operands (quoting.code none (operand.toList ++ AsmLine.remarkChars remark)) =
      [operand] := by
  have hmark : quoting.isMark ' ' = false := by cases quoting <;> decide
  rw [operands, code_append h, cut_append h]
  cases remark with
  | none => simp [AsmLine.remarkChars, code, cut, prepend, trim_of_notMem hblank]
  | some remark =>
    simp [AsmLine.remarkChars, code, cut, prepend, after, hmark, trim_concat hblank]

/-- An operand with a remark is read back exactly if it is inert. -/
theorem operands_remark_iff {operand : String} (hblank : ' ' ∉ operand.toList) (remark : String) :
    quoting.operands (quoting.code none (operand.toList ++ AsmLine.remarkChars (some remark))) =
      [operand] ↔ quoting.Inert operand := by
  constructor
  · intro h
    by_contra hnot
    exact operands_ne_of_not_inert hnot hblank (separates_remarkChars remark) [] h
  · exact fun h => operands_operand_of_inert h hblank _

theorem operands_cons_of_inert {operand : String} (h : quoting.Inert operand)
    (hblank : ' ' ∉ operand.toList) (rest : List Char) :
    quoting.operands (quoting.code none (operand.toList ++ ',' :: ' ' :: rest)) =
      operand :: quoting.operands (quoting.code none rest) := by
  have hmark : quoting.isMark ' ' = false := by cases quoting <;> decide
  have hcomma : quoting.isMark ',' = false := by cases quoting <;> decide
  have hcode : quoting.code none (',' :: ' ' :: rest) = ',' :: ' ' :: quoting.code none rest := by
    simp [code, after, hmark, hcomma]
  obtain ⟨first, texts, hcut⟩ :=
    List.exists_cons_of_ne_nil (quoting.cut_ne_nil none (quoting.code none rest))
  rw [operands, code_append h, hcode, cut_append h, operands, hcut]
  simp [cut, prepend, after, hmark, hcut, trim_of_notMem hblank, trim_cons]

/-- Operands that are inert are read back one by one, without the remark behind them. -/
theorem operands_of_inert {operands : List String} (hne : operands ≠ [])
    (h : ∀ operand ∈ operands, quoting.Inert operand)
    (hblank : ∀ operand ∈ operands, ' ' ∉ operand.toList) (remark : Option String) :
    quoting.operands (quoting.code none
      (AsmLine.operandChars operands ++ AsmLine.remarkChars remark)) = operands := by
  fun_induction AsmLine.operandChars operands with
  | case1 => exact absurd rfl hne
  | case2 operand =>
    exact operands_operand_of_inert (h operand List.mem_cons_self)
      (hblank operand List.mem_cons_self) remark
  | case3 operand operands hrest ih =>
    obtain ⟨hoperand, hoperands⟩ := List.forall_mem_cons.1 h
    obtain ⟨hblankOperand, hblankOperands⟩ := List.forall_mem_cons.1 hblank
    have hne : operands ≠ [] := fun hnil => hrest hnil
    rw [List.append_assoc, List.cons_append, List.cons_append,
      operands_cons_of_inert hoperand hblankOperand, ih hne hoperands hblankOperands]

/-- Operands that are followed by a zero are read back exactly if they are inert. -/
theorem operands_terminated_iff {operands : List String}
    (hblank : ∀ operand ∈ operands, ' ' ∉ operand.toList) :
    quoting.operands (quoting.code none (AsmLine.operandChars (operands ++ ["0"]))) =
      operands ++ ["0"] ↔ ∀ operand ∈ operands, quoting.Inert operand := by
  induction operands with
  | nil =>
    refine iff_of_true ?_ (List.forall_mem_nil _)
    cases quoting <;> decide
  | cons operand operands ih =>
    obtain ⟨hoperand, hoperands⟩ := List.forall_mem_cons.1 hblank
    have hchars : AsmLine.operandChars (operand :: operands ++ ["0"]) =
        operand.toList ++ ',' :: ' ' :: AsmLine.operandChars (operands ++ ["0"]) := by
      cases operands <;> rfl
    rw [hchars, List.forall_mem_cons]
    by_cases h : quoting.Inert operand
    · rw [operands_cons_of_inert h hoperand, List.cons_append, List.cons_inj_right, ih hoperands]
      simp [h]
    · refine iff_of_false ?_ fun hall => h hall.1
      exact operands_ne_of_not_inert h hoperand ⟨_, .inl rfl⟩ _

end Quoting

/-! ## Lines -/

/-- What a line of assembly text is printed for, with its operands. -/
def AsmLine.reading : AsmLine → Reading
  | .empty => .nothing
  | .comment _ => .nothing
  | .label symbol => .label symbol
  | .equate symbol value => .equate symbol value
  | .bytes operands _ => .bytes operands
  | .word operand _ => .words [operand]

/-- A line that is made of inert texts. -/
def AsmLine.Inert (quoting : Quoting) : AsmLine → Prop
  | .empty => True
  | .comment _ => True
  | .label symbol => quoting.Inert symbol
  | .equate symbol _ => quoting.Inert symbol
  | .bytes operands _ => operands ≠ [] ∧ ∀ operand ∈ operands, quoting.Inert operand
  | .word operand _ => quoting.Inert operand

instance (quoting : Quoting) : (line : AsmLine) → Decidable (line.Inert quoting)
  | .empty => inferInstanceAs (Decidable True)
  | .comment _ => inferInstanceAs (Decidable True)
  | .label symbol => inferInstanceAs (Decidable (quoting.Inert symbol))
  | .equate symbol _ => inferInstanceAs (Decidable (quoting.Inert symbol))
  | .bytes operands _ => inferInstanceAs
      (Decidable (operands ≠ [] ∧ ∀ operand ∈ operands, quoting.Inert operand))
  | .word operand _ => inferInstanceAs (Decidable (quoting.Inert operand))

namespace Reading

variable {quoting : Quoting}

theorem ofLine_bytes (rest : List Char) :
    ofLine quoting (Statement.bytesStart ++ rest) =
      .bytes (quoting.operands (quoting.code none rest)) := by
  have hstart : quoting.inert none Statement.bytesStart = true := by cases quoting <;> decide
  rw [ofLine, Quoting.code_append hstart, List.drop_left]
  simp [Statement.bytesStart, List.isPrefixOf]

theorem ofLine_words (rest : List Char) :
    ofLine quoting (Statement.wordStart ++ rest) =
      .words (quoting.operands (quoting.code none rest)) := by
  have hstart : quoting.inert none Statement.wordStart = true := by cases quoting <;> decide
  rw [ofLine, Quoting.code_append hstart, List.drop_left]
  simp [Statement.wordStart, Statement.bytesStart, List.isPrefixOf]

/-- A line that begins with an inert symbol is read as a definition. -/
theorem ofLine_definition {symbol : String} (h : quoting.Inert symbol)
    (hletter : beginsWithLetter symbol = true) {rest : List Char}
    (hrest : quoting.code none rest = rest) :
    ofLine quoting (symbol.toList ++ rest) =
      match Statement.ofDefinition (symbol.toList ++ rest) with
      | .label symbol => .label symbol
      | .equate symbol value => .equate symbol value
      | _ => .unknown := by
  obtain ⟨c, cs, hchars, hletter⟩ := exists_cons_of_beginsWithLetter hletter
  have hspace : ' ' ≠ c := by
    rintro rfl
    exact absurd hletter (by decide +kernel)
  rw [ofLine, Quoting.code_append h, hrest, hchars]
  simp [Statement.bytesStart, Statement.wordStart, List.isPrefixOf, hspace]

end Reading

/-- A line that is made of inert texts is read as what it was printed for. -/
theorem ofLine_chars_of_inert {quoting : Quoting} {line : AsmLine} (hline : line.Printable)
    (h : line.Inert quoting) : Reading.ofLine quoting line.chars = line.reading := by
  cases line with
  | empty => rfl
  | comment text => rfl
  | label symbol =>
    have hrest : quoting.code none [':'] = [':'] := by cases quoting <;> decide
    rw [AsmLine.chars_label, Reading.ofLine_definition h hline.letter hrest,
      ofDefinition_label hline.unbroken, String.ofList_toList]
    rfl
  | equate symbol value =>
    have hrest : quoting.code none (Statement.equateMark ++ Nat.toDigits 10 value) =
        Statement.equateMark ++ Nat.toDigits 10 value := by
      have hmark : quoting.inert none Statement.equateMark = true := by cases quoting <;> decide
      rw [Quoting.code_append hmark, Quoting.code_of_inert (Quoting.inert_toDigits value)]
    rw [AsmLine.chars_equate_eq, Reading.ofLine_definition h hline.letter hrest,
      ofDefinition_equate hline.unbroken, String.ofList_toList]
    rfl
  | bytes operands remark =>
    have hblank : ∀ operand ∈ operands, ' ' ∉ operand.toList :=
      fun operand hoperand => (hline.1 operand hoperand).space_notMem
    rw [AsmLine.chars_bytes_eq, Reading.ofLine_bytes, Quoting.operands_of_inert h.1 h.2 hblank]
    rfl
  | word operand remark =>
    rw [AsmLine.chars_word_eq, Reading.ofLine_words,
      Quoting.operands_operand_of_inert h hline.1.space_notMem]
    rfl

end SoftMenu
