import Mathlib.Data.List.TakeWhile
import Mathlib.Tactic.IntervalCases
import SoftMenu.Json.Reader
import SoftMenu.Json.Writer

/-!
# JSON text is read back

The text of a value, in either layout, is read as that value (`read?_write`). This is shown along
the two passes of the reader: the scanner finds the lexemes of the value in its text
(`finds_writeAt`), and the builder makes the value of its lexemes (`build_lexemes`).

A scanner that has come to the end of a number does not know it yet: it needs the next character to
tell. So the statement about the scanner is that it is *settled*, which says how it goes on after a
blank or a mark and at the end of the text.

Numbers that are not integers are kept as they are written, and are left out here.
-/

namespace SoftMenu.Json

/-- All numbers in the value are integers. -/
inductive Whole : Json → Prop where
  | null : Whole .null
  | bool (value : Bool) : Whole (.bool value)
  | int (value : Int) : Whole (.int value)
  | str (value : String) : Whole (.str value)
  | arr {items : List Json} (h : ∀ item ∈ items, Whole item) : Whole (.arr items)
  | obj {fields : List (String × Json)} (h : ∀ field ∈ fields, Whole field.2) :
    Whole (.obj fields)

/-! ## Runs of a machine -/

section Runs

variable {σ α : Type} {step : σ → α → Option σ} {state next : σ}

theorem foldlM_cons_of_some {symbol : α} (h : step state symbol = some next) (rest : List α) :
    (symbol :: rest).foldlM step state = rest.foldlM step next := by
  rw [List.foldlM_cons, h]
  rfl

theorem foldlM_append_of_some {first : List α} (h : first.foldlM step state = some next)
    (second : List α) : (first ++ second).foldlM step state = second.foldlM step next := by
  rw [List.foldlM_append, h]
  rfl

end Runs

/-! ## Scanning strings -/

theorem hexValue?_hexDigit {n : Nat} (h : n < 16) : hexValue? (hexDigit n) = some n := by
  interval_cases n <;> rfl

theorem afterUnit?_of_lt {value : Nat} (h : value < 32) (chars : List Char) :
    afterUnit? chars none value = some (.text (Char.ofNat value :: chars)) := by
  have hhigh : ¬ 0xD800 ≤ value := by omega
  have hlow : ¬ 0xDC00 ≤ value := by omega
  simp [afterUnit?, hhigh, hlow]

/-- What stands for a character inside quotes is read as that character. -/
theorem scan_escape (c : Char) (chars : List Char) (found : List Lexeme) :
    (escape c).foldlM Scanner.step? ⟨.text chars, found⟩ = some ⟨.text (c :: chars), found⟩ := by
  have hchar : ∀ n, c.toNat = n → Char.ofNat n = c := by
    rintro n rfl
    exact Char.ofNat_toNat c
  unfold escape
  split_ifs with hquote hslash hnewline hreturn htab hback hfeed hcontrol
  · subst hquote
    rfl
  · subst hslash
    rfl
  · subst hnewline
    rfl
  · subst hreturn
    rfl
  · subst htab
    rfl
  · rw [← hchar 8 hback]
    rfl
  · rw [← hchar 12 hfeed]
    rfl
  · -- The four digits of the code unit spell the number of the character.
    have hhigh := hexValue?_hexDigit (n := c.toNat / 16) (by omega)
    have hlow := hexValue?_hexDigit (n := c.toNat % 16) (Nat.mod_lt _ (by omega))
    have hvalue : 16 * (c.toNat / 16) + c.toNat % 16 = c.toNat := Nat.div_add_mod ..
    have hzero : hexValue? '0' = some 0 := rfl
    have hunit := afterUnit?_of_lt hcontrol chars
    simp [Scanner.step?, hhigh, hlow, hzero, hvalue, hunit, hchar c.toNat rfl]
  · simp [Scanner.step?, hquote, hslash, hcontrol]

/-- A quoted text is read as the text. -/
theorem scan_quote (text : String) (found : List Lexeme) :
    (quote text).foldlM Scanner.step? ⟨.gap, found⟩ =
      some ⟨.gap, .scalar (.str text) :: found⟩ := by
  have hchars : ∀ (chars seen : List Char), (chars.flatMap escape).foldlM Scanner.step?
      ⟨.text seen, found⟩ = some ⟨.text (chars.reverse ++ seen), found⟩ := by
    intro chars
    induction chars with
    | nil =>
      intro seen
      rfl
    | cons c chars ih =>
      intro seen
      rw [List.flatMap_cons, foldlM_append_of_some (scan_escape c seen found), ih]
      simp
  have hopen : Scanner.step? ⟨.gap, found⟩ '"' = some ⟨.text [], found⟩ := rfl
  rw [quote, List.cons_append, foldlM_cons_of_some hopen,
    foldlM_append_of_some (hchars text.toList [])]
  simp [Scanner.step?]

/-! ## Scanning words -/

/-- Whether a character may stand inside a name or a number. -/
def isInner (c : Char) : Bool := !(isBlank c || isMark c || c = '"')

/-- A word is collected character by character. -/
theorem scan_word {chars : List Char} (h : chars.all isInner = true) (seen : List Char)
    (found : List Lexeme) :
    chars.foldlM Scanner.step? ⟨.word seen, found⟩ =
      some ⟨.word (chars.reverse ++ seen), found⟩ := by
  induction chars generalizing seen with
  | nil => rfl
  | cons c chars ih =>
    rw [List.all_cons, Bool.and_eq_true] at h
    have hc : (isBlank c || isMark c || c = '"') = false := by simpa [isInner] using h.1
    have hstep : Scanner.step? ⟨.word seen, found⟩ c = some ⟨.word (c :: seen), found⟩ := by
      unfold Scanner.step?
      rw [hc]
      rfl
    rw [foldlM_cons_of_some hstep, ih h.2]
    simp

theorem ne_of_isDigit {c other : Char} (h : c.isDigit = true) (hother : other.isDigit = false) :
    c ≠ other := by
  rintro rfl
  rw [h] at hother
  cases hother

theorem isInner_of_isDigit {c : Char} (h : c.isDigit = true) : isInner c = true := by
  by_contra hinner
  simp only [isInner, isBlank, isMark, Bool.not_eq_true, Bool.not_eq_false', Bool.or_eq_true,
    beq_iff_eq, decide_eq_true_eq, or_assoc] at hinner
  rcases hinner with h' | h' | h' | h' | h' | h' | h' | h' | h' | h' | h'
  all_goals exact ne_of_isDigit h (by decide) h'

/-! ## Numbers -/

theorem digitsValue_toDigits (n : Nat) : digitsValue (Nat.toDigits 10 n) = n :=
  Nat.ofDigitChars_ten_toDigits

theorem all_isDigit_toDigits (n : Nat) : (Nat.toDigits 10 n).all Char.isDigit = true :=
  List.all_eq_true.2 fun _ => Nat.isDigit_of_mem_toDigits (by decide) (by decide)

/-- The digits of a number begin with a zero only if the number is zero. -/
theorem head?_toDigits {n : Nat} (h : n ≠ 0) : (Nat.toDigits 10 n).head? ≠ some '0' := by
  induction n using Nat.strong_induction_on with
  | _ n ih =>
    by_cases hlt : n < 10
    · rw [Nat.toDigits_of_lt_base hlt]
      interval_cases n <;> simp_all
    · rw [Nat.toDigits_of_base_le (by decide) (by omega)]
      have hrest := ih (n / 10) (by omega) (by omega)
      rw [List.head?_append]
      cases hhead : (Nat.toDigits 10 (n / 10)).head? with
      | none => exact absurd (List.head?_eq_none_iff.1 hhead) Nat.toDigits_ne_nil
      | some c =>
        rw [hhead] at hrest
        exact hrest

/-- Digits without a needless zero in front are read as their number, and a negative zero as
written. -/
theorem magnitude?_digits {digits : List Char} (hdigits : digits.all Char.isDigit = true)
    (hne : digits ≠ []) (hhead : digits.head? = some '0' → digits.length = 1) (negative : Bool) :
    magnitude? negative digits =
      some (if negative then
        if digitsValue digits = 0 then .real (String.ofList ('-' :: digits))
        else .int (-(digitsValue digits : Nat))
      else .int (digitsValue digits)) := by
  have htake : digits.takeWhile Char.isDigit = digits :=
    List.takeWhile_eq_self_iff.2 (List.all_eq_true.1 hdigits)
  have hdrop : digits.dropWhile Char.isDigit = [] :=
    List.dropWhile_eq_nil_iff.2 (List.all_eq_true.1 hdigits)
  unfold magnitude?
  rw [htake, hdrop]
  cases negative <;> simpa [hne] using hhead

theorem word?_of_digit {c : Char} (h : c.isDigit = true) (chars : List Char) :
    word? (c :: chars) = magnitude? false (c :: chars) := by
  have hne : ∀ {other : Char} {others : List Char}, other.isDigit = false →
      c :: chars ≠ other :: others := by
    intro other others hother heq
    exact ne_of_isDigit h hother (List.cons.inj heq).1
  unfold word?
  split
  case h_1 heq => exact absurd heq (hne (by decide))
  case h_2 heq => exact absurd heq (hne (by decide))
  case h_3 heq => exact absurd heq (hne (by decide))
  case h_4 heq => exact absurd heq (hne (by decide))
  case h_5 => rfl

/-- A number in digits is read as that number. -/
theorem word?_decimal (value : Int) : word? (decimal value) = some (.int value) := by
  have hhead : ∀ n, (Nat.toDigits 10 n).head? = some '0' → (Nat.toDigits 10 n).length = 1 := by
    intro n hzero
    by_cases hn : n = 0
    · rw [hn]
      rfl
    · exact absurd hzero (head?_toDigits hn)
  cases value with
  | ofNat n =>
    have hmagnitude :=
      magnitude?_digits (all_isDigit_toDigits n) Nat.toDigits_ne_nil (hhead n) false
    rw [digitsValue_toDigits] at hmagnitude
    rw [decimal]
    cases hdigits : Nat.toDigits 10 n with
    | nil => exact absurd hdigits Nat.toDigits_ne_nil
    | cons c chars =>
      have hall := all_isDigit_toDigits n
      rw [hdigits, List.all_cons, Bool.and_eq_true] at hall
      rw [word?_of_digit hall.1, ← hdigits, hmagnitude]
      rfl
  | negSucc n =>
    have hmagnitude := magnitude?_digits (all_isDigit_toDigits (n + 1)) Nat.toDigits_ne_nil
      (hhead (n + 1)) true
    rw [digitsValue_toDigits] at hmagnitude
    show magnitude? true (Nat.toDigits 10 (n + 1)) = _
    rw [hmagnitude]
    rfl

theorem decimal_ne_nil (value : Int) : decimal value ≠ [] := by
  cases value with
  | ofNat n => exact Nat.toDigits_ne_nil
  | negSucc n => exact List.cons_ne_nil _ _

theorem all_isInner_decimal (value : Int) : (decimal value).all isInner = true := by
  have hdigits : ∀ n, (Nat.toDigits 10 n).all isInner = true := by
    intro n
    refine List.all_eq_true.2 fun c hc => isInner_of_isDigit ?_
    exact List.all_eq_true.1 (all_isDigit_toDigits n) c hc
  cases value with
  | ofNat n => exact hdigits n
  | negSucc n =>
    rw [decimal, List.all_cons, hdigits]
    rfl

/-! ## Scanning values -/

/-- The scanner has found these lexemes; it may be inside the last one, but a blank or a mark and
the end of the text end it. -/
structure Scanner.Settles (scanner : Scanner) (found : List Lexeme) : Prop where
  finish : scanner.finish? = some found.reverse
  step : ∀ c, (isBlank c || isMark c) = true → scanner.step? c = enter? found c

theorem Scanner.settles_gap (found : List Lexeme) : Settles ⟨.gap, found⟩ found where
  finish := rfl
  step _ _ := rfl

/-- Over the characters the scanner finds these lexemes, those found before included. -/
def Finds (scanner : Scanner) (chars : List Char) (found : List Lexeme) : Prop :=
  ∃ next, chars.foldlM Scanner.step? scanner = some next ∧ next.Settles found

/-- What is found in the second part of a text is found behind the first part, in whatever state
that leaves the scanner. -/
theorem Finds.append {scanner : Scanner} {first second : List Char} {found found' : List Lexeme}
    (h : Finds scanner first found)
    (h' : ∀ next : Scanner, next.Settles found → Finds next second found') :
    Finds scanner (first ++ second) found' := by
  obtain ⟨next, hfirst, hnext⟩ := h
  obtain ⟨last, hsecond, hlast⟩ := h' next hnext
  exact ⟨last, (foldlM_append_of_some hfirst second).trans hsecond, hlast⟩

/-- A word is found as the value that it stands for. -/
theorem finds_word {chars : List Char} {value : Json} (hne : chars ≠ [])
    (hinner : chars.all isInner = true) (hword : word? chars = some value) (found : List Lexeme) :
    Finds ⟨.gap, found⟩ chars (.scalar value :: found) := by
  cases chars with
  | nil => exact absurd rfl hne
  | cons c chars =>
    rw [List.all_cons, Bool.and_eq_true] at hinner
    obtain ⟨hc, hchars⟩ := hinner
    simp only [isInner, Bool.not_eq_true', Bool.or_eq_false_iff, decide_eq_false_iff_not] at hc
    have hstep : Scanner.step? ⟨.gap, found⟩ c = some ⟨.word [c], found⟩ := by
      simp [Scanner.step?, Scanner.enter?, hc]
    refine ⟨⟨.word (chars.reverse ++ [c]), found⟩, ?_, ?_, fun other hother => ?_⟩
    · rw [foldlM_cons_of_some hstep]
      exact scan_word hchars [c] found
    · simp [Scanner.finish?, hword]
    · simp [Scanner.step?, hother, hword]

theorem finds_quote (text : String) (found : List Lexeme) :
    Finds ⟨.gap, found⟩ (quote text) (.scalar (.str text) :: found) :=
  ⟨_, scan_quote text found, Scanner.settles_gap _⟩

theorem isBlank_lineBreak (layout : Layout) (level : Nat) :
    (layout.lineBreak level).all isBlank = true := by
  cases layout with
  | compact => rfl
  | pretty =>
    refine List.all_eq_true.2 fun c hc => ?_
    rcases List.mem_cons.1 hc with rfl | hc
    · rfl
    · rw [List.eq_of_mem_replicate hc]
      rfl

theorem isBlank_colon (layout : Layout) :
    ∃ blanks : List Char, layout.colon = ':' :: blanks ∧ blanks.all isBlank = true := by
  cases layout with
  | compact => exact ⟨[], rfl, rfl⟩
  | pretty => exact ⟨[' '], rfl, rfl⟩

theorem scan_blanks {blanks : List Char} (h : blanks.all isBlank = true) (found : List Lexeme) :
    blanks.foldlM Scanner.step? ⟨.gap, found⟩ = some ⟨.gap, found⟩ := by
  induction blanks with
  | nil => rfl
  | cons c blanks ih =>
    rw [List.all_cons, Bool.and_eq_true] at h
    have hstep : Scanner.step? ⟨.gap, found⟩ c = some ⟨.gap, found⟩ := if_pos h.1
    rw [foldlM_cons_of_some hstep]
    exact ih h.2

theorem isBlank_of_isMark {c : Char} (h : isMark c = true) : isBlank c = false := by
  simp only [isMark, Bool.or_eq_true, beq_iff_eq, or_assoc] at h
  rcases h with rfl | rfl | rfl | rfl | rfl | rfl
  all_goals rfl

namespace Scanner.Settles

variable {scanner : Scanner} {found found' : List Lexeme} {blanks rest : List Char} {c : Char}

theorem step_mark (h : scanner.Settles found) (hmark : isMark c = true) :
    scanner.step? c = some ⟨.gap, .mark c :: found⟩ := by
  have hblank := isBlank_of_isMark hmark
  rw [h.step c (by rw [hmark, Bool.or_true]), enter?, hblank, hmark]
  rfl

/-- A mark ends the last lexeme, and after some blanks the next one may begin. -/
theorem finds_open (h : scanner.Settles found) (hmark : isMark c = true)
    (hblanks : blanks.all isBlank = true) (hrest : Finds ⟨.gap, .mark c :: found⟩ rest found') :
    Finds scanner (c :: (blanks ++ rest)) found' := by
  obtain ⟨next, hfold, hnext⟩ := hrest
  refine ⟨next, ?_, hnext⟩
  rw [foldlM_cons_of_some (h.step_mark hmark), foldlM_append_of_some (scan_blanks hblanks _)]
  exact hfold

/-- A mark after some blanks ends the last lexeme. -/
theorem finds_close (h : scanner.Settles found) (hblanks : blanks.all isBlank = true)
    (hmark : isMark c = true) : Finds scanner (blanks ++ [c]) (.mark c :: found) := by
  have hgap : ∀ {scanner : Scanner}, scanner.Settles found →
      Finds scanner [c] (.mark c :: found) := by
    intro scanner h
    exact ⟨_, foldlM_cons_of_some (h.step_mark hmark) [], settles_gap _⟩
  cases blanks with
  | nil => exact hgap h
  | cons b blanks =>
    rw [List.all_cons, Bool.and_eq_true] at hblanks
    have hstep : scanner.step? b = some ⟨.gap, found⟩ := by
      rw [h.step b (by rw [hblanks.1, Bool.true_or])]
      exact if_pos hblanks.1
    obtain ⟨next, hfold, hnext⟩ := hgap (settles_gap found)
    refine ⟨next, ?_, hnext⟩
    rw [List.cons_append, foldlM_cons_of_some hstep,
      foldlM_append_of_some (scan_blanks hblanks.2 found)]
    exact hfold

end Scanner.Settles

mutual

/-- The lexemes of a value. -/
def lexemes : Json → List Lexeme
  | .arr [] => [.mark '[', .mark ']']
  | .arr (item :: items) =>
    .mark '[' :: (item.lexemes ++ (lexemesOfItems items ++ [.mark ']']))
  | .obj [] => [.mark '\x7b', .mark '\x7d']
  | .obj ((key, value) :: fields) =>
    .mark '\x7b' :: .scalar (.str key) :: .mark ':' ::
      (value.lexemes ++ (lexemesOfFields fields ++ [.mark '\x7d']))
  | value => [.scalar value]

/-- The lexemes of further items of an array. -/
def lexemesOfItems : List Json → List Lexeme
  | [] => []
  | item :: items => .mark ',' :: (item.lexemes ++ lexemesOfItems items)

/-- The lexemes of further fields of an object. -/
def lexemesOfFields : List (String × Json) → List Lexeme
  | [] => []
  | (key, value) :: fields =>
    .mark ',' :: .scalar (.str key) :: .mark ':' :: (value.lexemes ++ lexemesOfFields fields)

end

/-- The scanner finds the lexemes of the value in its text, at any level. -/
def Scannable (layout : Layout) (value : Json) : Prop :=
  ∀ (level : Nat) (found : List Lexeme),
    Finds ⟨.gap, found⟩ (writeAt layout level value) (value.lexemes.reverse ++ found)

/-- In the text of some items their lexemes are found, with the commas in front of them. -/
theorem finds_writeItems {layout : Layout} {items : List Json}
    (hitems : ∀ item ∈ items, Scannable layout item) (level : Nat) {scanner : Scanner}
    {found : List Lexeme} (h : scanner.Settles found) :
    Finds scanner (writeItems layout level items) ((lexemesOfItems items).reverse ++ found) := by
  induction items generalizing scanner found with
  | nil => exact ⟨scanner, rfl, h⟩
  | cons item items ih =>
    obtain ⟨hitem, hrest⟩ := List.forall_mem_cons.1 hitems
    simp only [writeItems, lexemesOfItems, List.cons_append, List.append_assoc, List.reverse_cons,
      List.reverse_append, List.nil_append]
    refine h.finds_open rfl (isBlank_lineBreak layout level) ?_
    exact (hitem level _).append fun next hnext => ih hrest hnext

/-- The scanner finds a key, the colon after it and the lexemes of a value. -/
theorem finds_field {layout : Layout} {value : Json} (hvalue : Scannable layout value)
    (key : String) (level : Nat) (found : List Lexeme) :
    Finds ⟨.gap, found⟩ (quote key ++ (layout.colon ++ writeAt layout level value))
      (value.lexemes.reverse ++ .mark ':' :: .scalar (.str key) :: found) := by
  obtain ⟨blanks, hcolon, hblanks⟩ := isBlank_colon layout
  rw [hcolon]
  refine (finds_quote key found).append fun next hnext => ?_
  exact hnext.finds_open rfl hblanks (hvalue level _)

/-- In the text of some fields their lexemes are found, with the commas in front of them. -/
theorem finds_writeFields {layout : Layout} {fields : List (String × Json)}
    (hfields : ∀ field ∈ fields, Scannable layout field.2) (level : Nat) {scanner : Scanner}
    {found : List Lexeme} (h : scanner.Settles found) :
    Finds scanner (writeFields layout level fields)
      ((lexemesOfFields fields).reverse ++ found) := by
  induction fields generalizing scanner found with
  | nil => exact ⟨scanner, rfl, h⟩
  | cons field fields ih =>
    obtain ⟨key, value⟩ := field
    obtain ⟨hvalue, hrest⟩ := List.forall_mem_cons.1 hfields
    have hfield := finds_field hvalue key level
    simp only [writeFields, lexemesOfFields, List.cons_append, List.append_assoc,
      List.reverse_cons, List.reverse_append, List.nil_append]
    refine h.finds_open rfl (isBlank_lineBreak layout level) ?_
    rw [← List.append_assoc, ← List.append_assoc, List.append_assoc (quote key)]
    exact (hfield _).append fun next hnext => ih hrest hnext

/-- The lexemes of an array are found in its text if those of its items are. -/
theorem scannable_arr {layout : Layout} {items : List Json}
    (hitems : ∀ item ∈ items, Scannable layout item) : Scannable layout (.arr items) := by
  intro level found
  cases items with
  | nil => exact ⟨_, rfl, Scanner.settles_gap _⟩
  | cons item items =>
    obtain ⟨hitem, hrest⟩ := List.forall_mem_cons.1 hitems
    simp only [writeAt, lexemes, List.cons_append, List.append_assoc, List.reverse_cons,
      List.reverse_append, List.nil_append, List.reverse_nil]
    refine (Scanner.settles_gap found).finds_open rfl (isBlank_lineBreak layout _) ?_
    refine (hitem _ _).append fun next hnext => ?_
    refine (finds_writeItems hrest _ hnext).append fun last hlast => ?_
    exact hlast.finds_close (isBlank_lineBreak layout level) rfl

/-- The lexemes of an object are found in its text if those of its values are. -/
theorem scannable_obj {layout : Layout} {fields : List (String × Json)}
    (hfields : ∀ field ∈ fields, Scannable layout field.2) : Scannable layout (.obj fields) := by
  intro level found
  cases fields with
  | nil => exact ⟨_, rfl, Scanner.settles_gap _⟩
  | cons field fields =>
    obtain ⟨key, value⟩ := field
    obtain ⟨hvalue, hrest⟩ := List.forall_mem_cons.1 hfields
    have hfield := finds_field hvalue key (level + 1)
    simp only [writeAt, lexemes, List.cons_append, List.append_assoc, List.reverse_cons,
      List.reverse_append, List.nil_append, List.reverse_nil]
    refine (Scanner.settles_gap found).finds_open rfl (isBlank_lineBreak layout _) ?_
    rw [← List.append_assoc, ← List.append_assoc, List.append_assoc (quote key)]
    refine (hfield _).append fun next hnext => ?_
    refine (finds_writeFields hrest _ hnext).append fun last hlast => ?_
    exact hlast.finds_close (isBlank_lineBreak layout level) rfl

theorem finds_null (found : List Lexeme) :
    Finds ⟨.gap, found⟩ "null".toList (.scalar .null :: found) :=
  finds_word (by decide) (by decide) rfl found

theorem finds_true (found : List Lexeme) :
    Finds ⟨.gap, found⟩ "true".toList (.scalar (.bool true) :: found) :=
  finds_word (by decide) (by decide) rfl found

theorem finds_false (found : List Lexeme) :
    Finds ⟨.gap, found⟩ "false".toList (.scalar (.bool false) :: found) :=
  finds_word (by decide) (by decide) rfl found

theorem finds_decimal (value : Int) (found : List Lexeme) :
    Finds ⟨.gap, found⟩ (decimal value) (.scalar (.int value) :: found) :=
  finds_word (decimal_ne_nil value) (all_isInner_decimal value) (word?_decimal value) found

/-- The lexemes of a whole value are found in its text, by induction on the value. -/
theorem Whole.scannable {value : Json} (h : value.Whole) (layout : Layout) :
    Scannable layout value := by
  induction h with
  | null => exact fun _ => finds_null
  | bool value =>
    cases value with
    | false => exact fun _ => finds_false
    | true => exact fun _ => finds_true
  | int value => exact fun _ => finds_decimal value
  | str value => exact fun _ => finds_quote value
  | arr _ ih => exact scannable_arr ih
  | obj _ ih => exact scannable_obj ih

/-- The text of a whole value is cut up into its lexemes. -/
theorem lexemes?_writeAt {value : Json} (h : value.Whole) (layout : Layout) :
    lexemes? (writeAt layout 0 value) = some value.lexemes := by
  obtain ⟨scanner, hscan, hsettles⟩ := h.scannable layout 0 []
  rw [lexemes?, hscan]
  show scanner.finish? = _
  rw [hsettles.finish, List.append_nil, List.reverse_reverse]

/-! ## Building values -/

/-- Over the lexemes of the value the builder makes the value, whatever is open around it. -/
def Buildable (value : Json) : Prop :=
  ∀ frames : List Frame,
    value.lexemes.foldlM Builder.step? ⟨.value, frames⟩ = some ⟨.after value, frames⟩

/-- The first lexeme of a value is not a closing bracket. -/
theorem exists_lexemes (value : Json) :
    ∃ first rest, value.lexemes = first :: rest ∧ first ≠ .mark ']' := by
  unfold lexemes
  split
  all_goals exact ⟨_, _, rfl, by simp⟩

/-- The first item of an array is built like any other. -/
theorem build_firstItem {value : Json} (h : Buildable value) (frames : List Frame) :
    value.lexemes.foldlM Builder.step? ⟨.firstItem, frames⟩ = some ⟨.after value, frames⟩ := by
  obtain ⟨first, rest, hlexemes, hfirst⟩ := exists_lexemes value
  have hstep : Builder.step? ⟨.firstItem, frames⟩ first = Builder.step? ⟨.value, frames⟩ first := by
    cases first with
    | scalar value => rfl
    | mark c =>
      have hc : c ≠ ']' := fun heq => hfirst (congrArg Lexeme.mark heq)
      simp [Builder.step?, hc]
  have hvalue := h frames
  rw [hlexemes, List.foldlM_cons] at hvalue ⊢
  rw [hstep]
  exact hvalue

/-- From the lexemes of its further items an array is built to its end. -/
theorem build_items {items : List Json} (hitems : ∀ item ∈ items, Buildable item) (item : Json)
    (done : List Json) (frames : List Frame) :
    (lexemesOfItems items ++ [Lexeme.mark ']']).foldlM Builder.step?
        ⟨.after item, .items done :: frames⟩ =
      some ⟨.after (.arr ((item :: done).reverse ++ items)), frames⟩ := by
  induction items generalizing item done with
  | nil =>
    rw [List.append_nil]
    rfl
  | cons next items ih =>
    obtain ⟨hnext, hrest⟩ := List.forall_mem_cons.1 hitems
    have hcomma : Builder.step? ⟨.after item, .items done :: frames⟩ (.mark ',') =
        some ⟨.value, .items (item :: done) :: frames⟩ := rfl
    have hitem := hnext (.items (item :: done) :: frames)
    rw [lexemesOfItems, List.cons_append, foldlM_cons_of_some hcomma, List.append_assoc,
      foldlM_append_of_some hitem, ih hrest, List.reverse_cons, List.append_assoc]
    rfl

/-- From its lexemes a field is built, after which the reader stands behind its value. -/
theorem build_field {value : Json} (h : Buildable value) (key : String)
    (done : List (String × Json)) (frames : List Frame) (rest : List Lexeme) {want : Want}
    (hwant : Builder.step? ⟨want, frames⟩ (.scalar (.str key)) = some ⟨.colon done key, frames⟩) :
    (Lexeme.scalar (.str key) :: .mark ':' :: (value.lexemes ++ rest)).foldlM Builder.step?
        ⟨want, frames⟩ =
      rest.foldlM Builder.step? ⟨.after value, .fields done key :: frames⟩ := by
  have hcolon : Builder.step? ⟨.colon done key, frames⟩ (.mark ':') =
      some ⟨.value, .fields done key :: frames⟩ := rfl
  have hvalue := h (.fields done key :: frames)
  rw [foldlM_cons_of_some hwant, foldlM_cons_of_some hcolon, foldlM_append_of_some hvalue]

/-- From the lexemes of its further fields an object is built to its end. -/
theorem build_fields {fields : List (String × Json)}
    (hfields : ∀ field ∈ fields, Buildable field.2) (key : String) (value : Json)
    (done : List (String × Json)) (frames : List Frame) :
    (lexemesOfFields fields ++ [Lexeme.mark '\x7d']).foldlM Builder.step?
        ⟨.after value, .fields done key :: frames⟩ =
      some ⟨.after (.obj (((key, value) :: done).reverse ++ fields)), frames⟩ := by
  induction fields generalizing key value done with
  | nil =>
    rw [List.append_nil]
    rfl
  | cons field fields ih =>
    obtain ⟨nextKey, next⟩ := field
    obtain ⟨hnext, hrest⟩ := List.forall_mem_cons.1 hfields
    have hcomma : Builder.step? ⟨.after value, .fields done key :: frames⟩ (.mark ',') =
        some ⟨.key ((key, value) :: done), frames⟩ := rfl
    rw [lexemesOfFields, List.cons_append, foldlM_cons_of_some hcomma, List.cons_append,
      List.cons_append, List.append_assoc, build_field hnext nextKey _ _ _ rfl, ih hrest,
      List.reverse_cons, List.append_assoc]
    rfl

/-- An array is built from its lexemes if its items are. -/
theorem buildable_arr {items : List Json} (hitems : ∀ item ∈ items, Buildable item) :
    Buildable (.arr items) := by
  intro frames
  cases items with
  | nil => rfl
  | cons item items =>
    obtain ⟨hitem, hrest⟩ := List.forall_mem_cons.1 hitems
    have hopen : Builder.step? ⟨.value, frames⟩ (.mark '[') =
        some ⟨.firstItem, .items [] :: frames⟩ := rfl
    rw [lexemes, foldlM_cons_of_some hopen, foldlM_append_of_some (build_firstItem hitem _)]
    exact build_items hrest item [] frames

/-- An object is built from its lexemes if its values are. -/
theorem buildable_obj {fields : List (String × Json)}
    (hfields : ∀ field ∈ fields, Buildable field.2) : Buildable (.obj fields) := by
  intro frames
  cases fields with
  | nil => rfl
  | cons field fields =>
    obtain ⟨key, value⟩ := field
    obtain ⟨hvalue, hrest⟩ := List.forall_mem_cons.1 hfields
    have hopen : Builder.step? ⟨.value, frames⟩ (.mark '\x7b') = some ⟨.firstKey, frames⟩ := rfl
    rw [lexemes, foldlM_cons_of_some hopen]
    exact (build_field hvalue key [] frames _ rfl).trans (build_fields hrest key value [] frames)

/-- A whole value is built from its lexemes, by induction on the value. -/
theorem Whole.buildable {value : Json} (h : value.Whole) : Buildable value := by
  induction h with
  | arr _ ih => exact buildable_arr ih
  | obj _ ih => exact buildable_obj ih
  | null | bool | int | str => exact fun _ => rfl

/-- The text of a value, in either layout, is read as that value. -/
theorem read?_write {value : Json} (h : value.Whole) (layout : Layout) :
    read? (value.write layout) = some value := by
  have hbuild := h.buildable []
  rw [read?, write, String.toList_ofList, lexemes?_writeAt h layout]
  show (value.lexemes.foldlM Builder.step? ⟨.value, []⟩ >>= Builder.finish?) = _
  rw [hbuild]
  rfl

end SoftMenu.Json
