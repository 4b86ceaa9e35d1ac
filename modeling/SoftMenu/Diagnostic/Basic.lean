import SoftMenu.Diagnostic.Code
import SoftMenu.Place

/-!
# Diagnostics

What is reported about a menu definition: a code, how serious it is, a sentence, the place in the
text, and details by name for programs that read diagnostics. The details are a finite map from
strings to strings that is always listed in ascending order of its keys.
-/

namespace SoftMenu

/-- How serious a diagnostic is. -/
inductive Severity where
  /-- Nothing is compiled. -/
  | error
  /-- The definition compiles but may not mean what was intended. -/
  | warn
deriving DecidableEq, Repr

/-- The word for a severity. -/
def Severity.word : Severity → String
  | .error => "error"
  | .warn => "warn"

/-- The severity that a word names. -/
def Severity.ofWord? : String → Option Severity
  | "error" => some .error
  | "warn" => some .warn
  | _ => none

/-! ## Details -/

/-- Gives a key a value in a list of pairs with ascending keys. -/
def insertPair (key value : String) : List (String × String) → List (String × String)
  | [] => [(key, value)]
  | pair :: pairs =>
    if key < pair.1 then (key, value) :: pair :: pairs
    else if key = pair.1 then (key, value) :: pairs
    else pair :: insertPair key value pairs

/-- A pair of the list after an insertion is the new pair or one of the pairs before. -/
theorem eq_or_mem_of_mem_insertPair {key value : String} {pair : String × String}
    {pairs : List (String × String)} (h : pair ∈ insertPair key value pairs) :
    pair = (key, value) ∨ pair ∈ pairs := by
  induction pairs with
  | nil => simpa [insertPair] using h
  | cons first rest ih =>
    by_cases less : key < first.1
    · simpa [insertPair, less] using h
    · by_cases equal : key = first.1
      · rw [insertPair, if_neg less, if_pos equal] at h
        rcases List.mem_cons.1 h with h | h
        · exact .inl h
        · exact .inr (List.mem_cons_of_mem _ h)
      · rw [insertPair, if_neg less, if_neg equal] at h
        rcases List.mem_cons.1 h with rfl | h
        · exact .inr List.mem_cons_self
        · exact (ih h).imp_right (List.mem_cons_of_mem _)

/-- An insertion keeps the keys ascending. -/
theorem pairwise_insertPair {key value : String} {pairs : List (String × String)}
    (h : pairs.Pairwise fun a b => a.1 < b.1) :
    (insertPair key value pairs).Pairwise fun a b => a.1 < b.1 := by
  induction pairs with
  | nil => simp [insertPair]
  | cons first rest ih =>
    obtain ⟨below, sorted⟩ := List.pairwise_cons.1 h
    by_cases less : key < first.1
    · rw [insertPair, if_pos less]
      refine List.pairwise_cons.2 ⟨fun pair mem => ?_, h⟩
      rcases List.mem_cons.1 mem with rfl | mem
      · exact less
      · exact String.lt_trans less (below pair mem)
    · by_cases equal : key = first.1
      · rw [insertPair, if_neg less, if_pos equal]
        exact List.pairwise_cons.2 ⟨fun pair mem => equal ▸ below pair mem, sorted⟩
      · rw [insertPair, if_neg less, if_neg equal]
        refine List.pairwise_cons.2 ⟨fun pair mem => ?_, ih sorted⟩
        rcases eq_or_mem_of_mem_insertPair mem with rfl | mem
        · refine String.not_le.1 fun greater => equal ?_
          exact String.le_antisymm greater (String.not_lt.1 less)
        · exact below pair mem

/-- Details of a diagnostic: strings by name, in ascending order of the names. -/
structure Context where
  /-- The names and their strings. -/
  pairs : List (String × String) := []
  /-- The names ascend, so none is repeated. -/
  ascending : pairs.Pairwise (fun a b => a.1 < b.1) := by simp
deriving DecidableEq, Repr

namespace Context

/-- Gives a name a string, in place of any it had. -/
def insert (context : Context) (key value : String) : Context :=
  ⟨insertPair key value context.pairs, pairwise_insertPair context.ascending⟩

/-- The details with the given pairs; of two with the same name the later one counts. -/
def ofPairs (pairs : List (String × String)) : Context :=
  pairs.foldl (fun context pair => context.insert pair.1 pair.2) {}

end Context

/-! ## Diagnostics -/

/-- A report about a menu definition. -/
structure Diagnostic where
  /-- The spelling of its code. -/
  id : String
  /-- How serious it is. -/
  severity : Severity
  /-- The sentence for the reader. -/
  message : String
  /-- The place in the text, if it has one. -/
  span : Option Span := none
  /-- The details, if there are any. -/
  context : Option Context := none
deriving DecidableEq, Repr

namespace Diagnostic

/-- Whether the diagnostic is an error. -/
def isError (diagnostic : Diagnostic) : Bool := diagnostic.severity = .error

/-- The explanation of the code of a diagnostic. -/
def explanation? (diagnostic : Diagnostic) : Option String := explain? diagnostic.id

/-- A diagnostic on one line. -/
def summary (diagnostic : Diagnostic) : String :=
  s!"{diagnostic.severity.word}[{diagnostic.id}]: {diagnostic.message}"

end Diagnostic

end SoftMenu
