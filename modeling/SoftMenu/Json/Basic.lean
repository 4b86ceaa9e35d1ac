/-!
# JSON values

The data format of menu files and diagnostics. An object keeps its fields in the order in which they
are written, repeated ones included. Whoever looks for a field fails if it is repeated; fields that
nobody looks for may be repeated.
-/

namespace SoftMenu

/-- A JSON value. -/
inductive Json where
  /-- The value `null`. -/
  | null
  /-- A truth value. -/
  | bool (value : Bool)
  /-- A number written as an integer. -/
  | int (value : Int)
  /-- Any other number, as it is written: with a fraction, an exponent, or as a negative zero. -/
  | real (literal : String)
  /-- A string. -/
  | str (value : String)
  /-- An array. -/
  | arr (items : List Json)
  /-- An object. -/
  | obj (fields : List (String × Json))
deriving Repr, Inhabited

namespace Json

/-- The number `n`. -/
def nat (n : Nat) : Json := .int n

/-- The value of the field with the given key, or nothing in its place if there is no such field;
fails if there are several. -/
def given? (key : String) : List (String × Json) → Option (Option Json)
  | [] => some none
  | (name, value) :: fields =>
    if name = key then
      if fields.any fun field => field.1 = key then none else some (some value)
    else given? key fields

/-- The value of the field with the given key, if the value is an object with one such field. -/
def field? (key : String) : Json → Option Json
  | .obj fields => (given? key fields).join
  | _ => none

/-- The values of the named fields of a record, in the order of the names. A record is an object, in
which a field that is left out counts as `null` and none of these fields is repeated, or the array
of the values of all its fields. -/
def record? (names : List String) : Json → Option (List Json)
  | .obj fields => names.mapM fun name => (given? name fields).map fun value? => value?.getD .null
  | .arr items => if items.length = names.length then some items else none
  | _ => none

/-- Reads a value that may be `null`. -/
def nullable? (decode : Json → Option α) : Json → Option (Option α)
  | .null => some none
  | value => (decode value).map some

/-- Reads a field that may be left out or `null`; fails if it is repeated, or if it is given and
cannot be read. -/
def optional? (decode : Json → Option α) (key : String) : Json → Option (Option α)
  | .obj fields => (given? key fields).bind fun value? => (value?.getD .null).nullable? decode
  | _ => some none

/-- The string that a value is. -/
def str? : Json → Option String
  | .str value => some value
  | _ => none

/-- The truth value that a value is. -/
def bool? : Json → Option Bool
  | .bool value => some value
  | _ => none

/-- The word that a choice among words is: a string, or an object with one field, which has that
word for its key and is `null`. -/
def choice? : Json → Option String
  | .str word => some word
  | .obj [(word, .null)] => some word
  | _ => none

/-- The number that a value is, if it is an integer and fits in 64 bits without a sign. -/
def word64? : Json → Option Nat
  | .int (.ofNat n) => if n < UInt64.size then some n else none
  | _ => none

/-- The byte that a value is. -/
def byte? : Json → Option UInt8
  | .int (.ofNat n) => if n < 256 then some (.ofNat n) else none
  | _ => none

/-- The items of an array. -/
def items? : Json → Option (List Json)
  | .arr items => some items
  | _ => none

/-- The strings of an array of strings. -/
def strings? (value : Json) : Option (List String) := do
  (← value.items?).mapM str?

/-- A value, or `null` for nothing. -/
def ofOption (encode : α → Json) : Option α → Json
  | none => .null
  | some value => encode value

/-- The fields of an object that are present. -/
def present (fields : List (String × Option Json)) : List (String × Json) :=
  fields.filterMap fun (key, value?) => value?.map fun value => (key, value)

end Json

end SoftMenu
