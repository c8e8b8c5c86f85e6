import Mathlib.Data.Rat.Defs

/-!
# JSON values as a Python program sees them

What `json.loads` returns: objects are dictionaries in the order of the text, numbers are integers
or floats (here by their value; the infinite ones and the one that is no number are left out). A
dictionary or a list has no hash; the values that have one are compared by what they stand for, so
that a Boolean, an integer and a float may be the same key.
-/

namespace Blq

inductive JsonValue where
  | null
  | bool (b : Bool)
  | int (n : ℤ)
  | float (q : ℚ)
  | str (text : String)
  | arr (items : List JsonValue)
  | obj (members : List (String × JsonValue))

/-- A value as an element of a set. -/
inductive HashKey where
  | none
  | num (q : ℚ)
  | str (text : String)
  deriving DecidableEq

namespace JsonValue

/-- `dict.get`, which is `None` for a missing member. -/
def get (key : String) : JsonValue → JsonValue
  | obj members => (members.lookup key).getD null
  | _ => null

/-- A text, if it is one. -/
def text? : JsonValue → Option String
  | str text => some text
  | _ => Option.none

def isDict : JsonValue → Bool
  | obj _ => true
  | _ => false

/-- `value if isinstance(value, list) else [value]` -/
def asList : JsonValue → List JsonValue
  | arr items => items
  | value => [value]

/-- `None` for a list or a dictionary, of which there is no hash. -/
def hashKey? : JsonValue → Option HashKey
  | null => some .none
  | bool b => some (.num (if b then 1 else 0))
  | int n => some (.num n)
  | float q => some (.num q)
  | str text => some (.str text)
  | arr _ => Option.none
  | obj _ => Option.none

/-- `members[key] = value`: in its place, or at the end. -/
def setMember (members : List (String × JsonValue)) (key : String) (value : JsonValue) :
    List (String × JsonValue) :=
  match members with
  | [] => [(key, value)]
  | (name, old) :: rest =>
    if name = key then (name, value) :: rest else (name, old) :: setMember rest key value

end JsonValue

end Blq
