/-!
# JSON values

Values as they are written: a number keeps its text, an object its members in order with repeated
keys, and a string that names half of a surrogate pair is a value without a text.
-/

namespace Dataflow

inductive Json
  | null
  | bool (value : Bool)
  | number (text : String)
  | string (text : Option String)
  | array (elements : List Json)
  | object (members : List (Option String × Json))

namespace Json

def ofText (s : String) : Json :=
  string (some s)

def ofNat (n : Nat) : Json :=
  number n.repr

def ofInt (n : Int) : Json :=
  number (toString n)

def ofOption {α : Type} (f : α → Json) (a : Option α) : Json :=
  a.elim null f

def ofList {α : Type} (f : α → Json) (as : List α) : Json :=
  array (as.map f)

def ofMembers (members : List (String × Json)) : Json :=
  object (members.map fun (key, value) => (some key, value))

def text? : Json → Option String
  | string s => s
  | _ => none

def bool? : Json → Option Bool
  | bool b => some b
  | _ => none

def array? : Json → Option (List Json)
  | array elements => some elements
  | _ => none

def members? : Json → Option (List (Option String × Json))
  | object members => some members
  | _ => none

/-- The value of a text of decimal digits alone. -/
def digitsValue? (digits : List Char) : Option Nat :=
  if digits.isEmpty ∨ !digits.all Char.isDigit then none
  else some (digits.foldl (fun n c => n * 10 + (c.toNat - '0'.toNat)) 0)

/-- A number without sign, fraction and exponent that fits into 64 bits. -/
def word? : Json → Option Nat
  | number text => (digitsValue? text.toList).filter (· < UInt64.size)
  | _ => none

/-- A number without fraction and exponent. -/
def integer? : Json → Option Int
  | number text =>
    match text.toList with
    | '-' :: digits => (digitsValue? digits).map fun n => -(n : Int)
    | digits => (digitsValue? digits).map fun n => (n : Int)
  | _ => none

/-- The value of a key, the first one if it is repeated. -/
def get? (j : Json) (key : String) : Option Json :=
  j.members?.bind fun members => (members.find? (·.1 = some key)).map (·.2)

/-- The value of a key unless it is null. -/
def field? (j : Json) (key : String) : Option Json :=
  match j.get? key with
  | some null => none
  | value => value

end Json

end Dataflow
