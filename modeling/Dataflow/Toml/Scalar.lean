import Dataflow.Decimal.Overflow
import Dataflow.Toml.Value

/-!
# Numbers and dates of TOML

What a bare word may stand for: an integer in one of four bases, a float, a truth value, or a date
and time. Single underscores may stand between digits.
-/

namespace Dataflow.Toml

def isDecimal (c : Char) : Bool :=
  c.isDigit

def isHex (c : Char) : Bool :=
  c.isDigit || ('a' ≤ c && c ≤ 'f') || ('A' ≤ c && c ≤ 'F')

def isOctal (c : Char) : Bool :=
  '0' ≤ c && c ≤ '7'

def isBinary (c : Char) : Bool :=
  c = '0' || c = '1'

def digitValue (c : Char) : Nat :=
  if c.isDigit then c.toNat - '0'.toNat
  else if 'a' ≤ c then c.toNat - 'a'.toNat + 10
  else c.toNat - 'A'.toNat + 10

/-- The digits of a number, one or more, without the underscores between them. -/
def ungroup (isDigit : Char → Bool) : List Char → Option (List Char)
  | [] => none
  | [c] => if isDigit c then some [c] else none
  | c :: '_' :: rest => if isDigit c then (ungroup isDigit rest).map (c :: ·) else none
  | c :: rest => if isDigit c then (ungroup isDigit rest).map (c :: ·) else none

def natValue (base : Nat) (digits : List Char) : Nat :=
  digits.foldl (fun n c => n * base + digitValue c) 0

/-- A decimal number does not start with a zero unless it is zero. -/
def decimal? (cs : List Char) : Option Nat :=
  match ungroup isDecimal cs with
  | some ('0' :: _ :: _) => none
  | some digits => some (natValue 10 digits)
  | none => none

/-- Integers have 64 bits. -/
def inRange? (n : Int) : Option Int :=
  if Int64.minValue.toInt ≤ n ∧ n ≤ Int64.maxValue.toInt then some n else none

def integer? : List Char → Option Int
  | '0' :: 'x' :: cs => (ungroup isHex cs).bind fun ds => inRange? (natValue 16 ds)
  | '0' :: 'o' :: cs => (ungroup isOctal cs).bind fun ds => inRange? (natValue 8 ds)
  | '0' :: 'b' :: cs => (ungroup isBinary cs).bind fun ds => inRange? (natValue 2 ds)
  | '+' :: cs => (decimal? cs).bind fun n => inRange? n
  | '-' :: cs => (decimal? cs).bind fun n => inRange? (-n)
  | cs => (decimal? cs).bind fun n => inRange? n

/-- The power of ten of a number. -/
def exponent? : List Char → Option Int
  | '-' :: cs => (ungroup isDecimal cs).map fun ds => -natValue 10 ds
  | '+' :: cs | cs => (ungroup isDecimal cs).map fun ds => natValue 10 ds

/-- A number after its point. -/
def fraction? (whole : Nat) (cs : List Char) : Option Decimal := do
  let isMark := fun c => c = 'e' || c = 'E'
  let digits ← ungroup isDecimal (cs.takeWhile (!isMark ·))
  let exponent ← match cs.dropWhile (!isMark ·) with
    | [] => some 0
    | _ :: rest => exponent? rest
  return ⟨whole * Decimal.power 10 digits.length + natValue 10 digits, exponent - digits.length⟩

/-- A number with a fraction, an exponent or both. -/
def fractional? (cs : List Char) : Option Decimal := do
  let isInWhole := fun c => isDecimal c || c = '_'
  let whole ← decimal? (cs.takeWhile isInWhole)
  match cs.dropWhile isInWhole with
  | '.' :: rest => fraction? whole rest
  | 'e' :: rest | 'E' :: rest => (exponent? rest).map fun exponent => ⟨whole, exponent⟩
  | _ => none

/-- The names of values that no digits stand for. -/
def isSpecial (cs : List Char) : Bool :=
  cs = ['i', 'n', 'f'] || cs = ['n', 'a', 'n']

/-- Positive infinity has to be written by its name, not as a number too great; a negative number
may be too great. -/
def isFloat : List Char → Bool
  | '-' :: cs => isSpecial cs || (fractional? cs).isSome
  | '+' :: cs | cs => isSpecial cs || (fractional? cs).any (!·.overflows)

/-- A number of exactly two digits within bounds, and the rest. -/
def twoDigits? (least greatest : Nat) : List Char → Option (Nat × List Char)
  | a :: b :: rest =>
    let n := natValue 10 [a, b]
    if isDecimal a && isDecimal b && least ≤ n && n ≤ greatest then some (n, rest) else none
  | _ => none

def daysIn (year month : Nat) : Nat :=
  if month = 2 then
    if year % 4 = 0 ∧ (year % 100 ≠ 0 ∨ year % 400 = 0) then 29 else 28
  else if month = 4 ∨ month = 6 ∨ month = 9 ∨ month = 11 then 30
  else 31

/-- What follows a date. -/
def afterDate? : List Char → Option (List Char)
  | a :: b :: c :: d :: '-' :: rest =>
    if [a, b, c, d].all isDecimal then
      match twoDigits? 1 12 rest with
      | some (month, '-' :: rest) =>
        (twoDigits? 1 (daysIn (natValue 10 [a, b, c, d]) month) rest).map (·.2)
      | _ => none
    else none
  | _ => none

/-- What follows a time of day. -/
def afterTime? (cs : List Char) : Option (List Char) :=
  match twoDigits? 0 23 cs with
  | some (_, ':' :: rest) =>
    match twoDigits? 0 59 rest with
    | some (_, ':' :: rest) =>
      match twoDigits? 0 60 rest with
      | some (_, '.' :: rest) =>
        if (rest.takeWhile isDecimal).isEmpty then none else some (rest.dropWhile isDecimal)
      | some (_, rest) => some rest
      | none => none
    | _ => none
  | _ => none

def isOffset : List Char → Bool
  | ['Z'] | ['z'] => true
  | '+' :: cs | '-' :: cs =>
    match twoDigits? 0 23 cs with
    | some (_, ':' :: rest) => (twoDigits? 0 59 rest).any (·.2.isEmpty)
    | _ => false
  | _ => false

def isDate (cs : List Char) : Bool :=
  (afterDate? cs).any List.isEmpty

/-- A date, a time, or both with or without an offset. -/
def isDateTime (cs : List Char) : Bool :=
  match afterDate? cs with
  | some [] => true
  | some (c :: rest) =>
    (c = 'T' || c = 't' || c = ' ') &&
      (afterTime? rest).any fun offset => offset.isEmpty || isOffset offset
  | none => (afterTime? cs).any List.isEmpty

/-- The value of a word without quotes. -/
def scalar? (cs : List Char) : Option Toml :=
  if cs = ['t', 'r', 'u', 'e'] then some (bool true)
  else if cs = ['f', 'a', 'l', 's', 'e'] then some (bool false)
  else
    match integer? cs with
    | some n => some (integer n)
    | none =>
      if isFloat cs then some (float (String.ofList cs))
      else if isDateTime cs then some (dateTime (String.ofList cs))
      else none

end Dataflow.Toml
