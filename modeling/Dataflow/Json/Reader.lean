import Dataflow.Json.Value

/-!
# Reading JSON

The grammar of RFC 8259 without extensions: no byte-order mark, no comments, no trailing commas, and
nothing but blanks after the value. The recursion is bounded by the length of the text, and every
step takes at least one character. A reader gives what it has read and the rest of the text.
-/

namespace Dataflow.Json

def isBlank (c : Char) : Bool :=
  c = ' ' || c = '\t' || c = '\n' || c = '\r'

def skipBlanks (cs : List Char) : List Char :=
  cs.dropWhile isBlank

def hexValue? (c : Char) : Option Nat :=
  if c.isDigit then some (c.toNat - '0'.toNat)
  else if 'a' ≤ c ∧ c ≤ 'f' then some (c.toNat - 'a'.toNat + 10)
  else if 'A' ≤ c ∧ c ≤ 'F' then some (c.toNat - 'A'.toNat + 10)
  else none

def hexNumber? (digits : List Char) : Option Nat :=
  digits.foldlM (fun n c => (hexValue? c).map (n * 16 + ·)) 0

def simpleEscape? : Char → Option Nat
  | '"' => some 0x22
  | '\\' => some 0x5c
  | '/' => some 0x2f
  | 'b' => some 0x08
  | 'f' => some 0x0c
  | 'n' => some 0x0a
  | 'r' => some 0x0d
  | 't' => some 0x09
  | _ => none

/-- The code points of a string after its opening quote, halves of surrogate pairs included. -/
def codePoints : List Char → Option (List Nat × List Char)
  | [] => none
  | '"' :: rest => some ([], rest)
  | '\\' :: 'u' :: a :: b :: c :: d :: rest => do
    let point ← hexNumber? [a, b, c, d]
    let (points, rest) ← codePoints rest
    return (point :: points, rest)
  | '\\' :: c :: rest => do
    let point ← simpleEscape? c
    let (points, rest) ← codePoints rest
    return (point :: points, rest)
  | c :: rest =>
    if c.toNat < 0x20 then none
    else (codePoints rest).map fun (points, rest) => (c.toNat :: points, rest)

def isHighSurrogate (n : Nat) : Bool :=
  0xd800 ≤ n && n < 0xdc00

def isLowSurrogate (n : Nat) : Bool :=
  0xdc00 ≤ n && n < 0xe000

/-- The characters of code points, surrogate pairs put together; none if half of a pair is left. -/
def pairSurrogates : List Nat → Option (List Char)
  | [] => some []
  | [n] => if isHighSurrogate n || isLowSurrogate n then none else some [Char.ofNat n]
  | n :: m :: rest =>
    if isHighSurrogate n && isLowSurrogate m then
      (pairSurrogates rest).map
        (Char.ofNat (0x10000 + (n - 0xd800) * 0x400 + (m - 0xdc00)) :: ·)
    else if isHighSurrogate n || isLowSurrogate n then none
    else (pairSurrogates (m :: rest)).map (Char.ofNat n :: ·)

/-- A string after its opening quote. -/
def readString (cs : List Char) : Option (Option String × List Char) :=
  (codePoints cs).map fun (points, rest) => ((pairSurrogates points).map String.ofList, rest)

/-- One digit or more. -/
def readDigits (cs : List Char) : Option (List Char × List Char) :=
  match cs.takeWhile Char.isDigit with
  | [] => none
  | digits => some (digits, cs.dropWhile Char.isDigit)

/-- A part of a number that may be missing. -/
def readIf (starts : Char → Bool) (read : Char → List Char → Option (List Char × List Char))
    (cs : List Char) : Option (List Char × List Char) :=
  match cs with
  | c :: rest => if starts c then read c rest else some ([], cs)
  | [] => some ([], [])

def readWhole (cs : List Char) : Option (List Char × List Char) :=
  match cs with
  | '0' :: rest => some (['0'], rest)
  | _ => readDigits cs

def readFraction (cs : List Char) : Option (List Char × List Char) :=
  readIf (· = '.') (fun c rest => (readDigits rest).map fun (ds, rest) => (c :: ds, rest)) cs

def readExponent (cs : List Char) : Option (List Char × List Char) :=
  readIf (fun c => c = 'e' || c = 'E') (fun c rest =>
    match rest with
    | '+' :: rest => (readDigits rest).map fun (ds, rest) => (c :: '+' :: ds, rest)
    | '-' :: rest => (readDigits rest).map fun (ds, rest) => (c :: '-' :: ds, rest)
    | _ => (readDigits rest).map fun (ds, rest) => (c :: ds, rest)) cs

/-- The text of a number. -/
def readNumber (cs : List Char) : Option (String × List Char) := do
  let (sign, rest) ← readIf (· = '-') (fun c rest => some ([c], rest)) cs
  let (whole, rest) ← readWhole rest
  let (fraction, rest) ← readFraction rest
  let (exponent, rest) ← readExponent rest
  return (String.ofList (sign ++ whole ++ fraction ++ exponent), rest)

mutual

def readValue : Nat → List Char → Option (Json × List Char)
  | 0, _ => none
  | fuel + 1, cs =>
    match skipBlanks cs with
    | 'n' :: 'u' :: 'l' :: 'l' :: rest => some (null, rest)
    | 't' :: 'r' :: 'u' :: 'e' :: rest => some (bool true, rest)
    | 'f' :: 'a' :: 'l' :: 's' :: 'e' :: rest => some (bool false, rest)
    | '"' :: rest => (readString rest).map fun (s, rest) => (string s, rest)
    | '[' :: rest =>
      match skipBlanks rest with
      | ']' :: rest => some (array [], rest)
      | rest => (readElements fuel rest).map fun (elements, rest) => (array elements, rest)
    | '\x7b' :: rest =>
      match skipBlanks rest with
      | '\x7d' :: rest => some (object [], rest)
      | rest => (readMembers fuel rest).map fun (members, rest) => (object members, rest)
    | rest => (readNumber rest).map fun (text, rest) => (number text, rest)

/-- One element or more, up to the closing bracket. -/
def readElements : Nat → List Char → Option (List Json × List Char)
  | 0, _ => none
  | fuel + 1, cs => do
    let (element, rest) ← readValue fuel cs
    match skipBlanks rest with
    | ']' :: rest => return ([element], rest)
    | ',' :: rest =>
      let (elements, rest) ← readElements fuel rest
      return (element :: elements, rest)
    | _ => none

/-- One member or more, up to the closing brace. -/
def readMembers : Nat → List Char → Option (List (Option String × Json) × List Char)
  | 0, _ => none
  | fuel + 1, cs =>
    match skipBlanks cs with
    | '"' :: rest => do
      let (key, rest) ← readString rest
      match skipBlanks rest with
      | ':' :: rest =>
        let (value, rest) ← readValue fuel rest
        match skipBlanks rest with
        | '\x7d' :: rest => return ([(key, value)], rest)
        | ',' :: rest =>
          let (members, rest) ← readMembers fuel rest
          return ((key, value) :: members, rest)
        | _ => none
      | _ => none
    | _ => none

end

/-- The value that a text is, with blanks around it. -/
def read? (text : String) : Option Json :=
  let cs := text.toList
  match readValue (cs.length + 1) cs with
  | some (value, rest) => if (skipBlanks rest).isEmpty then some value else none
  | none => none

end Dataflow.Json
