import Dataflow.Toml.Scalar

/-!
# Reading TOML

Documents of TOML 1.0. A reader gives what it has read and the rest of the text. The recursion over
values is bounded by the depth to which arrays and inline tables may be nested, and the loops by the
length of the text.
-/

namespace Dataflow.Toml

def isSpace (c : Char) : Bool :=
  c = ' ' || c = '\t'

def skipSpaces (cs : List Char) : List Char :=
  cs.dropWhile isSpace

/-- Characters other than controls, and the tab. -/
def isPlain (c : Char) : Bool :=
  c = '\t' || (0x20 ≤ c.toNat && c.toNat ≠ 0x7f)

/-- The text after a comment, if one stands here. -/
def skipComment : List Char → List Char
  | '#' :: rest => rest.dropWhile isPlain
  | cs => cs

/-- The text after a line break. -/
def skipBreak? : List Char → Option (List Char)
  | '\n' :: rest => some rest
  | '\r' :: '\n' :: rest => some rest
  | _ => none

/-- The text after the end of a line, where nothing but a comment may still stand. -/
def endLine? (cs : List Char) : Option (List Char) :=
  match skipComment (skipSpaces cs) with
  | [] => some []
  | rest => skipBreak? rest

/-- Skips spaces, line breaks and comments. -/
def skipLines : Nat → List Char → List Char
  | 0, cs => cs
  | fuel + 1, cs =>
    match skipSpaces cs with
    | '#' :: rest =>
      match skipBreak? (skipComment ('#' :: rest)) with
      | some rest => skipLines fuel rest
      | none => '#' :: rest
    | rest =>
      match skipBreak? rest with
      | some rest => skipLines fuel rest
      | none => rest

/-- Skips spaces and line breaks. -/
def skipBreaks : Nat → List Char → List Char
  | 0, cs => cs
  | fuel + 1, cs =>
    match skipBreak? (skipSpaces cs) with
    | some rest => skipBreaks fuel rest
    | none => skipSpaces cs

def hexPoint? (digits : List Char) : Option Char :=
  if digits.all isHex then
    let n := natValue 16 digits
    if n.isValidChar then some (Char.ofNat n) else none
  else none

/-- The character of an escape after its backslash. -/
def readEscape : List Char → Option (Char × List Char)
  | 'b' :: rest => some ('\x08', rest)
  | 't' :: rest => some ('\t', rest)
  | 'n' :: rest => some ('\n', rest)
  | 'f' :: rest => some ('\x0c', rest)
  | 'r' :: rest => some ('\r', rest)
  | '"' :: rest => some ('"', rest)
  | '\\' :: rest => some ('\\', rest)
  | 'u' :: a :: b :: c :: d :: rest => (hexPoint? [a, b, c, d]).map (·, rest)
  | 'U' :: a :: b :: c :: d :: e :: f :: g :: h :: rest =>
    (hexPoint? [a, b, c, d, e, f, g, h]).map (·, rest)
  | _ => none

/-- A basic string on one line, after its quote. -/
def readBasic : Nat → List Char → Option (List Char × List Char)
  | 0, _ => none
  | _ + 1, '"' :: rest => some ([], rest)
  | fuel + 1, '\\' :: rest => do
    let (c, rest) ← readEscape rest
    let (cs, rest) ← readBasic fuel rest
    return (c :: cs, rest)
  | fuel + 1, c :: rest =>
    if isPlain c then (readBasic fuel rest).map fun (cs, rest) => (c :: cs, rest) else none
  | _ + 1, [] => none

/-- A literal string on one line, after its quote. -/
def readLiteral (cs : List Char) : Option (List Char × List Char) :=
  let isInside := fun c => isPlain c && c ≠ '\''
  match cs.dropWhile isInside with
  | '\'' :: rest => some (cs.takeWhile isInside, rest)
  | _ => none

/-- A string between three quotes ends with the last three of up to five quotes. -/
def closing? (quote : Char) : List Char → Option (List Char × List Char)
  | a :: b :: c :: rest =>
    if a = quote ∧ b = quote ∧ c = quote then
      match rest with
      | d :: e :: rest' =>
        if d = quote ∧ e = quote then some ([quote, quote], rest')
        else if d = quote then some ([quote], e :: rest')
        else some ([], rest)
      | [d] => if d = quote then some ([quote], []) else some ([], rest)
      | [] => some ([], [])
    else none
  | _ => none

/-- A string between three quotes, after them. Only a basic one has escapes, and a backslash at the
end of a line takes the blanks after it away. -/
def readLong (quote : Char) (escapes : Bool) : Nat → List Char → Option (List Char × List Char)
  | 0, _ => none
  | fuel + 1, cs =>
    match closing? quote cs with
    | some closed => some closed
    | none =>
      match skipBreak? cs with
      | some rest => (readLong quote escapes fuel rest).map fun (cs, rest) => ('\n' :: cs, rest)
      | none =>
        match cs with
        | [] => none
        | c :: rest =>
          if c = '\\' && escapes then
            match skipBreak? (skipSpaces rest) with
            | some rest => readLong quote escapes fuel (skipBreaks rest.length rest)
            | none => do
              let (c, rest) ← readEscape rest
              let (cs, rest) ← readLong quote escapes fuel rest
              return (c :: cs, rest)
          else if isPlain c then
            (readLong quote escapes fuel rest).map fun (cs, rest) => (c :: cs, rest)
          else none

/-- A line break right after three opening quotes is not part of the string. -/
def dropFirstBreak (cs : List Char) : List Char :=
  (skipBreak? cs).getD cs

def readString? : List Char → Option (Option (String × List Char))
  | '"' :: '"' :: '"' :: rest =>
    some ((readLong '"' true (rest.length + 1) (dropFirstBreak rest)).map fun (cs, rest) =>
      (String.ofList cs, rest))
  | '\'' :: '\'' :: '\'' :: rest =>
    some ((readLong '\'' false (rest.length + 1) (dropFirstBreak rest)).map fun (cs, rest) =>
      (String.ofList cs, rest))
  | '"' :: rest =>
    some ((readBasic (rest.length + 1) rest).map fun (cs, rest) => (String.ofList cs, rest))
  | '\'' :: rest => some ((readLiteral rest).map fun (cs, rest) => (String.ofList cs, rest))
  | _ => none

def isBare (c : Char) : Bool :=
  c.isAlphanum || c = '_' || c = '-'

/-- A key without dots; a quoted one stands on one line. -/
def readSimpleKey : List Char → Option (String × List Char)
  | '"' :: rest =>
    (readBasic (rest.length + 1) rest).map fun (cs, rest) => (String.ofList cs, rest)
  | '\'' :: rest => (readLiteral rest).map fun (cs, rest) => (String.ofList cs, rest)
  | cs =>
    match cs.takeWhile isBare with
    | [] => none
    | key => some (String.ofList key, cs.dropWhile isBare)

/-- Keys with dots between them, spaces around each. -/
def readKey : Nat → List Char → Option (List String × List Char)
  | 0, _ => none
  | fuel + 1, cs => do
    let (key, rest) ← readSimpleKey (skipSpaces cs)
    match skipSpaces rest with
    | '.' :: rest =>
      let (keys, rest) ← readKey fuel rest
      return (key :: keys, rest)
    | rest => return ([key], rest)

/-- How deep arrays and inline tables may be nested, and how many keys may be joined by dots. -/
def depthLimit : Nat := 79

/-- A dotted key as the path to its table and the key there. -/
def readPath (cs : List Char) : Option ((List String × String) × List Char) := do
  let (keys, rest) ← readKey (cs.length + 1) cs
  let key ← keys.getLast?
  if keys.length ≤ depthLimit then some ((keys.dropLast, key), rest) else none

def isWordChar (c : Char) : Bool :=
  c.isAlphanum || c = '_' || c = '-' || c = '+' || c = '.' || c = ':'

/-- A word without quotes. A space may stand between a date and a time. -/
def readScalar (cs : List Char) : Option (Toml × List Char) :=
  let word := cs.takeWhile isWordChar
  let rest := cs.dropWhile isWordChar
  let next := (rest.drop 1).takeWhile isWordChar
  if isDate word && rest.head? = some ' ' && next.head?.any Char.isDigit then
    (scalar? (word ++ ' ' :: next)).map (·, (rest.drop 1).dropWhile isWordChar)
  else (scalar? word).map (·, rest)

/-- The elements of an array after its bracket; a comma may follow the last one. -/
def readElements (value : List Char → Option (Toml × List Char)) :
    Nat → List Char → Option (List Toml × List Char)
  | 0, _ => none
  | fuel + 1, cs =>
    match skipLines cs.length cs with
    | ']' :: rest => some ([], rest)
    | cs => do
      let (element, rest) ← value cs
      match skipLines rest.length rest with
      | ',' :: rest =>
        let (elements, rest) ← readElements value fuel rest
        return (element :: elements, rest)
      | ']' :: rest => return ([element], rest)
      | _ => none

/-- A key, an equals sign and a value. -/
def readPair (value : List Char → Option (Toml × List Char)) (cs : List Char) :
    Option ((List String × String × Toml) × List Char) := do
  let ((path, key), rest) ← readPath cs
  match rest with
  | '=' :: rest =>
    let (v, rest) ← value (skipSpaces rest)
    return ((path, key, v), rest)
  | _ => none

/-- One pair or more of an inline table, up to its brace. -/
def readPairs (value : List Char → Option (Toml × List Char)) :
    Nat → Entries → List Char → Option (Entries × List Char)
  | 0, _, _ => none
  | fuel + 1, entries, cs => do
    let ((path, key, v), rest) ← readPair value cs
    let entries ← entries.addDotted path key v .inline
    match skipSpaces rest with
    | ',' :: rest => readPairs value fuel entries rest
    | '\x7d' :: rest => return (entries, rest)
    | _ => none

/-- A value, with at most `depth` arrays and inline tables in one another. -/
def readValue : Nat → List Char → Option (Toml × List Char)
  | 0, cs =>
    match readString? cs with
    | some read => read.map fun (s, rest) => (string s, rest)
    | none => readScalar cs
  | depth + 1, cs =>
    match cs with
    | '[' :: rest =>
      (readElements (readValue depth) (rest.length + 1) rest).map fun (elements, rest) =>
        (array elements, rest)
    | '\x7b' :: rest =>
      match skipSpaces rest with
      | '\x7d' :: rest => some (table .inline [], rest)
      | rest => (readPairs (readValue depth) (rest.length + 1) [] rest).map fun (entries, rest) =>
          (table .inline entries, rest)
    | _ =>
      match readString? cs with
      | some read => read.map fun (s, rest) => (string s, rest)
      | none => readScalar cs

/-- A document on its way: its tables, and the header under which the next pairs stand. -/
structure Document where
  entries : Entries := []
  header : List String := []

/-- A header in single or double brackets, after the first bracket. -/
def readHeader (d : Document) (cs : List Char) : Option (Document × List Char) :=
  match cs with
  | '[' :: rest => do
    let ((path, key), rest) ← readPath rest
    match rest with
    | ']' :: ']' :: rest =>
      let entries ← d.entries.openElement path key
      return (⟨entries, path ++ [key]⟩, ← endLine? rest)
    | _ => none
  | _ => do
    let ((path, key), rest) ← readPath cs
    match rest with
    | ']' :: rest =>
      let entries ← d.entries.openTable path key
      return (⟨entries, path ++ [key]⟩, ← endLine? rest)
    | _ => none

/-- The rest of a document, line by line. -/
def readDocument : Nat → Document → List Char → Option Entries
  | 0, _, _ => none
  | fuel + 1, d, cs =>
    match skipSpaces cs with
    | [] => some d.entries
    | '[' :: rest => do
      let (d, rest) ← readHeader d rest
      readDocument fuel d rest
    | c :: rest =>
      if c = '#' || c = '\n' || c = '\r' then do
        let rest ← endLine? (c :: rest)
        readDocument fuel d rest
      else do
        let ((path, key, value), rest) ← readPair (readValue depthLimit) (c :: rest)
        let entries ← d.entries.addUnder d.header path key value
        readDocument fuel { d with entries := entries } (← endLine? rest)

/-- The entries of a document; a byte-order mark may stand before it. -/
def read? (text : String) : Option Entries :=
  let cs := match text.toList with
    | '\ufeff' :: rest => rest
    | cs => cs
  readDocument (cs.length + 1) {} cs

end Dataflow.Toml
