import Dataflow.Json.Value

/-!
# Printing JSON

The shortest form, without blanks: of a string only quotes, backslashes and control characters are
escaped.
-/

namespace Dataflow.Json

def escapeChar (c : Char) : String :=
  match c with
  | '"' => "\\\""
  | '\\' => "\\\\"
  | c =>
    if c.toNat < 0x20 then
      let digits := Nat.toDigits 16 c.toNat
      "\\u" ++ String.ofList (List.replicate (4 - digits.length) '0' ++ digits)
    else c.toString

def quoted (s : String) : String :=
  s.toList.foldl (fun text c => text ++ escapeChar c) "\"" ++ "\""

mutual

def print : Json → String
  | null => "null"
  | bool b => if b then "true" else "false"
  | number text => text
  | string s => quoted (s.getD "")
  | array elements => "[" ++ printElements elements ++ "]"
  | object members => "\x7b" ++ printMembers members ++ "\x7d"

def printElements : List Json → String
  | [] => ""
  | [j] => print j
  | j :: rest => print j ++ "," ++ printElements rest

def printMembers : List (Option String × Json) → String
  | [] => ""
  | [(key, j)] => quoted (key.getD "") ++ ":" ++ print j
  | (key, j) :: rest => quoted (key.getD "") ++ ":" ++ print j ++ "," ++ printMembers rest

end

end Dataflow.Json
