import Dataflow.Text.Inspect
import Dataflow.Text.Unprintable

/-!
# Quoted texts

A quoted text stands between double quotes. A quote, a backslash, tab, line feed, carriage return
and the null character have a two-character escape, every other unprintable character is given by
its code point in lower-case hexadecimal, and all else stands for itself.
-/

namespace Dataflow.Text

def hexDigits (n : Nat) : String :=
  String.ofList (Nat.toDigits 16 n)

/-- The spelling of one character between double quotes. -/
def quoteChar (c : Char) : String :=
  match c with
  | '"' => "\\\""
  | '\\' => "\\\\"
  | '\t' => "\\t"
  | '\n' => "\\n"
  | '\r' => "\\r"
  | '\x00' => "\\0"
  | c => if isUnprintable c then "\\u\x7b" ++ hexDigits c.toNat ++ "\x7d" else c.toString

def quote (s : String) : String :=
  s.toList.foldl (fun text c => text ++ quoteChar c) "\"" ++ "\""

instance : Inspect String where
  inspect := quote

end Dataflow.Text
