import Dataflow.Analysis.Config
import Dataflow.Domain.Law
import Dataflow.Graph.Block
import Dataflow.Json.Value
import Dataflow.Toml.Value

/-!
# Spellings of settings

Values that stand in files under a name. A name is written as a string, or as the only key of an
object or table with nothing in it.
-/

namespace Dataflow

/-- Types whose values all have names. -/
class Spelled (α : Type) where
  /-- Every value with its name. -/
  spellings : List (String × α)

namespace Spelled

variable {α : Type} [Spelled α]

def ofName? (name : String) : Option α :=
  (spellings : List (String × α)).lookup name

def name [DecidableEq α] (a : α) : String :=
  (((spellings : List (String × α)).find? (·.2 = a)).map (·.1)).getD ""

def ofJson? : Json → Option α
  | .string (some name) => ofName? name
  | .object [(some name, .null)] => ofName? name
  | _ => none

/-- Whether nothing is in an array or table. -/
def isEmptyToml : Toml → Bool
  | .array [] | .table _ [] | .tables [] => true
  | _ => false

def ofToml? : Toml → Option α
  | .string name => ofName? name
  | .table _ [(name, content)] => if isEmptyToml content then ofName? name else none
  | _ => none

def toJson [DecidableEq α] (a : α) : Json :=
  .ofText (name a)

end Spelled

instance : Spelled FlowRule where
  spellings := [("each_to_each", .eachToEach), ("then_to_both", .thenToBoth),
    ("else_to_both", .elseToBoth), ("both_to_then", .bothToThen), ("both_to_else", .bothToElse)]

instance : Spelled WorklistOrder where
  spellings := [("reverse_postorder", .reversePostorder), ("fifo", .fifo)]

instance : Spelled DeadBlockPolicy where
  spellings := [("skip", .skip), ("reject", .reject)]

instance : Spelled SpecialKind where
  spellings := [.entry, .exit, .exceptionalExit].map fun kind => (kind.name, kind)

instance : Spelled Law where
  spellings := Law.all.map fun law => (law.name, law)

namespace Widening

/-- The strategies without a number. -/
def ofName? : String → Option Widening
  | "never" => some never
  | "always" => some always
  | _ => none

def ofJson? : Json → Option Widening
  | .string (some name) => ofName? name
  | .object [(some name, content)] =>
    match name, content with
    | "delayed", count => count.word?.map delayed
    | name, .null => ofName? name
    | _, _ => none
  | _ => none

def toJson : Widening → Json
  | never => .ofText "never"
  | always => .ofText "always"
  | delayed n => .ofMembers [("delayed", .ofNat n)]

end Widening

end Dataflow
