import Dataflow.Decimal.Layout
import Dataflow.Text.Quoted

/-!
# Nodes

A node is one elementary construct of the analysed program. Its operands are earlier nodes of the
same graph, named by number.
-/

namespace Dataflow

/-- Nodes and blocks are numbered from zero in the order in which they are added. -/
abbrev NodeId := Nat

abbrev BlockId := Nat

def NodeId.text (id : NodeId) : String :=
  s!"n{id}"

def BlockId.text (id : BlockId) : String :=
  s!"b{id}"

/-- A binary64 number is kept as its bits. -/
inductive Literal
  | int (value : Int64)
  | float (bits : UInt64)
  | string (value : String)
  | bool (value : Bool)
  | null
  deriving DecidableEq

inductive BinaryOp
  | add | sub | mul | div | rem | eq | notEq | lt | ltEq | gt | gtEq | and | or
  deriving DecidableEq

inductive UnaryOp
  | not | neg
  deriving DecidableEq

inductive NodeKind
  | localVariable (name : String)
  | literal (value : Literal)
  | assignment (target : String) (value : NodeId)
  | binary (op : BinaryOp) (lhs rhs : NodeId)
  | unary (op : UnaryOp) (operand : NodeId)
  | invocation (method : String) (receiver : Option NodeId) (arguments : List NodeId)
  | fieldAccess (receiver : NodeId) (field : String)
  | creation (className : String) (arguments : List NodeId)
  | returns (value : Option NodeId)
  | throws (exception : NodeId)
  /-- A node without an effect, such as a loop header. -/
  | marker (label : String)
  deriving DecidableEq

structure Node where
  id : NodeId
  block : BlockId
  kind : NodeKind
  deriving DecidableEq

namespace Literal

/-- Numbers from `0.0001` up to below `10 ^ 16` are positional, with at least one decimal. -/
def floatLayout : Decimal.Layout where
  leastPoint := -3
  greatestPoint := 16
  wholeEnding := ".0"
  exponentMark := "e"
  zero := "0.0"
  infinity := "inf"
  notANumber := "NaN"

instance : Inspect Literal where
  inspect
    | int n => s!"Int({inspect n})"
    | float bits => s!"Float({Decimal.render floatLayout bits})"
    | string s => s!"String({inspect s})"
    | bool b => s!"Bool({inspect b})"
    | null => "Null"

end Literal

def BinaryOp.name : BinaryOp → String
  | add => "Add"
  | sub => "Sub"
  | mul => "Mul"
  | div => "Div"
  | rem => "Rem"
  | eq => "Eq"
  | notEq => "NotEq"
  | lt => "Lt"
  | ltEq => "LtEq"
  | gt => "Gt"
  | gtEq => "GtEq"
  | and => "And"
  | or => "Or"

namespace NodeKind

/-- The nodes that a node reads, in evaluation order. -/
def operands : NodeKind → List NodeId
  | localVariable _ | literal _ | marker _ => []
  | assignment _ value => [value]
  | binary _ lhs rhs => [lhs, rhs]
  | unary _ operand => [operand]
  | invocation _ receiver arguments => receiver.toList ++ arguments
  | fieldAccess receiver _ => [receiver]
  | creation _ arguments => arguments
  | returns value => value.toList
  | throws exception => [exception]

def title : NodeKind → String
  | localVariable _ => "local"
  | literal _ => "literal"
  | assignment .. => "assignment"
  | binary .. => "binary"
  | unary .. => "unary"
  | invocation .. => "invocation"
  | fieldAccess .. => "field-access"
  | creation .. => "new"
  | returns _ => "return"
  | throws _ => "throw"
  | marker _ => "marker"

/-- The variable that a node reads or assigns. -/
def accessedName? : NodeKind → Option String
  | localVariable name | assignment name _ => some name
  | _ => none

/-- The variable that a plain read of a variable reads. -/
def localName? : NodeKind → Option String
  | localVariable name => some name
  | _ => none

def describe : NodeKind → String
  | localVariable name => name
  | literal value => inspect value
  | assignment target value => s!"{target} = {value.text}"
  | binary op lhs rhs => s!"{lhs.text} {op.name} {rhs.text}"
  | invocation method _ _ => s!"{method}(..)"
  | marker label => s!"marker({label})"
  | kind => kind.title

end NodeKind

def Node.text (n : Node) : String :=
  s!"{n.id.text}: {n.kind.describe}"

end Dataflow
