/-!
# Inspection texts

`inspect` gives the text of a value as dumps, events and law reports show it. Strings have an
instance of their own in `Dataflow.Text.Quoted`.
-/

namespace Dataflow

/-- Types whose values have a text for dumps and reports. -/
class Inspect (α : Type) where
  inspect : α → String

export Inspect (inspect)

namespace Inspect

instance : Inspect Bool where
  inspect b := if b then "true" else "false"

instance : Inspect Nat where
  inspect n := n.repr

instance : Inspect Int64 where
  inspect n := toString n.toInt

instance {α : Type} [Inspect α] : Inspect (Option α) where
  inspect
    | none => "None"
    | some a => s!"Some({inspect a})"

end Inspect

end Dataflow
