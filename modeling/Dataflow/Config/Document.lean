import Dataflow.Config.Spelling

/-!
# Settings as documents

The five settings as the members of a JSON object, the elements of a JSON array or the entries of a
TOML table. Settings that are missing have their default and unknown names are ignored, but a
setting must not be given twice.
-/

namespace Dataflow.AnalysisConfig

/-- A setting that is an optional number. -/
def capOfJson? : Json → Option (Option Nat)
  | .null => some none
  | j => j.word?.map some

/-- Readers of the settings, in their order. -/
def settings : List (String × (Json → AnalysisConfig → Option AnalysisConfig)) :=
  [("max_block_visits", fun j c => (capOfJson? j).map fun cap => { c with maxBlockVisits := cap }),
    ("widening", fun j c => (Widening.ofJson? j).map fun w => { c with widening := w }),
    ("order", fun j c => (Spelled.ofJson? j).map fun order => { c with order := order }),
    ("dead_blocks", fun j c => (Spelled.ofJson? j).map fun p => { c with deadBlocks := p }),
    ("record_node_stores", fun j c => j.bool?.map fun b => { c with recordNodeStores := b })]

/-- Reads the members that bear the name of a setting; at most one may. -/
def ofMember? (members : List (Option String × Json)) (c : AnalysisConfig)
    (setting : String × (Json → AnalysisConfig → Option AnalysisConfig)) :
    Option AnalysisConfig :=
  match members.filter (·.1 = some setting.1) with
  | [] => some c
  | [(_, value)] => setting.2 value c
  | _ => none

/-- Reads elements as settings, in their order. -/
def ofElements? : List Json → List (String × (Json → AnalysisConfig → Option AnalysisConfig)) →
    AnalysisConfig → Option AnalysisConfig
  | [], _, c => some c
  | _ :: _, [], _ => none
  | j :: elements, setting :: rest, c => (setting.2 j c).bind (ofElements? elements rest)

def ofJson? : Json → Option AnalysisConfig
  | .object members =>
    if members.all (·.1.isSome) then settings.foldlM (ofMember? members) {} else none
  | .array elements => ofElements? elements settings {}
  | _ => none

def toJson (c : AnalysisConfig) : Json :=
  .ofMembers [("max_block_visits", .ofOption .ofNat c.maxBlockVisits),
    ("widening", c.widening.toJson), ("order", Spelled.toJson c.order),
    ("dead_blocks", Spelled.toJson c.deadBlocks), ("record_node_stores", .bool c.recordNodeStores)]

def naturalOfToml? : Toml → Option Nat
  | .integer n => if 0 ≤ n then some n.toNat else none
  | _ => none

def boolOfToml? : Toml → Option Bool
  | .bool b => some b
  | _ => none

def wideningOfToml? : Toml → Option Widening
  | .string name => Widening.ofName? name
  | .table _ [(name, content)] =>
    if name = "delayed" then (naturalOfToml? content).map .delayed
    else if Spelled.isEmptyToml content then Widening.ofName? name
    else none
  | _ => none

/-- The value of an entry, or the default if there is none. -/
def entryOr {α : Type} (entries : Toml.Entries) (key : String) (default : α)
    (read? : Toml → Option α) : Option α :=
  match entries.get? key with
  | some value => read? value
  | none => some default

def ofToml? (entries : Toml.Entries) : Option AnalysisConfig := do
  let default : AnalysisConfig := {}
  let cap ← entryOr entries "max_block_visits" default.maxBlockVisits fun value =>
    (naturalOfToml? value).map some
  let widening ← entryOr entries "widening" default.widening wideningOfToml?
  let order ← entryOr entries "order" default.order Spelled.ofToml?
  let policy ← entryOr entries "dead_blocks" default.deadBlocks Spelled.ofToml?
  let record ← entryOr entries "record_node_stores" default.recordNodeStores boolOfToml?
  return ⟨cap, widening, order, policy, record⟩

end Dataflow.AnalysisConfig
