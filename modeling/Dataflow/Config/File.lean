import Dataflow.Config.Document
import Dataflow.Json.Reader
import Dataflow.Toml.Reader

/-!
# Files of settings

A file of settings is read whole before its name is looked at; the extension of the name then says
whether it holds JSON or TOML.
-/

namespace Dataflow

inductive ConfigFileError
  /-- There is no such file, or it is not UTF-8. -/
  | unreadable (name : String)
  | unsupported (name : String)
  | invalidJson
  | invalidToml
  deriving DecidableEq

def ConfigFileError.message? : ConfigFileError → Option String
  | unreadable name => some s!"reading analysis config {name}"
  | unsupported name => some s!"unsupported config format: {name}"
  | invalidJson | invalidToml => none

/-- What follows the last dot of a file name, unless nothing stands before that dot. -/
def extension? (path : String) : Option String :=
  let name := (path.toList.reverse.takeWhile (· ≠ '/')).reverse
  let ending := (name.reverse.takeWhile (· ≠ '.')).reverse
  let stem := name.length - ending.length
  if stem ≤ 1 then none else some (String.ofList ending)

namespace AnalysisConfig

/-- The settings in a file with this name and content, if it has any content. -/
def ofFile (name : String) (content : Option ByteArray) : Except ConfigFileError AnalysisConfig :=
  match content.bind String.fromUTF8? with
  | none => .error (.unreadable name)
  | some text =>
    match extension? name with
    | some "json" =>
      match (Json.read? text).bind ofJson? with
      | some c => .ok c
      | none => .error .invalidJson
    | some "toml" =>
      match (Toml.read? text).bind ofToml? with
      | some c => .ok c
      | none => .error .invalidToml
    | _ => .error (.unsupported name)

end AnalysisConfig

end Dataflow
