import Offside.Json.Parser
import Offside.Json.Printer
import Offside.Options

/-!
Project files: a JSON object with the options of the lexer and the files to read. What is left out
has a default. Each of the two objects may also be written as the array of its values.
-/

namespace Offside

structure Config where
  options? : Option Options
  files? : Option (List String)
  deriving DecidableEq

inductive Config.Error where
  | unreadable (reason : String)
  | malformed
  | invalid (reason : Options.Invalid)
  deriving DecidableEq

namespace Config

def Error.text : Error → String
  | unreadable reason => "cannot read config: " ++ reason
  | malformed => "malformed config"
  | invalid reason => "invalid lexerOptions: " ++ reason.text

def empty : Config := ⟨none, none⟩

def options (config : Config) : Options :=
  config.options?.getD {}

def members? (members : List (List Nat × Json)) : Option (List (String × Json)) :=
  members.mapM fun (name, value) => do
    let name ← Text.Utf16.text? name
    return (String.ofList name, value)

/-- The value of the member called `name`, if there is one. There must not be more. -/
def member? (members : List (String × Json)) (name : String) : Option (Option Json) :=
  match members.filter (·.1 = name) with
  | [] => some none
  | [(_, value)] => some (some value)
  | _ => none

def tabWidth? (json : Json) : Option UInt32 := do
  let n ← json.nat?
  if n < UInt32.size then some (.ofNat n) else none

def optionsOfJson? : Json → Option Options
  | .arr [] => some {}
  | .arr [tab] => return { tabWidth := ← tabWidth? tab }
  | .obj members => do
    match ← member? (← members? members) "tabWidth" with
    | none => some {}
    | some tab => return { tabWidth := ← tabWidth? tab }
  | _ => none

def filesOfJson? : Json → Option (List String)
  | .arr items => items.mapM Json.text?
  | _ => none

/-- A value that may be absent, for which `null` stands. -/
def optional? {α : Type} (read? : Json → Option α) : Json → Option (Option α)
  | .null => some none
  | json => (read? json).map some

def ofJson? : Json → Option Config
  | .arr [options, files] =>
    return {
      options? := ← optional? optionsOfJson? options
      files? := ← optional? filesOfJson? files }
  | .obj members => do
    let members ← members? members
    let options ← member? members "lexerOptions"
    let files ← member? members "files"
    return {
      options? := ← optional? optionsOfJson? (options.getD .null)
      files? := ← optional? filesOfJson? (files.getD .null) }
  | _ => none

def parse (text : List Char) : Except Error Config :=
  match (Json.parse? text).bind ofJson? with
  | none => .error .malformed
  | some config =>
    match config.options?.map Options.validate with
    | some (.error reason) => .error (.invalid reason)
    | _ => .ok config

def toJson (config : Config) : Json :=
  let options := config.options?.map fun o => .object [("tabWidth", .ofNat o.tabWidth.toNat)]
  let files := config.files?.map fun files => .arr (files.map .ofText)
  .object [("lexerOptions", options.getD .null), ("files", files.getD .null)]

def print (config : Config) : String :=
  String.ofList config.toJson.print

end Config

end Offside
