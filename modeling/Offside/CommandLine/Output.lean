import Offside.CommandLine.Arguments
import Offside.Json.Printer
import Offside.Token.Basic

namespace Offside.CommandLine

def header (name : String) : String :=
  "==> " ++ name ++ " <==\n"

def textDump (tokens : List Token) : String :=
  String.join (tokens.map fun t => t.dump ++ "\n")

/-- A token as a JSON object. The value is left out for a token that carries none. -/
def tokenJson (t : Token) : Json :=
  let value := t.kind.payload?.toList.map fun payload => ("value", Json.ofText payload)
  .object ([("line", .ofNat t.position.line), ("column", .ofNat t.position.column),
    ("kind", .ofText t.kind.text)] ++ value)

def jsonDump (name : String) (tokens : List Token) : String :=
  let json := Json.object [("file", .ofText name), ("tokens", .arr (tokens.map tokenJson))]
  String.ofList json.print ++ "\n"

def Format.print (format : Format) (several : Bool) (name : String) (tokens : List Token) :
    String :=
  match format with
  | .text => (if several then header name else "") ++ textDump tokens
  | .json => jsonDump name tokens

end Offside.CommandLine
