import Offside.Diagnostic.Template
import Offside.Position

namespace Offside

inductive Diagnostic.Severity where
  | warning
  | error
  deriving DecidableEq

structure Diagnostic.Message where
  code : Nat
  severity : Diagnostic.Severity
  template : String
  deriving DecidableEq

structure Diagnostic where
  file? : Option String
  position? : Option Position
  text : String
  code : Nat
  severity : Diagnostic.Severity
  deriving DecidableEq

namespace Diagnostic

def Severity.text : Severity → String
  | warning => "warning"
  | error => "error"

/-- A message with its arguments, about a place that may be known in part. -/
def ofMessage (message : Message) (args : List String) (file? : Option String := none)
    (position? : Option Position := none) : Diagnostic :=
  { file?, position?, text := Template.fill message.template args, code := message.code,
    severity := message.severity }

def isError (d : Diagnostic) : Bool :=
  d.severity = .error

def codeText (d : Diagnostic) : String :=
  "SNEK" ++ toString d.code

def place (d : Diagnostic) : String :=
  match d.file?, d.position? with
  | some file, some p => file ++ ":" ++ toString p ++ ": "
  | some file, none => file ++ ": "
  | none, some p => toString p ++ ": "
  | none, none => ""

instance : ToString Diagnostic :=
  ⟨fun d => d.place ++ d.severity.text ++ " " ++ d.codeText ++ ": " ++ d.text⟩

end Diagnostic

end Offside
