import Offside.Position
import Offside.Text.Quoted
import Offside.Token.Keyword
import Offside.Token.Punct

namespace Offside

inductive Token.Kind where
  | indent
  | dedent
  /-- A line that is not inside brackets ends. -/
  | newLine
  | punct (p : Punct)
  | keyword (k : Keyword)
  | id (name : String)
  | int (digits : String)
  | float (numeral : String)
  | str (value : String)
  deriving DecidableEq

structure Token where
  position : Position
  kind : Token.Kind
  deriving DecidableEq

namespace Token

def Kind.text : Kind → String
  | indent => "Indent"
  | dedent => "Dedent"
  | newLine => "NewLine"
  | punct p => String.ofList p.spelling
  | keyword k => k.name
  | id _ => "Id"
  | int _ => "Int"
  | float _ => "Float"
  | str _ => "Str"

def Kind.payload? : Kind → Option String
  | id s | int s | float s | str s => some s
  | indent | dedent | newLine | punct _ | keyword _ => none

/-- The number of brackets open behind a token with `depth` of them open before it. A closing
bracket that closes nothing is let through. -/
def Kind.depthAfter (depth : Nat) : Kind → Nat
  | punct p => if p.opensBracket then depth + 1 else if p.closesBracket then depth - 1 else depth
  | _ => depth

/-- A token on one line: its place, the text of its kind and its payload in quotes. -/
def dump (t : Token) : String :=
  match t.kind.payload? with
  | some payload => toString t.position ++ " " ++ t.kind.text ++ " " ++ Text.Quoted.string payload
  | none => toString t.position ++ " " ++ t.kind.text

end Token

end Offside
