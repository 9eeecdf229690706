import Offside.Position
import Offside.Text.Quoted

namespace Offside

inductive Fault where
  /-- A character was needed where the text had none left. -/
  | unexpectedEndOfInput
  | unterminatedString
  | unterminatedEscape
  | illegalHexDigit (c : Char)
  | unrecognizedEscape (c : Char)
  | missingFractionDigits
  | missingExponentDigits
  | malformedSpread
  | malformedConditionalDot
  | unrecognizedOperator (c : Char)
  | indentationMismatch (width : Nat)
  /-- An escape names a surrogate that has no partner. -/
  | invalidScalar (unit : Nat)
  deriving DecidableEq

def Fault.text : Fault → String
  | unexpectedEndOfInput => "unexpected end of input"
  | unterminatedString => "unterminated string literal"
  | unterminatedEscape => "unterminated escape sequence"
  | illegalHexDigit c =>
    "illegal hexadecimal digit " ++ Text.Quoted.char c ++ " in Unicode escape sequence"
  | unrecognizedEscape c => "unrecognized escape sequence `\\" ++ c.toString ++ "`"
  | missingFractionDigits => "missing digits after `.`"
  | missingExponentDigits => "missing digits after `e`"
  | malformedSpread => "unexpected `..`"
  | malformedConditionalDot => "unexpected `?`"
  | unrecognizedOperator c => "unrecognized operator " ++ Text.Quoted.char c
  | indentationMismatch width =>
    "indentation of " ++ toString width ++ " does not match any enclosing block"
  | invalidScalar unit =>
    "Unicode escape `\\u" ++ String.ofList (Text.Hex.upper4 unit) ++ "` is not a valid character"

structure LexError where
  fault : Fault
  position : Position
  deriving DecidableEq

instance : ToString LexError :=
  ⟨fun e => e.fault.text ++ " at " ++ toString e.position⟩

end Offside
