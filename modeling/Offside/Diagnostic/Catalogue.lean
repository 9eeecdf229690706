import Offside.Diagnostic.Basic
import Offside.Fault

/-!
The messages there are. Codes from 1000 are about the text of a source, codes from 6000 about the
inputs of the program.
-/

namespace Offside

namespace Diagnostic.Message

def unexpectedEndOfInput : Message := ⟨1001, .error, "Unexpected end of input."⟩

def unterminatedString : Message := ⟨1002, .error, "Unterminated string literal."⟩

def unterminatedEscape : Message := ⟨1003, .error, "Unterminated escape sequence."⟩

def illegalHexDigit : Message :=
  ⟨1004, .error, "Illegal hexadecimal digit '\x7b0\x7d' in Unicode escape sequence."⟩

def unrecognizedEscape : Message := ⟨1005, .error, "Unrecognized escape sequence '\\\x7b0\x7d'."⟩

def missingFractionDigits : Message := ⟨1006, .error, "Missing digits after '.'."⟩

def missingExponentDigits : Message := ⟨1007, .error, "Missing digits after 'e'."⟩

def malformedSpread : Message := ⟨1008, .error, "Unexpected '..'; did you mean '...'?"⟩

def malformedConditionalDot : Message := ⟨1009, .error, "Unexpected '?'; did you mean '?.'?"⟩

def unrecognizedOperator : Message := ⟨1010, .error, "Unrecognized operator '\x7b0\x7d'."⟩

def indentationMismatch : Message :=
  ⟨1011, .error, "Indentation of \x7b0\x7d does not match any enclosing block."⟩

def invalidScalar : Message :=
  ⟨1012, .error, "Unicode escape '\\u\x7b0\x7d' is not a valid character."⟩

/-- Its arguments are the name of the file and the reason. -/
def cannotReadFile : Message := ⟨6001, .error, "Cannot read file '\x7b0\x7d': \x7b1\x7d."⟩

/-- Its arguments are the name of the file, or of an option that overrides it, and the reason. -/
def invalidConfigFile : Message := ⟨6002, .error, "Invalid config file '\x7b0\x7d': \x7b1\x7d."⟩

def noInputs : Message :=
  ⟨6003, .warning, "No input files were given; reading standard input."⟩

end Diagnostic.Message

def Fault.message : Fault → Diagnostic.Message
  | unexpectedEndOfInput => .unexpectedEndOfInput
  | unterminatedString => .unterminatedString
  | unterminatedEscape => .unterminatedEscape
  | illegalHexDigit _ => .illegalHexDigit
  | unrecognizedEscape _ => .unrecognizedEscape
  | missingFractionDigits => .missingFractionDigits
  | missingExponentDigits => .missingExponentDigits
  | malformedSpread => .malformedSpread
  | malformedConditionalDot => .malformedConditionalDot
  | unrecognizedOperator _ => .unrecognizedOperator
  | indentationMismatch _ => .indentationMismatch
  | invalidScalar _ => .invalidScalar

def Fault.args : Fault → List String
  | illegalHexDigit c | unrecognizedEscape c | unrecognizedOperator c => [c.toString]
  | indentationMismatch width => [toString width]
  | invalidScalar unit => [String.ofList (Text.Hex.upper4 unit)]
  | unexpectedEndOfInput | unterminatedString | unterminatedEscape | missingFractionDigits
  | missingExponentDigits | malformedSpread | malformedConditionalDot => []

def LexError.diagnostic (e : LexError) (file? : Option String) : Diagnostic :=
  .ofMessage e.fault.message e.fault.args file? (some e.position)

end Offside
