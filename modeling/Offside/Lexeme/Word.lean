import Offside.Scan
import Offside.Token.Basic

/-!
Words: runs of ASCII letters, digits, '_' and '$' that do not begin with a digit. A word is a
reserved word or a name.
-/

namespace Offside.Lexeme

def isWordStart (c : Char) : Bool :=
  c.isAlpha || c = '_' || c = '$'

def isWordPart (c : Char) : Bool :=
  isWordStart c || c.isDigit

def wordKind (word : String) : Token.Kind :=
  match Keyword.ofWord? word with
  | some k => .keyword k
  | none => .id word

def word (text : List Char) : Text.Reading Token.Kind :=
  (Text.Reading.span isWordPart text).map fun word => wordKind (String.ofList word)

theorem word_splits (text : List Char) : (word text).Splits text :=
  (Text.Reading.span_splits isWordPart text).map _

end Offside.Lexeme
