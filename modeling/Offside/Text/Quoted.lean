import Offside.Text.DefaultIgnorable
import Offside.Text.GraphemeExtend
import Offside.Text.Hex
import Offside.Text.Printable

/-!
Quoted characters and strings, as messages and token dumps show them. Each character is written on
its own: the quote in use, the backslash and a few controls behind a backslash, whatever would not
show on its own by its code point, and all else as itself.
-/

namespace Offside.Text.Quoted

/-- Whether a character can be seen without another one before it. -/
def showsAlone (c : Char) : Bool :=
  isPrintable c && !isDefaultIgnorable c && (!isGraphemeExtender c || isHalfwidthSoundMark c)

def escape (quote c : Char) : List Char :=
  if c = '\x00' then ['\\', '0']
  else if c = '\t' then ['\\', 't']
  else if c = '\r' then ['\\', 'r']
  else if c = '\n' then ['\\', 'n']
  else if c = '\\' ∨ c = quote then ['\\', c]
  else if showsAlone c then [c]
  else ['\\', 'u', '\x7b'] ++ Hex.lower c.toNat ++ ['\x7d']

def char (c : Char) : String :=
  String.ofList ('\'' :: escape '\'' c ++ ['\''])

def string (text : String) : String :=
  String.ofList ('"' :: text.toList.flatMap (escape '"') ++ ['"'])

end Offside.Text.Quoted
