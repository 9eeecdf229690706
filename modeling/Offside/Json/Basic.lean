import Offside.Text.Utf16

/-!
JSON values. Nothing is decided about them that JSON leaves open: a number is its literal, a string
is a sequence of UTF-16 code units, some of which may be surrogates without a partner, and an object
keeps all its members in order, even if their names repeat.
-/

namespace Offside

inductive Json where
  | null
  | bool (b : Bool)
  | number (literal : List Char)
  | str (units : List Nat)
  | arr (items : List Json)
  | obj (members : List (List Nat × Json))

namespace Json

def ofText (text : String) : Json :=
  .str (Text.Utf16.encode text.toList)

def ofNat (n : Nat) : Json :=
  .number (Nat.toDigits 10 n)

def object (members : List (String × Json)) : Json :=
  .obj (members.map fun (name, value) => (Text.Utf16.encode name.toList, value))

def text? : Json → Option String
  | .str units => (Text.Utf16.text? units).map String.ofList
  | _ => none

/-- The natural number that a literal without sign, fraction and exponent stands for. -/
def nat? : Json → Option Nat
  | .number literal =>
    if literal.all Char.isDigit then some (Nat.ofDigitChars 10 literal 0) else none
  | _ => none

end Json

end Offside
