import Offside.Text.Replace

/-!
Message templates. A number in braces stands for the argument with that number, counted from 0.
-/

namespace Offside.Diagnostic.Template

def placeholder (i : Nat) : List Char :=
  '\x7b' :: Nat.toDigits 10 i ++ ['\x7d']

/-- Puts in the arguments one after the other, the first of which has the number `i`. Placeholders
that an argument brings along count for the arguments behind it. -/
def fillFrom (i : Nat) : List (List Char) → List Char → List Char
  | [], text => text
  | arg :: args, text => fillFrom (i + 1) args (Text.replaceAll (placeholder i) arg text)

def fill (template : String) (args : List String) : String :=
  String.ofList (fillFrom 0 (args.map String.toList) template.toList)

end Offside.Diagnostic.Template
