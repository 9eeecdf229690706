import Offside.Scan
import Offside.Token.Basic

/-!
Numbers: decimal digits, then perhaps a fraction, then perhaps an exponent. Underscores may stand
among the digits, but none of the three parts begins with one.
-/

namespace Offside.Lexeme

def isDigitOrUnderscore (c : Char) : Bool :=
  c.isDigit || c = '_'

/-- A run of digits and underscores. Its value leaves out the underscores. -/
def digits (text : List Char) : Text.Reading (List Char) :=
  (Text.Reading.span isDigitOrUnderscore text).map (·.filter (· != '_'))

def digitsOr (missing : Fault) (text : List Char) : Scan (List Char) :=
  if text.head?.any Char.isDigit then .ok (digits text)
  else .error { fault := missing, before := [], text := [] }

/-- The '.' and the digits behind it. Any '.' behind a number must begin a fraction. -/
def fraction (text : List Char) : Scan (List Char) :=
  match text with
  | '.' :: rest => ((digitsOr .missingFractionDigits rest).mapValue ('.' :: ·)).after ['.']
  | _ => .ok { value := [], text := [], rest := text }

def isSign (c : Char) : Bool :=
  c = '+' || c = '-'

def sign (text : List Char) : Text.Reading (List Char) :=
  match text with
  | c :: rest =>
    if isSign c then { value := [c], text := [c], rest }
    else { value := [], text := [], rest := text }
  | [] => { value := [], text := [], rest := [] }

/-- The letter 'e', in either case, a sign if there is one, and the digits of the exponent. Its
value has the letter in lower case. -/
def exponent (text : List Char) : Scan (List Char) :=
  match text with
  | c :: rest =>
    if c = 'e' ∨ c = 'E' then
      (Scan.ofReading (sign rest) fun s rest =>
        (digitsOr .missingExponentDigits rest).mapValue ('e' :: s ++ ·)).after [c]
    else .ok { value := [], text := [], rest := text }
  | [] => .ok { value := [], text := [], rest := [] }

def numberKind (whole fraction exponent : List Char) : Token.Kind :=
  let numeral := String.ofList (whole ++ fraction ++ exponent)
  if fraction.isEmpty && exponent.isEmpty then .int numeral else .float numeral

def number (text : List Char) : Scan Token.Kind :=
  Scan.ofReading (digits text) fun w rest =>
    (fraction rest).andThen fun f rest =>
      (exponent rest).mapValue fun e => numberKind w f e

theorem digits_splits (text : List Char) : (digits text).Splits text :=
  (Text.Reading.span_splits isDigitOrUnderscore text).map _

theorem digitsOr_splits (missing : Fault) (text : List Char) :
    (digitsOr missing text).Splits text := by
  unfold digitsOr
  split
  · exact digits_splits text
  · exact ⟨List.prefix_refl _, List.nil_prefix⟩

theorem fraction_splits (text : List Char) : (fraction text).Splits text := by
  unfold fraction
  split
  · exact ((digitsOr_splits _ _).mapValue _).after _
  · rfl

theorem sign_splits (text : List Char) : (sign text).Splits text := by
  unfold sign
  split
  · split <;> rfl
  · rfl

theorem exponent_splits (text : List Char) : (exponent text).Splits text := by
  unfold exponent
  split
  · split
    · refine Scan.Splits.after [_] (Scan.ofReading_splits (sign_splits _) fun s rest => ?_)
      exact (digitsOr_splits _ _).mapValue _
    · rfl
  · rfl

theorem number_splits (text : List Char) : (number text).Splits text := by
  refine Scan.ofReading_splits (digits_splits text) fun w rest => ?_
  exact (fraction_splits rest).andThen fun f rest => (exponent_splits rest).mapValue _

end Offside.Lexeme
