import Offside.Lexeme.Number
import Offside.Lexeme.Punctuator
import Offside.Lexeme.StringLiteral
import Offside.Lexeme.Word

namespace Offside.Lexeme

def isQuote (c : Char) : Bool :=
  c = '"' || c = '\''

def scan (c : Char) (rest : List Char) : Scan Token.Kind :=
  if isQuote c then stringLiteral c rest
  else if isWordStart c then .ok (word (c :: rest))
  else if c.isDigit then number (c :: rest)
  else punctuator c rest

theorem scan_splits (c : Char) (rest : List Char) : (scan c rest).Splits (c :: rest) := by
  unfold scan
  split
  · exact stringLiteral_splits c rest
  · split
    · exact word_splits (c :: rest)
    · split
      · exact number_splits (c :: rest)
      · exact punctuator_splits c rest

theorem scan_consumed_ne_nil (c : Char) (rest : List Char) : (scan c rest).consumed ≠ [] := by
  unfold scan
  split
  · simp [stringLiteral]
  · split
    · rename_i hw
      simp [Scan.consumed, word, Text.Reading.map, Text.Reading.span, isWordPart, hw]
    · split
      · rename_i hd
        simp [number, Scan.ofReading, digits, Text.Reading.map, Text.Reading.span,
          isDigitOrUnderscore, hd]
      · unfold punctuator
        split
        · rename_i p _
          split
          · simp [Scan.consumed]
          · exact p.spelling_ne_nil
        · simp [Scan.consumed]

theorem scan_rest_length_lt {c : Char} {rest : List Char} {r : Text.Reading Token.Kind}
    (h : scan c rest = .ok r) : r.rest.length < (c :: rest).length := by
  have consumed := scan_consumed_ne_nil c rest
  rw [h] at consumed
  exact ((scan_splits c rest).of_ok h).rest_length_lt consumed

end Offside.Lexeme
