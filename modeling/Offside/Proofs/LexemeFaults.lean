import Offside.Line

namespace Offside

def Fault.isOfLexeme : Fault → Bool
  | unexpectedEndOfInput | indentationMismatch _ => false
  | unterminatedString | unterminatedEscape | illegalHexDigit _ | unrecognizedEscape _
  | missingFractionDigits | missingExponentDigits | malformedSpread | malformedConditionalDot
  | unrecognizedOperator _ | invalidScalar _ => true

namespace Scan

def Reports {α : Type} : Scan α → Prop
  | .ok _ => True
  | .error f => f.fault.isOfLexeme = true

theorem Reports.after {α : Type} {s : Scan α} (h : s.Reports) (text : List Char) :
    (s.after text).Reports := by
  cases s with
  | ok r => trivial
  | error f => exact h

theorem Reports.mapValue {α β : Type} {s : Scan α} (h : s.Reports) (f : α → β) :
    (s.mapValue f).Reports := by
  cases s with
  | ok r => trivial
  | error e => exact h

theorem Reports.andThen {α β : Type} {s : Scan α} {next : α → List Char → Scan β}
    (h : s.Reports) (hn : ∀ v rest, (next v rest).Reports) : (s.andThen next).Reports := by
  cases s with
  | ok r => exact (hn r.value r.rest).after r.text
  | error f => exact h

theorem Reports.of_error {α : Type} {s : Scan α} {f : Failure} (h : s.Reports)
    (e : s = .error f) : f.fault.isOfLexeme = true := by
  subst e
  exact h

end Scan

namespace Lexeme

theorem digitsOr_reports {missing : Fault} (h : missing.isOfLexeme = true) (text : List Char) :
    (digitsOr missing text).Reports := by
  unfold digitsOr
  split
  · trivial
  · exact h

theorem fraction_reports (text : List Char) : (fraction text).Reports := by
  unfold fraction
  split
  · exact ((digitsOr_reports rfl _).mapValue _).after _
  · trivial

theorem exponent_reports (text : List Char) : (exponent text).Reports := by
  unfold exponent
  split
  · split
    · exact (((digitsOr_reports rfl _).mapValue _).after _).after _
    · trivial
  · trivial

theorem number_reports (text : List Char) : (number text).Reports := by
  refine Scan.Reports.after (Scan.Reports.andThen (fraction_reports _) ?_) _
  intro f rest
  exact (exponent_reports rest).mapValue _

theorem punctuator_reports (c : Char) (rest : List Char) : (punctuator c rest).Reports := by
  unfold punctuator
  split
  · split
    · rfl
    · trivial
  · show (noPunctuator c).isOfLexeme = true
    unfold noPunctuator
    split <;> rfl

theorem codeUnit_reports (text : List Char) : (codeUnit text).Reports := by
  simp only [codeUnit]
  split
  · trivial
  · split <;> rfl

theorem resolve_reports (unit : Nat) (low? : Option Nat) (escape : Text.Reading Unit) :
    (resolve unit low? escape).Reports := by
  simp only [resolve]
  split
  · trivial
  · rfl

theorem unicodeEscape_reports (rest : List Char) : (unicodeEscape rest).Reports := by
  have partner_reports (text : List Char) : (partner text).Reports := by
    unfold partner
    split
    · exact ((codeUnit_reports _).mapValue _).after _
    · trivial
  unfold unicodeEscape
  split
  · rename_i f e
    exact ((codeUnit_reports rest).after _).of_error e
  · rename_i unit _
    split
    · split
      · rename_i f e
        exact ((partner_reports unit.rest).after _).of_error e
      · exact resolve_reports _ _ _
    · exact resolve_reports _ _ _

theorem item_reports (c : Char) (rest : List Char) : (item c rest).Reports := by
  have escape_reports (text : List Char) : (escape text).Reports := by
    unfold escape
    split
    · rfl
    · split
      · exact unicodeEscape_reports _
      · simp only
        split
        · trivial
        · rfl
  unfold item
  split
  · exact (escape_reports rest).after _
  · trivial

theorem body_reports (quote : Char) (text : List Char) : (body quote text).Reports := by
  fun_induction body quote text with
  | case1 => rfl
  | case2 rest => trivial
  | case3 c rest _ f e => exact (item_reports c rest).of_error e
  | case4 c rest _ r e ih => exact (ih.mapValue _).after _

theorem scan_reports (c : Char) (rest : List Char) : (scan c rest).Reports := by
  unfold scan
  split
  · exact ((body_reports c rest).mapValue _).after _
  · split
    · trivial
    · split
      · exact number_reports (c :: rest)
      · exact punctuator_reports c rest

end Lexeme

theorem Line.readPieces_reports {text : List Char} {f : Scan.Failure}
    (h : (readPieces text).ending = .failure f) : f.fault.isOfLexeme = true := by
  fun_induction readPieces text with
  | case1 => contradiction
  | case2 => contradiction
  | case3 c rest _ _ ih => exact ih h
  | case4 => contradiction
  | case5 c rest _ _ _ r _ ih => exact ih h
  | case6 c rest _ _ _ g hs =>
    cases h
    exact (Lexeme.scan_reports c rest).of_error hs

end Offside
