import Offside.Lexeme.Basic
import Offside.Text.Blank

/-!
Lines of a source text, cut into lexemes. A line ends with a line break outside of string literals,
with a comment, with the text, or where something cannot be read. Nothing here depends on how deep
the line is nested or how wide a tab is, and every character of the text belongs to some part of
some line.
-/

namespace Offside

inductive Piece where
  | gap (c : Char)
  | lexeme (kind : Token.Kind) (text : List Char)

namespace Piece

def text : Piece → List Char
  | gap c => [c]
  | lexeme _ text => text

end Piece

inductive Ending where
  | lineBreak (text : List Char)
  /-- A comment and the line break behind it, if there is one. -/
  | comment (text : List Char)
  | endOfText
  | failure (f : Scan.Failure)

namespace Ending

def text : Ending → List Char
  | lineBreak text | comment text => text
  | endOfText => []
  | failure f => f.text

end Ending

structure Line where
  /-- The spaces and tabs at the front. -/
  indent : List Char
  pieces : List Piece
  ending : Ending
  /-- What follows the line. -/
  rest : List Char

namespace Line

def isIndent (c : Char) : Bool :=
  c = ' ' || c = '\t'

theorem isIndent_iff {c : Char} : isIndent c = true ↔ c = ' ' ∨ c = '\t' := by
  simp [isIndent]

def text (line : Line) : List Char :=
  line.indent ++ line.pieces.flatMap Piece.text ++ line.ending.text

/-- Whether a line holds nothing but spaces, tabs and a comment. Such a line says nothing about
indentation. -/
def isEmpty (line : Line) : Bool :=
  match line.pieces, line.ending with
  | [], .lineBreak _ | [], .comment _ | [], .endOfText => true
  | _, _ => false

/-- A comment from its '#' on: everything up to the next line break, and that line break. -/
def comment (text : List Char) : Text.Reading Unit :=
  let body := Text.Reading.span (!Text.isBreak ·) text
  match body.rest with
  | [] => { value := (), text := body.text, rest := [] }
  | c :: rest => ((Text.first c rest).map fun _ => ()).after body.text

def cons (piece : Piece) (line : Line) : Line :=
  { line with pieces := piece :: line.pieces }

/-- The line whose indentation lies behind, from the front of `text` on. -/
def readPieces (text : List Char) : Line :=
  match text with
  | [] => { indent := [], pieces := [], ending := .endOfText, rest := [] }
  | c :: rest =>
    if Text.isBreak c then
      let eol := Text.first c rest
      { indent := [], pieces := [], ending := .lineBreak eol.text, rest := eol.rest }
    else if Text.isBlank c then (readPieces rest).cons (.gap c)
    else if c = '#' then
      let remark := comment text
      { indent := [], pieces := [], ending := .comment remark.text, rest := remark.rest }
    else
      match _h : Lexeme.scan c rest with
      | .ok r => (readPieces r.rest).cons (.lexeme r.value r.text)
      | .error f =>
        { indent := [], pieces := [], ending := .failure f, rest := text.drop f.text.length }
termination_by text.length
decreasing_by
  · simp
  · exact Lexeme.scan_rest_length_lt _h

theorem readPieces_lexeme {c : Char} {rest : List Char} {r : Text.Reading Token.Kind}
    (blank : Text.isBlank c = false) (comment : c ≠ '#') (h : Lexeme.scan c rest = .ok r) :
    readPieces (c :: rest) = (readPieces r.rest).cons (.lexeme r.value r.text) := by
  have break_ : Text.isBreak c = false := by
    cases hb : Text.isBreak c with
    | false => rfl
    | true => rw [Text.isBlank_of_isBreak hb] at blank; contradiction
  rw [readPieces]
  simp only [break_, blank, comment, Bool.false_eq_true, if_false]
  split <;> rename_i hs
  · rw [h] at hs
    cases hs
    rfl
  · rw [h] at hs
    contradiction

theorem readPieces_failure {c : Char} {rest : List Char} {f : Scan.Failure}
    (blank : Text.isBlank c = false) (comment : c ≠ '#') (h : Lexeme.scan c rest = .error f) :
    readPieces (c :: rest) =
      { indent := [], pieces := [], ending := .failure f,
        rest := (c :: rest).drop f.text.length } := by
  have break_ : Text.isBreak c = false := by
    rw [← Bool.not_eq_true]
    intro ends
    rw [Text.isBlank_of_isBreak ends] at blank
    contradiction
  rw [readPieces]
  simp only [break_, blank, comment, Bool.false_eq_true, if_false]
  split <;> rename_i hs
  · rw [h] at hs
    contradiction
  · rw [h] at hs
    cases hs
    rfl

def read (text : List Char) : Line :=
  let indent := Text.Reading.span isIndent text
  { readPieces indent.rest with indent := indent.text }

/-- The greatest width that is told apart from smaller ones. -/
def maxWidth : Nat := 4294967295

def widen (tabWidth : UInt32) (width : Nat) (c : Char) : Nat :=
  min maxWidth (width + if c = '\t' then tabWidth.toNat else 1)

def width (line : Line) (tabWidth : UInt32) : Nat :=
  line.indent.foldl (widen tabWidth) 0

theorem comment_splits (text : List Char) : (comment text).Splits text := by
  have h : (Text.Reading.span (!Text.isBreak ·) text).text ++
      (Text.Reading.span (!Text.isBreak ·) text).rest = text := Text.Reading.span_splits _ text
  simp only [comment]
  split
  · rename_i e
    rw [e] at h
    exact h
  · rename_i c rest e
    rw [e] at h
    have hf := ((Text.first_splits c rest).map fun _ => ()).after
      (Text.Reading.span (!Text.isBreak ·) text).text
    rw [h] at hf
    exact hf

theorem readPieces_text (text : List Char) :
    (readPieces text).pieces.flatMap Piece.text ++ (readPieces text).ending.text ++
      (readPieces text).rest = text := by
  fun_induction readPieces text with
  | case1 => rfl
  | case2 c rest h eol =>
    have hf : eol.text ++ eol.rest = c :: rest := Text.first_splits c rest
    simpa [Ending.text] using hf
  | case3 c rest h hb ih => simpa [cons, Piece.text] using ih
  | case4 rest h hb =>
    have hc := comment_splits ('#' :: rest)
    simp only [Text.Reading.Splits] at hc
    simpa [Ending.text] using hc
  | case5 c rest h hb hc r hs ih =>
    have hr : r.text ++ r.rest = c :: rest := (Lexeme.scan_splits c rest).of_ok hs
    rw [← hr]
    simpa [cons, Piece.text] using ih
  | case6 c rest h hb hc f hs =>
    have hf := ((Lexeme.scan_splits c rest).of_error hs).2
    simpa [Ending.text] using (List.prefix_iff_eq_append.mp hf)

theorem readPieces_text_ne_nil {text : List Char} (h : text ≠ []) :
    (readPieces text).pieces.flatMap Piece.text ++ (readPieces text).ending.text ≠ [] := by
  fun_cases readPieces text with
  | case1 => exact absurd rfl h
  | case2 c rest => exact Text.first_text_ne_nil c rest
  | case3 c rest => simp [cons, Piece.text]
  | case4 rest =>
    intro e
    simp [Ending.text, comment, Text.Reading.span, Text.isBreak] at e
    split at e <;> simp [Text.Reading.after] at e
  | case5 c rest _ _ _ r hs =>
    have consumed := Lexeme.scan_consumed_ne_nil c rest
    rw [hs] at consumed
    intro e
    simp only [cons, Piece.text, List.flatMap_cons, List.append_eq_nil_iff] at e
    exact consumed e.1.1
  | case6 c rest _ _ _ f hs =>
    have consumed := Lexeme.scan_consumed_ne_nil c rest
    rw [hs] at consumed
    exact consumed

theorem indent_append_rest (text : List Char) :
    (Text.Reading.span isIndent text).text ++ (Text.Reading.span isIndent text).rest = text :=
  Text.Reading.span_splits isIndent text

theorem read_text (text : List Char) : (read text).text ++ (read text).rest = text := by
  have h := readPieces_text (Text.Reading.span isIndent text).rest
  have hi := indent_append_rest text
  simp only [read, Line.text, List.append_assoc] at h ⊢
  rw [h, hi]

theorem read_text_ne_nil {text : List Char} (h : text ≠ []) : (read text).text ≠ [] := by
  have hi := indent_append_rest text
  intro e
  simp only [read, Line.text, List.append_assoc, List.append_eq_nil_iff] at e
  rw [e.1, List.nil_append] at hi
  exact readPieces_text_ne_nil (hi ▸ h) (by simp [e.2])

end Line

end Offside
