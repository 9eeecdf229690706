import Offside.Proofs.TruthfulScans

namespace Offside

/-- What an error says is true at the place that its position names. -/
def LexError.TrueIn (tabWidth : UInt32) (text : List Char) (e : LexError) : Prop :=
  ∃ before after, before ++ after = text ∧
    (LineMap.ofText text).offsetOf e.position = Text.byteLength before ∧
    e.fault.TrueBetween tabWidth before after

namespace Cursor

theorem StandsIn.trueIn {source : List Char} {cursor : Cursor} (h : cursor.StandsIn source)
    {tabWidth : UInt32} {fault : Fault}
    (true_ : fault.TrueBetween tabWidth cursor.passed.reverse cursor.rest) :
    (LexError.mk fault cursor.position).TrueIn tabWidth source := by
  refine ⟨cursor.passed.reverse, cursor.rest, h.split, ?_, true_⟩
  rw [← offset_eq]
  exact h.offsetOf

def Lands (cursor : Cursor) : Prop :=
  cursor.rest = [] ∨ LineBeginsBehind cursor.passed.reverse

theorem lands_past {cursor : Cursor} {text : List Char} (some : text ≠ [])
    (ends : LineBeginsBehind text) : (cursor.past text).Lands := by
  right
  intro c last
  have passed : (cursor.past text).passed.reverse = cursor.passed.reverse ++ text := by
    simp [past]
  rw [passed, List.getLast?_append_of_ne_nil _ some] at last
  exact ends c last

end Cursor

namespace Line

theorem first_lineBeginsBehind {c : Char} (h : Text.isBreak c = true) (rest : List Char) :
    LineBeginsBehind (Text.first c rest).text := by
  intro d last
  rcases Text.first_cases c rest with ⟨_, _, _, e⟩ | ⟨_, _, e⟩ | ⟨_, e⟩
  · obtain rfl : '\n' = d := by simpa [e] using last
    rfl
  · obtain rfl : '\r' = d := by simpa [e] using last
    rfl
  · obtain rfl : c = d := by simpa [e] using last
    exact h

theorem comment_ends (text : List Char) :
    (comment text).rest = [] ∨ (comment text).text ≠ [] ∧ LineBeginsBehind (comment text).text := by
  have stops := List.head?_dropWhile_not (!Text.isBreak ·) text
  simp only [comment]
  split
  · exact Or.inl rfl
  · rename_i c rest behind
    have ends : Text.isBreak c = true := by
      rw [show text.dropWhile (!Text.isBreak ·) = c :: rest from behind] at stops
      simpa using stops
    have some := Text.first_text_ne_nil c rest
    refine Or.inr ⟨by simp [Text.Reading.after, Text.Reading.map, some], ?_⟩
    intro d last
    apply first_lineBeginsBehind ends rest
    rwa [← List.getLast?_append_of_ne_nil _ some]

end Line

namespace Lexer

variable {source text : List Char} {lexer : Lexer}

/-- A stretch that goes on leaves its lexer before a line or at the end of the text, and one that
stops at an error tells the truth. -/
def Step.Truthful (tabWidth : UInt32) (source : List Char) (step : Step) : Prop :=
  match step.stop? with
  | none => step.lexer.cursor.Lands
  | some (.error e) => e.TrueIn tabWidth source
  | some (.misuse _) => True

theorem Step.Truthful.lands {tabWidth : UInt32} {step : Step} (h : step.Truthful tabWidth source)
    (goes : step.stop? = none) : step.lexer.cursor.Lands := by
  rwa [Truthful, goes] at h

theorem Step.Truthful.trueIn {tabWidth : UInt32} {step : Step} (h : step.Truthful tabWidth source)
    {e : LexError} (stops : step.stop? = some (.error e)) : e.TrueIn tabWidth source := by
  rwa [Truthful, stops] at h

theorem body_truthful (h : lexer.cursor.StandsIn source) (ahead : lexer.cursor.rest = text)
    (tabWidth : UInt32) : (lexer.body (Line.readPieces text)).Truthful tabWidth source := by
  fun_induction Line.readPieces text generalizing lexer with
  | case1 => exact Or.inl ahead
  | case2 c rest ends =>
    exact Cursor.lands_past (Text.first_text_ne_nil c rest) (Line.first_lineBeginsBehind ends rest)
  | case3 c rest inside _ ih =>
    obtain ⟨stands, further⟩ := gap_standsIn h ahead (by simpa using inside)
    rw [body_gap]
    exact ih stands further
  | case4 rest _ _ =>
    rw [body_of_no_pieces _ rfl]
    rcases Line.comment_ends ('#' :: rest) with none | ⟨some, ends⟩
    · left
      have split : (Line.comment ('#' :: rest)).Splits lexer.cursor.rest := by
        rw [ahead]
        exact Line.comment_splits _
      exact (Cursor.rest_past_splits split).trans none
    · exact Cursor.lands_past some ends
  | case5 c rest inside _ _ r read ih =>
    obtain ⟨stands, further⟩ := lexeme_standsIn h ahead (by simpa using inside) read
    rw [body_lexeme]
    exact ih stands further
  | case6 c rest inside _ _ f read =>
    obtain ⟨within, front⟩ := (Lexeme.scan_splits c rest).of_error read
    have cut := ((Lexeme.scan_cuts (by simpa using inside) rest).of_error read).1
    have told : f.fault.TrueBetween tabWidth (lexer.cursor.passed.reverse ++ f.before)
        ((c :: rest).drop f.before.length) :=
      (Lexeme.scan_truthful c rest).of_error read
    rw [← ahead] at front cut told
    rw [body_of_no_pieces _ rfl]
    apply (h.past (within.trans front) cut).trueIn
    simpa [Cursor.past] using told

theorem line_truthful (h : lexer.cursor.StandsIn source)
    (begins : LineBeginsBehind lexer.cursor.passed.reverse) :
    lexer.line.Truthful lexer.tabWidth source := by
  obtain ⟨stands, rest⟩ := past_indent_standsIn h
  have same : lexer.indented.lexer.cursor = (lexer.past lexer.ahead.indent).cursor :=
    indented_cursor lexer
  rcases line_cases lexer with ⟨empty, line⟩ | ⟨full, stops, line⟩ | ⟨_, _, line⟩
  · have goes := (body_stop? (lexer.past lexer.ahead.indent) lexer.ahead).mpr
      (Line.of_isEmpty empty).2
    rw [line]
    exact (body_truthful stands rest lexer.tabWidth).lands goes
  · obtain ⟨s, stop⟩ := Option.ne_none_iff_exists'.mp stops
    obtain ⟨rfl, indented⟩ := indentTo_stop?_eq_some stop
    obtain ⟨c, behind, split, other⟩ := Line.read_of_not_isEmpty full
    have blank : ∀ d ∈ lexer.ahead.indent, Line.isIndent d = true :=
      fun d member => List.mem_takeWhile_imp member
    have width := (Line.read_width lexer.cursor.rest lexer.tabWidth).symm
    rw [line, Step.Truthful, stop]
    exact h.trueIn ⟨begins, indented, _, c, behind, split, blank, width, other⟩
  · rw [← same] at stands rest
    rw [line]
    exact body_truthful stands rest _

theorem lines_truthful (h : lexer.cursor.StandsIn source) (lands : lexer.cursor.Lands) :
    lexer.lines.Truthful lexer.tabWidth source := by
  fun_induction lines lexer with
  | case1 lexer done => exact Or.inl done
  | case2 lexer more line s stopped => exact line_truthful h (lands.resolve_left more)
  | case3 lexer more line goes following ih =>
    have behind := (line_truthful h (lands.resolve_left more)).lands goes
    rw [← line_tabWidth lexer]
    exact ih (line_standsIn h) behind

/-- If a text is refused, then its error names a place at which the text bears out the fault, such
as the end of the text for a literal that is not closed, or the character that is no hexadecimal
digit behind an escape that needs one. -/
theorem tokenize_error_true {text : List Char} {options : Options} {e : LexError}
    (h : tokenize text options = .error e) : e.TrueIn options.tabWidth text := by
  rw [tokenize_eq_error_iff, run_stop?] at h
  have start : (ofText text options).cursor.Lands := Or.inr (by intro c last; contradiction)
  exact (lines_truthful (Cursor.ofText_standsIn text) start).trueIn h

theorem tokenize_error_true_apart :
    tokenize "if a: # é\r\n\t\tx\r\n\ty".toList { tabWidth := 4 } =
        .error ⟨.indentationMismatch 4, ⟨3, 1⟩⟩ ∧
      (LexError.mk (.indentationMismatch 4) ⟨3, 1⟩).TrueIn 4
        "if a: # é\r\n\t\tx\r\n\ty".toList := by
  have refused : tokenize "if a: # é\r\n\t\tx\r\n\ty".toList { tabWidth := 4 } =
      .error ⟨.indentationMismatch 4, ⟨3, 1⟩⟩ := by
    rw [tokenize_eq_error_iff]
    cbv
  exact ⟨refused, tokenize_error_true refused⟩

end Lexer

end Offside
