import Offside.Proofs.LexerSteps
import Offside.Proofs.UnifiedScans

/-!
How line breaks are spelled does not matter. A lexer that is given a text with all its line breaks
spelled '\n' goes through the same lines as one that is given the text itself: every step of the one
is the step of the other, rewritten.
-/

namespace Offside

def Piece.unified : Piece → Piece
  | gap c => gap c
  | lexeme kind text => lexeme kind (Text.unifyBreaks text)

def Ending.unified : Ending → Ending
  | lineBreak text => lineBreak (Text.unifyBreaks text)
  | comment text => comment (Text.unifyBreaks text)
  | endOfText => endOfText
  | failure f => failure f.unified

theorem Ending.unified_text (e : Ending) : e.unified.text = Text.unifyBreaks e.text := by
  cases e <;> rfl

namespace Line

def unified (line : Line) : Line :=
  { line with
    pieces := line.pieces.map Piece.unified
    ending := line.ending.unified
    rest := Text.unifyBreaks line.rest }

@[simp] theorem unified_cons (piece : Piece) (line : Line) :
    (line.cons piece).unified = line.unified.cons piece.unified := rfl

theorem isEmpty_unified (line : Line) : line.unified.isEmpty = line.isEmpty := by
  obtain ⟨indent, pieces, ending, rest⟩ := line
  cases pieces with
  | nil => cases ending <;> rfl
  | cons p ps => rfl

theorem comment_unifyBreaks (text : List Char) :
    comment (Text.unifyBreaks text) = (comment text).unified := by
  have clean := Text.span_not_mem (p := (!Text.isBreak ·)) (by decide) text
  have body := Text.Reading.span_unifyBreaks (p := (!Text.isBreak ·)) rfl rfl text
  simp only [comment, body]
  generalize Text.Reading.span (!Text.isBreak ·) text = read at clean ⊢
  obtain ⟨value, front, behind⟩ := read
  cases behind with
  | nil => rfl
  | cons c rest =>
    have cut : Text.Cut front (Text.first c rest).text := Text.cut_of_not_mem clean _
    simp [Text.Reading.unified, Text.Reading.after, Text.Reading.map, Text.unifyBreaks_first,
      Text.first_of_ne (Text.unifyBreak_ne c), Text.unifyBreaks_append cut,
      Text.unifyBreaks_first_text]

theorem readPieces_unifyBreaks (text : List Char) :
    readPieces (Text.unifyBreaks text) = (readPieces text).unified := by
  fun_induction readPieces text with
  | case1 =>
    rw [Text.unifyBreaks_nil, readPieces]
    rfl
  | case2 c rest ends eol =>
    rw [Text.unifyBreaks_first, Text.unifyBreak_of_isBreak ends, readPieces,
      if_pos (show Text.isBreak '\n' = true from rfl)]
    simp [unified, Ending.unified, eol, Text.unifyBreaks_first_text,
      Text.unifyBreak_of_isBreak ends, Text.first_of_ne]
  | case3 c rest inside blank ih =>
    have other : c ≠ '\r' := Text.ne_of_not_isBreak (by simpa using inside)
    rw [Text.unifyBreaks_cons other, readPieces, if_neg inside, if_pos blank, ih]
    rfl
  | case4 rest inside blank =>
    have same : '#' :: Text.unifyBreaks rest = Text.unifyBreaks ('#' :: rest) :=
      (Text.unifyBreaks_cons (by decide) rest).symm
    rw [← same, readPieces, if_neg inside, if_neg blank, if_pos rfl, same, comment_unifyBreaks]
    rfl
  | case5 c rest inside blank other r read ih =>
    have still : Text.isBreak c = false := by simpa using inside
    have again : Lexeme.scan c (Text.unifyBreaks rest) = .ok r.unified := by
      rw [Lexeme.scan_unifyBreaks still, read]
      rfl
    rw [Text.unifyBreaks_cons (Text.ne_of_not_isBreak still),
      readPieces_lexeme (by simpa using blank) other again, Text.Reading.unified_rest, ih]
    rfl
  | case6 c rest inside blank other f read =>
    have still : Text.isBreak c = false := by simpa using inside
    have again : Lexeme.scan c (Text.unifyBreaks rest) = .error f.unified := by
      rw [Lexeme.scan_unifyBreaks still, read]
      rfl
    have front := ((Lexeme.scan_splits c rest).of_error read).2
    have cut := ((Lexeme.scan_cuts still rest).of_error read).2
    rw [unified, Text.unifyBreaks_drop front cut,
      Text.unifyBreaks_cons (Text.ne_of_not_isBreak still),
      readPieces_failure (by simpa using blank) other again]
    rfl

theorem read_unifyBreaks (text : List Char) :
    read (Text.unifyBreaks text) = (read text).unified := by
  have indent := Text.Reading.span_unifyBreaks (p := isIndent) (by decide) (by decide) text
  have same : Text.unifyBreaks (Text.Reading.span isIndent text).text =
      (Text.Reading.span isIndent text).text :=
    Text.unifyBreaks_of_not_mem (Text.span_not_mem (by decide) text)
  simp only [read, indent, Text.Reading.unified_text, Text.Reading.unified_rest, same,
    readPieces_unifyBreaks]
  rfl

end Line

def LexError.unified (e : LexError) : LexError :=
  { e with fault := e.fault.unified }

def Cursor.unified (cursor : Cursor) : Cursor :=
  { passed := (Text.unifyBreaks cursor.passed.reverse).reverse
    rest := Text.unifyBreaks cursor.rest
    position := cursor.position }

theorem Cursor.unified_past {cursor : Cursor} {text : List Char}
    (cut : Text.Cut cursor.passed.reverse cursor.rest) (front : text <+: cursor.rest)
    (behind : Text.CutBehind text cursor.rest) :
    (cursor.past text).unified = cursor.unified.past (Text.unifyBreaks text) := by
  simp only [unified, past, mk.injEq]
  refine ⟨?_, Text.unifyBreaks_drop front behind, ?_⟩
  · rw [List.reverse_append, List.reverse_reverse, Text.unifyBreaks_append (cut.of_prefix front),
      List.reverse_append]
  · rw [Position.past_unifyBreaks]

namespace Lexer

def Stop.unified : Stop → Stop
  | error e => error e.unified
  | misuse m => misuse m

def unified (lexer : Lexer) : Lexer :=
  { lexer with cursor := lexer.cursor.unified }

/-- The same stretch of the rewritten text. It adds the same tokens. -/
def Step.unified (step : Step) : Step :=
  { step with lexer := step.lexer.unified, stop? := step.stop?.map Stop.unified }

theorem Step.unified_andThen {step : Step} {next next' : Lexer → Step}
    (h : step.stop? = none → next' step.lexer.unified = (next step.lexer).unified) :
    step.unified.andThen next' = (step.andThen next).unified := by
  cases stops : step.stop? with
  | some s =>
    have again : step.unified.stop? = some s.unified := by simp [Step.unified, stops]
    rw [andThen_of_stop stops, andThen_of_stop again]
  | none =>
    have again : step.unified.stop? = none := by simp [Step.unified, stops]
    rw [andThen_of_none stops, andThen_of_none again]
    exact congrArg (Step.after step.tokens) (h stops)

section Ahead

variable {source text : List Char} {lexer : Lexer}

theorem unified_past (h : lexer.cursor.StandsIn source) (front : text <+: lexer.cursor.rest)
    (behind : Text.CutBehind text lexer.cursor.rest) :
    (lexer.past text).unified = lexer.unified.past (Text.unifyBreaks text) :=
  congrArg (fun cursor => { lexer with cursor }) (Cursor.unified_past h.cut front behind)

theorem ending_unified (h : lexer.cursor.StandsIn source) {e : Ending}
    (front : e.text <+: lexer.cursor.rest) (behind : Text.CutBehind e.text lexer.cursor.rest) :
    lexer.unified.ending e.unified = (lexer.ending e).unified := by
  have moved := unified_past h front behind
  cases e with
  | lineBreak text => exact congrArg (Step.mk _ · none) moved.symm
  | comment text => exact congrArg (Step.mk _ · none) moved.symm
  | endOfText => rfl
  | failure f =>
    have place : lexer.unified.position.past (Text.unifyBreaks f.before) =
        lexer.position.past f.before := Position.past_unifyBreaks _ _
    simp only [Ending.unified, Scan.Failure.unified, ending, place]
    exact congrArg (Step.mk [] · _) moved.symm

theorem body_unified_of_no_pieces (h : lexer.cursor.StandsIn source) {line : Line}
    (none : line.pieces = []) (front : line.ending.text <+: lexer.cursor.rest)
    (behind : Text.CutBehind line.ending.text lexer.cursor.rest) :
    lexer.unified.body line.unified = (lexer.body line).unified := by
  have again : line.unified.pieces = [] := by simp [Line.unified, none]
  rw [body_of_no_pieces _ none, body_of_no_pieces _ again]
  exact ending_unified h front behind

theorem body_unified (h : lexer.cursor.StandsIn source) (ahead : lexer.cursor.rest = text) :
    lexer.unified.body (Line.readPieces text).unified =
      (lexer.body (Line.readPieces text)).unified := by
  fun_induction Line.readPieces text generalizing lexer with
  | case1 => rfl
  | case2 c rest _ =>
    apply body_unified_of_no_pieces h rfl
    · rw [ahead]
      exact ⟨_, Text.first_splits c rest⟩
    · rw [ahead]
      exact Text.first_cutBehind c rest
  | case3 c rest inside _ ih =>
    have still : Text.isBreak c = false := by simpa using inside
    obtain ⟨stands, further⟩ := gap_standsIn h ahead still
    have front : [c] <+: lexer.cursor.rest := ahead ▸ ⟨rest, rfl⟩
    have same : Text.unifyBreaks [c] = [c] := Text.unifyBreaks_cons (Text.ne_of_not_isBreak still) []
    have moved := unified_past h front (Text.cutBehind_of_ne (Text.ne_of_not_isBreak still) _)
    rw [same] at moved
    rw [Line.unified_cons, body_gap, ← ih stands further, moved]
    exact body_gap _ _ _
  | case4 rest _ _ =>
    apply body_unified_of_no_pieces h rfl
    · rw [ahead]
      exact ⟨_, Line.comment_splits ('#' :: rest)⟩
    · rw [ahead]
      exact Line.comment_cut ('#' :: rest)
  | case5 c rest inside _ _ r read ih =>
    have still : Text.isBreak c = false := by simpa using inside
    obtain ⟨stands, further⟩ := lexeme_standsIn h ahead still read
    have split : r.text ++ r.rest = c :: rest := (Lexeme.scan_splits c rest).of_ok read
    have cut := (Lexeme.scan_cuts still rest).of_ok read
    rw [← ahead] at split cut
    have moved := unified_past h ⟨_, split⟩ cut
    -- the lexeme is of the same kind in the unified text, so the lexers behind it correspond
    have behind : (lexer.behind r.value r.text).unified =
        lexer.unified.behind r.value (Text.unifyBreaks r.text) :=
      congrArg (fun next => { next with depth := r.value.depthAfter lexer.depth }) moved
    have later : (lexer.behind r.value r.text).unified.body (Line.readPieces r.rest).unified =
        ((lexer.behind r.value r.text).body (Line.readPieces r.rest)).unified :=
      ih stands further
    rw [behind] at later
    rw [body_lexeme, Line.unified_cons]
    exact (body_lexeme _ _ _ _).trans (congrArg (Step.after _) later)
  | case6 c rest inside _ _ f read =>
    have still : Text.isBreak c = false := by simpa using inside
    apply body_unified_of_no_pieces h rfl
    · rw [ahead]
      exact ((Lexeme.scan_splits c rest).of_error read).2
    · rw [ahead]
      exact ((Lexeme.scan_cuts still rest).of_error read).2

theorem ahead_unified (lexer : Lexer) : lexer.unified.ahead = lexer.ahead.unified :=
  Line.read_unifyBreaks lexer.cursor.rest

theorem unified_past_indent (h : lexer.cursor.StandsIn source) :
    (lexer.past lexer.ahead.indent).unified = lexer.unified.past lexer.unified.ahead.indent := by
  have split : lexer.ahead.indent ++ _ = lexer.cursor.rest :=
    Text.Reading.span_splits Line.isIndent lexer.cursor.rest
  have clean : '\r' ∉ lexer.ahead.indent := indent_not_mem _
  rw [unified_past h ⟨_, split⟩ (Text.cutBehind_of_not_mem clean _), ahead_unified,
    Text.unifyBreaks_of_not_mem clean]
  rfl

theorem indentTo_unified (lexer : Lexer) (width : Nat) (start : Position) :
    lexer.unified.indentTo width start = (lexer.indentTo width start).unified := by
  have same : lexer.unified.indents = lexer.indents := rfl
  unfold indentTo
  rw [same]
  split
  · cases lexer.indents.push width <;> rfl
  · simp only [Step.unified]
    split <;> rfl

theorem line_unified (h : lexer.cursor.StandsIn source) :
    lexer.unified.line = lexer.line.unified := by
  obtain ⟨stands, rest⟩ := past_indent_standsIn h
  have moved := unified_past_indent h
  have same := ahead_unified lexer
  have body (lexer' : Lexer) (here : lexer'.cursor = (lexer.past lexer.ahead.indent).cursor) :
      lexer'.unified.body lexer.ahead.unified = (lexer'.body lexer.ahead).unified :=
    body_unified (here ▸ stands) (here ▸ rest)
  have indented : lexer.unified.indented = lexer.indented.unified := by
    rw [Lexer.indented, ← moved, indentTo_unified, same]
    rfl
  cases empty : lexer.ahead.isEmpty with
  | true =>
    have again : lexer.unified.ahead.isEmpty = true := by
      rw [same, Line.isEmpty_unified, empty]
    rw [line_of_isEmpty lexer empty, line_of_isEmpty _ again, ← moved, same, body _ rfl]
    rfl
  | false =>
    have again : lexer.unified.ahead.isEmpty = false := by
      rw [same, Line.isEmpty_unified, empty]
    rw [line_of_not_isEmpty lexer empty, line_of_not_isEmpty _ again, indented, same]
    apply Step.unified_andThen
    intro _
    exact body _ (indented_cursor lexer)

end Ahead

theorem lines_unified {source : List Char} {lexer : Lexer} (h : lexer.cursor.StandsIn source) :
    lexer.unified.lines = lexer.lines.unified := by
  have ends (lexer : Lexer) : lexer.unified.cursor.rest = [] ↔ lexer.cursor.rest = [] :=
    Text.unifyBreaks_eq_nil_iff lexer.cursor.rest
  fun_induction lines lexer with
  | case1 lexer done =>
    rw [lines_eq, if_pos ((ends lexer).mpr done)]
    rfl
  | case2 lexer more line s stops =>
    have same : lexer.unified.line = line.unified := line_unified h
    have again : lexer.unified.line.stop? = some s.unified := by
      rw [same, Step.unified, stops]
      rfl
    rw [lines_eq, if_neg (mt (ends lexer).mp more), Step.andThen_of_stop again, same]
  | case3 lexer more line goes following ih =>
    have same : lexer.unified.line = line.unified := line_unified h
    have again : lexer.unified.line.stop? = none := by
      rw [same, Step.unified, goes]
      rfl
    rw [lines_eq, if_neg (mt (ends lexer).mp more), Step.andThen_of_none again, same]
    exact congrArg (Step.after line.tokens) (ih (line_standsIn h))

theorem finish_unified (lexer : Lexer) : lexer.unified.finish = lexer.finish.unified := by
  have same : lexer.unified.indents = lexer.indents := rfl
  unfold finish
  rw [same]
  split <;> rfl

theorem run_unified {source : List Char} {lexer : Lexer} (h : lexer.cursor.StandsIn source) :
    lexer.unified.run = lexer.run.unified := by
  rw [run, lines_unified h]
  apply Step.unified_andThen
  intro _
  exact finish_unified _

/-- A text and the same text with every "\r\n", and then every '\r' that is left, replaced by '\n'
become the same tokens at the same positions, up to the same fault at the same position if there is
one. Only where half of a line break stands for a hexadecimal digit does the fault tell its
spelling. -/
theorem tokenize_replaceAll_breaks (text : List Char) (options : Options) :
    let plain :=
      Text.replaceAll ['\r'] ['\n'] (Text.replaceAll ['\r', '\n'] ['\n'] text)
    (ofText plain options).run.tokens = (ofText text options).run.tokens ∧
      tokenize plain options = (tokenize text options).mapError LexError.unified := by
  intro plain
  have same : (ofText plain options).run = (ofText text options).run.unified := by
    have start : ofText plain options = (ofText text options).unified := by
      simp only [plain, Text.replaceAll_eq_unifyBreaks]
      rfl
    rw [start]
    exact run_unified (Cursor.ofText_standsIn text)
  refine ⟨by rw [same]; rfl, ?_⟩
  simp only [tokenize, same]
  cases stops : (ofText text options).run.stop? with
  | none => simp [Step.error?, Step.unified, stops, Except.mapError]
  | some s =>
    cases s with
    | error e => simp [Step.error?, Step.unified, stops, Stop.unified, Except.mapError]
    | misuse m => simp [Step.error?, Step.unified, stops, Stop.unified, Except.mapError]

end Lexer

end Offside
