import Offside.Proofs.Indentation
import Offside.Proofs.SettledScans

/-!
Texts put one behind the other. What a lexer makes of whole lines does not depend on the text behind
them, and where no block and no bracket is open between two texts, the second is lexed as if it stood
alone, only further down.
-/

namespace Offside

namespace Line

def extend (more : List Char) (line : Line) : Line :=
  { line with rest := line.rest ++ more }

theorem comment_extend {text : List Char} (h : Text.Terminated text) (more : List Char) :
    comment (text ++ more) = (comment text).extend more := by
  have left := Text.span_terminated (p := (!Text.isBreak ·)) rfl h
  obtain ⟨c, rest, ahead⟩ := List.exists_cons_of_ne_nil left.ne_nil
  have ends : Text.Terminated (c :: rest) := ahead ▸ left
  simp only [comment, Text.span_extend (p := (!Text.isBreak ·)) rfl h, Text.Reading.extend, ahead,
    List.cons_append, Text.first_extend ends]
  rfl

theorem readPieces_extend {text : List Char} (h : Text.Terminated text)
    (closed : ∀ f, (readPieces text).ending = .failure f → f.fault ≠ .unterminatedString)
    (more : List Char) : readPieces (text ++ more) = (readPieces text).extend more := by
  fun_induction readPieces text with
  | case1 => exact absurd rfl h.ne_nil
  | case2 c rest ends eol =>
    rw [List.cons_append, readPieces, if_pos ends]
    simp only [Text.first_extend h more]
    rfl
  | case3 c rest inside blank ih =>
    have left := h.inside (by simpa using inside)
    rw [List.cons_append, readPieces, if_neg inside, if_pos blank, ih left closed]
    rfl
  | case4 rest inside blank =>
    rw [List.cons_append, readPieces, if_neg inside, if_neg blank, if_pos rfl, ← List.cons_append,
      comment_extend h more]
    rfl
  | case5 c rest inside blank other r read ih =>
    have settled := Lexeme.scan_settled h more (by simpa using inside) (by simp [read])
    have longer : Lexeme.scan c (rest ++ more) = .ok (r.extend more) := by
      rw [settled.same, read]
      rfl
    rw [List.cons_append, readPieces_lexeme (by simpa using blank) other longer,
      show (r.extend more).rest = r.rest ++ more from rfl, ih (settled.rest r read) closed]
    rfl
  | case6 c rest inside blank other f read =>
    have settled := Lexeme.scan_settled h more (by simpa using inside) (by
      intro g failed
      rw [read] at failed
      cases failed
      exact closed f rfl)
    have longer : Lexeme.scan c (rest ++ more) = .error f := by
      rw [settled.same, read]
      rfl
    have front := ((Lexeme.scan_splits c rest).of_error read).2
    rw [List.cons_append, readPieces_failure (by simpa using blank) other longer,
      ← List.cons_append, List.drop_append_of_le_length front.length_le]
    rfl

theorem read_extend {text : List Char} (h : Text.Terminated text)
    (closed : ∀ f, (read text).ending = .failure f → f.fault ≠ .unterminatedString)
    (more : List Char) : read (text ++ more) = (read text).extend more := by
  have indent := Text.span_extend (p := isIndent) (by decide) h more
  have left := Text.span_terminated (p := isIndent) (by decide) h
  simp only [read, indent, Text.Reading.extend]
  rw [readPieces_extend left closed more]
  rfl

theorem indent_extend {text : List Char} (h : Text.Terminated text) (more : List Char) :
    (read (text ++ more)).indent = (read text).indent := by
  simp only [read, Text.span_extend (p := isIndent) (by decide) h more]
  rfl

theorem isEmpty_extend {text : List Char} (h : Text.Terminated text) (more : List Char) :
    (read (text ++ more)).isEmpty = (read text).isEmpty := by
  have left := Text.span_terminated (p := isIndent) (by decide) h
  have same (text : List Char) : (read text).isEmpty =
      (readPieces (Text.Reading.span isIndent text).rest).isEmpty := rfl
  rw [same, same, isEmpty_readPieces, isEmpty_readPieces, Text.span_extend (by decide) h]
  exact congrArg (Option.all _ ·) (left.head?_append more)

end Line

namespace Position

def down (n : Nat) (p : Position) : Position :=
  { p with line := p.line + n }

theorem down_past (n : Nat) (p : Position) (text : List Char) :
    (p.past text).down n = (p.down n).past text := by
  induction text generalizing p with
  | nil => rfl
  | cons c rest ih =>
    have line : p.nextLine.down n = (p.down n).nextLine := by
      simp [nextLine, down, Nat.add_right_comm]
    simp only [past]
    split
    · rw [ih, line]
    · split
      · exact ih p
      · exact ih p.nextColumn

end Position

def Token.down (n : Nat) (t : Token) : Token :=
  { t with position := t.position.down n }

def LexError.down (n : Nat) (e : LexError) : LexError :=
  { e with position := e.position.down n }

def Cursor.placed (before more : List Char) (cursor : Cursor) : Cursor where
  passed := cursor.passed ++ before.reverse
  rest := cursor.rest ++ more
  position := cursor.position.down (Text.lineBreaks before)

namespace Lexer

variable {before more : List Char}

def Stop.down (n : Nat) : Stop → Stop
  | error e => error (e.down n)
  | misuse m => misuse m

/-- The same lexer, over a text that is put behind `before` and in front of `more`. -/
def placed (before more : List Char) (lexer : Lexer) : Lexer :=
  { lexer with cursor := lexer.cursor.placed before more }

def Step.placed (before more : List Char) (step : Step) : Step where
  tokens := step.tokens.map (Token.down (Text.lineBreaks before))
  lexer := step.lexer.placed before more
  stop? := step.stop?.map (Stop.down (Text.lineBreaks before))

theorem Step.after_andThen (tokens : List Token) (step : Step) (next : Lexer → Step) :
    (step.after tokens).andThen next = (step.andThen next).after tokens := by
  cases stops : step.stop? with
  | some s =>
    have later : (step.after tokens).stop? = some s := stops
    rw [andThen_of_stop stops, andThen_of_stop later]
  | none =>
    have later : (step.after tokens).stop? = none := stops
    rw [andThen_of_none stops, andThen_of_none later]
    simp [after]

theorem Step.placed_after (tokens : List Token) (step : Step) :
    (step.after tokens).placed before more =
      (step.placed before more).after (tokens.map (Token.down (Text.lineBreaks before))) := by
  simp [placed, after]

@[simp] theorem Step.placed_stop? (step : Step) :
    (step.placed before more).stop? = step.stop?.map (Stop.down (Text.lineBreaks before)) := rfl

theorem Step.placed_andThen {step : Step} {next longer : Lexer → Step}
    (h : step.stop? = none → longer (step.lexer.placed before more) =
      (next step.lexer).placed before more) :
    (step.placed before more).andThen longer = (step.andThen next).placed before more := by
  cases stops : step.stop? with
  | some s =>
    have again : (step.placed before more).stop? =
        some (s.down (Text.lineBreaks before)) := by simp [stops]
    rw [andThen_of_stop stops, andThen_of_stop again]
  | none =>
    have again : (step.placed before more).stop? = none := by simp [stops]
    have later : longer (step.placed before more).lexer =
        (next step.lexer).placed before more := h stops
    rw [andThen_of_none stops, andThen_of_none again, later, placed_after]
    rfl

theorem placed_past {lexer : Lexer} {text : List Char} (front : text <+: lexer.cursor.rest) :
    (lexer.placed before more).past text = (lexer.past text).placed before more := by
  simp only [past, placed, Cursor.past, Cursor.placed, Position.down_past, List.append_assoc,
    List.drop_append_of_le_length front.length_le]

theorem prefix_drop {a b text : List Char} (h : a ++ b <+: text) : b <+: text.drop a.length := by
  have behind := h.drop a.length
  rwa [List.drop_left] at behind

theorem piece_placed {lexer : Lexer} {p : Piece} (front : p.text <+: lexer.cursor.rest) :
    (lexer.placed before more).piece p = (lexer.piece p).placed before more := by
  cases p with
  | gap c => exact congrArg (Step.mk [] · none) (placed_past front)
  | lexeme kind text =>
    exact congrArg (fun next : Lexer => Step.mk _ { next with depth := _ } none)
      (placed_past front)

theorem pieces_placed {lexer : Lexer} {ps : List Piece}
    (front : ps.flatMap Piece.text <+: lexer.cursor.rest) :
    (lexer.placed before more).pieces ps = (lexer.pieces ps).placed before more := by
  induction ps generalizing lexer with
  | nil => rfl
  | cons p ps ih =>
    rw [List.flatMap_cons] at front
    have further : ps.flatMap Piece.text <+: (lexer.piece p).lexer.cursor.rest := by
      cases p <;> exact prefix_drop front
    rw [pieces, pieces, piece_placed ((List.prefix_append _ _).trans front)]
    apply Step.placed_andThen
    intro _
    exact ih further

theorem ending_placed {lexer : Lexer} {e : Ending} (front : e.text <+: lexer.cursor.rest) :
    (lexer.placed before more).ending e = (lexer.ending e).placed before more := by
  cases e with
  | lineBreak text =>
    have moved : (lexer.placed before more).past text = (lexer.past text).placed before more :=
      placed_past front
    have same : (lexer.placed before more).depth = lexer.depth := rfl
    simp only [ending, Step.placed, same, moved]
    split <;> rfl
  | comment text => exact congrArg (Step.mk [] · none) (placed_past front)
  | endOfText => rfl
  | failure f =>
    have moved : (lexer.placed before more).past f.text = (lexer.past f.text).placed before more :=
      placed_past front
    have place : (lexer.placed before more).position.past f.before =
        (lexer.position.past f.before).down (Text.lineBreaks before) :=
      (Position.down_past _ _ _).symm
    simp only [ending, Step.placed, moved, place]
    rfl

theorem indentTo_placed (lexer : Lexer) (width : Nat) (start : Position) :
    (lexer.placed before more).indentTo width (start.down (Text.lineBreaks before)) =
      (lexer.indentTo width start).placed before more := by
  have same : (lexer.placed before more).indents = lexer.indents := rfl
  unfold indentTo
  rw [same]
  split
  · cases lexer.indents.push width <;> rfl
  · simp only [Step.placed, List.map_replicate]
    split <;> rfl

theorem body_placed {lexer : Lexer} {line : Line}
    (front : line.pieces.flatMap Piece.text ++ line.ending.text <+: lexer.cursor.rest) :
    (lexer.placed before more).body line = (lexer.body line).placed before more := by
  have pieces_front := (List.prefix_append _ _).trans front
  have ending_front : line.ending.text <+: (lexer.pieces line.pieces).lexer.cursor.rest := by
    rw [(pieces_rest lexer line.pieces).2]
    exact prefix_drop front
  rw [body, body, pieces_placed pieces_front]
  apply Step.placed_andThen
  intro _
  exact ending_placed ending_front

/-- A line is taken the same way wherever its text is placed. -/
theorem take_placed {lexer : Lexer} {line : Line} (front : line.text <+: lexer.cursor.rest) :
    (lexer.placed before more).take line = (lexer.take line).placed before more := by
  have parts : line.indent ++ (line.pieces.flatMap Piece.text ++ line.ending.text) <+:
      lexer.cursor.rest := by
    rw [← List.append_assoc]
    exact front
  have indent_front := (List.prefix_append _ _).trans parts
  unfold take
  split
  · rw [placed_past front]
    rfl
  · simp only [Step.andThen_assoc]
    have start : (lexer.placed before more).position =
        lexer.position.down (Text.lineBreaks before) := rfl
    rw [placed_past indent_front, start]
    show (((lexer.past line.indent).placed before more).indentTo _ _).andThen (·.body line) =
      (((lexer.past line.indent).indentTo _ _).andThen (·.body line)).placed before more
    have tab : (lexer.placed before more).tabWidth = lexer.tabWidth := rfl
    rw [indentTo_placed, tab]
    apply Step.placed_andThen
    intro _
    apply body_placed
    rw [indentTo_cursor]
    exact prefix_drop parts

theorem line_placed_of_read {lexer : Lexer}
    (same : Line.read (lexer.cursor.rest ++ more) = lexer.ahead.extend more) :
    (lexer.placed before more).line = lexer.line.placed before more := by
  have front : lexer.ahead.text <+: lexer.cursor.rest := ⟨_, Line.read_text _⟩
  have longer : (lexer.placed before more).line =
      (lexer.placed before more).take (lexer.ahead.extend more) := by
    rw [← same]
    rfl
  rw [longer]
  exact take_placed front

theorem indented_placed {lexer : Lexer} (h : Text.Terminated lexer.cursor.rest) :
    (lexer.placed before more).indented = lexer.indented.placed before more := by
  have indent : (lexer.placed before more).ahead.indent = lexer.ahead.indent :=
    Line.indent_extend h more
  have width : (lexer.placed before more).ahead.width lexer.tabWidth =
      lexer.ahead.width lexer.tabWidth := by
    rw [Line.width, Line.width, indent]
  have front : lexer.ahead.indent <+: lexer.cursor.rest :=
    ⟨_, Text.Reading.span_splits Line.isIndent lexer.cursor.rest⟩
  have here : (lexer.placed before more).indented =
      ((lexer.placed before more).past lexer.ahead.indent).indentTo
        (lexer.ahead.width lexer.tabWidth) (lexer.position.down (Text.lineBreaks before)) := by
    rw [← indent, ← width]
    rfl
  rw [here, placed_past front, indentTo_placed]
  rfl

/-- A line of a terminated text is taken the same way with any text behind it, unless it ends in an
open string literal. -/
theorem line_placed {lexer : Lexer} (h : Text.Terminated lexer.cursor.rest)
    (closed : ∀ e, lexer.line.stop? = some (.error e) → e.fault ≠ .unterminatedString) :
    (lexer.placed before more).line = lexer.line.placed before more := by
  by_cases literal : ∃ f, lexer.ahead.ending = .failure f ∧ f.fault = .unterminatedString
  · -- the text behind may close the literal, but then the indentation is wrong before it
    obtain ⟨f, ending, unclosed⟩ := literal
    have full : lexer.ahead.isEmpty = false := by
      rw [← Bool.not_eq_true]
      intro empty
      exact (Line.of_isEmpty empty).2 f ending
    have stops : lexer.indented.stop? ≠ none := by
      intro goes
      obtain ⟨place, fault⟩ := body_failure lexer.indented.lexer ending
      have stop : lexer.line.stop? = some (.error ⟨f.fault, place⟩) := by
        rw [line_of_not_isEmpty lexer full, Step.andThen_of_none goes]
        exact fault
      exact closed _ stop unclosed
    have full_longer : (lexer.placed before more).ahead.isEmpty = false :=
      (Line.isEmpty_extend h more).trans full
    rw [line_of_not_isEmpty _ full, line_of_not_isEmpty _ full_longer, indented_placed h]
    apply Step.placed_andThen
    intro goes
    exact absurd goes stops
  · apply line_placed_of_read
    apply Line.read_extend h
    intro f ending unclosed
    exact literal ⟨f, ending, unclosed⟩

/-- What a lexer makes of the text ahead does not depend on `more` behind it: either there is
nothing more, or the text has whole lines and no string literal is open at its end. -/
def Independent (more : List Char) (lexer : Lexer) : Prop :=
  more = [] ∨ Text.WholeLines lexer.cursor.rest ∧
    ∀ e, lexer.lines.stop? = some (.error e) → e.fault ≠ .unterminatedString

namespace Independent

variable {lexer : Lexer}

theorem line (h : lexer.Independent more) (ahead : lexer.cursor.rest ≠ []) :
    (lexer.placed before more).line = lexer.line.placed before more := by
  rcases h with rfl | ⟨whole, closed⟩
  · apply line_placed_of_read
    rw [List.append_nil]
    simp [Line.extend, Lexer.ahead]
  · apply line_placed (whole.resolve_left ahead)
    intro e stop
    apply closed e
    rw [lines_eq, if_neg ahead, Step.andThen_of_stop stop, stop]

theorem next (h : lexer.Independent more) (ahead : lexer.cursor.rest ≠ [])
    (goes : lexer.line.stop? = none) : lexer.line.lexer.Independent more := by
  rcases h with none | ⟨whole, closed⟩
  · exact Or.inl none
  · refine Or.inr ⟨?_, ?_⟩
    · have rest : lexer.line.lexer.cursor.rest = lexer.cursor.rest.drop lexer.ahead.text.length :=
        take_rest goes
      rw [← List.take_append_drop lexer.ahead.text.length lexer.cursor.rest] at whole
      rw [rest]
      exact whole.of_append
    · intro e stop
      apply closed e
      rw [lines_eq, if_neg ahead, Step.andThen_of_none goes]
      exact stop

end Independent

/-- The lines of a text are the first lines of every text that begins with it. -/
theorem lines_placed {lexer : Lexer} (h : lexer.Independent more) :
    (lexer.placed before more).lines = (lexer.lines.placed before more).andThen lines := by
  fun_induction lines lexer with
  | case1 lexer done => rfl
  | case2 lexer ahead line s stops =>
    have again : (line.placed before more).stop? = some (s.down (Text.lineBreaks before)) := by
      simp [stops]
    have some : (lexer.placed before more).cursor.rest ≠ [] := by
      simp [placed, Cursor.placed, ahead]
    rw [lines_eq, if_neg some, h.line ahead, Step.andThen_of_stop again]
  | case3 lexer ahead line goes following ih =>
    have again : (line.placed before more).stop? = none := by
      simp [line, goes]
    have some : (lexer.placed before more).cursor.rest ≠ [] := by
      simp [placed, Cursor.placed, ahead]
    have whole : ({ following with tokens := line.tokens ++ following.tokens } : Step) =
        following.after line.tokens := rfl
    rw [lines_eq, if_neg some, h.line ahead, Step.andThen_of_none again, whole, Step.placed_after,
      Step.after_andThen, ← ih (h.next ahead goes)]
    rfl

theorem finish_placed (lexer : Lexer) :
    (lexer.placed before more).finish = lexer.finish.placed before more := by
  have same : (lexer.placed before more).indents = lexer.indents := rfl
  unfold finish
  rw [same]
  split
  · rfl
  · simp only [Step.placed, List.map_cons, List.map_replicate]
    rfl

theorem run_of_rest_eq_nil {lexer : Lexer} (done : lexer.cursor.rest = []) :
    lexer.run = lexer.finish := by
  rw [run, lines_eq, if_pos done, Step.andThen_of_none rfl]
  rfl

theorem run_placed_of_stop {lexer : Lexer} {s : Stop} (h : lexer.Independent more)
    (stops : lexer.lines.stop? = some s) :
    (lexer.placed before more).run = lexer.run.placed before more := by
  have again : (lexer.lines.placed before more).stop? = some (s.down (Text.lineBreaks before)) := by
    simp [stops]
  rw [run, run, lines_placed h, Step.andThen_of_stop again, Step.andThen_of_stop again,
    Step.andThen_of_stop stops]

theorem run_placed_of_none {lexer : Lexer} (h : lexer.Independent more)
    (goes : lexer.lines.stop? = none) :
    (lexer.placed before more).run = ((lexer.lines.lexer.placed before more).run).after
      (lexer.lines.tokens.map (Token.down (Text.lineBreaks before))) := by
  have again : (lexer.lines.placed before more).stop? = none := by simp [goes]
  rw [run, lines_placed h, Step.andThen_of_none again, Step.after_andThen]
  rfl

theorem run_placed (lexer : Lexer) :
    (lexer.placed before []).run = lexer.run.placed before [] := by
  have independent : lexer.Independent [] := Or.inl rfl
  rcases run_cases lexer with ⟨stops, _⟩ | ⟨goes, e⟩
  · obtain ⟨s, stop⟩ := Option.ne_none_iff_exists'.mp stops
    exact run_placed_of_stop independent stop
  · have done : (lexer.lines.lexer.placed before []).cursor.rest = [] := by
      simp [placed, Cursor.placed, lines_rest goes]
    rw [run_placed_of_none independent goes, run_of_rest_eq_nil done, finish_placed, e,
      Step.placed_after]

theorem lines_tabWidth (lexer : Lexer) : lexer.lines.lexer.tabWidth = lexer.tabWidth :=
  lines_induction (I := fun later _ => later.tabWidth = lexer.tabWidth)
    (fun later _ same => (line_tabWidth later).trans same) lexer [] rfl

theorem start_past_wholeLines {text : List Char} (whole : Text.WholeLines text) :
    Position.start.past text = Position.start.down (Text.lineBreaks text) := by
  have last : Text.lastLine text = [] := by
    rw [Text.lastLine, List.rtakeWhile_eq_nil_iff]
    intro some
    have ends := whole.resolve_left some
    rw [Text.Terminated, List.getLast?_eq_some_getLast some, Option.some.injEq] at ends
    simp [ends, Text.isBreak]
  rw [Position.start_past, last]
  rfl

theorem cursor_of_rest_eq_nil {front : List Char} {lexer : Lexer} (whole : Text.WholeLines front)
    (stands : lexer.cursor.StandsIn front) (rest : lexer.cursor.rest = []) :
    lexer.cursor = { passed := front.reverse, rest := [],
                     position := Position.start.down (Text.lineBreaks front) } := by
  have position : lexer.cursor.position = Position.start.down (Text.lineBreaks front) := by
    rw [← start_past_wholeLines whole]
    exact position_of_rest_eq_nil stands rest
  have passed : lexer.cursor.passed = front.reverse := by
    have split := stands.split
    rw [rest, List.append_nil] at split
    rw [← split, List.reverse_reverse]
  rw [← passed, ← rest, ← position]

def onto (lexer : Lexer) (text : List Char) : Lexer :=
  { lexer with cursor := .ofText text }

/-- A lexer behind whole lines goes on as if the text began there, only further down. -/
theorem placed_of_rest_eq_nil {front : List Char} {lexer : Lexer} (whole : Text.WholeLines front)
    (stands : lexer.cursor.StandsIn front) (rest : lexer.cursor.rest = []) (back : List Char) :
    lexer.placed [] back = (lexer.onto back).placed front [] := by
  simp [placed, Cursor.placed, onto, Cursor.ofText, Position.down, Text.lineBreaks,
    cursor_of_rest_eq_nil whole stands rest]

/-- A lexer behind whole lines that leave nothing open goes on like a new one. -/
theorem placed_of_nothing_open {front : List Char} {lexer : Lexer} (whole : Text.WholeLines front)
    (stands : lexer.cursor.StandsIn front) (rest : lexer.cursor.rest = [])
    (indents : lexer.indents = .empty) (depth : lexer.depth = 0) (back : List Char) :
    lexer.placed [] back = (ofText back ⟨lexer.tabWidth⟩).placed front [] := by
  have fresh : lexer.onto back = ofText back ⟨lexer.tabWidth⟩ := by
    simp [onto, ofText, indents, depth]
  rw [placed_of_rest_eq_nil whole stands rest, fresh]

theorem ofText_append (front back : List Char) (options : Options) :
    ofText (front ++ back) options = (ofText front options).placed [] back := rfl

@[simp] theorem Step.placed_nil_tokens (step : Step) :
    (step.placed [] more).tokens = step.tokens :=
  List.map_id step.tokens

theorem ofText_independent {front : List Char} (whole : Text.WholeLines front) (back : List Char)
    (options : Options)
    (closed : ∀ e, (ofText front options).lines.stop? = some (.error e) →
      e.fault ≠ .unterminatedString) : (ofText front options).Independent back :=
  Or.inr ⟨whole, closed⟩

theorem run_append_of_none {front : List Char} (whole : Text.WholeLines front) (back : List Char)
    (options : Options) (goes : (ofText front options).lines.stop? = none) :
    (ofText (front ++ back) options).run =
      ((ofText front options).lines.lexer.placed [] back).run.after
        (ofText front options).lines.tokens := by
  have independent := ofText_independent whole back options (by simp [goes])
  rw [ofText_append, run_placed_of_none independent goes]
  congr 1
  exact List.map_id _

/-- What lines make of themselves is not changed by later ones. The tokens of a text that is made of
whole lines and has no fault are the first tokens of every longer text, the end of the text apart,
which may close blocks. A fault stays the same fault at the same place behind the same tokens, if it
is not that a string literal is open at the end. -/
theorem run_append_keeps_lines {front : List Char} (whole : Text.WholeLines front)
    (back : List Char) (options : Options) :
    let alone := ofText front options
    let longer := ofText (front ++ back) options
    (alone.run.stop? = none → alone.lines.tokens <+: longer.run.tokens) ∧
    ∀ e, alone.run.stop? = some (.error e) → e.fault ≠ .unterminatedString →
      longer.run.stop? = some (.error e) ∧ longer.run.tokens = alone.run.tokens := by
  intro alone longer
  constructor
  · intro goes
    rw [run_stop?] at goes
    rw [run_append_of_none whole back options goes, Step.after_tokens]
    exact List.prefix_append _ _
  · intro e stop closed
    have lines : alone.lines.stop? = some (.error e) := (run_stop? alone).symm.trans stop
    have independent : alone.Independent back := by
      apply ofText_independent whole
      intro f same
      have : f = e := by
        have := same.symm.trans lines
        simpa using this
      rwa [this]
    have run : (alone.placed [] back).run = alone.run.placed [] back :=
      run_placed_of_stop independent lines
    show (alone.placed [] back).run.stop? = _ ∧ (alone.placed [] back).run.tokens = _
    rw [run, Step.placed_stop?, stop, Step.placed_nil_tokens]
    exact ⟨rfl, rfl⟩

theorem run_append_keeps_lines_of_block :
    (ofText "if x:\n\ty @\r\n".toList {}).run.tokens =
      [⟨⟨1, 1⟩, .keyword .if_⟩, ⟨⟨1, 4⟩, .id "x"⟩, ⟨⟨1, 5⟩, .punct .colon⟩, ⟨⟨1, 6⟩, .newLine⟩,
        ⟨⟨2, 1⟩, .indent⟩, ⟨⟨2, 2⟩, .id "y"⟩] ∧
    (ofText ("if x:\n\ty @\r\n".toList ++ "\"\nz".toList) {}).run.stop? =
      some (.error ⟨.unrecognizedOperator '@', ⟨2, 4⟩⟩) ∧
    (ofText ("if x:\n\ty @\r\n".toList ++ "\"\nz".toList) {}).run.tokens =
      (ofText "if x:\n\ty @\r\n".toList {}).run.tokens := by
  have stop : (ofText "if x:\n\ty @\r\n".toList {}).run.stop? =
      some (.error ⟨.unrecognizedOperator '@', ⟨2, 4⟩⟩) := by cbv
  have whole : Text.WholeLines "if x:\n\ty @\r\n".toList := by decide
  refine ⟨by cbv, ?_⟩
  exact (run_append_keeps_lines whole "\"\nz".toList {}).2 _ stop (by decide)

/-- Where a text has left no block and no bracket open, another one begins anew. The tokens of both
together are those of the first and behind them those of the second, only further down by as many
lines as the first has, and so is the fault if the second has one. -/
theorem run_append {front : List Char} (whole : Text.WholeLines front) (back : List Char)
    (options : Options) (goes : (ofText front options).run.stop? = none)
    (indents : (ofText front options).lines.lexer.indents = .empty)
    (depth : (ofText front options).lines.lexer.depth = 0) :
    let first := (ofText front options).run
    let second := (ofText back options).run
    let both := (ofText (front ++ back) options).run
    both.tokens = first.tokens ++ second.tokens.map (Token.down (Text.lineBreaks front)) ∧
    (both.stop? = none ↔ second.stop? = none) ∧
    ∀ e, second.stop? = some (.error e) →
      both.stop? = some (.error (e.down (Text.lineBreaks front))) := by
  intro first second both
  have lines : (ofText front options).lines.stop? = none := by rwa [run_stop?] at goes
  have tokens : first.tokens = (ofText front options).lines.tokens := by
    rcases run_cases (ofText front options) with ⟨stops, _⟩ | ⟨_, e⟩
    · contradiction
    · show (ofText front options).run.tokens = _
      rw [e, Step.after_tokens, finish_tokens, indents]
      exact List.append_nil _
  have stands : (ofText front options).lines.lexer.cursor.StandsIn front :=
    lines_standsIn (Cursor.ofText_standsIn front)
  have again : both = (second.placed front []).after first.tokens := by
    show (ofText (front ++ back) options).run = _
    have tab : (ofText front options).lines.lexer.tabWidth = options.tabWidth := lines_tabWidth _
    rw [run_append_of_none whole back options lines, tokens,
      placed_of_nothing_open whole stands (lines_rest lines) indents depth, run_placed, tab]
  rw [again]
  refine ⟨rfl, ?_, ?_⟩
  · simp
  · intro e stop
    simp [stop, Stop.down]

theorem run_append_of_block :
    (ofText "if a:\n  b(\n  1)\nc # é\r\n".toList {}).run.stop? = none ∧
    (ofText "if a:\n  b(\n  1)\nc # é\r\n".toList {}).lines.lexer.indents = .empty ∧
    (ofText "if a:\n  b(\n  1)\nc # é\r\n".toList {}).lines.lexer.depth = 0 ∧
    (ofText ("if a:\n  b(\n  1)\nc # é\r\n".toList ++ "d\n  e\n f".toList) {}).run.stop? =
      some (.error ⟨.indentationMismatch 1, ⟨7, 1⟩⟩) := by
  have whole : Text.WholeLines "if a:\n  b(\n  1)\nc # é\r\n".toList := by decide
  have goes : (ofText "if a:\n  b(\n  1)\nc # é\r\n".toList {}).run.stop? = none := by cbv
  have indents : (ofText "if a:\n  b(\n  1)\nc # é\r\n".toList {}).lines.lexer.indents =
      .empty := by cbv
  have depth : (ofText "if a:\n  b(\n  1)\nc # é\r\n".toList {}).lines.lexer.depth = 0 := by cbv
  have stop : (ofText "d\n  e\n f".toList {}).run.stop? =
      some (.error ⟨.indentationMismatch 1, ⟨3, 1⟩⟩) := by cbv
  obtain ⟨_, _, faults⟩ := run_append whole "d\n  e\n f".toList {} goes indents depth
  exact ⟨goes, indents, depth, faults _ stop⟩

end Lexer

end Offside
