import Offside.Lexer.Run
import Offside.Proofs.CursorMoves
import Offside.Proofs.SpelledScans

/-!
What a lexer does with one line, and what therefore holds after any number of lines and runs. Every
law on whole runs comes from here: a line is skipped, or it stops the lexer at its indentation, or
its body is taken.
-/

namespace Offside.Line

theorem comment_cut (text : List Char) : Text.CutBehind (comment text).text text := by
  have split := Text.Reading.span_splits (!Text.isBreak ·) text
  have clean := Text.span_not_mem (p := (!Text.isBreak ·)) (by decide) text
  simp only [comment]
  generalize Text.Reading.span (!Text.isBreak ·) text = body at split clean ⊢
  rw [← split]
  split
  · exact Text.cutBehind_of_not_mem clean _
  · rename_i c rest ahead
    rw [ahead]
    exact Text.CutBehind.append (Text.cut_of_not_mem clean _) (Text.first_cutBehind c rest)

theorem comment_of_break {body : List Char} (inside : ∀ d ∈ body, Text.isBreak d = false) {c : Char}
    (ends : Text.isBreak c = true) (rest : List Char) :
    comment ('#' :: (body ++ c :: rest)) =
      { value := (), text := '#' :: body ++ (Text.first c rest).text
        rest := (Text.first c rest).rest } := by
  have span : Text.Reading.span (!Text.isBreak ·) ('#' :: body ++ c :: rest) =
      { value := '#' :: body, text := '#' :: body, rest := c :: rest } := by
    apply Text.Reading.span_append
    · intro d member
      rcases List.mem_cons.mp member with rfl | later
      · rfl
      · rw [inside d later]
        rfl
    · rintro d ⟨⟩
      rw [ends]
      rfl
  rw [← List.cons_append, comment, span]
  rfl

theorem readPieces_comment (rest : List Char) :
    readPieces ('#' :: rest) =
      { indent := [], pieces := [], ending := .comment (comment ('#' :: rest)).text
        rest := (comment ('#' :: rest)).rest } := by
  rw [readPieces]
  rfl

/-- A comment: some characters without line breaks among them, and the line break behind them. -/
theorem comment_cases (rest : List Char) :
    ∃ body, (∀ d ∈ body, Text.isBreak d = false) ∧
      (rest = body ∧ comment ('#' :: rest) = { value := (), text := '#' :: body, rest := [] } ∨
        ∃ c more, Text.isBreak c = true ∧ rest = body ++ c :: more ∧
          comment ('#' :: rest) =
            { value := (), text := '#' :: body ++ (Text.first c more).text
              rest := (Text.first c more).rest }) := by
  have split : rest.takeWhile (!Text.isBreak ·) ++ rest.dropWhile (!Text.isBreak ·) = rest :=
    List.takeWhile_append_dropWhile
  have stops := List.head?_dropWhile_not (!Text.isBreak ·) rest
  have inside : ∀ d ∈ rest.takeWhile (!Text.isBreak ·), Text.isBreak d = false := by
    intro d member
    simpa using List.mem_takeWhile_imp member
  refine ⟨rest.takeWhile (!Text.isBreak ·), inside, ?_⟩
  cases behind : rest.dropWhile (!Text.isBreak ·) with
  | nil =>
    have front : Text.Reading.span (!Text.isBreak ·) ('#' :: rest) =
        { value := '#' :: rest.takeWhile (!Text.isBreak ·)
          text := '#' :: rest.takeWhile (!Text.isBreak ·)
          rest := rest.dropWhile (!Text.isBreak ·) } := rfl
    rw [behind, List.append_nil] at split
    rw [comment, front, behind]
    exact .inl ⟨split.symm, rfl⟩
  | cons c more =>
    rw [behind] at split stops
    have ends : Text.isBreak c = true := by simpa using stops
    refine .inr ⟨c, more, ends, split.symm, ?_⟩
    nth_rewrite 1 [← split]
    exact comment_of_break inside ends more

theorem of_isEmpty {line : Line} (h : line.isEmpty = true) :
    line.pieces = [] ∧ ∀ f, line.ending ≠ .failure f := by
  unfold isEmpty at h
  split at h
  · rename_i none ending
    exact ⟨none, by simp [ending]⟩
  · rename_i none ending
    exact ⟨none, by simp [ending]⟩
  · rename_i none ending
    exact ⟨none, by simp [ending]⟩
  · contradiction

/-- The first character behind the indentation tells whether a line is empty. -/
theorem isEmpty_readPieces (text : List Char) :
    (readPieces text).isEmpty = text.head?.all fun c => Text.isBreak c || c = '#' := by
  fun_cases readPieces text with
  | case1 => rfl
  | case2 c rest ends eol => simp [isEmpty, ends]
  | case3 c rest inside blank =>
    have other : c ≠ '#' := by
      rintro rfl
      contradiction
    simp [isEmpty, cons, inside, other]
  | case4 rest inside blank => simp [isEmpty]
  | case5 c rest inside blank other => simp [isEmpty, cons, inside, other]
  | case6 c rest inside blank other => simp [isEmpty, inside, other]

theorem isEmpty_read (text : List Char) : (read text).isEmpty =
    (text.dropWhile isIndent).head?.all fun c => Text.isBreak c || c = '#' :=
  isEmpty_readPieces (text.dropWhile isIndent)

end Offside.Line

namespace Offside.Lexer

def Step.after (tokens : List Token) (step : Step) : Step :=
  { step with tokens := tokens ++ step.tokens }

@[simp] theorem Step.after_tokens (tokens : List Token) (step : Step) :
    (step.after tokens).tokens = tokens ++ step.tokens := rfl

@[simp] theorem Step.after_lexer (tokens : List Token) (step : Step) :
    (step.after tokens).lexer = step.lexer := rfl

@[simp] theorem Step.after_stop? (tokens : List Token) (step : Step) :
    (step.after tokens).stop? = step.stop? := rfl

theorem Step.andThen_of_none {step : Step} (h : step.stop? = none) (next : Lexer → Step) :
    step.andThen next = (next step.lexer).after step.tokens :=
  Step.andThen_eq h

theorem Step.andThen_of_stop {step : Step} {s : Stop} (h : step.stop? = some s)
    (next : Lexer → Step) : step.andThen next = step := by
  simp [Step.andThen, h]

theorem Step.andThen_assoc (step : Step) (f g : Lexer → Step) :
    (step.andThen f).andThen g = step.andThen fun lexer => (f lexer).andThen g := by
  cases h : step.stop? with
  | some s => rw [andThen_of_stop h, andThen_of_stop h, andThen_of_stop h]
  | none =>
    rw [andThen_of_none h, andThen_of_none h]
    cases hf : (f step.lexer).stop? with
    | some s =>
      have later : ((f step.lexer).after step.tokens).stop? = some s := hf
      rw [andThen_of_stop later, andThen_of_stop hf]
    | none =>
      have later : ((f step.lexer).after step.tokens).stop? = none := hf
      rw [andThen_of_none later, andThen_of_none hf]
      simp [after]

def body (lexer : Lexer) (line : Line) : Step :=
  (lexer.pieces line.pieces).andThen (·.ending line.ending)

theorem body_of_no_pieces (lexer : Lexer) {line : Line} (h : line.pieces = []) :
    lexer.body line = lexer.ending line.ending := by
  simp [body, h, pieces, Step.andThen]

theorem body_stop? (lexer : Lexer) (line : Line) :
    (lexer.body line).stop? = none ↔ ∀ f, line.ending ≠ .failure f := by
  rw [body, Step.andThen_of_none (pieces_rest lexer line.pieces).1]
  cases line.ending <;> simp [ending]

theorem body_gap (lexer : Lexer) (c : Char) (line : Line) :
    lexer.body (line.cons (.gap c)) = (lexer.past [c]).body line := by
  simp only [body, Line.cons, pieces, piece, Step.andThen_assoc]
  simp [Step.andThen]

def behind (lexer : Lexer) (kind : Token.Kind) (text : List Char) : Lexer :=
  { lexer.past text with depth := kind.depthAfter lexer.depth }

theorem body_lexeme (lexer : Lexer) (kind : Token.Kind) (text : List Char) (line : Line) :
    lexer.body (line.cons (.lexeme kind text)) =
      ((lexer.behind kind text).body line).after [⟨lexer.position, kind⟩] := by
  simp only [body, Line.cons, pieces, piece, Step.andThen_assoc]
  exact Step.andThen_of_none rfl _

theorem kind_of_mem_ending {lexer : Lexer} {e : Ending} {t : Token}
    (member : t ∈ (lexer.ending e).tokens) : t.kind = .newLine := by
  cases e with
  | lineBreak text =>
    simp only [ending] at member
    split at member
    · rw [List.mem_singleton.mp member]
    · contradiction
  | comment text => contradiction
  | endOfText => contradiction
  | failure f => contradiction

def ahead (lexer : Lexer) : Line :=
  Line.read lexer.cursor.rest

/-- The lexer behind the indentation of the line ahead, once it has opened or closed blocks. -/
def indented (lexer : Lexer) : Step :=
  (lexer.past lexer.ahead.indent).indentTo (lexer.ahead.width lexer.tabWidth) lexer.position

theorem isIndent_of_mem_indent {lexer : Lexer} :
    ∀ c ∈ lexer.ahead.indent, Line.isIndent c = true :=
  Text.Reading.span_inside Line.isIndent lexer.cursor.rest

theorem indent_not_mem (text : List Char) : '\r' ∉ (Line.read text).indent :=
  Text.span_not_mem (by decide) text

theorem line_skips (lexer : Lexer) (h : lexer.ahead.isEmpty = true) :
    lexer.line = { tokens := [], lexer := lexer.past lexer.ahead.text } := by
  rw [line, take, if_pos (by exact h)]
  rfl

theorem line_of_isEmpty (lexer : Lexer) (h : lexer.ahead.isEmpty = true) :
    lexer.line =
      { tokens := [], lexer := ((lexer.past lexer.ahead.indent).body lexer.ahead).lexer } := by
  obtain ⟨none, ending⟩ := Line.of_isEmpty h
  have text : lexer.ahead.text = lexer.ahead.indent ++ lexer.ahead.ending.text := by
    simp [Line.text, none]
  have cut : Text.Cut lexer.ahead.indent lexer.ahead.ending.text :=
    Text.cut_of_not_mem (indent_not_mem _) _
  have arrives : lexer.past lexer.ahead.text =
      ((lexer.past lexer.ahead.indent).ending lexer.ahead.ending).lexer := by
    rw [text, past, Cursor.past_append _ cut]
    cases e : lexer.ahead.ending with
    | lineBreak text => rfl
    | comment text => rfl
    | endOfText => rfl
    | failure f => exact absurd e (ending f)
  rw [line_skips lexer h, body_of_no_pieces _ none, ← arrives]

theorem line_of_not_isEmpty (lexer : Lexer) (h : lexer.ahead.isEmpty = false) :
    lexer.line = lexer.indented.andThen (·.body lexer.ahead) := by
  rw [line, take, if_neg (by simpa [ahead] using h), Step.andThen_assoc]
  rfl

/-- What a lexer can do with a line: skip it, stop behind its indentation, or take its body. -/
theorem line_cases (lexer : Lexer) :
    (lexer.ahead.isEmpty = true ∧ lexer.line =
      { tokens := [], lexer := ((lexer.past lexer.ahead.indent).body lexer.ahead).lexer }) ∨
    (lexer.ahead.isEmpty = false ∧ lexer.indented.stop? ≠ none ∧ lexer.line = lexer.indented) ∨
    (lexer.ahead.isEmpty = false ∧ lexer.indented.stop? = none ∧ lexer.line =
      (lexer.indented.lexer.body lexer.ahead).after lexer.indented.tokens) := by
  cases h : lexer.ahead.isEmpty with
  | true => exact Or.inl ⟨rfl, line_of_isEmpty lexer h⟩
  | false =>
    rw [line_of_not_isEmpty lexer h]
    cases hs : lexer.indented.stop? with
    | some s =>
      rw [Step.andThen_of_stop hs]
      exact Or.inr (Or.inl ⟨rfl, by simp, rfl⟩)
    | none =>
      rw [Step.andThen_of_none hs]
      exact Or.inr (Or.inr ⟨rfl, rfl, rfl⟩)

theorem body_frame (lexer : Lexer) (line : Line) :
    (lexer.body line).lexer.indents = lexer.indents ∧
      (lexer.body line).lexer.tabWidth = lexer.tabWidth := by
  have pieces_frame (ps : List Piece) (lexer : Lexer) :
      (lexer.pieces ps).lexer.indents = lexer.indents ∧
        (lexer.pieces ps).lexer.tabWidth = lexer.tabWidth := by
    induction ps generalizing lexer with
    | nil => exact ⟨rfl, rfl⟩
    | cons p ps ih =>
      have first : (lexer.piece p).stop? = none := by cases p <;> rfl
      rw [pieces, Step.andThen_eq first]
      have := ih (lexer.piece p).lexer
      cases p <;> exact this
  rw [body, Step.andThen_eq (pieces_rest lexer line.pieces).1]
  have := pieces_frame line.pieces lexer
  cases line.ending <;> exact this

section Ahead

variable {source rest : List Char} {c : Char} {cursor : Cursor}

theorem first_ahead (ahead : cursor.rest = c :: rest) :
    (Text.first c rest).text <+: cursor.rest ∧
      Text.CutBehind (Text.first c rest).text cursor.rest := by
  rw [ahead]
  exact ⟨⟨_, Text.first_splits c rest⟩, Text.first_cutBehind c rest⟩

theorem gap_standsIn (h : cursor.StandsIn source) (ahead : cursor.rest = c :: rest)
    (hb : Text.isBreak c = false) :
    (cursor.past [c]).StandsIn source ∧ (cursor.past [c]).rest = rest := by
  constructor
  · apply h.past
    · rw [ahead]
      exact ⟨rest, rfl⟩
    · exact Text.cutBehind_of_ne (Text.ne_of_not_isBreak hb) _
  · simp [ahead]

theorem lexeme_standsIn {r : Text.Reading Token.Kind} (h : cursor.StandsIn source)
    (ahead : cursor.rest = c :: rest) (hb : Text.isBreak c = false)
    (hs : Lexeme.scan c rest = .ok r) :
    (cursor.past r.text).StandsIn source ∧ (cursor.past r.text).rest = r.rest := by
  have split : r.Splits cursor.rest := by
    rw [ahead]
    exact (Lexeme.scan_splits c rest).of_ok hs
  constructor
  · apply h.past ⟨_, split⟩
    rw [ahead]
    exact (Lexeme.scan_cuts hb rest).of_ok hs
  · exact Cursor.rest_past_splits split

end Ahead

/-- What the body of a line keeps, along with the tokens so far, if all that a lexer can do there
keeps it: to move past some text without a token, to take a lexeme that is scanned, and to take the
line break that is a token. -/
theorem body_scans_induction {I : Lexer → List Token → Prop} {text : List Char} {lexer : Lexer}
    (past : ∀ (lexer : Lexer) (tokens : List Token) (front : List Char),
      front <+: lexer.cursor.rest → Text.CutBehind front lexer.cursor.rest →
      I lexer tokens → I (lexer.past front) tokens)
    (lexeme : ∀ (lexer : Lexer) (tokens : List Token) (c : Char) (rest : List Char)
      (r : Text.Reading Token.Kind), lexer.cursor.rest = c :: rest → Text.isBreak c = false →
      Lexeme.scan c rest = .ok r → I lexer tokens →
      I (lexer.behind r.value r.text) (tokens ++ [⟨lexer.position, r.value⟩]))
    (newLine : ∀ (lexer : Lexer) (tokens : List Token) (front : List Char), front ≠ [] →
      front <+: lexer.cursor.rest → Text.CutBehind front lexer.cursor.rest → lexer.depth = 0 →
      I lexer tokens → I (lexer.past front) (tokens ++ [⟨lexer.position, .newLine⟩]))
    (tokens : List Token) (h : I lexer tokens) (ahead : lexer.cursor.rest = text) :
    I (lexer.body (Line.readPieces text)).lexer
      (tokens ++ (lexer.body (Line.readPieces text)).tokens) := by
  fun_induction Line.readPieces text generalizing lexer tokens with
  | case1 => simpa [body_of_no_pieces, ending] using h
  | case2 c rest _ =>
    obtain ⟨within, cut⟩ := first_ahead ahead
    rw [body_of_no_pieces _ rfl]
    -- the line break is a token only where no bracket is open
    by_cases outside : lexer.depth = 0
    · simp only [ending, if_pos outside]
      exact newLine _ _ _ (Text.first_text_ne_nil c rest) within cut outside h
    · simp only [ending, if_neg outside, List.append_nil]
      exact past _ _ _ within cut h
  | case3 c rest hb _ ih =>
    rw [body_gap]
    refine ih tokens (past _ _ _ ?_ ?_ h) (by simp [Lexer.past, ahead])
    · rw [ahead]
      exact ⟨rest, rfl⟩
    · exact Text.cutBehind_of_ne (Text.ne_of_not_isBreak (by simpa using hb)) _
  | case4 rest _ _ =>
    rw [body_of_no_pieces _ rfl]
    simp only [ending, List.append_nil]
    apply past _ _ _ _ _ h
    · rw [ahead]
      exact ⟨_, Line.comment_splits ('#' :: rest)⟩
    · rw [ahead]
      exact Line.comment_cut ('#' :: rest)
  | case5 c rest hb _ _ r hs ih =>
    have split : r.Splits lexer.cursor.rest := by
      rw [ahead]
      exact (Lexeme.scan_splits c rest).of_ok hs
    have further := ih _ (lexeme lexer tokens c rest r ahead (by simpa using hb) hs h)
      (Cursor.rest_past_splits split)
    rw [body_lexeme, Step.after_lexer, Step.after_tokens, ← List.append_assoc]
    exact further
  | case6 c rest hb _ _ f hs =>
    rw [body_of_no_pieces _ rfl]
    simp only [ending, List.append_nil]
    apply past _ _ _ _ _ h
    · rw [ahead]
      exact ((Lexeme.scan_splits c rest).of_error hs).2
    · rw [ahead]
      exact ((Lexeme.scan_cuts (by simpa using hb) rest).of_error hs).2

/-- What the body of a line keeps, along with the tokens so far, if moving past the front of what is
ahead keeps it: past one without a token, past a lexeme, and past the line break that is a token. No
front ends inside of a line break. -/
theorem body_tokens_induction {I : Lexer → List Token → Prop} {text : List Char} {lexer : Lexer}
    (past : ∀ (lexer : Lexer) (tokens : List Token) (front : List Char),
      front <+: lexer.cursor.rest → Text.CutBehind front lexer.cursor.rest →
      I lexer tokens → I (lexer.past front) tokens)
    (behind : ∀ (lexer : Lexer) (tokens : List Token) (kind : Token.Kind) (front : List Char),
      front ≠ [] → front <+: lexer.cursor.rest → Text.CutBehind front lexer.cursor.rest →
      I lexer tokens → I (lexer.behind kind front) (tokens ++ [⟨lexer.position, kind⟩]))
    (newLine : ∀ (lexer : Lexer) (tokens : List Token) (front : List Char), front ≠ [] →
      front <+: lexer.cursor.rest → Text.CutBehind front lexer.cursor.rest → lexer.depth = 0 →
      I lexer tokens → I (lexer.past front) (tokens ++ [⟨lexer.position, .newLine⟩]))
    (tokens : List Token) (h : I lexer tokens) (ahead : lexer.cursor.rest = text) :
    I (lexer.body (Line.readPieces text)).lexer
      (tokens ++ (lexer.body (Line.readPieces text)).tokens) := by
  refine body_scans_induction past ?_ newLine tokens h ahead
  intro lexer tokens c rest r ahead inside scanned kept
  have some := Lexeme.scan_consumed_ne_nil c rest
  rw [scanned] at some
  apply behind lexer tokens r.value r.text some _ _ kept
  · rw [ahead]
    exact ⟨_, (Lexeme.scan_splits c rest).of_ok scanned⟩
  · rw [ahead]
    exact (Lexeme.scan_cuts inside rest).of_ok scanned

theorem body_induction {I : Lexer → Prop} {text : List Char} {lexer : Lexer}
    (past : ∀ (lexer : Lexer) (front : List Char), front <+: lexer.cursor.rest →
      Text.CutBehind front lexer.cursor.rest → I lexer → I (lexer.past front))
    (behind : ∀ (lexer : Lexer) (kind : Token.Kind) (front : List Char), front ≠ [] →
      front <+: lexer.cursor.rest → Text.CutBehind front lexer.cursor.rest → I lexer →
      I (lexer.behind kind front))
    (h : I lexer) (ahead : lexer.cursor.rest = text) :
    I (lexer.body (Line.readPieces text)).lexer := by
  refine body_tokens_induction (I := fun lexer _ => I lexer) ?_ ?_ ?_ [] h ahead
  · intro lexer _ front within cut kept
    exact past lexer front within cut kept
  · intro lexer _ kind front some within cut kept
    exact behind lexer kind front some within cut kept
  · intro lexer _ front _ within cut _ kept
    exact past lexer front within cut kept

theorem body_standsIn {source text : List Char} {lexer : Lexer}
    (h : lexer.cursor.StandsIn source) (ahead : lexer.cursor.rest = text) :
    (lexer.body (Line.readPieces text)).lexer.cursor.StandsIn source := by
  refine body_induction (I := fun lexer => lexer.cursor.StandsIn source) ?past ?behind h ahead
  case past =>
    intro lexer front within cut h
    exact h.past within cut
  case behind =>
    intro lexer kind front _ within cut h
    exact h.past within cut

theorem past_indent_rest (lexer : Lexer) :
    (lexer.past lexer.ahead.indent).cursor.rest =
      (Text.Reading.span Line.isIndent lexer.cursor.rest).rest :=
  Cursor.rest_past_splits (Text.Reading.span_splits Line.isIndent lexer.cursor.rest)

theorem past_indent_standsIn {source : List Char} {lexer : Lexer}
    (h : lexer.cursor.StandsIn source) :
    (lexer.past lexer.ahead.indent).cursor.StandsIn source ∧
      (lexer.past lexer.ahead.indent).cursor.rest =
        (Text.Reading.span Line.isIndent lexer.cursor.rest).rest := by
  have split := Text.Reading.span_splits Line.isIndent lexer.cursor.rest
  constructor
  · exact h.past ⟨_, split⟩ (Text.cutBehind_of_not_mem (indent_not_mem _) _)
  · exact past_indent_rest lexer

theorem indented_cursor (lexer : Lexer) :
    lexer.indented.lexer.cursor = lexer.cursor.past lexer.ahead.indent :=
  indentTo_cursor _ _ _

theorem current_closeAbove_zero (s : IndentStack) : (s.closeAbove 0).2.current = 0 := by
  have stops := List.head?_dropWhile_not (0 < ·) s.widths
  simp only [IndentStack.closeAbove, IndentStack.current]
  generalize s.widths.dropWhile (0 < ·) = left at stops
  cases left with
  | nil => rfl
  | cons top left => simpa using stops

/-- Only a line that is indented can stand between two levels. -/
theorem indentTo_stop?_eq_some {lexer : Lexer} {width : Nat} {start : Position} {s : Stop}
    (h : (lexer.indentTo width start).stop? = some s) :
    s = .error ⟨.indentationMismatch width, start⟩ ∧ 0 < width := by
  rcases indentTo_cases lexer width start with ⟨_, e⟩ | ⟨_, e⟩
  · rw [e] at h
    contradiction
  · rw [e] at h
    simp only at h
    split at h
    · contradiction
    · rename_i apart
      cases h
      refine ⟨rfl, Nat.pos_of_ne_zero ?_⟩
      rintro rfl
      exact apart (current_closeAbove_zero _)

theorem line_standsIn {source : List Char} {lexer : Lexer} (h : lexer.cursor.StandsIn source) :
    lexer.line.lexer.cursor.StandsIn source := by
  obtain ⟨stands, rest⟩ := past_indent_standsIn h
  have same := indented_cursor lexer
  rcases line_cases lexer with ⟨_, e⟩ | ⟨_, _, e⟩ | ⟨_, _, e⟩
  · rw [e]
    exact body_standsIn stands rest
  · rw [e, same]
    exact stands
  · rw [e]
    exact body_standsIn (same ▸ stands) (same ▸ rest)

/-- What every line keeps, a sequence of lines keeps, along with the tokens so far. -/
theorem lines_induction {I : Lexer → List Token → Prop}
    (step : ∀ lexer tokens, I lexer tokens → I lexer.line.lexer (tokens ++ lexer.line.tokens))
    (lexer : Lexer) (tokens : List Token) (h : I lexer tokens) :
    I lexer.lines.lexer (tokens ++ lexer.lines.tokens) := by
  fun_induction lines lexer generalizing tokens with
  | case1 => simpa using h
  | case2 lexer _ line s hs => exact step lexer tokens h
  | case3 lexer _ line hs following ih =>
    have := ih _ (step lexer tokens h)
    rwa [List.append_assoc] at this

/-- Line by line, from the end of the text or the first line that stops the lexer. -/
theorem line_induction {P : Lexer → Prop} (done : ∀ lexer, lexer.cursor.rest = [] → P lexer)
    (stop : ∀ lexer, lexer.cursor.rest ≠ [] → lexer.line.stop? ≠ none → P lexer)
    (next : ∀ lexer, lexer.cursor.rest ≠ [] → lexer.line.stop? = none → P lexer.line.lexer →
      P lexer) (lexer : Lexer) : P lexer := by
  fun_induction lines lexer with
  | case1 lexer ended => exact done lexer ended
  | case2 lexer ahead _ s stops =>
    apply stop lexer ahead
    intro goes
    cases stops.symm.trans goes
  | case3 lexer ahead _ goes _ ih => exact next lexer ahead goes ih

/-- At the end of a text there is one more line to skip, which holds nothing. -/
theorem lines_eq_line_andThen (lexer : Lexer) : lexer.lines = lexer.line.andThen lines := by
  rw [lines_eq]
  split
  · rename_i done
    have nothing : lexer.ahead.text = [] :=
      (List.append_eq_nil_iff.mp ((Line.read_text lexer.cursor.rest).trans done)).1
    have empty : lexer.ahead.isEmpty = true := by
      rw [ahead, done]
      exact Line.isEmpty_readPieces []
    have skipped : lexer.line = { tokens := [], lexer } := by
      rw [line_skips lexer empty, nothing]
      rfl
    rw [skipped, Step.andThen_of_none rfl, lines_eq, if_pos done]
    rfl
  · rfl

theorem lines_standsIn {source : List Char} {lexer : Lexer} (h : lexer.cursor.StandsIn source) :
    lexer.lines.lexer.cursor.StandsIn source :=
  lines_induction (I := fun lexer _ => lexer.cursor.StandsIn source)
    (fun _ _ => line_standsIn) lexer [] h

theorem lines_rest {lexer : Lexer} (h : lexer.lines.stop? = none) :
    lexer.lines.lexer.cursor.rest = [] := by
  fun_induction lines lexer with
  | case1 lexer done => exact done
  | case2 lexer _ line s hs => exact absurd h (by rw [hs]; simp)
  | case3 lexer _ line hs following ih => exact ih h

theorem finish_stop? (lexer : Lexer) : lexer.finish.stop? = none := by
  unfold finish
  split <;> rfl

theorem finish_cursor (lexer : Lexer) : lexer.finish.lexer.cursor = lexer.cursor := by
  unfold finish
  split <;> rfl

theorem run_cases (lexer : Lexer) :
    (lexer.lines.stop? ≠ none ∧ lexer.run = lexer.lines) ∨
    (lexer.lines.stop? = none ∧ lexer.run =
      lexer.lines.lexer.finish.after lexer.lines.tokens) := by
  unfold run
  cases h : lexer.lines.stop? with
  | some s => exact Or.inl ⟨by simp, Step.andThen_of_stop h _⟩
  | none => exact Or.inr ⟨rfl, Step.andThen_of_none h _⟩

theorem run_stop? (lexer : Lexer) : lexer.run.stop? = lexer.lines.stop? := by
  rcases run_cases lexer with ⟨_, e⟩ | ⟨h, e⟩
  · rw [e]
  · rw [e, h]
    exact finish_stop? _

theorem run_induction {I : Lexer → List Token → Prop}
    (line : ∀ lexer tokens, I lexer tokens → I lexer.line.lexer (tokens ++ lexer.line.tokens))
    (finish : ∀ lexer tokens, I lexer tokens →
      I lexer.finish.lexer (tokens ++ lexer.finish.tokens))
    (lexer : Lexer) (tokens : List Token) (h : I lexer tokens) :
    I lexer.run.lexer (tokens ++ lexer.run.tokens) := by
  have behind := lines_induction line lexer tokens h
  rcases run_cases lexer with ⟨_, e⟩ | ⟨_, e⟩
  · rwa [e]
  · rw [e, Step.after_tokens, ← List.append_assoc]
    exact finish _ _ behind

def afterRuns (lexer : Lexer) : Nat → Lexer
  | 0 => lexer
  | n + 1 => lexer.run.lexer.afterRuns n

def tokensOfRuns (lexer : Lexer) (n : Nat) : List Token :=
  (runs n lexer).flatMap (·.tokens)

/-- What lines and ends of texts keep, any number of runs keeps. -/
theorem runs_induction {I : Lexer → List Token → Prop}
    (line : ∀ lexer tokens, I lexer tokens → I lexer.line.lexer (tokens ++ lexer.line.tokens))
    (finish : ∀ lexer tokens, I lexer tokens →
      I lexer.finish.lexer (tokens ++ lexer.finish.tokens))
    (n : Nat) (lexer : Lexer) (tokens : List Token) (h : I lexer tokens) :
    I (lexer.afterRuns n) (tokens ++ lexer.tokensOfRuns n) := by
  induction n generalizing lexer tokens with
  | zero => simpa [afterRuns, tokensOfRuns, runs] using h
  | succ n ih =>
    have := ih lexer.run.lexer _ (run_induction line finish lexer tokens h)
    rwa [List.append_assoc] at this

end Offside.Lexer
