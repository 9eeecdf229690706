import Mathlib
import Offside.Proofs.Concatenation
import Offside.Proofs.LineContent

namespace Offside

/-- `text` is one whole line of spaces and tabs and perhaps a comment. -/
def IsEmptyLine (text : List Char) : Prop :=
  IsBare [['\n'], ['\r', '\n']] text

namespace IsEmptyLine

variable {line : List Char} (h : IsEmptyLine line)

include h

theorem cases : ∃ indent remark ends, line = indent ++ (remark ++ ends) ∧
    (∀ c ∈ indent, c = ' ' ∨ c = '\t') ∧
    (remark = [] ∨ ∃ inside, remark = '#' :: inside ∧ ∀ c ∈ inside, c ≠ '\n' ∧ c ≠ '\r') ∧
    (ends = ['\n'] ∨ ends = ['\r', '\n']) := by
  obtain ⟨indent, remark, ends, split, blank, comment, spelled⟩ := h
  exact ⟨indent, remark, ends, split, blank, comment, by simpa using spelled⟩

theorem getLast? : line.getLast? = some '\n' := by
  obtain ⟨indent, remark, ends, rfl, _, _, rfl | rfl⟩ := h.cases <;> simp

theorem past (p : Position) : p.past line = p.nextLine := by
  obtain ⟨indent, remark, ends, rfl, blank, comment, spelled⟩ := h.cases
  have inside : ∀ c ∈ indent ++ remark, Text.isBreak c = false := by
    intro c member
    rw [Text.not_isBreak_iff]
    rcases List.mem_append.mp member with early | late
    · rcases blank c early with rfl | rfl <;> decide
    · rcases comment with rfl | ⟨inside, rfl, clean⟩
      · contradiction
      · rcases List.mem_cons.mp late with rfl | late
        · decide
        · exact clean c late
  have cut : Text.Cut (indent ++ remark) ends := by
    apply Text.cut_of_not_mem
    intro member
    exact (Text.not_isBreak_iff.mp (inside _ member)).2 rfl
  rw [← List.append_assoc, Position.past_append _ _ _ cut, Position.past_of_no_break p inside]
  rcases spelled with rfl | rfl <;> rfl

theorem read (back : List Char) :
    (Line.read (line ++ back)).isEmpty = true ∧ (Line.read (line ++ back)).text = line := by
  obtain ⟨indent, remark, ends, rfl, blank, comment, spelled⟩ := h.cases
  obtain ⟨c, more, rfl, ends, first⟩ : ∃ c more, ends = c :: more ∧ Text.isBreak c = true ∧
      Text.first c (more ++ back) = { value := '\n', text := c :: more, rest := back } := by
    rcases spelled with rfl | rfl
    · exact ⟨_, _, rfl, rfl, rfl⟩
    · exact ⟨_, _, rfl, rfl, rfl⟩
  have margin : ∀ d ∈ (remark ++ (c :: more ++ back)).head?, Line.isIndent d = false := by
    rcases comment with rfl | ⟨inside, rfl, _⟩
    · rintro _ ⟨⟩
      rcases spelled with ⟨⟨⟩⟩ | ⟨⟨⟩⟩ <;> decide
    · rintro _ ⟨⟩
      decide
  have indented : ∀ d ∈ indent, Line.isIndent d = true :=
    fun d member => Line.isIndent_iff.mpr (blank d member)
  rw [List.append_assoc, List.append_assoc, Line.read, Text.Reading.span_append indented margin]
  rcases comment with rfl | ⟨inside, rfl, clean⟩
  · rw [List.nil_append, List.cons_append, Line.readPieces, if_pos ends, first]
    simp [Line.isEmpty, Line.text, Ending.text]
  · have still : ∀ d ∈ inside, Text.isBreak d = false :=
      fun d member => Text.not_isBreak_iff.mpr (clean d member)
    have read : Line.readPieces ('#' :: inside ++ (c :: more ++ back)) =
        { indent := [], pieces := [], ending := .comment ('#' :: inside ++ (c :: more)),
          rest := back } := by
      rw [List.cons_append, List.cons_append, Line.readPieces_comment,
        Line.comment_of_break still ends, first]
    rw [read]
    simp [Line.isEmpty, Line.text, Ending.text]

end IsEmptyLine

theorem Position.down_down (n m : Nat) (p : Position) : (p.down n).down m = p.down (n + m) := by
  simp [down, Nat.add_assoc]

theorem Token.down_down (n m : Nat) : Token.down m ∘ Token.down n = Token.down (n + m) := by
  funext t
  simp [down, Position.down_down]

namespace Lexer

theorem Stop.down_down (n m : Nat) : Stop.down m ∘ Stop.down n = Stop.down (n + m) := by
  funext s
  cases s <;> simp [down, LexError.down, Position.down_down]

variable {front line : List Char}

theorem wholeLines_append (empty : IsEmptyLine line) (front : List Char) :
    Text.WholeLines (front ++ line) := by
  right
  rw [Text.Terminated, List.getLast?_append, empty.getLast?]
  rfl

theorem lineBreaks_append (whole : Text.WholeLines front) (empty : IsEmptyLine line) :
    Text.lineBreaks (front ++ line) = Text.lineBreaks front + 1 := by
  have cut : Text.Cut front line := by
    intro last
    rcases whole with rfl | ends
    · contradiction
    · rw [ends] at last
      contradiction
  have behind := start_past_wholeLines (wholeLines_append empty front)
  rw [Position.past_append _ _ _ cut, start_past_wholeLines whole, empty.past] at behind
  have same := congrArg Position.line behind
  simp only [Position.nextLine, Position.down, Position.start] at same
  omega

theorem line_of_isEmptyLine {lexer : Lexer} {back : List Char} (empty : IsEmptyLine line)
    (ahead : lexer.cursor.rest = line ++ back) :
    lexer.line = { tokens := [], lexer := lexer.past line } := by
  obtain ⟨skipped, text⟩ := empty.read back
  rw [Lexer.line, ahead, take, if_pos skipped, text]

theorem run_of_isEmptyLine {lexer : Lexer} {back : List Char} (empty : IsEmptyLine line)
    (ahead : lexer.cursor.rest = line ++ back) : lexer.run = (lexer.past line).run := by
  have some : lexer.cursor.rest ≠ [] := by
    obtain ⟨_, _, _, rfl, _, _, rfl | rfl⟩ := empty.cases <;> simp [ahead]
  rw [run_eq, if_neg some, line_of_isEmptyLine empty ahead, Step.andThen_of_none rfl]
  rfl

/-- A lexer that is behind whole lines and then behind an empty one goes on as if the text began
there. -/
theorem placed_past_isEmptyLine {lexer : Lexer} (whole : Text.WholeLines front)
    (stands : lexer.cursor.StandsIn front) (rest : lexer.cursor.rest = [])
    (empty : IsEmptyLine line) (back : List Char) :
    (lexer.placed [] (line ++ back)).past line =
      (lexer.onto back).placed (front ++ line) [] := by
  simp [placed, Cursor.placed, onto, Cursor.ofText, past, Cursor.past, empty.past,
    cursor_of_rest_eq_nil whole stands rest, lineBreaks_append whole empty, Position.down,
    Position.nextLine, Position.start, Text.lineBreaks, Nat.add_assoc]

/-- An empty line between two texts, the first of which is made of whole lines and has no fault,
leaves no trace in the tokens. Those of the first text stay as they are, and those behind it, and
the fault if there is one, stand one line further down. -/
theorem run_insert_empty_line (whole : Text.WholeLines front) (empty : IsEmptyLine line)
    (back : List Char) (options : Options) (goes : (ofText front options).run.stop? = none) :
    let scanned := (ofText front options).lines.tokens
    let plain := (ofText (front ++ back) options).run
    let spaced := (ofText (front ++ line ++ back) options).run
    ∃ later, plain.tokens = scanned ++ later ∧
      spaced.tokens = scanned ++ later.map (Token.down 1) ∧
      spaced.stop? = plain.stop?.map (Stop.down 1) := by
  intro scanned plain spaced
  rw [run_stop?] at goes
  have stands : (ofText front options).lines.lexer.cursor.StandsIn front :=
    lines_standsIn (Cursor.ofText_standsIn front)
  have done := lines_rest goes
  generalize first : (ofText front options).lines.lexer = lexer at stands done
  have ahead : (lexer.placed [] (line ++ back)).cursor.rest = line ++ back := by
    simp [placed, Cursor.placed, done]
  have plain_run : plain =
      ((lexer.onto back).run.placed front []).after scanned := by
    show (ofText (front ++ back) options).run = _
    rw [run_append_of_none whole back options goes, first,
      placed_of_rest_eq_nil whole stands done, run_placed]
  have spaced_run : spaced =
      ((lexer.onto back).run.placed (front ++ line) []).after scanned := by
    show (ofText (front ++ line ++ back) options).run = _
    rw [List.append_assoc, run_append_of_none whole (line ++ back) options goes, first,
      run_of_isEmptyLine empty ahead, placed_past_isEmptyLine whole stands done empty, run_placed]
  have deeper := lineBreaks_append whole empty
  rw [plain_run, spaced_run]
  refine ⟨_, rfl, ?_, ?_⟩
  · rw [Step.after_tokens]
    simp [Step.placed, deeper, Token.down_down]
  · simp [deeper, Stop.down_down]

theorem run_insert_empty_line_in_call :
    Text.WholeLines "if a:\n  b(\n".toList ∧ IsEmptyLine "\t # é\r\n".toList ∧
    (ofText "if a:\n  b(\n".toList {}).run.stop? = none ∧
    (ofText ("if a:\n  b(\n".toList ++ "\t # é\r\n".toList ++ "    1)\n c".toList) {}).run.stop? =
      some (.error ⟨.indentationMismatch 1, ⟨5, 1⟩⟩) := by
  have whole : Text.WholeLines "if a:\n  b(\n".toList := by decide
  have empty : IsEmptyLine "\t # é\r\n".toList :=
    ⟨['\t', ' '], ['#', ' ', 'é'], ['\r', '\n'], rfl, by simp, .inr ⟨[' ', 'é'], rfl, by simp⟩,
      by simp⟩
  have goes : (ofText "if a:\n  b(\n".toList {}).run.stop? = none := by cbv
  have stop : (ofText ("if a:\n  b(\n".toList ++ "    1)\n c".toList) {}).run.stop? =
      some (.error ⟨.indentationMismatch 1, ⟨4, 1⟩⟩) := by cbv
  obtain ⟨_, _, _, stops⟩ := run_insert_empty_line whole empty "    1)\n c".toList {} goes
  rw [stop] at stops
  exact ⟨whole, empty, goes, stops⟩

end Lexer

end Offside
