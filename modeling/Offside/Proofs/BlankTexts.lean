import Mathlib
import Offside.Proofs.Indentation
import Offside.Proofs.Lossless

/-!
Texts without content: blanks, line breaks among them, and whole comments. A lexer makes tokens of
such a text where a line has another blank than spaces and tabs, unless that line stands at the
margin and has no line break of its own.
-/

namespace Offside

namespace Gap

variable {text after : List Char} {c : Char}

theorem behind_blank (blank : Text.isBlank c = true) (h : Gap (c :: text) after) :
    Gap text after := by
  generalize whole : c :: text = all at h
  cases h with
  | nil => contradiction
  | blank _ later =>
    cases whole
    exact later
  | comment _ _ _ =>
    cases whole
    contradiction

theorem behind_blanks {front : List Char} (blank : ∀ c ∈ front, Text.isBlank c = true)
    (h : Gap (front ++ text) after) : Gap text after := by
  induction front with
  | nil => exact h
  | cons c front ih =>
    exact ih (fun d member => blank d (by simp [member])) (h.behind_blank (blank c (by simp)))

theorem blank_or_comment (h : Gap (c :: text) after) : Text.isBlank c = true ∨ c = '#' := by
  generalize whole : c :: text = all at h
  cases h with
  | nil => contradiction
  | blank blank _ =>
    cases whole
    exact Or.inl blank
  | comment _ _ _ =>
    cases whole
    exact Or.inr rfl

theorem behind_break (ends : Text.isBreak c = true) (h : Gap (c :: text) after) :
    Gap (Text.first c text).rest after := by
  have split : (Text.first c text).text ++ (Text.first c text).rest = c :: text :=
    Text.first_splits c text
  rw [← split] at h
  exact h.behind_blanks (Text.first_isBlank ends text)

theorem behind_comment (h : Gap ('#' :: text) []) : Gap (Line.comment ('#' :: text)).rest [] := by
  generalize whole : '#' :: text = all at h
  cases h with
  | nil => contradiction
  | blank blank _ =>
    cases whole
    contradiction
  | @comment body rest _ inside whole_comment later =>
    have body_inside : ∀ d ∈ '#' :: body, (!Text.isBreak d) = true := by
      intro d member
      rcases List.mem_cons.mp member with rfl | member
      · rfl
      · simp [inside d member]
    have stops : ∀ d ∈ rest.head?, (!Text.isBreak d) = false := by
      intro d first
      simp [whole_comment d (by simpa using first)]
    rw [Line.comment, Text.Reading.span_append body_inside stops]
    cases rest with
    | nil => exact .nil
    | cons c rest => exact later.behind_break (whole_comment c rfl)

/-- Blanks are taken one by one, line breaks and comments as a whole. -/
@[elab_as_elim]
theorem text_induction {motive : List Char → Prop} (nil : motive [])
    (lineBreak : ∀ c rest, Text.isBreak c = true → Gap (Text.first c rest).rest [] →
      motive (c :: rest))
    (blank : ∀ c rest, Text.isBreak c = false → Text.isBlank c = true → motive rest →
      motive (c :: rest))
    (comment : ∀ rest, Gap (Line.comment ('#' :: rest)).rest [] → motive ('#' :: rest))
    (h : Gap text []) : motive text := by
  induction text with
  | nil => exact nil
  | cons c rest ih =>
    rcases h.blank_or_comment with white | rfl
    · cases ends : Text.isBreak c with
      | true => exact lineBreak c rest ends (h.behind_break ends)
      | false => exact blank c rest ends white (ih (h.behind_blank white))
    · exact comment rest h.behind_comment

end Gap

/-- A line of blanks, with a comment or without, that says nothing to a lexer that has no block and
no bracket open: it holds nothing but what every lexer skips, or it stands at the margin and ends
with a comment or with the text. -/
def IsQuiet (tabWidth : UInt32) (line : List Char) : Prop :=
  HoldsNothing line ∨
    Line.columns (margin line) tabWidth = 0 ∧ ('#' ∈ line ∨ ∀ c ∈ line, c ≠ '\n' ∧ c ≠ '\r')

namespace Line

structure IsBlank (line : Line) : Prop where
  pieces : ∀ p ∈ line.pieces, ∃ c, p = .gap c
  ending : ∀ f, line.ending ≠ .failure f
  rest : Gap line.rest []

theorem readPieces_of_gap {text : List Char} (gap : Gap text []) : (readPieces text).IsBlank := by
  refine Gap.text_induction ?nil ?lineBreak ?blank ?comment gap
  case nil =>
    rw [readPieces]
    exact ⟨by simp, by simp, .nil⟩
  case lineBreak =>
    intro c rest ends later
    rw [readPieces, if_pos ends]
    exact ⟨by simp, by simp, later⟩
  case blank =>
    intro c rest inside blank ih
    rw [readPieces, if_neg (by simp [inside]), if_pos blank]
    exact ⟨by simpa [cons] using ih.pieces, ih.ending, ih.rest⟩
  case comment =>
    intro rest later
    rw [readPieces_comment]
    exact ⟨by simp, by simp, later⟩

theorem indent_isBlank (text : List Char) : ∀ c ∈ (read text).indent, Text.isBlank c = true := by
  intro c member
  rcases indent_blank text c member with rfl | rfl <;> decide

theorem gap_behind {text : List Char} (gap : Gap text []) : Gap (text.dropWhile isIndent) [] := by
  have split : (read text).indent ++ text.dropWhile isIndent = text := indent_append_rest text
  rw [← split] at gap
  exact gap.behind_blanks (indent_isBlank text)

theorem read_of_gap {text : List Char} (gap : Gap text []) : (read text).IsBlank := by
  obtain ⟨pieces, ending, later⟩ := readPieces_of_gap (gap_behind gap)
  exact ⟨pieces, ending, later⟩

theorem readPieces_lines {text : List Char} (gap : Gap text []) (some : text ≠ []) :
    Text.lines text =
      ((readPieces text).pieces.flatMap Piece.text ++ (readPieces text).ending.text) ::
        Text.lines (readPieces text).rest := by
  revert some
  refine Gap.text_induction ?nil ?lineBreak ?blank ?comment gap
  case nil =>
    intro some
    exact absurd rfl some
  case lineBreak =>
    intro c rest ends _ _
    rw [readPieces, if_pos ends]
    exact Text.lines_first ends rest
  case blank =>
    intro c rest inside blank ih some
    rw [readPieces, if_neg (by simp [inside]), if_pos blank]
    by_cases last : rest = []
    · subst last
      rw [Text.lines_of_not_isBreak (by simpa using inside) some]
      simp [readPieces, cons, Piece.text, Ending.text, Text.lines]
    · exact Text.lines_cons_of_not_isBreak inside (ih last)
  case comment =>
    intro rest _ some
    rw [readPieces_comment]
    obtain ⟨body, inside, ⟨rfl, e⟩ | ⟨c, more, ends, rfl, e⟩⟩ := comment_cases rest
    · have whole : ∀ d ∈ '#' :: rest, Text.isBreak d = false :=
        List.forall_mem_cons.mpr ⟨rfl, inside⟩
      rw [e, Text.lines_of_not_isBreak whole some]
      rfl
    · have whole : ∀ d ∈ '#' :: body, Text.isBreak d = false :=
        List.forall_mem_cons.mpr ⟨rfl, inside⟩
      rw [e]
      exact Text.lines_append whole (Text.lines_first ends more)

theorem read_lines {text : List Char} (gap : Gap text []) (some : text ≠ []) :
    Text.lines text = (read text).text :: Text.lines (read text).rest := by
  have split : (read text).indent ++ text.dropWhile isIndent = text := indent_append_rest text
  have inside : ∀ c ∈ (read text).indent, Text.isBreak c = false := by
    intro c member
    rcases indent_blank text c member with rfl | rfl <;> rfl
  have rest : (read text).rest = (readPieces (text.dropWhile isIndent)).rest := rfl
  rw [read_text_eq, rest]
  cases behind : text.dropWhile isIndent with
  | nil =>
    rw [behind, List.append_nil] at split
    rw [split] at inside ⊢
    rw [Text.lines_of_not_isBreak inside some]
    simp [readPieces, Ending.text, Text.lines]
  | cons c rest =>
    have later := readPieces_lines (gap_behind gap) (by simp [behind])
    rw [behind] at later split
    nth_rewrite 1 [← split]
    exact Text.lines_append inside later

/-- A line of blanks ends with a line break of its own unless it has a comment. -/
theorem readPieces_lineBreak_iff {text : List Char} (gap : Gap text []) :
    (∀ t, (readPieces text).ending ≠ .lineBreak t) ↔
      '#' ∈ (readPieces text).pieces.flatMap Piece.text ++ (readPieces text).ending.text ∨
        ∀ c ∈ (readPieces text).pieces.flatMap Piece.text ++ (readPieces text).ending.text,
          Text.isBreak c = false := by
  refine Gap.text_induction ?nil ?lineBreak ?blank ?comment gap
  case nil => simp [readPieces, Ending.text]
  case lineBreak =>
    intro c rest ends _
    rw [readPieces, if_pos ends]
    have breaks : ∀ d ∈ (Text.first c rest).text, Text.isBreak d = true :=
      Text.first_isBreak ends rest
    obtain ⟨d, _, front⟩ := List.exists_cons_of_ne_nil (Text.first_text_ne_nil c rest)
    have member : d ∈ (Text.first c rest).text := by simp [front]
    refine iff_of_false (fun none => none _ rfl) ?_
    rintro (sign | none)
    · exact absurd (breaks '#' sign) (by decide)
    · have ends := breaks d member
      have goes : Text.isBreak d = false := none d member
      rw [goes] at ends
      contradiction
  case blank =>
    intro c rest inside blank ih
    have other : '#' ≠ c := by
      rintro rfl
      contradiction
    rw [readPieces, if_neg (by simp [inside]), if_pos blank]
    simpa [cons, Piece.text, inside, other] using ih
  case comment =>
    intro rest _
    rw [readPieces_comment]
    have sign : '#' ∈ (comment ('#' :: rest)).text := by
      obtain ⟨body, _, ⟨_, e⟩ | ⟨c, more, _, _, e⟩⟩ := comment_cases rest <;> simp [e]
    exact iff_of_true (fun _ => Ending.noConfusion) (.inl sign)

theorem isQuiet_read_iff {text : List Char} (gap : Gap text []) (tabWidth : UInt32) :
    IsQuiet tabWidth (read text).text ↔ (read text).isEmpty = true ∨
      columns (read text).indent tabWidth = 0 ∧ ∀ t, (read text).ending ≠ .lineBreak t := by
  have breaks := readPieces_lineBreak_iff (gap_behind gap)
  have ending : (read text).ending = (readPieces (text.dropWhile isIndent)).ending := rfl
  have sign : '#' ∉ (read text).indent := by
    intro member
    rcases indent_blank text '#' member with h | h <;> contradiction
  have inside : ∀ c ∈ (read text).indent, Text.isBreak c = false := by
    intro c member
    rcases indent_blank text c member with rfl | rfl <;> rfl
  rw [IsQuiet, ← isEmpty_iff_holdsNothing, margin_read, ending, breaks, read_text_eq]
  generalize (readPieces _).pieces.flatMap Piece.text ++ (readPieces _).ending.text = content
  simp only [← Text.not_isBreak_iff, List.forall_mem_append, and_iff_right inside]
  rw [List.mem_append, or_iff_right sign]

end Line

namespace Lexer

/-- The lexer has no block and no bracket open, and nothing but blanks and comments before it. -/
structure Idle (tabWidth : UInt32) (lexer : Lexer) : Prop where
  indents : lexer.indents = .empty
  depth : lexer.depth = 0
  tabWidth : lexer.tabWidth = tabWidth
  gap : Gap lexer.cursor.rest []

theorem pieces_of_gaps {ps : List Piece} (gaps : ∀ p ∈ ps, ∃ c, p = .gap c) (lexer : Lexer) :
    (lexer.pieces ps).tokens = [] ∧ (lexer.pieces ps).lexer.depth = lexer.depth := by
  induction ps generalizing lexer with
  | nil => exact ⟨rfl, rfl⟩
  | cons p ps ih =>
    obtain ⟨c, rfl⟩ := gaps p (by simp)
    exact ih (fun q member => gaps q (by simp [member])) (lexer.past [c])

theorem body_of_gaps {line : Line} (blank : line.IsBlank) (lexer : Lexer)
    (outside : lexer.depth = 0) :
    (lexer.body line).lexer.depth = 0 ∧
      ((lexer.body line).tokens = [] ↔ ∀ text, line.ending ≠ .lineBreak text) := by
  obtain ⟨tokens, depth⟩ := pieces_of_gaps blank.pieces lexer
  rw [body, Step.andThen_of_none (pieces_rest lexer line.pieces).1, Step.after_tokens, tokens]
  cases e : line.ending with
  | lineBreak text => simp [ending, past, depth, outside]
  | comment text => simp [ending, past, depth, outside]
  | endOfText => simp [ending, depth, outside]
  | failure f => exact absurd e (blank.ending f)

section Quiet

variable {tabWidth : UInt32} {lexer : Lexer}

theorem Idle.indented (h : lexer.Idle tabWidth) :
    lexer.indented.stop? = none ∧ lexer.indented.lexer.depth = 0 ∧
      (lexer.indented.tokens = [] ↔ Line.columns lexer.ahead.indent tabWidth = 0) ∧
      (lexer.indented.tokens = [] → lexer.indented.lexer.indents = .empty) := by
  have width : lexer.ahead.width lexer.tabWidth = Line.columns lexer.ahead.indent tabWidth := by
    rw [h.tabWidth]
    exact Line.read_width _ _
  have margin : (lexer.past lexer.ahead.indent).indents = .empty := h.indents
  rw [Lexer.indented, width, indentTo, margin]
  generalize Line.columns lexer.ahead.indent tabWidth = w
  by_cases left : w = 0
  · subst left
    simp [IndentStack.empty, IndentStack.current, IndentStack.closeAbove, past, h.depth]
  · simp [IndentStack.empty, IndentStack.current, IndentStack.push, past, h.depth,
      Nat.pos_of_ne_zero left, left]

theorem Idle.line (h : lexer.Idle tabWidth) :
    lexer.line.stop? = none ∧ (lexer.line.tokens = [] ↔ IsQuiet tabWidth lexer.ahead.text) ∧
      (lexer.line.tokens = [] →
        lexer.line.lexer.indents = .empty ∧ lexer.line.lexer.depth = 0) := by
  have blank : lexer.ahead.IsBlank := Line.read_of_gap h.gap
  have told : IsQuiet tabWidth lexer.ahead.text ↔ lexer.ahead.isEmpty = true ∨
      Line.columns lexer.ahead.indent tabWidth = 0 ∧ ∀ t, lexer.ahead.ending ≠ .lineBreak t :=
    Line.isQuiet_read_iff h.gap tabWidth
  obtain ⟨goes, outside, margin, empty⟩ := h.indented
  rcases line_cases lexer with ⟨skipped, e⟩ | ⟨_, stops, _⟩ | ⟨full, _, e⟩
  · obtain ⟨depth, _⟩ := body_of_gaps blank (lexer.past lexer.ahead.indent) h.depth
    have indents := (body_frame (lexer.past lexer.ahead.indent) lexer.ahead).1
    rw [e]
    exact ⟨rfl, iff_of_true rfl (told.mpr (Or.inl skipped)),
      fun _ => ⟨indents.trans h.indents, depth⟩⟩
  · contradiction
  · obtain ⟨depth, breaks⟩ := body_of_gaps blank lexer.indented.lexer outside
    have indents := (body_frame lexer.indented.lexer lexer.ahead).1
    rw [e, Step.after_tokens, List.append_eq_nil_iff]
    refine ⟨(body_stop? _ _).mpr blank.ending, ?_, ?_⟩
    · rw [margin, breaks, told, full]
      simp
    · rintro ⟨none, _⟩
      exact ⟨indents.trans (empty none), depth⟩

theorem Idle.next (h : lexer.Idle tabWidth) (quiet : lexer.line.tokens = []) :
    lexer.line.lexer.Idle tabWidth ∧ lexer.line.lexer.cursor.rest = lexer.ahead.rest := by
  obtain ⟨goes, _, same⟩ := h.line
  have rest := line_rest goes
  refine ⟨⟨(same quiet).1, (same quiet).2, (line_tabWidth lexer).trans h.tabWidth, ?_⟩, rest⟩
  rw [rest]
  exact (Line.read_of_gap h.gap).rest

/-- A lexer with nothing open and nothing but blanks and comments before it adds no token as long as
every line is quiet, and then nothing is open at the end either. -/
theorem Idle.lines {text : List Char} (h : lexer.Idle tabWidth) (ahead : lexer.cursor.rest = text) :
    (lexer.lines.tokens = [] ↔ ∀ line ∈ Text.lines text, IsQuiet tabWidth line) ∧
      (lexer.lines.tokens = [] →
        lexer.lines.stop? = none ∧ lexer.lines.lexer.indents = .empty) := by
  fun_induction Line.all text generalizing lexer with
  | case1 =>
    rw [lines_eq, if_pos ahead]
    exact ⟨by simp [Text.lines], fun _ => ⟨rfl, h.indents⟩⟩
  | case2 text some ih =>
    obtain ⟨goes, quiet, _⟩ := h.line
    have here : Line.read text = lexer.ahead := by rw [← ahead, Lexer.ahead]
    rw [lines_eq, if_neg (ahead ▸ some), Step.andThen_of_none goes, Step.after_tokens,
      List.append_eq_nil_iff, Line.read_lines (ahead ▸ h.gap) some, List.forall_mem_cons, quiet,
      here]
    by_cases none : IsQuiet tabWidth lexer.ahead.text
    · obtain ⟨idle, rest⟩ := h.next (quiet.mpr none)
      obtain ⟨later, through⟩ := ih idle (rest.trans (congrArg Line.rest here.symm))
      simp only [none, true_and]
      exact ⟨here ▸ later, through⟩
    · simp [none]

end Quiet

/-- A text of blanks and whole comments has no tokens as long as each of its lines either holds no
other blanks than spaces and tabs, or stands at the margin and ends with a comment or with the text.
Any other line opens a block or has a line end of its own. -/
theorem tokenize_gap_eq_nil_iff {text : List Char} (gap : Gap text []) (options : Options) :
    tokenize text options = .ok [] ↔
      ∀ line ∈ Text.lines text, IsQuiet options.tabWidth line := by
  have idle : (ofText text options).Idle options.tabWidth := ⟨rfl, rfl, rfl, gap⟩
  have whole : (ofText text options).cursor.rest = text := rfl
  obtain ⟨quiet, through⟩ := idle.lines whole
  rw [tokenize_eq_ok_iff, ← quiet]
  constructor
  · rintro ⟨ok, none⟩
    rcases run_cases (ofText text options) with ⟨stops, _⟩ | ⟨_, e⟩
    · rw [run_stop?] at ok
      contradiction
    · rw [e, Step.after_tokens, List.append_eq_nil_iff] at none
      exact none.1
  · intro none
    obtain ⟨ok, indents⟩ := through none
    refine ⟨(run_stop? _).trans ok, ?_⟩
    rcases run_cases (ofText text options) with ⟨stops, _⟩ | ⟨_, e⟩
    · contradiction
    · rw [e, Step.after_tokens, none, finish_tokens, indents]
      rfl

theorem tokenize_gap_eq_nil_iff_margin :
    Gap "\x0c# é\r\n \t\r\u00a0".toList [] ∧
    tokenize "\x0c# é\r\n \t\r\u00a0".toList {} = .ok [] ∧
    ∀ line ∈ Text.lines "\x0c# é\r\n \t\r\u00a0".toList, IsQuiet 8 line := by
  have gap : Gap ('\x0c' :: ('#' :: [' ', 'é'] ++ ['\r', '\n', ' ', '\t', '\r', '\u00a0'])) [] := by
    refine .blank (by cbv) (.comment (by simp [Text.isBreak]) ?_ ?_)
    · rintro _ ⟨⟩
      rfl
    · exact gap_of_blank (List.all_eq_true.mp (by cbv)) []
  have none : tokenize "\x0c# é\r\n \t\r\u00a0".toList {} = .ok [] := by cbv
  exact ⟨gap, none, (tokenize_gap_eq_nil_iff gap {}).mp none⟩

/-- A form feed alone on a line is a blank, and yet the line gets a line end. -/
theorem tokenize_form_feed :
    Gap "\x0c\n".toList [] ∧ tokenize "\x0c\n".toList {} = .ok [⟨⟨1, 2⟩, .newLine⟩] := by
  have gap : Gap ['\x0c', '\n'] [] := gap_of_blank (List.all_eq_true.mp (by cbv)) []
  exact ⟨gap, by cbv⟩

end Lexer

end Offside
