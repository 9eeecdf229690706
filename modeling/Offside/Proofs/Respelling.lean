import Mathlib.Data.List.Forall2
import Offside.Proofs.Resumption
import Offside.Proofs.SpelledScans

/-!
Tokens written out and read again. Lexemes on one line, with single spaces between them, are read as
themselves, whatever their neighbours are. So kinds of tokens can be written down in such a way that
the text has tokens of these kinds and no others.
-/

namespace Offside

theorem Keyword.ofWord?_eq_none {name : String} (h : ∀ k : Keyword, name ≠ k.word) :
    ofWord? name = none := by
  rw [ofWord?, List.find?_eq_none]
  intro k _
  simpa using (h k).symm

namespace Token.Kind

/-- How a token of this kind is written. Blocks and line ends are not written. -/
def spelling : Kind → List Char
  | punct p => p.spelling
  | keyword k => k.word.toList
  | id name => name.toList
  | int numeral | float numeral => numeral.toList
  | str value => '"' :: (value.toList.flatMap Lexeme.quoted ++ ['"'])
  | indent | dedent | newLine => []

/-- Tokens of these kinds on one line, with a space between any two of them. -/
def respell (kinds : List Kind) : List Char :=
  [' '].intercalate (kinds.map spelling)

/-- A kind whose token can be written: what it carries is a name that is not reserved, a whole
number, a number with a fraction or an exponent, or any text. -/
def WellFormed : Kind → Prop
  | punct _ | keyword _ | str _ => True
  | id name => Lexeme.IsWord name.toList ∧ ∀ k : Keyword, name ≠ k.word
  | int numeral => Lexeme.IsDigits numeral.toList
  | float numeral => ∃ whole f e, numeral.toList = whole ++ (f ++ e) ∧ Lexeme.IsDigits whole ∧
      Lexeme.IsFraction f ∧ Lexeme.IsExponent e ∧ (f ≠ [] ∨ e ≠ [])
  | indent | dedent | newLine => False

theorem isWord_keyword (k : Keyword) : Lexeme.IsWord k.word.toList := by
  rw [Lexeme.isWord_iff]
  cases k <;> exact ⟨by decide, by decide⟩

theorem WellFormed.spells {kind : Kind} (h : kind.WellFormed) :
    Lexeme.Spells kind.spelling kind := by
  cases kind with
  | indent => exact h.elim
  | dedent => exact h.elim
  | newLine => exact h.elim
  | punct p => exact Lexeme.punct_spells p
  | keyword k =>
    have reserved : Lexeme.wordKind (String.ofList k.word.toList) = .keyword k := by
      rw [String.ofList_toList, Lexeme.wordKind, Keyword.ofWord?_word]
    have spells := Lexeme.word_spells (isWord_keyword k)
    rw [reserved] at spells
    exact spells
  | id name =>
    obtain ⟨word, free⟩ := h
    have named : Lexeme.wordKind (String.ofList name.toList) = .id name := by
      rw [String.ofList_toList, Lexeme.wordKind, Keyword.ofWord?_eq_none free]
    have spells := Lexeme.word_spells word
    rw [named] at spells
    exact spells
  | int numeral =>
    have spells := Lexeme.number_spells h .none .none
    simpa [Lexeme.numberKind, spelling] using spells
  | float numeral =>
    obtain ⟨whole, f, e, split, hw, hf, he, some⟩ := h
    have parts : (f.isEmpty && e.isEmpty) = false := by
      rcases some with some | some
      · simp [some]
      · simp [some]
    have spells := Lexeme.number_spells hw hf he
    rw [Lexeme.numberKind, parts, List.append_assoc, ← split, String.ofList_toList] at spells
    exact spells
  | str value =>
    have spells := Lexeme.stringLiteral_spells (by decide) Lexeme.quoted_writes value.toList
    rw [String.ofList_toList] at spells
    exact spells

end Token.Kind

namespace Line

theorem isIndent_of_not_isBlank {c : Char} (h : Text.isBlank c = false) : isIndent c = false := by
  rw [← Bool.not_eq_true]
  intro indent
  simp only [isIndent, Bool.or_eq_true, decide_eq_true_eq] at indent
  rcases indent with rfl | rfl
  · contradiction
  · contradiction

theorem readPieces_space (rest : List Char) :
    readPieces (' ' :: rest) = (readPieces rest).cons (.gap ' ') := by
  rw [readPieces]
  rfl

theorem readPieces_spelled {text after : List Char} {kind : Token.Kind}
    (spells : Lexeme.Spells text kind) (spaced : Text.Spaced after) :
    readPieces (text ++ after) = (readPieces after).cons (.lexeme kind text) := by
  obtain ⟨c, rest, whole, scan⟩ := spells after spaced
  obtain ⟨blank, comment⟩ := Lexeme.first_of_scan scan
  rw [whole]
  exact readPieces_lexeme blank comment scan

end Line

namespace Lexer

/-- Behind its indentation, the line `text` is the last of its text, and a lexer that takes it gets
tokens of the given kinds. -/
structure Yields (lexer : Lexer) (text : List Char) (kinds : List Token.Kind) : Prop where
  ending : (Line.readPieces text).ending = .endOfText
  rest : (Line.readPieces text).rest = []
  kinds : (lexer.body (Line.readPieces text)).tokens.map (·.kind) = kinds

theorem yields_nil (lexer : Lexer) : lexer.Yields [] [] := by
  constructor
  · rw [Line.readPieces]
  · rw [Line.readPieces]
  · rw [Line.readPieces]
    rfl

theorem Yields.spelled {lexer : Lexer} {text after : List Char} {kind : Token.Kind}
    {kinds : List Token.Kind} (spells : Lexeme.Spells text kind) (spaced : Text.Spaced after)
    (further : (lexer.behind kind text).Yields after kinds) :
    lexer.Yields (text ++ after) (kind :: kinds) := by
  have line := Line.readPieces_spelled spells spaced
  constructor
  · rw [line]
    exact further.ending
  · rw [line]
    exact further.rest
  · rw [line, body_lexeme, Step.after_tokens, List.map_append, further.kinds]
    rfl

theorem Yields.space {lexer : Lexer} {rest : List Char} {kinds : List Token.Kind}
    (further : (lexer.past [' ']).Yields rest kinds) : lexer.Yields (' ' :: rest) kinds := by
  constructor
  · rw [Line.readPieces_space]
    exact further.ending
  · rw [Line.readPieces_space]
    exact further.rest
  · rw [Line.readPieces_space, body_gap]
    exact further.kinds

theorem yields_joined {texts : List (List Char)} {kinds : List Token.Kind}
    (spell : List.Forall₂ Lexeme.Spells texts kinds) (lexer : Lexer) :
    lexer.Yields ([' '].intercalate texts) kinds := by
  induction spell generalizing lexer with
  | nil => exact yields_nil lexer
  | @cons text kind texts kinds spells further ih =>
    cases further with
    | nil =>
      have alone := Yields.spelled spells Text.spaced_nil (yields_nil (lexer.behind kind text))
      rw [List.append_nil] at alone
      rw [List.intercalate_singleton]
      exact alone
    | cons next others =>
      rw [List.intercalate_cons_cons, List.append_assoc]
      exact .spelled spells (Text.spaced_space _) (.space (ih _))

section FirstLine

variable {c : Char} {rest : List Char} (options : Options) (front : Line.isIndent c = false)

include front

theorem ahead_of_margin : (ofText (c :: rest) options).ahead =
    { Line.readPieces (c :: rest) with indent := [] } := by
  have indent : (Text.Reading.span Line.isIndent (c :: rest)).text = [] ∧
      (Text.Reading.span Line.isIndent (c :: rest)).rest = c :: rest := by
    simp [Text.Reading.span, front]
  show Line.read (c :: rest) = _
  rw [Line.read, indent.1, indent.2]

theorem line_of_margin (pieces : (Line.readPieces (c :: rest)).pieces ≠ []) :
    (ofText (c :: rest) options).line =
      (ofText (c :: rest) options).body (Line.readPieces (c :: rest)) := by
  have ahead : (ofText (c :: rest) options).ahead =
      { Line.readPieces (c :: rest) with indent := [] } := ahead_of_margin options front
  have filled : (ofText (c :: rest) options).ahead.isEmpty = false := by
    rw [ahead, Line.isEmpty]
    split <;> first | contradiction | rfl
  have margin : (ofText (c :: rest) options).indented =
      { tokens := [], lexer := ofText (c :: rest) options } := by
    rw [indented, ahead]
    rfl
  rw [line_of_not_isEmpty _ filled, margin, Step.andThen_of_none rfl, ahead]
  rfl

theorem tokenize_of_yields {kinds : List Token.Kind}
    (h : (ofText (c :: rest) options).Yields (c :: rest) kinds) :
    tokenize (c :: rest) options =
      .ok ((ofText (c :: rest) options).body (Line.readPieces (c :: rest))).tokens := by
  have text := Line.readPieces_text (c :: rest)
  rw [h.ending, h.rest, Ending.text, List.append_nil, List.append_nil] at text
  have pieces : (Line.readPieces (c :: rest)).pieces ≠ [] := by
    intro none
    rw [none] at text
    contradiction
  have line := line_of_margin options front pieces
  have goes : (ofText (c :: rest) options).line.stop? = none := by
    rw [line, body_stop?, h.ending]
    intro f same
    contradiction
  have done : (ofText (c :: rest) options).line.lexer.cursor.rest = [] := by
    rw [line, body_rest, h.ending, Ending.text, List.append_nil, text]
    exact List.drop_length
  have closed : (ofText (c :: rest) options).line.lexer.indents = .empty := by
    rw [line, (body_frame _ _).1]
    rfl
  have ahead : (ofText (c :: rest) options).cursor.rest ≠ [] := List.cons_ne_nil c rest
  have lines : (ofText (c :: rest) options).run =
      (ofText (c :: rest) options).line.lexer.run.after (ofText (c :: rest) options).line.tokens := by
    rw [run, lines_eq, if_neg ahead, Step.andThen_assoc, Step.andThen_of_none goes]
    rfl
  rw [tokenize_eq_ok_iff, lines, run_of_done done closed, line]
  exact ⟨rfl, List.append_nil _⟩

end FirstLine

theorem isIndent_joined {text : List Char} {kind : Token.Kind} (spells : Lexeme.Spells text kind)
    (texts : List (List Char)) :
    ∃ c rest, [' '].intercalate (text :: texts) = c :: rest ∧ Line.isIndent c = false := by
  obtain ⟨c, rest, whole, scan⟩ := spells [] Text.spaced_nil
  have margin := Line.isIndent_of_not_isBlank (Lexeme.first_of_scan scan).1
  rw [List.append_nil] at whole
  subst whole
  cases texts with
  | nil => exact ⟨c, rest, List.intercalate_singleton, margin⟩
  | cons next texts =>
    rw [List.intercalate_cons_cons]
    exact ⟨c, _, rfl, margin⟩

theorem tokenize_of_spells {text : List Char} {kind : Token.Kind}
    (spells : Lexeme.Spells text kind) (options : Options) :
    tokenize text options = .ok [⟨.start, kind⟩] := by
  obtain ⟨c, rest, joined, front⟩ := isIndent_joined spells []
  rw [List.intercalate_singleton] at joined
  have lexer : (ofText text options).Yields text [kind] := by
    have yields := Yields.spelled spells Text.spaced_nil
      (yields_nil ((ofText text options).behind kind text))
    rwa [List.append_nil] at yields
  have line := Line.readPieces_spelled spells Text.spaced_nil
  have none : ((ofText text options).behind kind text).body (Line.readPieces []) =
      { tokens := [], lexer := (ofText text options).behind kind text } := by
    rw [Line.readPieces]
    rfl
  rw [List.append_nil] at line
  have tokens : ((ofText text options).body (Line.readPieces text)).tokens = [⟨.start, kind⟩] := by
    rw [line, body_lexeme, none]
    rfl
  rw [← tokens]
  subst joined
  exact tokenize_of_yields options front lexer

/-- Kinds of tokens that are written out, with single spaces between them, and read again come back
as they were, and no other tokens come with them. -/
theorem tokenize_respell (kinds : List Token.Kind) (options : Options)
    (h : ∀ kind ∈ kinds, kind.WellFormed) :
    ∃ tokens, tokenize (Token.Kind.respell kinds) options = .ok tokens ∧
      tokens.map (·.kind) = kinds := by
  have spell : List.Forall₂ Lexeme.Spells (kinds.map Token.Kind.spelling) kinds := by
    rw [List.forall₂_map_left_iff, List.forall₂_same]
    intro kind member
    exact (h kind member).spells
  cases kinds with
  | nil =>
    have idle : (ofText (Token.Kind.respell []) options).run =
        { tokens := [], lexer := ofText [] options } := run_of_done rfl rfl
    refine ⟨[], ?_, rfl⟩
    rw [tokenize_eq_ok_iff, idle]
    exact ⟨rfl, rfl⟩
  | cons kind kinds =>
    have first := (h kind (by simp)).spells
    obtain ⟨c, rest, text, front⟩ := isIndent_joined first (kinds.map Token.Kind.spelling)
    have text : Token.Kind.respell (kind :: kinds) = c :: rest := text
    have yields := yields_joined spell (ofText (c :: rest) options)
    change Yields _ (Token.Kind.respell _) _ at yields
    rw [text] at yields ⊢
    exact ⟨_, tokenize_of_yields options front yields, yields.kinds⟩

theorem tokenize_respell_neighbours :
    ∃ tokens, tokenize "... . <= if if_0 007 1.5e-3 \"\\\"#\\\\\\r\n\"".toList {} = .ok tokens ∧
      tokens.map (·.kind) = [.punct .spread, .punct .dot, .punct .lessEquals, .keyword .if_,
        .id "if_0", .int "007", .float "1.5e-3", .str "\"#\\\r\n"] := by
  have text : Token.Kind.respell [.punct .spread, .punct .dot, .punct .lessEquals, .keyword .if_,
      .id "if_0", .int "007", .float "1.5e-3", .str "\"#\\\r\n"] =
        "... . <= if if_0 007 1.5e-3 \"\\\"#\\\\\\r\n\"".toList := by decide +kernel
  rw [← text]
  apply tokenize_respell
  intro kind member
  simp only [List.mem_cons, List.not_mem_nil, or_false] at member
  rcases member with rfl | rfl | rfl | rfl | rfl | rfl | rfl | rfl
  · trivial
  · trivial
  · trivial
  · trivial
  · refine ⟨Lexeme.isWord_iff.mpr ⟨by decide, by decide⟩, fun k => ?_⟩
    cases k <;> decide
  · exact ⟨by decide, by decide⟩
  · have whole : Lexeme.IsDigits ['1'] := ⟨by decide, by decide⟩
    have tenths : Lexeme.IsDigits ['5'] := ⟨by decide, by decide⟩
    have power : Lexeme.IsDigits ['3'] := ⟨by decide, by decide⟩
    exact ⟨_, _, _, by decide, whole, .digits tenths, .digits (.inr (.inr rfl)) power,
      .inl (by decide)⟩
  · trivial

end Lexer

end Offside
