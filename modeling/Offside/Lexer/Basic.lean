import Offside.Cursor
import Offside.IndentStack
import Offside.Line
import Offside.Options

/-!
The lexer. It takes the text line by line: the indentation of a line opens and closes blocks, and
the pieces of the line become tokens. It stops at the first fault and can be run again from there.
-/

namespace Offside

structure Lexer where
  cursor : Cursor
  indents : IndentStack
  /-- The number of open brackets. -/
  depth : Nat
  tabWidth : UInt32

namespace Lexer

inductive Stop where
  | error (e : LexError)
  /-- The lexer broke a rule of its own stack. This never happens. -/
  | misuse (m : IndentStack.Misuse)
  deriving DecidableEq

/-- A stretch of lexing: the tokens it adds, the lexer after it, and why it stopped early, if it
did. -/
structure Step where
  tokens : List Token
  lexer : Lexer
  stop? : Option Stop := none

def Step.error? (step : Step) : Option LexError :=
  match step.stop? with
  | some (.error e) => some e
  | some (.misuse _) | none => none

def Step.andThen (step : Step) (next : Lexer → Step) : Step :=
  match step.stop? with
  | some _ => step
  | none =>
    let following := next step.lexer
    { following with tokens := step.tokens ++ following.tokens }

def ofText (text : List Char) (options : Options) : Lexer :=
  { cursor := .ofText text, indents := .empty, depth := 0, tabWidth := options.tabWidth }

def position (lexer : Lexer) : Position :=
  lexer.cursor.position

/-- The lexer behind a text that it does not turn into a token. -/
def past (lexer : Lexer) (text : List Char) : Lexer :=
  { lexer with cursor := lexer.cursor.past text }

/-- Opens or closes blocks for a line of the given width that begins at `start`. A wider line opens
one. A narrower one closes all that are wider than it, and then it must be as wide as what
encloses it. -/
def indentTo (lexer : Lexer) (width : Nat) (start : Position) : Step :=
  if lexer.indents.current < width then
    match lexer.indents.push width with
    | .ok indents => { tokens := [⟨start, .indent⟩], lexer := { lexer with indents } }
    | .error m => { tokens := [], lexer, stop? := some (.misuse m) }
  else
    let (closed, indents) := lexer.indents.closeAbove width
    { tokens := List.replicate closed ⟨start, .dedent⟩
      lexer := { lexer with indents }
      stop? :=
        if indents.current = width then none
        else some (.error ⟨.indentationMismatch width, start⟩) }

def piece (lexer : Lexer) : Piece → Step
  | .gap c => { tokens := [], lexer := lexer.past [c] }
  | .lexeme kind text =>
    { tokens := [⟨lexer.position, kind⟩]
      lexer := { lexer.past text with depth := kind.depthAfter lexer.depth } }

def pieces (lexer : Lexer) : List Piece → Step
  | [] => { tokens := [], lexer }
  | p :: ps => (lexer.piece p).andThen (·.pieces ps)

/-- Takes the end of a line. Only a line break outside of brackets is a token. -/
def ending (lexer : Lexer) : Ending → Step
  | .lineBreak text =>
    { tokens := if lexer.depth = 0 then [⟨lexer.position, .newLine⟩] else []
      lexer := lexer.past text }
  | .comment text => { tokens := [], lexer := lexer.past text }
  | .endOfText => { tokens := [], lexer }
  | .failure f =>
    { tokens := []
      lexer := lexer.past f.text
      stop? := some (.error ⟨f.fault, lexer.position.past f.before⟩) }

def take (lexer : Lexer) (line : Line) : Step :=
  if line.isEmpty then { tokens := [], lexer := lexer.past line.text }
  else
    let indented := (lexer.past line.indent).indentTo (line.width lexer.tabWidth) lexer.position
    (indented.andThen (·.pieces line.pieces)).andThen (·.ending line.ending)

def line (lexer : Lexer) : Step :=
  lexer.take (Line.read lexer.cursor.rest)

theorem Step.andThen_eq {step : Step} {next : Lexer → Step} (h : step.stop? = none) :
    step.andThen next =
      { next step.lexer with tokens := step.tokens ++ (next step.lexer).tokens } := by
  simp [Step.andThen, h]

theorem Step.stop?_eq_none_of_andThen {step : Step} {next : Lexer → Step}
    (h : (step.andThen next).stop? = none) : step.stop? = none := by
  unfold Step.andThen at h
  split at h
  · exact h
  · assumption

/-- A line opens one level, or closes those that are wider than it, and then it has to stand on one
that is open. -/
theorem indentTo_cases (lexer : Lexer) (width : Nat) (start : Position) :
    (lexer.indents.current < width ∧
      lexer.indentTo width start =
        { tokens := [⟨start, .indent⟩]
          lexer := { lexer with indents := ⟨width :: lexer.indents.widths⟩ } }) ∨
    (¬lexer.indents.current < width ∧
      lexer.indentTo width start =
        { tokens := List.replicate (lexer.indents.closeAbove width).1 ⟨start, .dedent⟩
          lexer := { lexer with indents := (lexer.indents.closeAbove width).2 }
          stop? :=
            if (lexer.indents.closeAbove width).2.current = width then none
            else some (.error ⟨.indentationMismatch width, start⟩) }) := by
  by_cases deeper : lexer.indents.current < width
  · refine .inl ⟨deeper, ?_⟩
    rw [indentTo, if_pos deeper, IndentStack.push_of_current_lt deeper]
  · refine .inr ⟨deeper, ?_⟩
    rw [indentTo, if_neg deeper]

theorem indentTo_frame (lexer : Lexer) (width : Nat) (start : Position) :
    ∃ indents, (lexer.indentTo width start).lexer = { lexer with indents } := by
  rcases indentTo_cases lexer width start with ⟨_, e⟩ | ⟨_, e⟩
  · exact ⟨_, congrArg Step.lexer e⟩
  · exact ⟨_, congrArg Step.lexer e⟩

theorem indentTo_cursor (lexer : Lexer) (width : Nat) (start : Position) :
    (lexer.indentTo width start).lexer.cursor = lexer.cursor := by
  obtain ⟨indents, e⟩ := indentTo_frame lexer width start
  rw [e]

theorem pieces_rest (lexer : Lexer) (ps : List Piece) :
    (lexer.pieces ps).stop? = none ∧
      (lexer.pieces ps).lexer.cursor.rest =
        lexer.cursor.rest.drop (ps.flatMap Piece.text).length := by
  induction ps generalizing lexer with
  | nil => simp [pieces]
  | cons p ps ih =>
    have hp : (lexer.piece p).stop? = none := by cases p <;> rfl
    have hr : (lexer.piece p).lexer.cursor.rest = lexer.cursor.rest.drop p.text.length := by
      cases p <;> rfl
    rw [pieces, Step.andThen_eq hp]
    refine ⟨(ih _).1, ?_⟩
    rw [(ih _).2, hr, List.drop_drop, List.flatMap_cons, List.length_append]

theorem ending_rest (lexer : Lexer) (e : Ending) :
    (lexer.ending e).lexer.cursor.rest = lexer.cursor.rest.drop e.text.length := by
  cases e <;> rfl

theorem take_rest {lexer : Lexer} {line : Line} (h : (lexer.take line).stop? = none) :
    (lexer.take line).lexer.cursor.rest = lexer.cursor.rest.drop line.text.length := by
  unfold take at h ⊢
  split at h
  · rename_i he
    rw [if_pos he]
    rfl
  · rename_i he
    rw [if_neg he]
    have hp := Step.stop?_eq_none_of_andThen h
    have hi := Step.stop?_eq_none_of_andThen hp
    rw [Step.andThen_eq hp, ending_rest, Step.andThen_eq hi, (pieces_rest _ _).2, indentTo_cursor]
    simp [past, Line.text, List.drop_drop, Nat.add_assoc]

theorem line_rest_length_lt {lexer : Lexer} (ahead : lexer.cursor.rest ≠ [])
    (h : lexer.line.stop? = none) :
    lexer.line.lexer.cursor.rest.length < lexer.cursor.rest.length := by
  have some := List.length_pos_iff.mpr ahead
  have text := List.length_pos_iff.mpr (Line.read_text_ne_nil ahead)
  rw [line, take_rest h, List.length_drop]
  omega

/-- The lexer keeps to the rules of its stack: it opens a block only inside of a narrower one. -/
theorem indentTo_ne_misuse (lexer : Lexer) (width : Nat) (start : Position)
    (m : IndentStack.Misuse) : (lexer.indentTo width start).stop? ≠ some (.misuse m) := by
  rcases indentTo_cases lexer width start with ⟨_, e⟩ | ⟨_, e⟩
  · simp [e]
  · rw [e]
    intro h
    simp only at h
    split at h <;> simp at h

theorem take_ne_misuse (lexer : Lexer) (line : Line) (m : IndentStack.Misuse) :
    (lexer.take line).stop? ≠ some (.misuse m) := by
  unfold take
  split
  · simp
  · have hi := indentTo_ne_misuse (lexer.past line.indent) (line.width lexer.tabWidth)
      lexer.position m
    generalize (lexer.past line.indent).indentTo _ _ = indented at hi
    cases hs : indented.stop? with
    | some s =>
      rw [hs] at hi
      simpa [Step.andThen, hs] using hi
    | none =>
      have hp : (indented.andThen (·.pieces line.pieces)).stop? = none := by
        rw [Step.andThen_eq hs]
        exact (pieces_rest _ _).1
      rw [Step.andThen_eq hp]
      cases line.ending <;> simp [ending]

end Lexer

end Offside
