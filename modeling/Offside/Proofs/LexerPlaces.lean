import Offside.Proofs.Lossless
import Offside.Proofs.TokenOrder

namespace Offside

namespace Text

/-- The place of the character with the index `n`. -/
def placeOf (text : List Char) (n : Nat) : Position :=
  Position.start.past (text.take n)

variable {text : List Char} {i j : Nat} {c : Char}

theorem cut_of_getElem? (here : text[i]? = some c) (other : c ≠ '\n') :
    Cut (text.take i) (text.drop i) := by
  intro _ head
  rw [List.head?_drop, here] at head
  exact other (Option.some.inj head)

theorem placeOf_append (cut : Cut (text.take i) (text.drop i)) (n : Nat) :
    placeOf text (i + n) = (placeOf text i).past ((text.drop i).take n) := by
  rw [placeOf, List.take_add, Position.past_append]
  · rfl
  · exact cut.of_prefix (List.take_prefix _ _)

theorem placeOf_le (cut : Cut (text.take i) (text.drop i)) (le : i ≤ j) :
    placeOf text i ≤ placeOf text j := by
  obtain ⟨n, rfl⟩ := Nat.exists_eq_add_of_le le
  rw [placeOf_append cut]
  exact Position.le_past _ _

theorem placeOf_lt (cut : Cut (text.take i) (text.drop i)) (lt : i < j) (within : j ≤ text.length) :
    placeOf text i < placeOf text j := by
  obtain ⟨n, rfl⟩ := Nat.exists_eq_add_of_lt lt
  rw [Nat.add_assoc, placeOf_append cut]
  apply Position.lt_past
  apply List.ne_nil_of_length_pos
  rw [List.length_take, List.length_drop]
  omega

theorem placeOf_inj (cut : Cut (text.take i) (text.drop i)) (cut' : Cut (text.take j) (text.drop j))
    (hi : i ≤ text.length) (hj : j ≤ text.length) (same : placeOf text i = placeOf text j) :
    i = j := by
  rcases Nat.lt_trichotomy i j with lt | eq | gt
  · exact absurd same (placeOf_lt cut lt hj).ne
  · exact eq
  · exact absurd same.symm (placeOf_lt cut' gt hi).ne

end Text

namespace Lexer

def index (lexer : Lexer) : Nat :=
  lexer.cursor.passed.length

@[simp] theorem index_past (lexer : Lexer) (front : List Char) :
    (lexer.past front).index = lexer.index + front.length := by
  simp [index, past, Cursor.past, Nat.add_comm]

@[simp] theorem index_behind (lexer : Lexer) (kind : Token.Kind) (front : List Char) :
    (lexer.behind kind front).index = lexer.index + front.length :=
  index_past lexer front

section Onward

variable {lexer : Lexer}

/-- The lexer has not moved back from `place`, and put no token in front of it. -/
def From (place : Position) (lexer : Lexer) (tokens : List Token) : Prop :=
  place ≤ lexer.position ∧ ∀ t ∈ tokens, place ≤ t.position

theorem From.start (lexer : Lexer) : From lexer.position lexer [] :=
  ⟨le_rfl, by simp⟩

theorem From.append {place : Position} {tokens due : List Token} (h : From place lexer tokens)
    (after : ∀ t ∈ due, lexer.position ≤ t.position) : ∀ t ∈ tokens ++ due, place ≤ t.position := by
  intro t member
  rcases List.mem_append.mp member with own | further
  · exact h.2 t own
  · exact h.1.trans (after t further)

theorem From.past {place : Position} {tokens : List Token} (h : From place lexer tokens)
    (front : List Char) : From place (lexer.past front) tokens :=
  ⟨h.1.trans (Position.le_past _ _), h.2⟩

theorem From.emit {place : Position} {tokens : List Token} (h : From place lexer tokens)
    (kind : Token.Kind) (front : List Char) :
    From place (lexer.past front) (tokens ++ [⟨lexer.position, kind⟩]) := by
  refine ⟨h.1.trans (Position.le_past _ _), ?_⟩
  intro t member
  rcases List.mem_append.mp member with earlier | here
  · exact h.2 t earlier
  · rw [List.mem_singleton.mp here]
    exact h.1

theorem body_from {place : Position} {tokens : List Token} {text : List Char}
    (h : From place lexer tokens) (ahead : lexer.cursor.rest = text) :
    From place (lexer.body (Line.readPieces text)).lexer
      (tokens ++ (lexer.body (Line.readPieces text)).tokens) := by
  refine body_tokens_induction (I := From place) ?past ?behind ?newLine tokens h ahead
  case past =>
    intro lexer tokens front _ _ h
    exact h.past front
  case behind =>
    intro lexer tokens kind front _ _ _ h
    exact h.emit kind front
  case newLine =>
    intro lexer tokens front _ _ _ _ h
    exact h.emit .newLine front

theorem indentTo_depth (lexer : Lexer) (w : Nat) (start : Position) :
    (lexer.indentTo w start).lexer.depth = lexer.depth := by
  obtain ⟨indents, e⟩ := indentTo_frame lexer w start
  rw [e]

theorem indented_from {place : Position} {tokens : List Token} (h : From place lexer tokens) :
    From place lexer.indented.lexer (tokens ++ lexer.indented.tokens) := by
  constructor
  · have moved : lexer.indented.lexer.position = lexer.position.past lexer.ahead.indent :=
      congrArg Cursor.position (indented_cursor lexer)
    rw [moved]
    exact h.1.trans (Position.le_past _ _)
  · intro t member
    rcases List.mem_append.mp member with earlier | here
    · exact h.2 t earlier
    · rw [(mem_indented here).1]
      exact h.1

theorem line_from {place : Position} {tokens : List Token} (h : From place lexer tokens) :
    From place lexer.line.lexer (tokens ++ lexer.line.tokens) := by
  have rest := past_indent_rest lexer
  have same := indented_cursor lexer
  rcases line_cases lexer with ⟨_, e⟩ | ⟨_, _, e⟩ | ⟨_, _, e⟩
  · rw [e, List.append_nil]
    exact ⟨(body_from (h.past lexer.ahead.indent) rest).1, h.2⟩
  · rw [e]
    exact indented_from h
  · rw [e, Step.after_tokens, ← List.append_assoc]
    exact body_from (indented_from h) (same ▸ rest)

theorem lines_from {place : Position} {tokens : List Token} (h : From place lexer tokens) :
    From place lexer.lines.lexer (tokens ++ lexer.lines.tokens) :=
  lines_induction (I := From place) (fun _ _ => line_from) lexer tokens h

theorem le_pieces (lexer : Lexer) (ps : List Piece) :
    lexer.position ≤ (lexer.pieces ps).lexer.position := by
  induction ps generalizing lexer with
  | nil => exact le_rfl
  | cons p ps ih =>
    have goes : (lexer.piece p).stop? = none := by cases p <;> rfl
    have first : lexer.position ≤ (lexer.piece p).lexer.position := by
      cases p <;> exact Position.le_past _ _
    rw [pieces, Step.andThen_of_none goes]
    exact first.trans (ih _)

theorem le_body_error {line : Line} {e : LexError}
    (stops : (lexer.body line).stop? = some (.error e)) : lexer.position ≤ e.position := by
  rw [body, Step.andThen_of_none (pieces_rest lexer line.pieces).1] at stops
  cases ending : line.ending with
  | failure f =>
    rw [ending] at stops
    cases stops
    exact (le_pieces lexer line.pieces).trans (Position.le_past _ _)
  | _ =>
    rw [ending] at stops
    contradiction

theorem le_line_error {e : LexError} (stops : lexer.line.stop? = some (.error e)) :
    lexer.position ≤ e.position := by
  rcases line_cases lexer with ⟨_, step⟩ | ⟨_, _, step⟩ | ⟨_, _, step⟩
  · rw [step] at stops
    contradiction
  · rw [step] at stops
    cases (indentTo_stop?_eq_some stops).1
    exact le_rfl
  · rw [step] at stops
    exact (indented_from (.start lexer)).1.trans (le_body_error stops)

end Onward

end Lexer

end Offside
