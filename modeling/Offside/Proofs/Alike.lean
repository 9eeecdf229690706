import Mathlib.Data.List.Forall2
import Mathlib.Data.Option.Basic
import Offside.Proofs.LexerSteps
import Offside.Proofs.LocalScans

namespace Offside

/-- `p` lies `n` lines further down than `q`, and in the same column if `exact` holds. -/
structure Position.Below (n : Nat) (exact : Prop) (p q : Position) : Prop where
  line : p.line = q.line + n
  column : exact → p.column = q.column

namespace Position.Below

variable {n : Nat} {exact : Prop} {p q : Position}

theorem nextLine (h : Below n exact p q) : Below n exact p.nextLine q.nextLine := by
  refine ⟨?_, fun _ => rfl⟩
  simp only [Position.nextLine, h.line]
  omega

theorem nextColumn (h : Below n exact p q) : Below n exact p.nextColumn q.nextColumn := by
  refine ⟨h.line, fun same => ?_⟩
  simp only [Position.nextColumn, h.column same]

theorem past (h : Below n exact p q) (text : List Char) :
    Below n exact (p.past text) (q.past text) := by
  induction text generalizing p q with
  | nil => exact h
  | cons c rest ih =>
    rw [Position.past, Position.past]
    split
    · exact ih h.nextLine
    · split
      · exact ih h
      · exact ih h.nextColumn

theorem past_unified (h : Below n exact p q) {text other : List Char}
    (same : Text.unifyBreaks text = Text.unifyBreaks other) :
    Below n exact (p.past text) (q.past other) := by
  rw [← p.past_unifyBreaks, ← q.past_unifyBreaks, same]
  exact h.past _

end Position.Below

def Token.Related (R : Position → Position → Prop) (t u : Token) : Prop :=
  t.kind = u.kind ∧ R t.position u.position

namespace Lexer

inductive Stop.Related (R : Position → Position → Prop) : Stop → Stop → Prop where
  | error {f : Fault} {p q : Position} : R p q → Related R (.error ⟨f, p⟩) (.error ⟨f, q⟩)

/-- Two stretches that make the same tokens and stop for the same fault, at places that `R`
relates. -/
structure Step.Related (R : Position → Position → Prop) (s t : Step) : Prop where
  tokens : List.Forall₂ (Token.Related R) s.tokens t.tokens
  stop : Option.Rel (Stop.Related R) s.stop? t.stop?

/-- Two lexers that agree in all but their places. -/
structure Alike (n : Nat) (exact : Prop) (a b : Lexer) : Prop where
  place : a.position.Below n exact b.position
  indents : a.indents = b.indents
  depth : a.depth = b.depth

/-- Two related stretches that leave lexers in the relation `L`, unless they stop. -/
structure Step.Simulates (R : Position → Position → Prop) (L : Lexer → Lexer → Prop)
    (s t : Step) : Prop extends s.Related R t where
  lexer : s.stop? = none → L s.lexer t.lexer

theorem Stop.rel_none_iff {R : Position → Position → Prop} {s t : Option Stop}
    (h : Option.Rel (Stop.Related R) s t) : s = none ↔ t = none := by
  cases h <;> simp

theorem Stop.rel_imp {R S : Position → Position → Prop} {s t : Option Stop}
    (h : Option.Rel (Stop.Related R) s t)
    (imp : ∀ e, s = some (.error e) → ∀ q, R e.position q → S e.position q) :
    Option.Rel (Stop.Related S) s t := by
  cases h with
  | none => exact .none
  | some same =>
    cases same with
    | error place => exact .some (.error (imp _ rfl _ place))

theorem Step.Simulates.andThen {R : Position → Position → Prop} {L M : Lexer → Lexer → Prop}
    {s t : Step} {f g : Lexer → Step} (h : s.Simulates R L t)
    (next : s.stop? = none → L s.lexer t.lexer → (f s.lexer).Simulates R M (g t.lexer)) :
    (s.andThen f).Simulates R M (t.andThen g) := by
  have both := Stop.rel_none_iff h.stop
  cases stops : s.stop? with
  | none =>
    have later := next stops (h.lexer stops)
    rw [andThen_of_none stops, andThen_of_none (both.mp stops)]
    exact ⟨⟨List.rel_append h.tokens later.tokens, later.stop⟩, later.lexer⟩
  | some r =>
    cases again : t.stop? with
    | none =>
      rw [both.mpr again] at stops
      contradiction
    | some r' =>
      rw [andThen_of_stop stops, andThen_of_stop again]
      refine ⟨h.toRelated, fun goes => ?_⟩
      rw [stops] at goes
      contradiction

theorem Step.Related.imp {R S : Position → Position → Prop} {s t : Step} (h : s.Related R t)
    (tokens : ∀ u ∈ s.tokens, ∀ q, R u.position q → S u.position q)
    (stop : ∀ e, s.stop? = some (.error e) → ∀ q, R e.position q → S e.position q) :
    s.Related S t := by
  constructor
  · have both := (List.forall₂_and_left _ _).mpr ⟨tokens, h.tokens⟩
    exact both.imp fun u v ⟨here, kind, place⟩ => ⟨kind, here _ place⟩
  · exact Stop.rel_imp h.stop stop

theorem replicate_related {R : Position → Position → Prop} {p q : Position} (place : R p q)
    (count : Nat) (kind : Token.Kind) :
    List.Forall₂ (Token.Related R) (List.replicate count ⟨p, kind⟩)
      (List.replicate count ⟨q, kind⟩) := by
  induction count with
  | zero => exact .nil
  | succ count ih => exact .cons ⟨rfl, place⟩ ih

section Alike

variable {n : Nat} {exact : Prop} {a b : Lexer}

theorem Alike.past (h : a.Alike n exact b) (text : List Char) :
    (a.past text).Alike n exact (b.past text) :=
  ⟨h.place.past text, h.indents, h.depth⟩

abbrev Step.Alike (n : Nat) (exact : Prop) : Step → Step → Prop :=
  Simulates (Position.Below n exact) (Lexer.Alike n exact)

theorem indentTo_alike (h : a.Alike n exact b) (width : Nat) {p q : Position}
    (start : p.Below n exact q) :
    (a.indentTo width p).Alike n exact (b.indentTo width q) := by
  unfold indentTo
  rw [h.indents]
  split
  · rename_i deeper
    rw [IndentStack.push_of_current_lt deeper]
    exact ⟨⟨.cons ⟨rfl, start⟩ .nil, .none⟩, fun _ => ⟨h.place, rfl, h.depth⟩⟩
  · refine ⟨⟨replicate_related start _ _, ?_⟩, fun _ => ⟨h.place, rfl, h.depth⟩⟩
    simp only
    split
    · exact .none
    · exact .some (.error start)

theorem piece_alike (h : a.Alike n exact b) (p : Piece) :
    (a.piece p).Alike n exact (b.piece p) := by
  cases p with
  | gap c => exact ⟨⟨.nil, .none⟩, fun _ => h.past [c]⟩
  | lexeme kind text =>
    refine ⟨⟨.cons ⟨rfl, h.place⟩ .nil, .none⟩, fun _ => ⟨h.place.past text, h.indents, ?_⟩⟩
    exact congrArg kind.depthAfter h.depth

theorem pieces_alike (h : a.Alike n exact b) (ps : List Piece) :
    (a.pieces ps).Alike n exact (b.pieces ps) := by
  induction ps generalizing a b with
  | nil => exact ⟨⟨.nil, .none⟩, fun _ => h⟩
  | cons p ps ih => exact (piece_alike h p).andThen fun _ behind => ih behind

theorem newLine_alike (h : a.Alike n exact b) :
    List.Forall₂ (Token.Related (Position.Below n exact))
      (if a.depth = 0 then [⟨a.position, .newLine⟩] else [])
      (if b.depth = 0 then [⟨b.position, .newLine⟩] else []) := by
  rw [h.depth]
  split
  · exact .cons ⟨rfl, h.place⟩ .nil
  · exact .nil

theorem ending_alike (h : a.Alike n exact b) {e e' : Ending} (same : e.Alike e') :
    (a.ending e).Alike n exact (b.ending e') := by
  cases same with
  | refl =>
    cases e with
    | lineBreak text => exact ⟨⟨newLine_alike h, .none⟩, fun _ => h.past text⟩
    | comment text => exact ⟨⟨.nil, .none⟩, fun _ => h.past text⟩
    | endOfText => exact ⟨⟨.nil, .none⟩, fun _ => h⟩
    | failure f =>
      exact ⟨⟨.nil, .some (.error (h.place.past f.before))⟩, fun _ => h.past f.text⟩
  | lineBreak same =>
    exact ⟨⟨newLine_alike h, .none⟩, fun _ => ⟨h.place.past_unified same, h.indents, h.depth⟩⟩
  | comment same =>
    exact ⟨⟨.nil, .none⟩, fun _ => ⟨h.place.past_unified same, h.indents, h.depth⟩⟩

theorem body_alike (h : a.Alike n exact b) {line other : Line} (pieces : other.pieces = line.pieces)
    (ending : line.ending.Alike other.ending) :
    (a.body line).Alike n exact (b.body other) := by
  rw [body, body, pieces]
  exact (pieces_alike h line.pieces).andThen fun _ behind => ending_alike behind ending

/-- Lexers that agree do the same with lines of the same width that hold the same. -/
theorem line_alike (h : a.Alike n exact b) (empty : b.ahead.isEmpty = a.ahead.isEmpty)
    (pieces : b.ahead.pieces = a.ahead.pieces) (ending : a.ahead.ending.Alike b.ahead.ending)
    (indent : (a.position.past a.ahead.indent).Below n exact (b.position.past b.ahead.indent))
    (width : a.ahead.isEmpty = false →
      b.ahead.width b.tabWidth = a.ahead.width a.tabWidth) :
    a.line.Alike n exact b.line := by
  have behind : (a.past a.ahead.indent).Alike n exact (b.past b.ahead.indent) :=
    ⟨indent, h.indents, h.depth⟩
  cases filled : a.ahead.isEmpty with
  | true =>
    have body := body_alike behind pieces ending
    have goes := (body_stop? (a.past a.ahead.indent) a.ahead).mpr (Line.of_isEmpty filled).2
    rw [line_of_isEmpty a filled, line_of_isEmpty b (empty.trans filled)]
    exact ⟨⟨.nil, .none⟩, fun _ => body.lexer goes⟩
  | false =>
    have first : a.indented.Alike n exact b.indented := by
      rw [indented, indented, width filled]
      exact indentTo_alike behind _ h.place
    rw [line_of_not_isEmpty a filled, line_of_not_isEmpty b (empty.trans filled)]
    exact first.andThen fun _ opened => body_alike opened pieces ending

theorem finish_alike (h : a.Alike n exact b) : a.finish.Alike n exact b.finish := by
  unfold finish
  rw [h.indents]
  split
  · exact ⟨⟨.nil, .none⟩, fun _ => h⟩
  · refine ⟨⟨.cons ⟨rfl, h.place⟩ ?_, .none⟩, fun _ => ⟨h.place, rfl, h.depth⟩⟩
    exact replicate_related h.place _ _

end Alike

end Lexer

end Offside
