import Mathlib.Order.Basic
import Offside.Proofs.Resumption

/-!
Tokens stand in the order of the text. A lexer gives each token the place where it stands itself or
where its line begins, and only ever moves on, so no token stands in front of an earlier one. Only
the tokens that close blocks take up no text: two others never stand at one place.
-/

namespace Offside

namespace Position

instance : LT Position := ltOfOrd

instance : LE Position := leOfOrd

theorem lt_iff {p q : Position} :
    p < q ↔ p.line < q.line ∨ p.line = q.line ∧ p.column < q.column := by
  change compare p q = .lt ↔ _
  rw [compare, Ordering.then_eq_lt, Nat.compare_eq_lt, Nat.compare_eq_lt, Nat.compare_eq_eq]

theorem le_iff {p q : Position} :
    p ≤ q ↔ p.line < q.line ∨ p.line = q.line ∧ p.column ≤ q.column := by
  change (compare p q).isLE ↔ _
  rw [compare, Ordering.isLE_then_iff_or, Nat.compare_eq_lt, Nat.compare_eq_eq, Nat.isLE_compare]

instance : PartialOrder Position where
  le_refl p := by
    rw [le_iff]
    omega
  le_trans p q r first second := by
    rw [le_iff] at *
    omega
  lt_iff_le_not_ge p q := by
    rw [lt_iff, le_iff, le_iff]
    omega
  le_antisymm p q first second := by
    rw [le_iff] at first second
    cases p
    cases q
    simp only [mk.injEq]
    simp only at first second
    omega

theorem line_le {p q : Position} (le : p ≤ q) : p.line ≤ q.line := by
  rw [le_iff] at le
  omega

theorem lt_nextLine (p : Position) : p < p.nextLine :=
  lt_iff.mpr (.inl (Nat.lt_succ_self _))

theorem lt_nextColumn (p : Position) : p < p.nextColumn :=
  lt_iff.mpr (.inr ⟨rfl, Nat.lt_succ_self _⟩)

theorem le_past (p : Position) (text : List Char) : p ≤ p.past text := by
  induction text generalizing p with
  | nil => exact le_refl p
  | cons c rest ih =>
    rw [past]
    split
    · exact p.lt_nextLine.le.trans (ih _)
    · split
      · exact ih p
      · exact p.lt_nextColumn.le.trans (ih _)

theorem lt_past (p : Position) {text : List Char} (some : text ≠ []) : p < p.past text := by
  induction text generalizing p with
  | nil => contradiction
  | cons c rest ih =>
    rw [past]
    split
    · exact p.lt_nextLine.trans_le (le_past _ _)
    · split
      · -- the first half of a "\r\n" moves nothing, but the second half follows it
        apply ih
        rintro rfl
        simp_all [Text.endsLine]
      · exact p.lt_nextColumn.trans_le (le_past _ _)

end Position

/-- `t` may be a token in front of `u`. -/
def Token.Precedes (t u : Token) : Prop :=
  t.position ≤ u.position ∧ (t.position = u.position → t.kind = .dedent ∨ u.kind = .dedent)

/-- Tokens that are in order, and so that a further one may stand at `place`. -/
structure OrderedTo (place : Position) (tokens : List Token) : Prop where
  inOrder : tokens.Pairwise Token.Precedes
  reached : ∀ t ∈ tokens, t.position < place ∨ t.position = place ∧ t.kind = .dedent

namespace OrderedTo

variable {place later : Position} {tokens : List Token}

theorem nil (place : Position) : OrderedTo place [] where
  inOrder := List.Pairwise.nil
  reached t member := by contradiction

theorem mono (h : OrderedTo place tokens) (le : place ≤ later) : OrderedTo later tokens where
  inOrder := h.inOrder
  reached t member := by
    rcases h.reached t member with earlier | ⟨here, closes⟩
    · exact .inl (earlier.trans_le le)
    · rcases le.lt_or_eq with moves | stays
      · exact .inl (here ▸ moves)
      · exact .inr ⟨here.trans stays, closes⟩

theorem le (h : OrderedTo place tokens) : ∀ t ∈ tokens, t.position ≤ place := by
  intro t member
  rcases h.reached t member with earlier | ⟨here, _⟩
  · exact earlier.le
  · exact here.le

theorem pairwise_append {new : List Token} (h : OrderedTo place tokens)
    (here : ∀ u ∈ new, u.position = place) (inOrder : new.Pairwise Token.Precedes) :
    (tokens ++ new).Pairwise Token.Precedes := by
  refine List.pairwise_append.mpr ⟨h.inOrder, inOrder, fun t old u member => ?_⟩
  rw [Token.Precedes, here u member]
  rcases h.reached t old with earlier | ⟨same, closes⟩
  · exact ⟨earlier.le, fun same => absurd same earlier.ne⟩
  · exact ⟨same.le, fun _ => .inl closes⟩

theorem emit (h : OrderedTo place tokens) (kind : Token.Kind) (moves : place < later) :
    OrderedTo later (tokens ++ [⟨place, kind⟩]) where
  inOrder := by
    apply h.pairwise_append
    · intro u member
      rw [List.mem_singleton.mp member]
    · exact List.pairwise_singleton _ _
  reached t member := by
    left
    rcases List.mem_append.mp member with old | new
    · rcases h.reached t old with earlier | ⟨here, _⟩
      · exact earlier.trans moves
      · exact here ▸ moves
    · rw [List.mem_singleton.mp new]
      exact moves

theorem close (h : OrderedTo place tokens) (n : Nat) :
    OrderedTo place (tokens ++ List.replicate n ⟨place, .dedent⟩) where
  inOrder := by
    apply h.pairwise_append
    · intro u member
      rw [List.eq_of_mem_replicate member]
    · exact List.pairwise_replicate.mpr (.inr ⟨le_rfl, fun _ => .inl rfl⟩)
  reached t member := by
    rcases List.mem_append.mp member with old | new
    · exact h.reached t old
    · rw [List.eq_of_mem_replicate new]
      exact .inr ⟨rfl, rfl⟩

end OrderedTo

namespace Lexer

variable {lexer : Lexer} {tokens : List Token}

theorem indented_ordered (h : OrderedTo lexer.position tokens) :
    OrderedTo lexer.indented.lexer.position (tokens ++ lexer.indented.tokens) := by
  have arrives : lexer.indented.lexer.position = lexer.position.past lexer.ahead.indent :=
    congrArg Cursor.position (indented_cursor lexer)
  rw [arrives, indented]
  rcases indentTo_cases (lexer.past lexer.ahead.indent) (lexer.ahead.width lexer.tabWidth)
    lexer.position with ⟨deeper, e⟩ | ⟨_, e⟩
  · rw [e]
    have indent : lexer.ahead.indent ≠ [] := Line.indent_ne_nil (Nat.zero_lt_of_lt deeper)
    exact h.emit .indent (Position.lt_past _ indent)
  · rw [e]
    exact (h.close _).mono (Position.le_past _ _)

theorem body_ordered {text : List Char} (h : OrderedTo lexer.position tokens)
    (ahead : lexer.cursor.rest = text) :
    OrderedTo (lexer.body (Line.readPieces text)).lexer.position
      (tokens ++ (lexer.body (Line.readPieces text)).tokens) := by
  refine body_tokens_induction (I := fun lexer tokens => OrderedTo lexer.position tokens)
    ?past ?behind ?newLine tokens h ahead
  case past =>
    intro lexer tokens front _ _ h
    exact h.mono (Position.le_past _ front)
  case behind =>
    intro lexer tokens kind front some _ _ h
    exact h.emit kind (Position.lt_past _ some)
  case newLine =>
    intro lexer tokens front some _ _ _ h
    exact h.emit .newLine (Position.lt_past _ some)

theorem line_ordered (h : OrderedTo lexer.position tokens) :
    OrderedTo lexer.line.lexer.position (tokens ++ lexer.line.tokens) := by
  have rest := past_indent_rest lexer
  have indented := indented_ordered h
  rcases line_cases lexer with ⟨empty, _⟩ | ⟨_, _, e⟩ | ⟨_, _, e⟩
  · rw [line_skips lexer empty, List.append_nil]
    exact h.mono (Position.le_past _ _)
  · rw [e]
    exact indented
  · have same : lexer.indented.lexer.cursor = (lexer.past lexer.ahead.indent).cursor :=
      indented_cursor lexer
    rw [e, Step.after_tokens, ← List.append_assoc]
    rw [← same] at rest
    exact body_ordered indented rest

theorem lines_ordered (h : OrderedTo lexer.position tokens) :
    OrderedTo lexer.lines.lexer.position (tokens ++ lexer.lines.tokens) :=
  lines_induction (I := fun lexer tokens => OrderedTo lexer.position tokens)
    (fun _ _ => line_ordered) lexer tokens h

theorem finish_inOrder (h : OrderedTo lexer.position tokens) :
    (tokens ++ lexer.finish.tokens).Pairwise Token.Precedes := by
  rw [finish_tokens]
  split
  · rw [List.append_nil]
    exact h.inOrder
  · apply h.pairwise_append
    · intro u member
      rcases List.mem_cons.mp member with rfl | closes
      · rfl
      · rw [List.eq_of_mem_replicate closes]
    · refine List.pairwise_cons.mpr ⟨fun u closes => ?_, ?_⟩
      · rw [List.eq_of_mem_replicate closes]
        exact ⟨le_rfl, fun _ => .inr rfl⟩
      · exact List.pairwise_replicate.mpr (.inr ⟨le_rfl, fun _ => .inl rfl⟩)

/-- One run keeps the order. Either further tokens may follow, or there will be none. -/
theorem run_ordered (h : OrderedTo lexer.position tokens) :
    OrderedTo lexer.run.lexer.position (tokens ++ lexer.run.tokens) ∨
      (tokens ++ lexer.run.tokens).Pairwise Token.Precedes ∧ lexer.run.stop? = none := by
  have behind := lines_ordered h
  rcases run_cases lexer with ⟨_, e⟩ | ⟨goes, e⟩
  · left
    rw [e]
    exact behind
  · right
    constructor
    · rw [e, Step.after_tokens, ← List.append_assoc]
      exact finish_inOrder behind
    · rw [run_stop?, goes]

theorem runs_ordered (text : List Char) (options : Options) (n : Nat) :
    let lexer := (ofText text options).afterRuns n
    let tokens := (ofText text options).tokensOfRuns n
    OrderedTo lexer.position tokens ∨
      tokens.Pairwise Token.Precedes ∧ lexer.cursor.rest = [] ∧ lexer.indents = .empty := by
  intro lexer tokens
  induction n with
  | zero => exact .inl (.nil _)
  | succ n ih =>
    simp only [lexer, tokens, afterRuns_succ, tokensOfRuns_succ]
    rcases ih with ordered | ⟨inOrder, rest, indents⟩
    · rcases run_ordered ordered with further | ⟨inOrder, goes⟩
      · exact .inl further
      · exact .inr ⟨inOrder, run_of_none goes⟩
    · rw [run_of_done rest indents, List.append_nil]
      exact .inr ⟨inOrder, rest, indents⟩

/-- However often a lexer is run over a text, its tokens stand in the order of their places, and of
two tokens at one place at least one closes a block. -/
theorem runs_in_order (text : List Char) (options : Options) (n : Nat) :
    ((ofText text options).tokensOfRuns n).Pairwise fun t u =>
      t.position ≤ u.position ∧
        (t.position = u.position → t.kind = .dedent ∨ u.kind = .dedent) := by
  rcases runs_ordered text options n with ordered | ⟨inOrder, _⟩
  · exact ordered.inOrder
  · exact inOrder

end Lexer

end Offside
