import Offside.Proofs.Safety

/-!
Resuming a lexer. One that has stopped at a fault has moved on, even where it refused the
indentation of a line, so whoever runs it again and again comes to the end of the text. There
nothing changes any more.
-/

namespace Offside

theorem Line.indent_ne_nil {line : Line} {tabWidth : UInt32} (wide : 0 < line.width tabWidth) :
    line.indent ≠ [] := by
  intro none
  rw [Line.width, none] at wide
  contradiction

namespace Lexer

theorem body_rest (lexer : Lexer) (line : Line) :
    (lexer.body line).lexer.cursor.rest =
      lexer.cursor.rest.drop (line.pieces.flatMap Piece.text ++ line.ending.text).length := by
  obtain ⟨goes, rest⟩ := pieces_rest lexer line.pieces
  rw [body, Step.andThen_of_none goes, Step.after_lexer, ending_rest, rest, List.drop_drop,
    List.length_append]

theorem indent_ne_nil_of_stop {lexer : Lexer} (stops : lexer.indented.stop? ≠ none) :
    lexer.ahead.indent ≠ [] := by
  obtain ⟨s, stop⟩ := Option.ne_none_iff_exists'.mp stops
  exact Line.indent_ne_nil (indentTo_stop?_eq_some stop).2

theorem line_moves {lexer : Lexer} (ahead : lexer.cursor.rest ≠ []) :
    lexer.line.lexer.cursor.rest.length < lexer.cursor.rest.length := by
  have some := List.length_pos_iff.mpr ahead
  rcases line_cases lexer with ⟨_, e⟩ | ⟨_, stops, e⟩ | ⟨_, _, e⟩
  · exact line_rest_length_lt ahead (by rw [e])
  · have indent := List.length_pos_iff.mpr (indent_ne_nil_of_stop stops)
    rw [e, indented_cursor, Cursor.rest_past, List.length_drop]
    omega
  · -- the whole line is behind the lexer, up to the fault that stopped it if there was one
    have text := List.length_pos_iff.mpr (Line.read_text_ne_nil ahead)
    have whole : lexer.ahead.text = lexer.ahead.indent ++
        (lexer.ahead.pieces.flatMap Piece.text ++ lexer.ahead.ending.text) :=
      List.append_assoc _ _ _
    rw [e, Step.after_lexer, body_rest, indented_cursor, Cursor.rest_past, List.drop_drop,
      ← List.length_append, ← whole, List.length_drop]
    change 0 < lexer.ahead.text.length at text
    omega

theorem lines_moves {lexer : Lexer} (stops : lexer.lines.stop? ≠ none) :
    lexer.lines.lexer.cursor.rest.length < lexer.cursor.rest.length := by
  fun_induction lines lexer with
  | case1 => contradiction
  | case2 lexer ahead line s h => exact line_moves ahead
  | case3 lexer ahead line h following ih => exact (ih stops).trans (line_moves ahead)

theorem run_moves {lexer : Lexer} (stops : lexer.run.stop? ≠ none) :
    lexer.run.lexer.cursor.rest.length < lexer.cursor.rest.length := by
  rcases run_cases lexer with ⟨early, e⟩ | ⟨_, e⟩
  · rw [e]
    exact lines_moves early
  · rw [e] at stops
    exact absurd (finish_stop? _) stops

theorem run_of_none {lexer : Lexer} (goes : lexer.run.stop? = none) :
    lexer.run.lexer.cursor.rest = [] ∧ lexer.run.lexer.indents = .empty := by
  rcases run_cases lexer with ⟨stops, _⟩ | ⟨_, e⟩
  · rw [run_stop?] at goes
    contradiction
  · rw [run_stop?] at goes
    rw [e, Step.after_lexer, finish_cursor]
    exact ⟨lines_rest goes, finish_indents _⟩

theorem run_of_done {lexer : Lexer} (rest : lexer.cursor.rest = [])
    (indents : lexer.indents = .empty) : lexer.run = { tokens := [], lexer } := by
  rw [run, lines_eq, if_pos rest, Step.andThen_of_none rfl, finish, indents]
  rfl

/-- After no more runs than characters are ahead of it, a lexer makes one without a fault. -/
theorem exists_run_to_end (lexer : Lexer) :
    ∃ n ≤ lexer.cursor.rest.length,
      (∀ m < n, (lexer.afterRuns m).run.stop? ≠ none) ∧ (lexer.afterRuns n).run.stop? = none := by
  by_cases goes : lexer.run.stop? = none
  · exact ⟨0, Nat.zero_le _, fun m early => absurd early (Nat.not_lt_zero m), goes⟩
  · have moves := run_moves goes
    obtain ⟨n, few, stops, last⟩ := exists_run_to_end lexer.run.lexer
    refine ⟨n + 1, by omega, fun m early => ?_, last⟩
    cases m with
    | zero => exact goes
    | succ m => exact stops m (Nat.lt_of_succ_lt_succ early)
termination_by lexer.cursor.rest.length

/-- Once a run has made no stop, further runs change nothing. -/
theorem afterRuns_of_none {lexer : Lexer} {n : Nat} (goes : (lexer.afterRuns n).run.stop? = none)
    {m : Nat} (later : n + 1 ≤ m) :
    lexer.afterRuns m = lexer.afterRuns (n + 1) ∧
      lexer.tokensOfRuns m = lexer.tokensOfRuns (n + 1) := by
  obtain ⟨rest, indents⟩ := run_of_none goes
  rw [← afterRuns_succ] at rest indents
  have idle := run_of_done rest indents
  induction m, later using Nat.le_induction with
  | base => exact ⟨rfl, rfl⟩
  | succ m _ ih =>
    rw [afterRuns_succ lexer m, tokensOfRuns_succ lexer m, ih.1, ih.2, idle]
    exact ⟨rfl, List.append_nil _⟩

theorem run_error_of_stop {lexer : Lexer} (stops : lexer.run.stop? ≠ none) :
    ∃ e, lexer.run.stop? = some (.error e) := by
  obtain ⟨stop, why⟩ := Option.ne_none_iff_exists'.mp stops
  cases stop with
  | error e => exact ⟨e, why⟩
  | misuse m => exact absurd why (run_ne_misuse lexer m)

/-- A lexer that is run over and over comes to the end of its text. A run that stops at a fault has
read at least one character and has only added tokens. So there is a run without a fault after no
more of them than the text has characters. It leaves the whole text behind and no level open, and
the runs after it are without a fault and change nothing, neither the lexer nor the tokens. -/
theorem runs_reach_end (text : List Char) (options : Options) :
    let fresh := ofText text options
    (∀ n e, (fresh.afterRuns n).run.stop? = some (.error e) →
      (∃ read, read ≠ [] ∧
        (fresh.afterRuns (n + 1)).cursor.passed.reverse =
          (fresh.afterRuns n).cursor.passed.reverse ++ read ∧
        read ++ (fresh.afterRuns (n + 1)).cursor.rest = (fresh.afterRuns n).cursor.rest) ∧
      fresh.tokensOfRuns n <+: fresh.tokensOfRuns (n + 1)) ∧
    ∃ n ≤ text.length,
      (∀ m < n, ∃ e, (fresh.afterRuns m).run.stop? = some (.error e)) ∧
      (fresh.afterRuns n).run.stop? = none ∧
      (fresh.afterRuns (n + 1)).cursor.passed.reverse = text ∧
      (fresh.afterRuns (n + 1)).cursor.rest = [] ∧
      (fresh.afterRuns (n + 1)).indents = .empty ∧
      ∀ m, n + 1 ≤ m →
        (fresh.afterRuns m).run.stop? = none ∧
        fresh.afterRuns m = fresh.afterRuns (n + 1) ∧
        fresh.tokensOfRuns m = fresh.tokensOfRuns (n + 1) := by
  intro fresh
  constructor
  · intro n e stop
    have moves : (fresh.afterRuns n).run.lexer.cursor.rest.length <
        (fresh.afterRuns n).cursor.rest.length := run_moves (by rw [stop]; simp)
    obtain ⟨read, passed, rest⟩ := (acts_run (fresh.afterRuns n)).reads
    rw [afterRuns_succ, tokensOfRuns_succ]
    refine ⟨⟨read, ?_, passed, rest⟩, List.prefix_append _ _⟩
    rintro rfl
    rw [← rest] at moves
    exact Nat.lt_irrefl _ moves
  · obtain ⟨n, few, stops, goes⟩ := exists_run_to_end fresh
    obtain ⟨rest, indents⟩ := run_of_none goes
    -- at the end of the text, with no level open, a run changes nothing
    have fixed (m : Nat) (later : n + 1 ≤ m) := afterRuns_of_none goes later
    rw [← afterRuns_succ] at rest indents
    have split := (runs_standsIn text options (n + 1)).split
    rw [rest, List.append_nil] at split
    refine ⟨n, few, fun m early => run_error_of_stop (stops m early), goes, split, rest, indents,
      fun m later => ⟨?_, fixed m later⟩⟩
    rw [(fixed m later).1, run_of_done rest indents]

theorem runs_reach_end_from_mismatch :
    (ofText "  a\n ?b".toList {}).run.stop? =
      some (.error ⟨.indentationMismatch 1, ⟨2, 1⟩⟩) ∧
    ∃ read, read ≠ [] ∧
      read ++ ((ofText "  a\n ?b".toList {}).afterRuns 1).cursor.rest = "  a\n ?b".toList := by
  have stop : ((ofText "  a\n ?b".toList {}).afterRuns 0).run.stop? =
      some (.error ⟨.indentationMismatch 1, ⟨2, 1⟩⟩) := by cbv
  obtain ⟨⟨read, some, _, rest⟩, _⟩ := (runs_reach_end "  a\n ?b".toList {}).1 0 _ stop
  exact ⟨stop, read, some, rest⟩

end Lexer

end Offside
