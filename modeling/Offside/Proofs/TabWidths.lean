import Mathlib
import Offside.Proofs.Alike
import Offside.Proofs.SpacedText

/-!
Tab widths. A tab in the indentation of a line counts for as many spaces as the tab width says, and
for nothing else: with these spaces in its place, a text has the same tokens on the same lines,
whatever a tab counts for then.
-/

namespace Offside

/-- `p` lies further down than `q` by the lines of `lost` that are above it, and in the same column
if `exact` holds. -/
structure Position.Under (lost : List Nat) (exact : Prop) (p q : Position) : Prop where
  line : p.line = q.line + lost.countP (· < p.line)
  column : exact → p.column = q.column

theorem Position.Below.under {lost more : List Nat} {exact : Prop} {p q : Position}
    (h : p.Below lost.length exact q) (above : ∀ n ∈ lost, n < p.line)
    (below : ∀ n ∈ more, p.line ≤ n) : p.Under (lost ++ more) exact q := by
  have all : lost.countP (· < p.line) = lost.length := by
    simpa [List.countP_eq_length] using above
  have none : more.countP (· < p.line) = 0 := by
    simpa [List.countP_eq_zero] using below
  refine ⟨?_, h.column⟩
  rw [List.countP_append, all, none, h.line, Nat.add_zero]

theorem Position.Under.eq {p q : Position} (h : p.Under [] True q) : p = q := by
  have line : p.line = q.line := h.line
  have column := h.column trivial
  cases p
  cases q
  simp_all

namespace Lexer

/-- `b` goes through the spaced text that is ahead of `a`. Of the lines behind `a`, those in `lost`
are lost in the spaced text. If `exact` holds, no indentation changes its length. -/
structure Respaced (source : List Char) (all : Bool) (exact : Prop) (lost : List Nat)
    (a b : Lexer) : Prop where
  stands : a.cursor.StandsIn source
  text : a.spaced all = (if a.Merges all then ['\n'] else []) ++ b.cursor.rest
  alike : a.Alike lost.length exact b
  earlier : ∀ n ∈ lost, n < a.position.line
  same : exact → ∀ l ∈ a.atLines, l.spacedIndent all = l.ahead.indent

section Respaced

variable {source : List Char} {all : Bool} {exact : Prop} {lost : List Nat} {a b : Lexer}

theorem Respaced.inexact (h : Respaced source all exact lost a b) (merges : a.Merges all) :
    ¬exact := by
  intro holds
  obtain ⟨ahead, none, _⟩ := merges.bareBreak
  have indent := h.same holds a (mem_atLines ahead)
  exact merges.indent_ne_nil h.stands (indent ▸ none)

/-- Where a line break is lost, only the lexer that goes through the text itself has an empty line
to skip. -/
theorem Respaced.merge (h : Respaced source all exact lost a b) (merges : a.Merges all) :
    a.line.stop? = none ∧ a.line.tokens = [] ∧
      Respaced source all exact (lost ++ [a.position.line]) a.line.lexer b := by
  obtain ⟨ahead, none, more, behind⟩ := merges.bareBreak
  obtain ⟨content, skipped, place⟩ := line_of_bareBreak behind
  have goes : a.line.stop? = Option.none := by rw [skipped]
  have apart : ¬a.line.lexer.Merges all := by
    rw [merges_line h.stands goes, content]
    rintro ⟨⟨⟩, _⟩
  have text := h.text
  rw [if_pos merges, spaced_of_none ahead goes, none, content] at text
  refine ⟨goes, by rw [skipped], ?_⟩
  constructor
  · exact line_standsIn h.stands
  · rw [if_neg apart]
    exact (List.cons.inj text).2
  · refine ⟨⟨?_, fun holds => absurd holds (h.inexact merges)⟩, ?_, ?_⟩
    · rw [place, List.length_append]
      exact congrArg (· + 1) h.alike.place.line
    · rw [skipped]
      exact h.alike.indents
    · rw [skipped]
      exact h.alike.depth
  · intro n member
    rw [place]
    rcases List.mem_append.mp member with old | here
    · exact Nat.lt_succ_of_lt (h.earlier n old)
    · rw [List.mem_singleton.mp here]
      exact Nat.lt_succ_self _
  · intro holds
    exact absurd holds (h.inexact merges)

theorem Respaced.ahead (h : Respaced source all exact lost a b) (apart : ¬a.Merges all)
    (ahead : a.cursor.rest ≠ []) :
    b.ahead.indent = a.spacedIndent all ∧ b.ahead.pieces = a.ahead.pieces ∧
      a.ahead.ending.Alike b.ahead.ending ∧
      (a.line.stop? = none → a.line.lexer.spaced all =
        (if a.line.lexer.Merges all then ['\n'] else []) ++ b.ahead.rest) := by
  have text := h.text
  rw [if_neg apart, List.nil_append] at text
  have onto (behind : List Char) (whole : b.cursor.rest = a.spacedIndent all ++ behind)
      (head : behind.head? = a.behindIndent.head?) :
      b.ahead = { Line.readPieces behind with indent := a.spacedIndent all } := by
    rw [Lexer.ahead, whole]
    exact Line.read_onto (isIndent_spacedIndent a all) (head ▸ margin_behind)
  by_cases goes : a.line.stop? = none
  · rw [spaced_of_none ahead goes] at text
    have done : (Line.readPieces a.behindIndent).rest = [] → a.line.lexer.spaced all = [] :=
      fun last => spaced_of_rest_eq_nil ((line_rest goes).trans last)
    have read := onto _ text.symm (Line.head?_content_append done)
    obtain ⟨pieces, ending, rest⟩ := Line.readPieces_onto (ending_of_line goes) done
    rw [read]
    refine ⟨rfl, pieces, ending, fun _ => ?_⟩
    have same : a.line.lexer.Merges all ↔ _ := merges_line h.stands goes
    simp only [same]
    exact rest
  · rw [spaced_of_stop ahead goes, content_append_rest] at text
    rw [onto _ text.symm rfl]
    exact ⟨rfl, rfl, .refl _, fun goes' => absurd goes' goes⟩

theorem Respaced.line (h : Respaced source all exact lost a b) (apart : ¬a.Merges all)
    (ahead : a.cursor.rest ≠ []) :
    a.line.Simulates (Position.Below lost.length exact) (Respaced source all exact lost)
      b.line := by
  obtain ⟨indent, pieces, ending, rest⟩ := h.ahead apart ahead
  have empty : b.ahead.isEmpty = a.ahead.isEmpty := Line.isEmpty_of_alike pieces ending
  have step : a.line.Alike lost.length exact b.line := by
    apply line_alike h.alike empty pieces ending
    · rw [indent, Line.past_indent _ isIndent_of_mem_indent,
        Line.past_indent _ (isIndent_spacedIndent a all)]
      refine ⟨h.alike.place.line, fun holds => ?_⟩
      simp only
      rw [h.same holds a (mem_atLines ahead), h.alike.place.column holds]
    · intro filled
      have spaces : b.ahead.indent = Line.spaces a.tabWidth a.ahead.indent := by
        rw [indent, spacedIndent, filled, Bool.not_false, Bool.or_true, if_pos rfl]
      have width : b.ahead.width b.tabWidth = Line.columns b.ahead.indent b.tabWidth :=
        Line.read_width _ _
      rw [width, spaces, Line.columns_spaces isIndent_of_mem_indent]
      exact (Line.read_width _ _).symm
  refine ⟨step.toRelated, fun goes => ?_⟩
  have goes' := (Stop.rel_none_iff step.stop).mp goes
  constructor
  · exact line_standsIn h.stands
  · rw [line_rest goes']
    exact rest goes
  · exact step.lexer goes
  · intro n member
    have onward := (line_from (.start a)).1
    exact (h.earlier n member).trans_le (Position.line_le onward)
  · intro holds l member
    apply h.same holds
    rw [atLines_of_none ahead goes]
    exact List.mem_cons_of_mem _ member

/-- What is related by `Below` on one line is related by `Under`, with the lines that are still to
be lost behind it. -/
theorem Respaced.line_under (h : Respaced source all exact lost a b) (apart : ¬a.Merges all)
    (ahead : a.cursor.rest ≠ []) :
    a.line.Related (Position.Under (lost ++ a.joined all) exact) b.line := by
  have onward := line_from (.start a)
  have before {p : Position} (le : a.position ≤ p) : ∀ n ∈ lost, n < p.line := by
    intro n member
    exact (h.earlier n member).trans_le (Position.line_le le)
  apply (h.line apart ahead).toRelated.imp
  · intro t member q place
    apply place.under (before (onward.2 t member))
    intro n due
    cases stops : a.line.stop? with
    | some s =>
      rw [joined_of_stop h.stands ahead (by simp [stops]) apart] at due
      contradiction
    | none =>
      rw [joined_of_none h.stands ahead stops, if_neg apart, List.nil_append] at due
      have passed := (line_ordered (.nil a.position)).le t member
      exact (Position.line_le passed).trans (line_le_joined _ _ n due)
  · intro e stops q place
    rw [joined_of_stop h.stands ahead (by simp [stops]) apart]
    apply place.under (before (le_line_error stops))
    simp

theorem lines_respaced (h : Respaced source all exact lost a b) :
    a.lines.Simulates (Position.Under (lost ++ a.joined all) exact)
      (Respaced source all exact (lost ++ a.joined all)) b.lines := by
  induction a using line_induction generalizing lost b with
  | done a done =>
    have text := h.text
    rw [spaced_of_rest_eq_nil done] at text
    have done' : b.cursor.rest = [] := (List.append_eq_nil_iff.mp text.symm).2
    rw [joined_of_rest_eq_nil done, List.append_nil, lines_eq, if_pos done, lines_eq, if_pos done']
    exact ⟨⟨.nil, .none⟩, fun _ => h⟩
  | stop a ahead stops =>
    have apart : ¬a.Merges all := fun merges => stops (h.merge merges).1
    have first : a.line.Simulates (Position.Under (lost ++ a.joined all) exact)
        (Respaced source all exact lost) b.line :=
      ⟨h.line_under apart ahead, fun goes => absurd goes stops⟩
    rw [lines_eq_line_andThen a, lines_eq_line_andThen b]
    exact first.andThen fun goes => absurd goes stops
  | next a ahead goes ih =>
    have due : a.joined all = _ := joined_of_none h.stands ahead goes
    by_cases merges : a.Merges all
    -- the line is not one of its own on the other side, where no step is made for it
    · obtain ⟨_, silent, next⟩ := h.merge merges
      rw [if_pos merges] at due
      rw [lines_eq_line_andThen a, Step.andThen_of_none goes, silent, due, ← List.append_assoc]
      exact ih next
    · have first : a.line.Simulates (Position.Under (lost ++ a.joined all) exact)
          (Respaced source all exact lost) b.line :=
        ⟨h.line_under merges ahead, (h.line merges ahead).lexer⟩
      rw [if_neg merges, List.nil_append] at due
      rw [lines_eq_line_andThen a, lines_eq_line_andThen b]
      apply first.andThen
      intro _ next
      rw [due]
      exact ih next

theorem run_respaced (h : Respaced source all exact [] a b) :
    a.run.Related (Position.Under (a.joined all) exact) b.run := by
  apply Step.Simulates.toRelated (L := fun _ _ => True)
  apply (lines_respaced h).andThen
  intro _ ended
  refine ⟨(finish_alike ended.alike).toRelated.imp ?_ ?_, fun _ => trivial⟩
  · intro t member q place
    have above := ended.earlier
    rw [← (mem_finish member).1] at above
    have under : t.position.Under (a.joined all ++ []) exact q := place.under above (by simp)
    rwa [List.append_nil] at under
  · intro e stops
    rw [finish_stop?] at stops
    contradiction

end Respaced

theorem ofText_respaced (text : List Char) (options other : Options) {all : Bool} {exact : Prop}
    (same : exact → ∀ l ∈ (ofText text options).atLines, l.spacedIndent all = l.ahead.indent) :
    Respaced text all exact [] (ofText text options)
      (ofText ((ofText text options).spaced all) other) := by
  constructor
  · exact Cursor.ofText_standsIn text
  · have apart : ¬(ofText text options).Merges all := by
      rintro ⟨⟨⟩, _⟩
    rw [if_neg apart]
    rfl
  · exact ⟨⟨rfl, fun _ => rfl⟩, rfl, rfl⟩
  · simp
  · exact same

/-- A tab in the indentation of a line is as many spaces as the tab width says, and nothing else.
With the spaces in its place, be it in all lines or in those that are not empty, the lexer makes the
same tokens and stops for the same fault, each on its line, whatever a tab counts for then. Lines
are lost only where tabs that count for nothing, and nothing else, held a '\r' and a '\n' apart. If no
line but empty ones has a tab in its indentation, the tab width changes no token and no error. -/
theorem run_spaced (text : List Char) (options other : Options) :
    (∀ all, (ofText text options).run.Related
        (Position.Under ((ofText text options).joined all) False)
        (ofText ((ofText text options).spaced all) other).run) ∧
      (∀ all, options.tabWidth ≠ 0 ∨ all = false → (ofText text options).joined all = []) ∧
      ((∀ l ∈ (ofText text options).atLines, l.ahead.isEmpty = false → '\t' ∉ l.ahead.indent) →
        (ofText text options).run.Related (· = ·) (ofText text other).run) := by
  refine ⟨fun all => run_respaced (ofText_respaced text options other False.elim), ?_, ?_⟩
  · rintro all (wide | kept)
    · exact joined_of_tabWidth wide
    · rw [kept]
      exact joined_of_not_all
  · intro none
    have same : ∀ l ∈ (ofText text options).atLines, l.spacedIndent false = l.ahead.indent := by
      intro l member
      unfold spacedIndent
      split
      · rename_i filled
        exact Line.spaces_of_not_mem (none l member (by simpa using filled))
      · rfl
    have respaced : Respaced text false True [] (ofText text options) _ :=
      ofText_respaced text options other fun _ => same
    have runs := run_respaced respaced
    rw [spaced_of_same same, joined_of_not_all] at runs
    exact runs.imp (fun _ _ _ under => under.eq) (fun _ _ _ under => under.eq)

theorem run_spaced_block :
    (ofText "a\n\tb".toList ⟨4⟩).run.Related (Position.Under [] False)
        (ofText "a\n    b".toList ⟨1⟩).run ∧
      (ofText "a\n    b".toList ⟨1⟩).run.Related (· = ·) (ofText "a\n    b".toList ⟨8⟩).run := by
  have spaced : (ofText "a\n\tb".toList ⟨4⟩).spaced true = "a\n    b".toList := by decide +kernel
  obtain ⟨runs, none, _⟩ := run_spaced "a\n\tb".toList ⟨4⟩ ⟨1⟩
  have same := runs true
  rw [none true (.inl (by decide)), spaced] at same
  refine ⟨same, (run_spaced "a\n    b".toList ⟨1⟩ ⟨8⟩).2.2 ?_⟩
  have tabs : (ofText "a\n    b".toList ⟨1⟩).atLines.all
      (fun l => !l.ahead.indent.contains '\t') = true := by decide +kernel
  intro l member _
  simpa using List.all_eq_true.mp tabs l member

/-- A tab that counts for nothing can still hold a '\r' and a '\n' apart. Without it, what is behind
them is on another line. -/
theorem spaced_joins_breaks :
    (ofText "a\r\t\nb".toList ⟨0⟩).spaced true = "a\r\nb".toList ∧
      tokenize "a\r\t\nb".toList ⟨0⟩ =
        .ok [⟨⟨1, 1⟩, .id "a"⟩, ⟨⟨1, 2⟩, .newLine⟩, ⟨⟨3, 1⟩, .id "b"⟩] ∧
      tokenize "a\r\nb".toList ⟨0⟩ =
        .ok [⟨⟨1, 1⟩, .id "a"⟩, ⟨⟨1, 2⟩, .newLine⟩, ⟨⟨2, 1⟩, .id "b"⟩] := by
  refine ⟨by decide +kernel, ?_, ?_⟩
  · cbv
  · cbv

end Lexer

end Offside
