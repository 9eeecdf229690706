import Mathlib.Logic.Relation
import Offside.Proofs.Blocks
import Offside.Proofs.LexemeFaults
import Offside.Proofs.Slices

/-!
A lexer is safe. All that it does to its state is done in small acts, each of which goes one
character further or opens or closes one level. In no state that acts lead to is there a level of
no width or one that is not wider than the one around it, so the lexer never misuses its stack,
never takes a slice of the text that is not there, and never lacks a character.
-/

namespace Offside

namespace IndentStack

theorem pop_eq_ok {s left : IndentStack} {width : Nat} (h : s.pop = .ok (width, left)) :
    s.widths = width :: left.widths := by
  unfold pop at h
  split at h
  · contradiction
  · cases h
    assumption

def popWhile (goesOn : IndentStack → Except Misuse Bool) (s : IndentStack) :
    Except Misuse (Nat × IndentStack) :=
  if s.isEmpty then .ok (0, s)
  else
    match goesOn s with
    | .error m => .error m
    | .ok false => .ok (0, s)
    | .ok true =>
      match _h : s.pop with
      | .error m => .error m
      | .ok (_, left) => (left.popWhile goesOn).map fun (n, last) => (n + 1, last)
termination_by s.size
decreasing_by
  rw [size, size, pop_eq_ok _h]
  exact Nat.lt_succ_self _

theorem popWhile_empty (goesOn : IndentStack → Except Misuse Bool) :
    popWhile goesOn ⟨[]⟩ = .ok (0, ⟨[]⟩) := by
  rw [popWhile]
  rfl

theorem popWhile_stop {goesOn : IndentStack → Except Misuse Bool} {s : IndentStack}
    (h : goesOn s = .ok false) : s.popWhile goesOn = .ok (0, s) := by
  rw [popWhile, h]
  split <;> rfl

theorem popWhile_pop {goesOn : IndentStack → Except Misuse Bool} {top : Nat} {widths : List Nat}
    (h : goesOn ⟨top :: widths⟩ = .ok true) :
    popWhile goesOn ⟨top :: widths⟩ =
      (popWhile goesOn ⟨widths⟩).map fun (n, last) => (n + 1, last) := by
  rw [popWhile, h]
  rfl

theorem popWhile_top (s : IndentStack) (width : Nat) :
    s.popWhile (·.top.map (width < ·)) = .ok (s.closeAbove width) := by
  obtain ⟨widths⟩ := s
  induction widths with
  | nil => exact popWhile_empty _
  | cons top widths ih =>
    by_cases wider : width < top
    · rw [popWhile_pop (by simp [IndentStack.top, Except.map, wider]), ih]
      simp [closeAbove, Except.map, wider]
    · rw [popWhile_stop (by simp [IndentStack.top, Except.map, wider])]
      simp [closeAbove, wider]

theorem popWhile_all (s : IndentStack) :
    s.popWhile (fun _ => .ok true) = .ok (s.size, .empty) := by
  obtain ⟨widths⟩ := s
  induction widths with
  | nil => exact popWhile_empty _
  | cons top widths ih =>
    rw [popWhile_pop rfl, ih]
    rfl

end IndentStack

namespace Lexer

/-- One act of a lexer: it goes past the next character or line break, where at most one bracket
opens, or it opens a level, or it closes one. -/
inductive Act : Lexer → Lexer → Prop where
  | advance {lexer : Lexer} {c : Char} {next : Cursor} {depth : Nat} :
      lexer.cursor.advance = .ok (c, next) → depth ≤ lexer.depth + 1 →
      Act lexer { lexer with cursor := next, depth }
  | push {lexer : Lexer} {width : Nat} {indents : IndentStack} :
      lexer.indents.current < width → lexer.indents.push width = .ok indents →
      Act lexer { lexer with indents }
  | pop {lexer : Lexer} {width : Nat} {indents : IndentStack} :
      lexer.indents.pop = .ok (width, indents) →
      Act lexer { lexer with indents }

abbrev Acts : Lexer → Lexer → Prop :=
  Relation.ReflTransGen Act

structure Sound (text : List Char) (lexer : Lexer) : Prop where
  stands : lexer.cursor.StandsIn text
  increasing : lexer.indents.Increasing
  positive : ∀ width ∈ lexer.indents.widths, 0 < width
  depth : lexer.depth ≤ lexer.cursor.passed.length

theorem ofText_sound (text : List Char) (options : Options) : (ofText text options).Sound text where
  stands := Cursor.ofText_standsIn text
  increasing := List.Pairwise.nil
  positive := by simp [ofText, IndentStack.empty]
  depth := Nat.zero_le _

section Acts

variable {text : List Char} {lexer later : Lexer}

theorem Act.sound (act : Act lexer later) (h : lexer.Sound text) : later.Sound text := by
  cases act with
  | advance goes near =>
    obtain ⟨d, rest, ahead, rfl⟩ := Cursor.advance_eq_ok goes
    have some := List.length_pos_iff.mpr (Text.first_text_ne_nil d rest)
    have deep := h.depth
    refine ⟨?_, h.increasing, h.positive, ?_⟩
    · have stands := h.stands.move .advance
      rwa [Cursor.move, goes] at stands
    · simp only [Cursor.past, List.length_append, List.length_reverse]
      omega
  | push deeper pushed =>
    rw [IndentStack.push_of_current_lt deeper] at pushed
    cases pushed
    refine ⟨h.stands, h.increasing.push deeper, ?_, h.depth⟩
    intro v member
    rcases List.mem_cons.mp member with rfl | inner
    · exact Nat.zero_lt_of_lt deeper
    · exact h.positive v inner
  | pop popped =>
    have below := IndentStack.pop_eq_ok popped
    have increasing := h.increasing
    have positive := h.positive
    rw [IndentStack.Increasing, below] at increasing
    rw [below] at positive
    exact ⟨h.stands, increasing.of_cons, fun v inner => positive v (List.mem_cons_of_mem _ inner),
      h.depth⟩

theorem Acts.sound (acts : Acts lexer later) (h : lexer.Sound text) : later.Sound text := by
  induction acts with
  | refl => exact h
  | tail _ act ih => exact act.sound ih

theorem Act.reads (act : Act lexer later) :
    ∃ read, later.cursor.passed.reverse = lexer.cursor.passed.reverse ++ read ∧
      read ++ later.cursor.rest = lexer.cursor.rest := by
  cases act with
  | advance goes _ =>
    obtain ⟨d, rest, ahead, rfl⟩ := Cursor.advance_eq_ok goes
    have split : (Text.first d rest).text ++ _ = lexer.cursor.rest :=
      ahead ▸ Text.first_splits d rest
    refine ⟨(Text.first d rest).text, by simp [Cursor.past], ?_⟩
    exact List.prefix_iff_eq_append.mp ⟨_, split⟩
  | push => exact ⟨[], by simp, rfl⟩
  | pop => exact ⟨[], by simp, rfl⟩

theorem Acts.reads (acts : Acts lexer later) :
    ∃ read, later.cursor.passed.reverse = lexer.cursor.passed.reverse ++ read ∧
      read ++ later.cursor.rest = lexer.cursor.rest := by
  induction acts with
  | refl => exact ⟨[], by simp, rfl⟩
  | tail _ act ih =>
    obtain ⟨read, before, rest⟩ := ih
    obtain ⟨more, behind, further⟩ := act.reads
    refine ⟨read ++ more, ?_, ?_⟩
    · rw [behind, before, List.append_assoc]
    · rw [List.append_assoc, further, rest]

end Acts

/-- A lexer goes past some text act by act, with one more bracket open behind it at most. -/
theorem acts_past_depth (lexer : Lexer) {front after : List Char} (some : front ≠ [])
    (split : front ++ after = lexer.cursor.rest) (cut : Text.Cut front after) {depth : Nat}
    (near : depth ≤ lexer.depth + 1) : Acts lexer { lexer.past front with depth } := by
  induction cut using Text.cut_induction generalizing lexer with
  | nil after => contradiction
  | step c rest behind after left _ _ ih =>
    obtain ⟨ahead, further⟩ := Cursor.rest_past_first split left
    have first := Relation.ReflTransGen.single (Act.advance (Cursor.advance_of_rest ahead) near)
    have apart : Text.Cut (Text.first c rest).text behind :=
      Text.Cut.of_prefix (left ▸ Text.first_cut c rest) ⟨after, rfl⟩
    rw [past, Cursor.past_append _ apart]
    by_cases last : behind = []
    · rw [last]
      exact first
    · refine first.trans ?_
      exact ih { lexer.past (Text.first c rest).text with depth } last further.symm
        (Nat.le_succ depth)

theorem acts_past (lexer : Lexer) {front : List Char} (within : front <+: lexer.cursor.rest)
    (cut : Text.CutBehind front lexer.cursor.rest) : Acts lexer (lexer.past front) := by
  by_cases none : front = []
  · rw [none]
    exact .refl
  · have split := List.prefix_iff_eq_append.mp within
    exact acts_past_depth lexer none split cut (Nat.le_succ _)

theorem acts_behind (lexer : Lexer) (kind : Token.Kind) {front : List Char} (some : front ≠ [])
    (within : front <+: lexer.cursor.rest) (cut : Text.CutBehind front lexer.cursor.rest) :
    Acts lexer (lexer.behind kind front) := by
  have near : kind.depthAfter lexer.depth ≤ lexer.depth + 1 := by
    unfold Token.Kind.depthAfter
    split
    · split
      · exact Nat.le_refl _
      · split <;> omega
    · exact Nat.le_succ _
  have split := List.prefix_iff_eq_append.mp within
  exact acts_past_depth lexer some split cut near

theorem acts_close (lexer : Lexer) {widths left : List Nat} (open_ : lexer.indents = ⟨widths⟩)
    (suffix : left <:+ widths) : Acts lexer { lexer with indents := ⟨left⟩ } := by
  induction widths generalizing lexer with
  | nil =>
    rw [List.suffix_nil.mp suffix, ← open_]
  | cons top widths ih =>
    rcases List.suffix_cons_iff.mp suffix with rfl | further
    · rw [← open_]
    · have pop : Act lexer { lexer with indents := ⟨widths⟩ } := .pop (by rw [open_]; rfl)
      exact (Relation.ReflTransGen.single pop).trans (ih _ rfl further)

theorem acts_indentTo (lexer : Lexer) (width : Nat) (start : Position) :
    Acts lexer (lexer.indentTo width start).lexer := by
  rcases indentTo_cases lexer width start with ⟨deeper, e⟩ | ⟨_, e⟩
  · rw [e]
    exact .single (.push deeper (IndentStack.push_of_current_lt deeper))
  · rw [e]
    exact acts_close lexer rfl (List.dropWhile_suffix _)

theorem acts_body (lexer : Lexer) {text : List Char} (ahead : lexer.cursor.rest = text) :
    Acts lexer (lexer.body (Line.readPieces text)).lexer := by
  refine body_induction (I := Acts lexer) ?past ?behind .refl ahead
  case past =>
    intro met front within cut acts
    exact acts.trans (acts_past met within cut)
  case behind =>
    intro met kind front some within cut acts
    exact acts.trans (acts_behind met kind some within cut)

theorem acts_line (lexer : Lexer) : Acts lexer lexer.line.lexer := by
  have split := Text.Reading.span_splits Line.isIndent lexer.cursor.rest
  have start : Acts lexer (lexer.past lexer.ahead.indent) :=
    acts_past lexer ⟨_, split⟩ (Text.cutBehind_of_not_mem (indent_not_mem _) _)
  have rest := past_indent_rest lexer
  have indented : Acts lexer lexer.indented.lexer := start.trans (acts_indentTo _ _ _)
  have same : lexer.indented.lexer.cursor = (lexer.past lexer.ahead.indent).cursor :=
    indented_cursor lexer
  rcases line_cases lexer with ⟨_, e⟩ | ⟨_, _, e⟩ | ⟨_, _, e⟩
  · rw [e]
    exact start.trans (acts_body _ rest)
  · rw [e]
    exact indented
  · rw [e]
    rw [← same] at rest
    exact indented.trans (acts_body _ rest)

theorem acts_finish (lexer : Lexer) : Acts lexer lexer.finish.lexer := by
  unfold finish
  split
  · exact .refl
  · exact acts_close lexer rfl List.nil_suffix

theorem acts_run (lexer : Lexer) : Acts lexer lexer.run.lexer := by
  refine run_induction (I := fun met _ => Acts lexer met) ?line ?finish lexer [] .refl
  case line =>
    intro met tokens acts
    exact acts.trans (acts_line met)
  case finish =>
    intro met tokens acts
    exact acts.trans (acts_finish met)

theorem acts_afterRuns (lexer : Lexer) (n : Nat) : Acts lexer (lexer.afterRuns n) := by
  induction n generalizing lexer with
  | zero => exact .refl
  | succ n ih => exact (acts_run lexer).trans (ih lexer.run.lexer)

theorem body_stop?_eq_some {lexer : Lexer} {line : Line} {s : Stop}
    (h : (lexer.body line).stop? = some s) :
    ∃ f place, line.ending = .failure f ∧ s = .error ⟨f.fault, place⟩ := by
  rw [body, Step.andThen_of_none (pieces_rest lexer line.pieces).1] at h
  cases e : line.ending with
  | failure f =>
    rw [e] at h
    cases h
    exact ⟨f, _, rfl, rfl⟩
  | _ =>
    rw [e] at h
    contradiction

/-- A line is never broken off for lack of a character. -/
theorem line_ne_unexpectedEnd (lexer : Lexer) (place : Position) :
    lexer.line.stop? ≠ some (.error ⟨.unexpectedEndOfInput, place⟩) := by
  intro stops
  rcases line_cases lexer with ⟨_, e⟩ | ⟨_, _, e⟩ | ⟨_, _, e⟩
  · rw [e] at stops
    contradiction
  · rw [e] at stops
    cases (indentTo_stop?_eq_some stops).1
  · rw [e] at stops
    obtain ⟨f, _, ending, same⟩ := body_stop?_eq_some stops
    have reports : f.fault.isOfLexeme = true := Line.readPieces_reports ending
    cases f
    cases same
    contradiction

theorem run_ne_unexpectedEnd (lexer : Lexer) (place : Position) :
    lexer.run.stop? ≠ some (.error ⟨.unexpectedEndOfInput, place⟩) := by
  rw [run_stop?]
  fun_induction lines lexer with
  | case1 => simp
  | case2 lexer _ line s h => exact line_ne_unexpectedEnd lexer place
  | case3 lexer _ line h following ih => exact ih

/-- What is safe about a state of a lexer, whatever the lexer does next. -/
structure Safe (text : List Char) (lexer : Lexer) : Prop where
  increasing : lexer.indents.Increasing
  positive : ∀ width ∈ lexer.indents.widths, 0 < width
  /-- A wider line can open a level. -/
  push : ∀ width, lexer.indents.current < width →
    lexer.indents.push width = .ok ⟨width :: lexer.indents.widths⟩
  /-- The levels that are wider than a line can be closed one by one. -/
  close : ∀ width, lexer.indents.popWhile (·.top.map (width < ·)) =
    .ok (lexer.indents.closeAbove width)
  /-- All levels can be closed one by one. -/
  drain : lexer.indents.popWhile (fun _ => .ok true) = .ok (lexer.indents.size, .empty)
  slices : lexer.cursor.Slices text
  /-- What is read from here on is a slice of the text. -/
  since : ∀ later, Acts lexer later → ∃ read,
    later.cursor.passed.reverse = lexer.cursor.passed.reverse ++ read ∧
    later.cursor.sliceFrom? lexer.cursor.offset = some read
  /-- Nothing is counted beyond the length of the text in bytes. -/
  depth : lexer.depth ≤ Text.byteLength text
  line : lexer.position.line ≤ 1 + Text.byteLength text
  column : lexer.position.column ≤ 1 + Text.byteLength text

theorem Sound.safe {text : List Char} {lexer : Lexer} (h : lexer.Sound text) :
    lexer.Safe text where
  increasing := h.increasing
  positive := h.positive
  push _ := IndentStack.push_of_current_lt
  close := IndentStack.popWhile_top lexer.indents
  drain := IndentStack.popWhile_all lexer.indents
  slices := h.stands.slices
  since later acts := by
    obtain ⟨read, passed, _⟩ := acts.reads
    exact ⟨read, passed, Cursor.sliceFrom?_offset passed⟩
  depth := by
    have passed := Text.length_le_byteLength lexer.cursor.passed.reverse
    have shallow := h.depth
    rw [List.length_reverse] at passed
    rw [← h.stands.split, Text.byteLength_append]
    omega
  line := h.stands.position_le.1
  column := h.stands.position_le.2

/-- However often a lexer is run over a text, whether or not its runs stop at faults, it comes from
state to state by acts, and every state that acts lead to is safe: the stack is in order and is not
misused, and all slices of the text that are taken begin and end between characters. No run stops
for misuse of the stack or for lack of a character. -/
theorem runs_safe (text : List Char) (options : Options) (n : Nat) :
    let fresh := ofText text options
    let lexer := fresh.afterRuns n
    Acts fresh lexer ∧ Acts lexer lexer.run.lexer ∧
    (∀ met, Acts fresh met → met.Safe text) ∧
    (∀ m, lexer.run.stop? ≠ some (.misuse m)) ∧
    (∀ place, lexer.run.stop? ≠ some (.error ⟨.unexpectedEndOfInput, place⟩)) := by
  intro fresh lexer
  have sound (met : Lexer) (acts : Acts fresh met) : met.Sound text :=
    acts.sound (ofText_sound text options)
  exact ⟨acts_afterRuns fresh n, acts_run lexer, fun met acts => (sound met acts).safe,
    run_ne_misuse lexer, run_ne_unexpectedEnd lexer⟩

theorem runs_safe_two_levels :
    (ofText "a # é\n  b\n    ?".toList {}).run.lexer.indents.widths = [4, 2] ∧
    (ofText "a # é\n  b\n    ?".toList {}).run.lexer.indents.popWhile (·.top.map (2 < ·)) =
      .ok (1, ⟨[2]⟩) := by
  have two : (ofText "a # é\n  b\n    ?".toList {}).run.lexer.indents.widths = [4, 2] := by cbv
  obtain ⟨_, _, safe, _⟩ := runs_safe "a # é\n  b\n    ?".toList {} 0
  have close := (safe _ (acts_run _)).close 2
  refine ⟨two, ?_⟩
  rw [close, IndentStack.closeAbove, two]
  rfl

end Lexer

end Offside
