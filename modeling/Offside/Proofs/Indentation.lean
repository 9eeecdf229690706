import Offside.Proofs.Blocks
import Offside.Proofs.LexemeFaults
import Offside.Proofs.LineContent
import Offside.Proofs.OpenLevels

/-!
Indentation follows the widths of the lines. Which blocks a line opens and closes, and whether it may
stand where it does, is told from the widths of the lines before it, without any stack.
-/

namespace Offside

namespace Line

def all (text : List Char) : List Line :=
  if _some : text = [] then [] else read text :: all (read text).rest
termination_by text.length
decreasing_by
  have split := congrArg List.length (read_text text)
  have front := List.length_pos_iff.mpr (read_text_ne_nil _some)
  rw [List.length_append] at split
  omega

theorem all_text (text : List Char) : (all text).flatMap Line.text = text := by
  fun_induction all text with
  | case1 => rfl
  | case2 text some ih => rw [List.flatMap_cons, ih, read_text]

/-- The columns of some spaces and tabs, in any order. -/
def columns (indent : List Char) (tabWidth : UInt32) : Nat :=
  min 4294967295 (indent.count ' ' + indent.count '\t' * tabWidth.toNat)

theorem foldl_widen {indent : List Char} (h : ∀ c ∈ indent, isIndent c = true)
    (tabWidth : UInt32) (width : Nat) (narrow : width ≤ maxWidth) :
    indent.foldl (widen tabWidth) width =
      min maxWidth (width + (indent.count ' ' + indent.count '\t' * tabWidth.toNat)) := by
  induction indent generalizing width with
  | nil => simp [narrow]
  | cons c indent ih =>
    have inner := fun d member => h d (List.mem_cons_of_mem c member)
    have blank := isIndent_iff.mp (h c List.mem_cons_self)
    have capped : widen tabWidth width c ≤ maxWidth := Nat.min_le_left _ _
    rw [List.foldl_cons, ih inner _ capped]
    rcases blank with rfl | rfl
    · have space : (' ' :: indent).count ' ' = indent.count ' ' + 1 := List.count_cons_self
      have tabs : (' ' :: indent).count '\t' = indent.count '\t' :=
        List.count_cons_of_ne (by decide)
      rw [space, tabs, widen, if_neg (by decide)]
      omega
    · have spaces : ('\t' :: indent).count ' ' = indent.count ' ' :=
        List.count_cons_of_ne (by decide)
      have tab : ('\t' :: indent).count '\t' = indent.count '\t' + 1 := List.count_cons_self
      rw [spaces, tab, widen, if_pos rfl, Nat.add_mul]
      omega

/-- Adding up the columns one by one, never beyond the greatest width, comes to the same as adding
up all of them. -/
theorem read_width (text : List Char) (tabWidth : UInt32) :
    (read text).width tabWidth = columns (read text).indent tabWidth := by
  have blank : ∀ c ∈ (read text).indent, isIndent c = true :=
    Text.Reading.span_inside isIndent text
  rw [width, foldl_widen blank tabWidth 0 (Nat.zero_le _), Nat.zero_add]
  rfl

end Line

/-- A line that is `w` wide closes blocks but stands between two levels, so that it belongs to
none. -/
def Mismatch (widths : List Nat) (w : Nat) : Prop :=
  w < lastWidth widths ∧ 0 < w ∧ ¬IsOpen widths w

/-- The blocks that a line opens or closes. -/
def opening (widths : List Nat) (w : Nat) (start : Position) : List Token :=
  if lastWidth widths < w then [⟨start, .indent⟩]
  else if w < lastWidth widths then List.replicate (openAbove widths w).card ⟨start, .dedent⟩
  else []

/-- What the end of a text closes, behind one line end. -/
def closing (widths : List Nat) (stop : Position) : List Token :=
  if (openAbove widths 0).card = 0 then []
  else ⟨stop, .newLine⟩ :: List.replicate (openAbove widths 0).card ⟨stop, .dedent⟩

/-- How lines are laid out behind lines of the given widths and behind the text `passed`: which
tokens they become, and why they stop early, if they do. Only the beginning of a line and the end of
the text open or close blocks. -/
inductive Laid (tabWidth : UInt32) :
    List Nat → List Char → List Line → List Token → Option Lexer.Stop → Prop where
  | done {widths : List Nat} {passed : List Char} :
      Laid tabWidth widths passed [] (closing widths (Position.start.past passed)) none
  | empty {widths : List Nat} {passed : List Char} {line : Line} {lines : List Line}
      {tokens : List Token} {stop? : Option Lexer.Stop} :
      HoldsNothing line.text →
      Laid tabWidth widths (passed ++ line.text) lines tokens stop? →
      Laid tabWidth widths passed (line :: lines) tokens stop?
  | mismatch {widths : List Nat} {passed : List Char} {line : Line} {lines : List Line} {w : Nat} :
      ¬HoldsNothing line.text → w = Line.columns (margin line.text) tabWidth → Mismatch widths w →
      Laid tabWidth widths passed (line :: lines)
        (opening widths w (Position.start.past passed))
        (some (.error ⟨.indentationMismatch w, Position.start.past passed⟩))
  | fault {widths : List Nat} {passed : List Char} {line : Line} {lines : List Line} {w : Nat}
      {content : List Token} {f : Scan.Failure} {place : Position} :
      ¬HoldsNothing line.text → w = Line.columns (margin line.text) tabWidth → ¬Mismatch widths w →
      Within content → line.ending = .failure f → (∀ v, f.fault ≠ .indentationMismatch v) →
      Laid tabWidth widths passed (line :: lines)
        (opening widths w (Position.start.past passed) ++ content)
        (some (.error ⟨f.fault, place⟩))
  | line {widths : List Nat} {passed : List Char} {line : Line} {lines : List Line} {w : Nat}
      {content tokens : List Token} {stop? : Option Lexer.Stop} :
      ¬HoldsNothing line.text → w = Line.columns (margin line.text) tabWidth → ¬Mismatch widths w →
      Within content → (∀ f, line.ending ≠ .failure f) →
      Laid tabWidth (widths ++ [w]) (passed ++ line.text) lines tokens stop? →
      Laid tabWidth widths passed (line :: lines)
        (opening widths w (Position.start.past passed) ++ content ++ tokens) stop?

namespace IndentStack.Follows

variable {widths : List Nat} {s : IndentStack}

theorem isOpen_current (h : Follows widths s) (inside : 0 < s.current) :
    IsOpen widths s.current := by
  obtain ⟨stack⟩ := s
  cases stack with
  | nil => contradiction
  | cons top stack => exact (h.levels top).mp List.mem_cons_self

theorem mismatch_iff (h : Follows widths s) {w : Nat} (shallow : ¬s.current < w) :
    Mismatch widths w ↔ ¬(w = 0 ∨ IsOpen widths w) := by
  rw [h.current] at shallow
  constructor
  · rintro ⟨_, inside, shut⟩ (margin | level)
    · omega
    · contradiction
  · intro apart
    have inside : w ≠ 0 := fun margin => apart (Or.inl margin)
    have shut : ¬IsOpen widths w := fun level => apart (Or.inr level)
    refine ⟨?_, Nat.pos_of_ne_zero inside, shut⟩
    by_contra wide
    have own : s.current = w := by
      rw [h.current]
      omega
    exact shut (own ▸ h.isOpen_current (by omega))

theorem opening_eq_of_not_lt (h : Follows widths s) {w : Nat} (shallow : ¬s.current < w)
    (start : Position) :
    opening widths w start = List.replicate (s.closeAbove w).1 ⟨start, .dedent⟩ := by
  rw [opening, ← h.current, if_neg shallow, h.closed]
  split
  · rfl
  · rename_i wide
    have none : openAbove widths w = ∅ := by
      apply Finset.eq_empty_of_forall_notMem
      intro v member
      obtain ⟨level, wider⟩ := mem_openAbove.mp member
      have := h.narrow level
      omega
    rw [none, Finset.card_empty]
    rfl

end IndentStack.Follows

namespace Lexer

variable {widths : List Nat} {lexer : Lexer}

/-- A stack that follows the lines opens and closes what their widths tell, and finds a mismatch
where they tell one. -/
theorem indentTo_follows (h : lexer.indents.Follows widths) (w : Nat) (start : Position) :
    (lexer.indentTo w start).tokens = opening widths w start ∧
    (Mismatch widths w →
      (lexer.indentTo w start).stop? = some (.error ⟨.indentationMismatch w, start⟩)) ∧
    (¬Mismatch widths w →
      (lexer.indentTo w start).stop? = none ∧
      (lexer.indentTo w start).lexer.indents.Follows (widths ++ [w])) := by
  rcases indentTo_cases lexer w start with ⟨deeper, e⟩ | ⟨shallow, e⟩
  · rw [e]
    have wider : lastWidth widths < w := h.current ▸ deeper
    refine ⟨?_, ?_, ?_⟩
    · rw [opening, if_pos wider]
    · rintro ⟨narrower, _⟩
      omega
    · intro _
      exact ⟨rfl, h.push deeper⟩
  · rw [e]
    refine ⟨(h.opening_eq_of_not_lt shallow start).symm, ?_, ?_⟩
    · intro mismatch
      have apart := (h.mismatch_iff shallow).mp mismatch
      exact if_neg fun own => apart ((h.current_closeAbove_iff w).mp own)
    · intro fits
      have level : w = 0 ∨ IsOpen widths w := by
        by_contra apart
        exact fits ((h.mismatch_iff shallow).mpr apart)
      exact ⟨if_pos ((h.current_closeAbove_iff w).mpr level), h.closeAbove level⟩

theorem finish_follows (h : lexer.indents.Follows widths) :
    lexer.finish.tokens = closing widths lexer.position := by
  rw [finish_tokens, closing, h.size]

theorem indentTo_tabWidth (lexer : Lexer) (w : Nat) (start : Position) :
    (lexer.indentTo w start).lexer.tabWidth = lexer.tabWidth := by
  obtain ⟨indents, e⟩ := indentTo_frame lexer w start
  rw [e]

theorem run_eq (lexer : Lexer) :
    lexer.run = if lexer.cursor.rest = [] then lexer.finish else lexer.line.andThen run := by
  rw [run, lines_eq]
  split
  · rfl
  · exact Step.andThen_assoc _ _ _

/-- A lexer that has read the text `passed`, with lines of the given widths in it, and goes on. -/
structure Reads (source : List Char) (tabWidth : UInt32) (widths : List Nat) (passed : List Char)
    (lexer : Lexer) : Prop where
  stands : lexer.cursor.StandsIn source
  follows : lexer.indents.Follows widths
  passed : lexer.cursor.passed.reverse = passed
  tabWidth : lexer.tabWidth = tabWidth

section Reading

variable {source passed : List Char} {tabWidth : UInt32}

theorem Reads.position (h : Reads source tabWidth widths passed lexer) :
    lexer.position = Position.start.past passed := by
  rw [← h.passed]
  exact h.stands.position

theorem Reads.indented (h : Reads source tabWidth widths passed lexer) {w : Nat}
    (e : w = Line.columns (margin lexer.ahead.text) tabWidth) :
    lexer.indented.tokens = opening widths w (Position.start.past passed) ∧
    (Mismatch widths w → lexer.indented.stop? =
      some (.error ⟨.indentationMismatch w, Position.start.past passed⟩)) ∧
    (¬Mismatch widths w →
      lexer.indented.stop? = none ∧ lexer.indented.lexer.indents.Follows (widths ++ [w])) := by
  have width : lexer.ahead.width lexer.tabWidth = w := by
    rw [e, h.tabWidth, ahead, Line.margin_read]
    exact Line.read_width _ _
  have follows : (lexer.past lexer.ahead.indent).indents.Follows widths := h.follows
  rw [Lexer.indented, width, h.position]
  exact indentTo_follows follows w _

theorem line_tabWidth (lexer : Lexer) : lexer.line.lexer.tabWidth = lexer.tabWidth := by
  have indented : lexer.indented.lexer.tabWidth = lexer.tabWidth := indentTo_tabWidth _ _ _
  rcases line_cases lexer with ⟨_, e⟩ | ⟨_, _, e⟩ | ⟨_, _, e⟩
  · rw [e]
    exact (body_frame _ _).2
  · rw [e, indented]
  · rw [e]
    exact (body_frame _ _).2.trans indented

theorem line_rest (ok : lexer.line.stop? = none) :
    lexer.line.lexer.cursor.rest = lexer.ahead.rest := by
  have split : lexer.ahead.text ++ lexer.ahead.rest = lexer.cursor.rest := Line.read_text _
  have moved : lexer.line.lexer.cursor.rest =
      lexer.cursor.rest.drop lexer.ahead.text.length := take_rest ok
  rw [moved, ← split, List.drop_left]

theorem line_passed (stands : lexer.cursor.StandsIn source) (ok : lexer.line.stop? = none) :
    lexer.line.lexer.cursor.passed.reverse =
      lexer.cursor.passed.reverse ++ lexer.ahead.text := by
  have split : lexer.ahead.text ++ lexer.ahead.rest = lexer.cursor.rest := Line.read_text _
  have before := stands.split
  have behind := (line_standsIn stands).split
  rw [← split, ← List.append_assoc] at before
  rw [line_rest ok, ← before] at behind
  exact List.append_cancel_right behind

theorem Reads.past_line (h : Reads source tabWidth widths passed lexer)
    (ok : lexer.line.stop? = none) {next : List Nat}
    (follows : lexer.line.lexer.indents.Follows next) :
    Reads source tabWidth next (passed ++ lexer.ahead.text) lexer.line.lexer ∧
      lexer.line.lexer.cursor.rest = lexer.ahead.rest := by
  have passes : lexer.line.lexer.cursor.passed.reverse = passed ++ lexer.ahead.text := by
    rw [line_passed h.stands ok, h.passed]
  exact ⟨⟨line_standsIn h.stands, follows, passes, (line_tabWidth lexer).trans h.tabWidth⟩,
    line_rest ok⟩

theorem body_failure (lexer : Lexer) {line : Line} {f : Scan.Failure}
    (h : line.ending = .failure f) :
    ∃ place, (lexer.body line).stop? = some (.error ⟨f.fault, place⟩) := by
  rw [body, Step.andThen_of_none (pieces_rest lexer line.pieces).1, h]
  exact ⟨_, rfl⟩

theorem ahead_reports (lexer : Lexer) {f : Scan.Failure} (h : lexer.ahead.ending = .failure f)
    (v : Nat) : f.fault ≠ .indentationMismatch v := by
  intro e
  have reports : f.fault.isOfLexeme = true := Line.readPieces_reports h
  rw [e] at reports
  contradiction

/-- What a line does, told from its width and the widths before it: nothing if it is empty, nothing
but to close blocks if it belongs to none, and otherwise its body stands behind what it opens or
closes. -/
theorem Reads.line_cases (h : Reads source tabWidth widths passed lexer) {w : Nat}
    (e : w = Line.columns (margin lexer.ahead.text) tabWidth) :
    (HoldsNothing lexer.ahead.text ∧ lexer.line.tokens = [] ∧ lexer.line.stop? = none ∧
      lexer.line.lexer.indents.Follows widths) ∨
    (¬HoldsNothing lexer.ahead.text ∧ Mismatch widths w ∧
      lexer.line.tokens = opening widths w (Position.start.past passed) ∧
      lexer.line.stop? = some (.error ⟨.indentationMismatch w, Position.start.past passed⟩)) ∨
    (¬HoldsNothing lexer.ahead.text ∧ ¬Mismatch widths w ∧ ∃ content, Within content ∧
      lexer.line.tokens = opening widths w (Position.start.past passed) ++ content ∧
      lexer.line.lexer.indents.Follows (widths ++ [w]) ∧
      lexer.line.stop? = (lexer.indented.lexer.body lexer.ahead).stop?) := by
  obtain ⟨tokens, wrong, right⟩ := h.indented e
  have content : ¬HoldsNothing lexer.ahead.text ↔ lexer.ahead.isEmpty = false := by
    rw [ahead, ← Line.isEmpty_iff_holdsNothing, Bool.not_eq_true]
  rcases Lexer.line_cases lexer with ⟨empty, same⟩ | ⟨full, stops, same⟩ | ⟨full, fine, same⟩
  · rw [same]
    refine Or.inl ⟨Line.holdsNothing_of_isEmpty empty, rfl, rfl, ?_⟩
    show (body _ _).lexer.indents.Follows widths
    rw [(body_frame _ _).1]
    exact h.follows
  · have mismatch : Mismatch widths w := by
      by_contra fits
      exact stops (right fits).1
    rw [same]
    exact Or.inr (Or.inl ⟨content.mpr full, mismatch, tokens, wrong mismatch⟩)
  · have fits : ¬Mismatch widths w := by
      intro mismatch
      rw [wrong mismatch] at fine
      contradiction
    have inside : Within (lexer.indented.lexer.body lexer.ahead).tokens := body_within _ _
    rw [same]
    refine Or.inr (Or.inr ⟨content.mpr full, fits, _, inside, ?_, ?_, rfl⟩)
    · rw [Step.after_tokens, tokens]
    · show (body _ _).lexer.indents.Follows _
      rw [(body_frame _ _).1]
      exact (right fits).2

theorem run_laid (h : Reads source tabWidth widths passed lexer) :
    Laid tabWidth widths passed (Line.all lexer.cursor.rest) lexer.run.tokens
      lexer.run.stop? := by
  fun_induction lines lexer generalizing widths passed with
  | case1 lexer done =>
    rw [run_eq, if_pos done, done, finish_follows h.follows, finish_stop?, h.position, Line.all]
    exact .done
  | case2 lexer some line s =>
    rename_i hs
    rw [run_eq, if_neg some, Step.andThen_of_stop hs, Line.all, dif_neg some]
    rcases h.line_cases rfl with ⟨_, _, ok, _⟩ | ⟨full, mismatch, tokens, stop⟩ |
      ⟨full, fits, content, inside, tokens, _, stop⟩
    · rw [ok] at hs
      contradiction
    · rw [tokens, stop]
      exact .mismatch full rfl mismatch
    · -- the line stands where it may, so it was its body that stopped
      cases ending : lexer.ahead.ending with
      | failure f =>
        obtain ⟨place, fault⟩ := body_failure lexer.indented.lexer ending
        rw [tokens, stop, fault]
        exact .fault full rfl fits inside ending (ahead_reports lexer ending)
      | _ =>
        have ok := (body_stop? lexer.indented.lexer lexer.ahead).mpr (by simp [ending])
        rw [stop, ok] at hs
        contradiction
  | case3 lexer some line hs =>
    rename_i following ih
    rw [run_eq, if_neg some, Step.andThen_of_none hs, Line.all, dif_neg some]
    rcases h.line_cases rfl with ⟨empty, tokens, _, follows⟩ | ⟨_, _, _, stop⟩ |
      ⟨full, fits, content, inside, tokens, follows, stop⟩
    · obtain ⟨reads, rest⟩ := h.past_line hs follows
      have later := ih reads
      rw [rest] at later
      rw [Step.after_tokens, tokens]
      exact .empty empty later
    · rw [stop] at hs
      contradiction
    · obtain ⟨reads, rest⟩ := h.past_line hs follows
      have later := ih reads
      rw [rest] at later
      rw [stop] at hs
      rw [Step.after_tokens, tokens]
      exact .line full rfl fits inside ((body_stop? _ _).mp hs) later

end Reading

/-- The lines that make up a text lay out the tokens of a run and the reason why it stops, as their
widths tell: a line that is wider than the one before it opens one block, a narrower one closes as
many as there are open levels wider than it, a line that then stands at no open level is refused,
and the end of the text closes what is left. -/
theorem run_laid_out (text : List Char) (options : Options) :
    (Line.all text).flatMap Line.text = text ∧
      Laid options.tabWidth [] [] (Line.all text) (ofText text options).run.tokens
        (ofText text options).run.stop? := by
  have start : Reads text options.tabWidth [] [] (ofText text options) :=
    ⟨Cursor.ofText_standsIn text, IndentStack.Follows.start, rfl, rfl⟩
  exact ⟨Line.all_text text, run_laid start⟩

end Lexer

end Offside
