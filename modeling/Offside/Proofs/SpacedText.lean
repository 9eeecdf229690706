import Offside.Proofs.LexerPlaces
import Offside.Proofs.LocalScans

namespace Offside

/-- What is put behind a line break, behind its first character. If it makes one break of two, the
break takes the '\n' in front of it. -/
theorem Text.first_onto {c : Char} (ends : isBreak c = true) (rest tail : List Char) :
    ∃ other, (first c rest).text ++ tail = c :: other ∧
      tail = (if (first c rest).text.getLast? = some '\r' ∧ tail.head? = some '\n' then ['\n']
        else []) ++ (first c other).rest := by
  have which : c = '\n' ∨ c = '\r' := by simpa [isBreak] using ends
  rcases which with rfl | rfl
  · exact ⟨tail, rfl, by simp [first]⟩
  · by_cases pair : rest.head? = some '\n'
    · obtain ⟨rest, rfl⟩ := List.head?_eq_some_iff.mp pair
      exact ⟨'\n' :: tail, rfl, by simp [first]⟩
    · rw [first_of_single pair]
      refine ⟨tail, rfl, ?_⟩
      by_cases joins : tail.head? = some '\n'
      · obtain ⟨tail, rfl⟩ := List.head?_eq_some_iff.mp joins
        simp [first]
      · simp [joins, first_of_single joins]

namespace Line

def content (line : Line) : List Char :=
  line.pieces.flatMap Piece.text ++ line.ending.text

def spaces (tabWidth : UInt32) (indent : List Char) : List Char :=
  indent.flatMap fun c => if c = '\t' then List.replicate tabWidth.toNat ' ' else [c]

section Spaces

variable {indent : List Char} {n : UInt32}

theorem isIndent_spaces (blank : ∀ c ∈ indent, isIndent c = true) :
    ∀ c ∈ spaces n indent, c = ' ' := by
  intro c member
  obtain ⟨d, old, new⟩ := List.mem_flatMap.mp member
  split at new
  · exact List.eq_of_mem_replicate new
  · rename_i other
    rw [List.mem_singleton.mp new]
    exact (isIndent_iff.mp (blank d old)).resolve_right other

theorem past_indent (p : Position) (blank : ∀ c ∈ indent, isIndent c = true) :
    p.past indent = { p with column := p.column + indent.length } := by
  apply Position.past_of_no_break
  intro c member
  rcases isIndent_iff.mp (blank c member) with rfl | rfl <;> rfl

theorem spaces_of_not_mem (none : '\t' ∉ indent) : spaces n indent = indent := by
  have same : ∀ c ∈ indent, (if c = '\t' then List.replicate n.toNat ' ' else [c]) = [c] := by
    intro c member
    have other : c ≠ '\t' := by
      rintro rfl
      exact none member
    exact if_neg other
  rw [spaces, List.flatMap_congr same]
  exact List.flatMap_singleton' indent

/-- With spaces in place of its tabs, an indentation is as wide as it was, whatever a tab counts for
then. -/
theorem columns_spaces (blank : ∀ c ∈ indent, isIndent c = true) (m : UInt32) :
    columns (spaces n indent) m = columns indent n := by
  have tabs : (spaces n indent).count '\t' = 0 := by
    rw [List.count_eq_zero]
    intro member
    exact absurd (isIndent_spaces blank _ member) (by decide)
  have spaces_ : (spaces n indent).count ' ' = indent.count ' ' + indent.count '\t' * n.toNat := by
    clear tabs
    induction indent with
    | nil => simp [spaces]
    | cons c indent ih =>
      have inner := ih fun d member => blank d (List.mem_cons_of_mem c member)
      rw [spaces, List.flatMap_cons, List.count_append, ← spaces, inner]
      rcases isIndent_iff.mp (blank c List.mem_cons_self) with rfl | rfl
      · simp
        omega
      · simp [Nat.add_mul]
        omega
  rw [columns, columns, tabs, spaces_, Nat.zero_mul, Nat.add_zero]

theorem spaces_eq_nil (none : spaces n indent = []) (some : indent ≠ []) :
    n = 0 ∧ ∀ c ∈ indent, c = '\t' := by
  have gone := List.flatMap_eq_nil_iff.mp none
  have all : ∀ c ∈ indent, c = '\t' ∧ n.toNat = 0 := by
    intro c member
    have here := gone c member
    split at here
    · rename_i tab
      exact ⟨tab, by simpa using here⟩
    · contradiction
  obtain ⟨c, member⟩ := List.exists_mem_of_ne_nil indent some
  exact ⟨UInt32.toNat_inj.mp (all c member).2, fun c member => (all c member).1⟩

end Spaces

theorem read_onto {indent behind : List Char} (blank : ∀ c ∈ indent, isIndent c = true)
    (margin : ∀ c ∈ behind.head?, isIndent c = false) :
    read (indent ++ behind) = { readPieces behind with indent } := by
  rw [read, Text.Reading.span_append blank margin]

theorem content_append_rest (text : List Char) :
    (readPieces text).content ++ (readPieces text).rest = text :=
  readPieces_text text

theorem isEmpty_of_alike {line other : Line} (pieces : other.pieces = line.pieces)
    (ending : line.ending.Alike other.ending) : other.isEmpty = line.isEmpty := by
  unfold isEmpty
  rw [pieces]
  generalize line.ending = e at ending
  generalize other.ending = e' at ending
  cases line.pieces <;> cases ending <;> rfl

theorem head?_content_append {text tail : List Char}
    (done : (readPieces text).rest = [] → tail = []) :
    ((readPieces text).content ++ tail).head? = text.head? := by
  have whole := content_append_rest text
  cases some : (readPieces text).content with
  | nil =>
    have none : text = [] := by
      by_contra ahead
      exact readPieces_text_ne_nil ahead some
    subst none
    rw [done (by rw [readPieces]), List.append_nil]
  | cons c content =>
    rw [some] at whole
    rw [← whole]
    rfl

/-- What a line holds, in front of another text. The line ends in the same way, and leaves that
text, perhaps without a '\n' at its front. -/
theorem readPieces_onto {text tail : List Char} (goes : ∀ f, (readPieces text).ending ≠ .failure f)
    (done : (readPieces text).rest = [] → tail = []) :
    (readPieces ((readPieces text).content ++ tail)).pieces = (readPieces text).pieces ∧
    (readPieces text).ending.Alike (readPieces ((readPieces text).content ++ tail)).ending ∧
    tail = (if (readPieces text).content.getLast? = some '\r' ∧ tail.head? = some '\n' then ['\n']
      else []) ++ (readPieces ((readPieces text).content ++ tail)).rest := by
  have whole := content_append_rest text
  rcases readPieces_local text with ⟨f, fails⟩ | last | ⟨front, c, behind, ends, split, left, again⟩
  · exact absurd fails (goes f)
  · rw [last, List.append_nil] at whole
    rw [done last, List.append_nil, whole, last]
    exact ⟨rfl, .refl _, by simp⟩
  · have content : (readPieces text).content = front ++ (Text.first c behind).text := by
      have split' : (Text.first c behind).text ++ (Text.first c behind).rest = c :: behind :=
        Text.first_splits c behind
      rw [left] at whole
      apply List.append_cancel_right
      rw [whole, List.append_assoc, split', split]
    have some := Text.first_text_ne_nil c behind
    have end_ : (readPieces text).content.getLast? = (Text.first c behind).text.getLast? := by
      rw [content, List.getLast?_append_of_ne_nil _ some]
    obtain ⟨other, onto, rest⟩ := Text.first_onto ends behind tail
    have ahead : (readPieces text).content ++ tail = front ++ c :: other := by
      rw [content, List.append_assoc, onto]
    obtain ⟨pieces, ending, left'⟩ := again other
    rw [ahead, left', end_]
    exact ⟨pieces, ending, rest⟩

end Line

namespace Lexer

/-- The indentation of the line ahead with spaces in place of its tabs. In an empty line this is so
only if `all` is set. -/
def spacedIndent (all : Bool) (lexer : Lexer) : List Char :=
  if all || !lexer.ahead.isEmpty then Line.spaces lexer.tabWidth lexer.ahead.indent
  else lexer.ahead.indent

/-- The text ahead, with spaces in place of the tabs in the indentation of all lines that the lexer
comes to in one run. -/
def spaced (all : Bool) (lexer : Lexer) : List Char :=
  if _ahead : lexer.cursor.rest = [] then []
  else
    lexer.spacedIndent all ++ (lexer.ahead.content ++
      match _h : lexer.line.stop? with
      | some _ => lexer.ahead.rest
      | none => lexer.line.lexer.spaced all)
termination_by lexer.cursor.rest.length
decreasing_by exact line_rest_length_lt _ahead _h

def atLines (lexer : Lexer) : List Lexer :=
  if _ahead : lexer.cursor.rest = [] then []
  else
    lexer :: match _h : lexer.line.stop? with
      | some _ => []
      | none => lexer.line.lexer.atLines
termination_by lexer.cursor.rest.length
decreasing_by exact line_rest_length_lt _ahead _h

/-- Tabs that count for nothing, and nothing else, hold a '\r' and a '\n' apart. -/
def parts (lexer : Lexer) : Bool :=
  lexer.tabWidth == 0 && lexer.cursor.passed.head? == some '\r' &&
    (lexer.cursor.rest.dropWhile (· == '\t')).head? == some '\n'

/-- The lines that are lost when the tabs go that hold a '\r' and a '\n' apart. -/
def joined (all : Bool) (lexer : Lexer) : List Nat :=
  if all then (lexer.atLines.filter parts).map (·.position.line) else []

section Spaced

variable {lexer : Lexer} {all : Bool}

theorem spaced_of_rest_eq_nil (done : lexer.cursor.rest = []) : lexer.spaced all = [] := by
  rw [spaced, dif_pos done]

theorem spaced_of_stop (ahead : lexer.cursor.rest ≠ []) (stops : lexer.line.stop? ≠ none) :
    lexer.spaced all = lexer.spacedIndent all ++ (lexer.ahead.content ++ lexer.ahead.rest) := by
  rw [spaced, dif_neg ahead]
  split
  · rfl
  · contradiction

theorem spaced_of_none (ahead : lexer.cursor.rest ≠ []) (goes : lexer.line.stop? = none) :
    lexer.spaced all =
      lexer.spacedIndent all ++ (lexer.ahead.content ++ lexer.line.lexer.spaced all) := by
  rw [spaced, dif_neg ahead]
  split
  · rename_i s stops
    rw [goes] at stops
    contradiction
  · rfl

theorem atLines_of_stop (ahead : lexer.cursor.rest ≠ []) (stops : lexer.line.stop? ≠ none) :
    lexer.atLines = [lexer] := by
  rw [atLines, dif_neg ahead]
  split
  · rfl
  · contradiction

theorem atLines_of_none (ahead : lexer.cursor.rest ≠ []) (goes : lexer.line.stop? = none) :
    lexer.atLines = lexer :: lexer.line.lexer.atLines := by
  rw [atLines, dif_neg ahead]
  split
  · rename_i s stops
    rw [goes] at stops
    contradiction
  · rfl

theorem mem_atLines (ahead : lexer.cursor.rest ≠ []) : lexer ∈ lexer.atLines := by
  rw [atLines, dif_neg ahead]
  exact List.mem_cons_self

theorem atLines_induction {I : Lexer → Prop}
    (line : ∀ l, I l → l.line.stop? = none → I l.line.lexer) (start : I lexer) :
    ∀ l ∈ lexer.atLines, I l := by
  induction lexer using line_induction with
  | done lexer done =>
    rw [atLines, dif_pos done]
    simp
  | stop lexer ahead stops =>
    rw [atLines_of_stop ahead stops]
    simpa using start
  | next lexer ahead goes ih =>
    rw [atLines_of_none ahead goes]
    intro l member
    rcases List.mem_cons.mp member with rfl | further
    · exact start
    · exact ih (line lexer start goes) l further

theorem exists_tail (all : Bool) (ahead : lexer.cursor.rest ≠ []) :
    ∃ tail, (lexer.ahead.rest = [] → tail = []) ∧
      lexer.spaced all = lexer.spacedIndent all ++ (lexer.ahead.content ++ tail) := by
  cases stops : lexer.line.stop? with
  | some s => exact ⟨_, id, spaced_of_stop ahead (by simp [stops])⟩
  | none =>
    refine ⟨_, ?_, spaced_of_none ahead stops⟩
    intro done
    exact spaced_of_rest_eq_nil ((line_rest stops).trans done)

def behindIndent (lexer : Lexer) : List Char :=
  (Text.Reading.span Line.isIndent lexer.cursor.rest).rest

theorem indent_append_behind (lexer : Lexer) :
    lexer.ahead.indent ++ lexer.behindIndent = lexer.cursor.rest :=
  Line.indent_append_rest lexer.cursor.rest

theorem content_append_rest (lexer : Lexer) :
    lexer.ahead.content ++ lexer.ahead.rest = lexer.behindIndent :=
  Line.content_append_rest lexer.behindIndent

theorem margin_behind : ∀ c ∈ lexer.behindIndent.head?, Line.isIndent c = false :=
  Text.Reading.span_stops Line.isIndent lexer.cursor.rest

theorem isEmpty_ahead : lexer.ahead.isEmpty =
    lexer.behindIndent.head?.all fun c => Text.isBreak c || c = '#' :=
  Line.isEmpty_read lexer.cursor.rest

theorem isIndent_spacedIndent (lexer : Lexer) (all : Bool) :
    ∀ c ∈ lexer.spacedIndent all, Line.isIndent c = true := by
  unfold spacedIndent
  split
  · intro c member
    rw [Line.isIndent_spaces isIndent_of_mem_indent c member]
    rfl
  · exact isIndent_of_mem_indent

theorem head?_spaced (ahead : lexer.cursor.rest ≠ []) (none : lexer.spacedIndent all = []) :
    (lexer.spaced all).head? = lexer.behindIndent.head? := by
  obtain ⟨tail, done, text⟩ := exists_tail all ahead
  rw [text, none]
  exact Line.head?_content_append done

/-- The text already passed and the spaced text ahead would make one line break of two. -/
def Merges (all : Bool) (lexer : Lexer) : Prop :=
  lexer.cursor.passed.head? = some '\r' ∧ (lexer.spaced all).head? = some '\n'

instance : Decidable (lexer.Merges all) :=
  inferInstanceAs (Decidable (_ ∧ _))

/-- Then the line ahead holds nothing but tabs that go. -/
theorem Merges.bareBreak (h : lexer.Merges all) :
    lexer.cursor.rest ≠ [] ∧ lexer.spacedIndent all = [] ∧
      ∃ more, lexer.behindIndent = '\n' :: more := by
  obtain ⟨_, head⟩ := h
  have ahead : lexer.cursor.rest ≠ [] := by
    intro done
    rw [spaced_of_rest_eq_nil done] at head
    contradiction
  have none : lexer.spacedIndent all = [] := by
    obtain ⟨tail, _, text⟩ := exists_tail all ahead
    cases indent : lexer.spacedIndent all with
    | nil => rfl
    | cons c more =>
      rw [text, indent] at head
      have blank := isIndent_spacedIndent lexer all c (indent ▸ List.mem_cons_self)
      obtain rfl : c = '\n' := Option.some.inj head
      contradiction
  rw [head?_spaced ahead none] at head
  exact ⟨ahead, none, List.head?_eq_some_iff.mp head⟩

theorem Merges.indent_ne_nil {source : List Char} (h : lexer.Merges all)
    (stands : lexer.cursor.StandsIn source) : lexer.ahead.indent ≠ [] := by
  intro margin
  obtain ⟨_, _, more, behind⟩ := h.bareBreak
  have whole := lexer.indent_append_behind
  rw [margin, behind, List.nil_append] at whole
  refine stands.cut (List.getLast?_reverse.trans h.1) ?_
  rw [← whole]
  rfl

theorem isEmpty_of_bareBreak {more : List Char} (behind : lexer.behindIndent = '\n' :: more) :
    lexer.ahead.isEmpty = true := by
  rw [isEmpty_ahead, behind]
  rfl

theorem parts_iff : lexer.parts = true ↔ lexer.tabWidth = 0 ∧
    lexer.cursor.passed.head? = some '\r' ∧ (∀ c ∈ lexer.ahead.indent, c = '\t') ∧
      ∃ more, lexer.behindIndent = '\n' :: more := by
  constructor
  · intro h
    simp only [parts, Bool.and_eq_true, beq_iff_eq] at h
    obtain ⟨⟨zero, cr⟩, head⟩ := h
    obtain ⟨more, behind⟩ := List.head?_eq_some_iff.mp head
    have split : lexer.cursor.rest.takeWhile (· == '\t') ++ '\n' :: more = lexer.cursor.rest := by
      rw [← behind]
      exact List.takeWhile_append_dropWhile
    have tabs : ∀ c ∈ lexer.cursor.rest.takeWhile (· == '\t'), c = '\t' := by
      intro c member
      exact beq_iff_eq.mp (List.mem_takeWhile_imp (p := (· == '\t')) member)
    -- the tabs are all of the margin, for a "\n" is behind them
    have span : Text.Reading.span Line.isIndent lexer.cursor.rest =
        { value := lexer.cursor.rest.takeWhile (· == '\t')
          text := lexer.cursor.rest.takeWhile (· == '\t')
          rest := '\n' :: more } := by
      nth_rewrite 1 [← split]
      apply Text.Reading.span_append
      · intro c member
        rw [tabs c member]
        rfl
      · rintro c ⟨⟩
        rfl
    have indent : lexer.ahead.indent = lexer.cursor.rest.takeWhile (· == '\t') :=
      congrArg Text.Reading.text span
    exact ⟨zero, cr, indent ▸ tabs, more, congrArg Text.Reading.rest span⟩
  · rintro ⟨zero, cr, tabs, more, behind⟩
    have left : lexer.cursor.rest.dropWhile (· == '\t') = lexer.behindIndent := by
      have tabs : ∀ c ∈ lexer.ahead.indent, (c == '\t') = true :=
        fun c member => beq_iff_eq.mpr (tabs c member)
      rw [← indent_append_behind, List.dropWhile_append_of_pos tabs, behind]
      rfl
    simp [parts, zero, cr, left, behind]

theorem merges_iff {source : List Char} (stands : lexer.cursor.StandsIn source) :
    lexer.Merges all ↔ all = true ∧ lexer.parts = true := by
  rw [parts_iff]
  constructor
  · intro merges
    obtain ⟨_, none, more, behind⟩ := merges.bareBreak
    have some := merges.indent_ne_nil stands
    have replaced : all = true := by
      by_contra kept
      have kept : all = false := by simpa using kept
      rw [spacedIndent, kept, isEmpty_of_bareBreak behind] at none
      exact some none
    subst replaced
    obtain ⟨zero, tabs⟩ := Line.spaces_eq_nil none some
    exact ⟨rfl, zero, merges.1, tabs, more, behind⟩
  · rintro ⟨rfl, zero, cr, tabs, more, behind⟩
    have none : lexer.spacedIndent true = [] := by
      rw [spacedIndent, Bool.true_or, if_pos rfl, zero, Line.spaces, List.flatMap_eq_nil_iff]
      intro c member
      rw [if_pos (tabs c member)]
      rfl
    have ahead : lexer.cursor.rest ≠ [] := by
      rw [← indent_append_behind, behind]
      simp
    refine ⟨cr, ?_⟩
    rw [head?_spaced ahead none, behind]
    rfl

theorem line_of_bareBreak {more : List Char} (behind : lexer.behindIndent = '\n' :: more) :
    lexer.ahead.content = ['\n'] ∧
      lexer.line = { tokens := [], lexer := lexer.past (lexer.ahead.indent ++ ['\n']) } ∧
      lexer.line.lexer.position = lexer.position.nextLine := by
  have content : lexer.ahead.content = ['\n'] := by
    show (Line.readPieces lexer.behindIndent).content = ['\n']
    rw [behind, Line.readPieces]
    rfl
  have text : lexer.ahead.text = lexer.ahead.indent ++ ['\n'] := by
    rw [← content]
    exact List.append_assoc _ _ _
  have skipped := line_skips lexer (isEmpty_of_bareBreak behind)
  rw [text] at skipped
  refine ⟨content, skipped, ?_⟩
  have cut : Text.Cut lexer.ahead.indent ['\n'] := Text.cut_of_not_mem (indent_not_mem _) _
  have moved : lexer.line.lexer.position = lexer.position.past (lexer.ahead.indent ++ ['\n']) := by
    rw [skipped]
    rfl
  rw [moved, Position.past_append _ _ _ cut, Line.past_indent _ isIndent_of_mem_indent]
  rfl

end Spaced

theorem ending_of_line {lexer : Lexer} (goes : lexer.line.stop? = none) (f : Scan.Failure) :
    lexer.ahead.ending ≠ .failure f := by
  rcases line_cases lexer with ⟨empty, _⟩ | ⟨_, stops, e⟩ | ⟨_, _, e⟩
  · exact (Line.of_isEmpty empty).2 f
  · rw [e] at goes
    contradiction
  · rw [e] at goes
    exact (body_stop? _ _).mp goes f

theorem merges_line {lexer : Lexer} {source : List Char} {all : Bool}
    (stands : lexer.cursor.StandsIn source) (goes : lexer.line.stop? = none) :
    lexer.line.lexer.Merges all ↔ lexer.ahead.content.getLast? = some '\r' ∧
      (lexer.line.lexer.spaced all).head? = some '\n' := by
  refine and_congr_left fun head => ?_
  have some : lexer.ahead.content ≠ [] := by
    intro none
    have text : lexer.behindIndent = [] := by
      by_contra ahead
      exact Line.readPieces_text_ne_nil ahead none
    have done : lexer.ahead.rest = [] := by
      show (Line.readPieces lexer.behindIndent).rest = []
      rw [text, Line.readPieces]
    rw [spaced_of_rest_eq_nil ((line_rest goes).trans done)] at head
    contradiction
  have text : lexer.ahead.text = lexer.ahead.indent ++ lexer.ahead.content :=
    List.append_assoc _ _ _
  have passed := congrArg List.getLast? (line_passed stands goes)
  rw [List.getLast?_reverse, text, ← List.append_assoc,
    List.getLast?_append_of_ne_nil _ some] at passed
  rw [passed]

section Joined

variable {source : List Char} {all : Bool} {a : Lexer}

theorem spaced_of_same (same : ∀ l ∈ a.atLines, l.spacedIndent all = l.ahead.indent) :
    a.spaced all = a.cursor.rest := by
  induction a using line_induction with
  | done a done => rw [spaced_of_rest_eq_nil done, done]
  | stop a ahead stops =>
    rw [spaced_of_stop ahead stops, same a (mem_atLines ahead), content_append_rest,
      indent_append_behind]
  | next a ahead goes ih =>
    have later : ∀ l ∈ a.line.lexer.atLines, l.spacedIndent all = l.ahead.indent := by
      intro l member
      apply same
      rw [atLines_of_none ahead goes]
      exact List.mem_cons_of_mem _ member
    rw [spaced_of_none ahead goes, same a (mem_atLines ahead), ih later, line_rest goes,
      content_append_rest, indent_append_behind]

theorem joined_of_not_all : a.joined false = [] :=
  rfl

/-- Where tabs count for something, no line is lost. -/
theorem joined_of_tabWidth (wide : a.tabWidth ≠ 0) : a.joined all = [] := by
  have same : ∀ l ∈ a.atLines, l.tabWidth = a.tabWidth :=
    atLines_induction (fun l same _ => (line_tabWidth l).trans same) rfl
  have none : ∀ l ∈ a.atLines, ¬l.parts = true := by
    intro l member
    simp [parts, same l member, wide]
  unfold joined
  split
  · rw [List.filter_eq_nil_iff.mpr none]
    rfl
  · rfl

theorem joined_of_rest_eq_nil (done : a.cursor.rest = []) : a.joined all = [] := by
  rw [joined, atLines, dif_pos done]
  split <;> rfl

theorem joined_of_stop (stands : a.cursor.StandsIn source) (ahead : a.cursor.rest ≠ [])
    (stops : a.line.stop? ≠ none) (apart : ¬a.Merges all) : a.joined all = [] := by
  rw [merges_iff stands] at apart
  rw [joined, atLines_of_stop ahead stops]
  split
  · rename_i replaced
    have stays : ¬a.parts = true := fun parts => apart ⟨replaced, parts⟩
    rw [List.filter_cons_of_neg stays]
    rfl
  · rfl

theorem joined_of_none (stands : a.cursor.StandsIn source) (ahead : a.cursor.rest ≠ [])
    (goes : a.line.stop? = none) :
    a.joined all =
      (if a.Merges all then [a.position.line] else []) ++ a.line.lexer.joined all := by
  simp only [merges_iff stands]
  rw [joined, joined, atLines_of_none ahead goes]
  by_cases replaced : all = true
  · by_cases parts : a.parts = true
    · simp [replaced, parts]
    · simp [replaced, parts]
  · simp [replaced]

theorem line_le_joined (a : Lexer) (all : Bool) : ∀ n ∈ a.joined all, a.position.line ≤ n := by
  intro n member
  unfold joined at member
  split at member
  · obtain ⟨l, here, rfl⟩ := List.mem_map.mp member
    have onward : ∀ l ∈ a.atLines, a.position ≤ l.position :=
      atLines_induction (fun l le _ => le.trans (line_from (.start l)).1) le_rfl
    exact Position.line_le (onward l (List.mem_filter.mp here).1)
  · contradiction

end Joined

end Lexer

end Offside
