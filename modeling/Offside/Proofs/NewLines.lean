import Mathlib
import Offside.Proofs.Concatenation
import Offside.Proofs.FaultPlaces
import Offside.Proofs.LineBreaks

/-!
Which line breaks are tokens. Outside of string literals a line break has a token of its own exactly
if there is something on its line, no comment ends with it and no bracket is open, and the tokens
before it tell how many are. There is one more line end behind a text that leaves blocks open.
-/

namespace Offside

open Text

namespace Lexer

/-- A stretch of a run from a lexer that has made the tokens `made`, with the tokens `due` to come
behind it. It gives tokens to exactly the right line breaks, and it ends where a line begins or
where the text ends. -/
structure Step.Marks (text : List Char) (tokens made due : List Token) (lexer : Lexer)
    (step : Step) : Prop where
  reached : step.lexer.Reached text tokens (made ++ step.tokens) due
  marked : Marked text tokens step.tokens lexer.index step.lexer.index
  ends : LineBegins text tokens step.lexer.index ∨ step.lexer.cursor.rest = []

section Marking

variable {text rest front : List Char} {tokens made due new : List Token}
variable {lexer middle next : Lexer}
variable {step : Step} {begin : Nat} {c : Char}

theorem Step.Marks.after (h : step.Marks text tokens (made ++ new) due middle)
    (first : Marked text tokens new lexer.index middle.index) :
    (step.after new).Marks text tokens made due lexer where
  reached := by
    have reached := h.reached
    rwa [List.append_assoc] at reached
  marked := first.append h.marked
  ends := h.ends

theorem Step.Marks.past (h : step.Marks text tokens made due middle)
    (first : Marked text tokens [] lexer.index middle.index) :
    step.Marks text tokens made due lexer where
  reached := h.reached
  marked := first.append h.marked
  ends := h.ends

theorem Reached.clean (h : lexer.Reached text tokens made due)
    (within : front <+: lexer.cursor.rest) (plain : ∀ c ∈ front, isMark c = false) :
    Clean text tokens lexer.index (lexer.index + front.length) := by
  intro i c low high here mark
  rw [plain c (h.mem_of_getElem? within low high here)] at mark
  contradiction

/-- A line break begins only where its first character stands. -/
theorem Reached.eq_of_breaksAt (h : lexer.Reached text tokens made due)
    (ahead : lexer.cursor.rest = c :: rest) {i : Nat} (low : lexer.index ≤ i)
    (high : i < lexer.index + (Text.first c rest).text.length) (here : BreaksAt text i) :
    i = lexer.index := by
  obtain ⟨k, rfl⟩ := Nat.exists_eq_add_of_le low
  cases k with
  | zero => rfl
  | succ k =>
    rcases Text.first_cases c rest with ⟨_, rfl, rfl, e⟩ | ⟨_, _, e⟩ | ⟨_, e⟩
    · have first : text[lexer.index]? = some '\r' := h.getElem?_index ahead
      have second : text[lexer.index + 1]? = some '\n' := by
        rw [h.getElem?, ahead]
        rfl
      obtain rfl : k = 0 := by
        simp only [e, List.length_cons, List.length_nil] at high
        omega
      have apart := here.2
      rw [Cut, List.getLast?_take, List.head?_drop, second] at apart
      simp [first] at apart
    · simp [e] at high
    · simp [e] at high

theorem Reached.lineBegins (h : lexer.Reached text tokens made (new ++ due))
    (h' : next.Reached text tokens (made ++ new) due)
    (plain : ∀ t ∈ new, ∀ value, t.kind ≠ .str value)
    (ahead : lexer.cursor.rest = c :: rest) (ends : isBreak c = true)
    (arrives : next.index = lexer.index + (Text.first c rest).text.length) :
    LineBegins text tokens next.index := by
  have some := List.length_pos_iff.mpr (Text.first_text_ne_nil c rest)
  have within := (first_ahead ahead).1
  obtain ⟨k, length⟩ : ∃ k, (Text.first c rest).text.length = k + 1 :=
    ⟨_, (Nat.sub_add_cancel some).symm⟩
  have inside : lexer.index + k < text.length := by
    have := h'.index_le
    omega
  have last : text[lexer.index + k]? = .some text[lexer.index + k] :=
    List.getElem?_eq_getElem inside
  have member := h.mem_of_getElem? within (by omega) (by omega) last
  refine .inr ⟨lexer.index + k, _, ?_, last, Text.first_isBreak ends rest _ member, ?_⟩
  · rw [arrives, length, Nat.add_assoc]
  · exact h.not_inLiteral h' plain (by omega) (by omega)

theorem Reached.lineBreak (h : lexer.Reached text tokens made (new ++ due))
    (h' : next.Reached text tokens (made ++ new) due)
    (ahead : lexer.cursor.rest = c :: rest) (ends : isBreak c = true)
    (arrives : next.index = lexer.index + (Text.first c rest).text.length)
    (only : ∀ t, t ∈ new ↔ t = ⟨lexer.position, .newLine⟩ ∧ FilledBefore text tokens lexer.index ∧
      ¬EndsComment text tokens lexer.index ∧ lexer.depth = 0) :
    Step.Marks text tokens made due lexer { tokens := new, lexer := next } := by
  have some := List.length_pos_iff.mpr (Text.first_text_ne_nil c rest)
  have plain : ∀ t ∈ new, ∀ value, t.kind ≠ .str value := by
    intro t member value kind
    rw [((only t).mp member).1] at kind
    contradiction
  have here : BreaksAt text lexer.index := ⟨⟨c, h.getElem?_index ahead, ends⟩, h.cut⟩
  have outside : ¬InLiteral text tokens lexer.index :=
    h.not_inLiteral h' plain le_rfl (by omega)
  refine ⟨h', ⟨?breaks, ?located⟩, .inl (h.lineBegins h' plain ahead ends arrives)⟩
  case breaks =>
    intro i low high breaks _
    obtain rfl := h.eq_of_breaksAt ahead low (arrives ▸ high) breaks
    rw [h.newLine_mem_iff h' low high breaks.2, only, ← h.depth_eq, ← h.position]
    simp
  case located =>
    intro t member _
    rw [((only t).mp member).1]
    exact ⟨lexer.index, here, outside, h.position⟩

theorem Reached.ending
    (h : lexer.Reached text tokens made
      ((lexer.ending (.lineBreak (Text.first c rest).text)).tokens ++ due))
    (ahead : lexer.cursor.rest = c :: rest) (ends : isBreak c = true)
    (after : ∀ t ∈ due, (lexer.past (Text.first c rest).text).position ≤ t.position)
    (filled : FilledBefore text tokens lexer.index)
    (outside : ¬EndsComment text tokens lexer.index) :
    (lexer.ending (.lineBreak (Text.first c rest).text)).Marks text tokens made due lexer := by
  obtain ⟨within, cut⟩ := first_ahead ahead
  have reached : (lexer.past (Text.first c rest).text).Reached text tokens
      (made ++ if lexer.depth = 0 then [⟨lexer.position, .newLine⟩] else []) due := by
    by_cases unbracketed : lexer.depth = 0
    · simp only [Lexer.ending, if_pos unbracketed] at h ⊢
      have some := Text.first_text_ne_nil c rest
      exact h.behind some within cut after (by simp)
    · simp only [Lexer.ending, if_neg unbracketed, List.append_nil] at h ⊢
      exact h.past within cut after
  refine h.lineBreak reached ahead ends (index_past _ _) fun t => ?_
  simp [Lexer.ending, filled, outside, and_comm]

theorem Reached.bareBreak (h : lexer.Reached text tokens made due)
    (ahead : lexer.cursor.rest = c :: rest) (ends : isBreak c = true)
    (after : ∀ t ∈ due, (lexer.past (Text.first c rest).text).position ≤ t.position)
    (none : FilledBefore text tokens lexer.index → EndsComment text tokens lexer.index) :
    Step.Marks text tokens made due lexer
      { tokens := [], lexer := lexer.past (Text.first c rest).text } := by
  obtain ⟨within, cut⟩ := first_ahead ahead
  have reached := h.past within cut after
  rw [← List.append_nil made] at reached
  refine h.lineBreak reached ahead ends (index_past _ _) fun t => ?_
  simp only [List.not_mem_nil, false_iff]
  rintro ⟨_, filled, open_, _⟩
  exact open_ (none filled)

theorem Reached.remark (h : lexer.Reached text tokens made due)
    (within : '#' :: rest <+: lexer.cursor.rest) (inside : ∀ d ∈ rest, isBreak d = false)
    (after : ∀ t ∈ due, (lexer.past ('#' :: rest)).position ≤ t.position) :
    (lexer.past ('#' :: rest)).Reached text tokens made due ∧
      Marked text tokens [] lexer.index (lexer.past ('#' :: rest)).index ∧
      EndsComment text tokens (lexer.past ('#' :: rest)).index := by
  have still : ∀ d ∈ '#' :: rest, isBreak d = false :=
    List.forall_mem_cons.mpr ⟨by decide, inside⟩
  have unbroken : '\r' ∉ '#' :: rest := fun member => ne_of_not_isBreak (still _ member) rfl
  have reached := h.past within (cutBehind_of_not_mem unbroken _) after
  have clear {i : Nat} {d : Char} (low : lexer.index ≤ i)
      (high : i < (lexer.past ('#' :: rest)).index) (here : text[i]? = some d) :
      isBreak d = false := by
    rw [index_past] at high
    exact still d (h.mem_of_getElem? within low high here)
  have sign : text[lexer.index]? = some '#' := by
    obtain ⟨more, split⟩ := within
    exact h.getElem?_index split.symm
  have outside : ¬InLiteral text tokens lexer.index := by
    have reached' := reached
    rw [← List.append_nil made] at reached'
    exact h.not_inLiteral reached' (by simp) le_rfl (by simp)
  refine ⟨reached, marked_of_no_break (by simp) ?_, lexer.index, by simp, sign, outside, ?_⟩
  · intro i d low high here ends
    rw [clear low high here] at ends
    contradiction
  · intro i d low high here
    exact clear low.le high here

theorem Reached.comment (h : lexer.Reached text tokens made due)
    (ahead : lexer.cursor.rest = '#' :: rest)
    (after : ∀ t ∈ due, (lexer.past (Line.comment ('#' :: rest)).text).position ≤ t.position) :
    Step.Marks text tokens made due lexer
      { tokens := [], lexer := lexer.past (Line.comment ('#' :: rest)).text } := by
  obtain ⟨body, inside, ⟨rfl, read⟩ | ⟨c, more, ends, rfl, read⟩⟩ := Line.comment_cases rest
  · rw [read] at after ⊢
    have within : '#' :: rest <+: lexer.cursor.rest := ahead ▸ List.prefix_rfl
    obtain ⟨reached, marked, _⟩ := h.remark within inside after
    rw [← List.append_nil made] at reached
    exact ⟨reached, marked, .inr (by simp [Lexer.past, ahead])⟩
  · have within : '#' :: body <+: lexer.cursor.rest := ahead ▸ ⟨c :: more, rfl⟩
    have unbroken : Cut ('#' :: body) (Text.first c more).text := by
      apply cut_of_not_mem
      intro member
      rcases List.mem_cons.mp member with sign | member
      · contradiction
      · exact ne_of_not_isBreak (inside _ member) rfl
    have moves : lexer.past (Line.comment ('#' :: (body ++ c :: more))).text =
        (lexer.past ('#' :: body)).past (Text.first c more).text := by
      simp only [read, Lexer.past]
      rw [Cursor.past_append _ unbroken]
    rw [moves] at after ⊢
    obtain ⟨reached, marked, ended⟩ := h.remark within inside fun t member =>
      (Position.le_past _ _).trans (after t member)
    have further : (lexer.past ('#' :: body)).cursor.rest = c :: more := by
      simp [Lexer.past, ahead]
    exact (reached.bareBreak further ends after fun _ => ended).past marked

/-- Behind a lexeme. Marks stand in it only if it is a literal. -/
theorem Reached.lexeme {r : Text.Reading Token.Kind}
    (h : lexer.Reached text tokens made (⟨lexer.position, r.value⟩ :: due))
    (ahead : lexer.cursor.rest = c :: rest) (still : isBreak c = false)
    (read : Lexeme.scan c rest = .ok r)
    (after : ∀ t ∈ due, (lexer.behind r.value r.text).position ≤ t.position) :
    (lexer.behind r.value r.text).Reached text tokens (made ++ [⟨lexer.position, r.value⟩]) due ∧
      Clean text tokens lexer.index (lexer.index + r.text.length) := by
  have split : r.text ++ r.rest = c :: rest := (Lexeme.scan_splits c rest).of_ok read
  have some : r.text ≠ [] := by
    have consumed := Lexeme.scan_consumed_ne_nil c rest
    rwa [read] at consumed
  have within : r.text <+: lexer.cursor.rest := by
    rw [ahead]
    exact ⟨_, split⟩
  have cut : CutBehind r.text lexer.cursor.rest := by
    rw [ahead]
    exact (Lexeme.scan_cuts still rest).of_ok read
  constructor
  · apply h.behind some within cut after
    rintro quote literal value quotes isLiteral ⟨more, front⟩ _
    -- the scan reads the only literal that the text begins with
    obtain ⟨inside, rfl, _⟩ := id isLiteral
    rw [ahead] at front
    obtain rfl : quote = c := (List.cons.inj front).1
    rw [Lexeme.scan, if_pos quotes,
      Lexeme.stringLiteral_of_isLiteral quotes isLiteral front] at read
    cases read
    exact le_rfl
  · rcases Lexeme.scan_cases read with ⟨value, quotes, isLiteral, kind⟩ | plain
    · intro i _ low high _ _
      refine ⟨lexer.index, c, r.text, value, quotes, isLiteral, ?_, low, high, ?_⟩
      · rwa [h.drop]
      · rw [h.whole, ← kind, ← h.position]
        simp
    · exact h.clean within plain

theorem Reached.filled (h : lexer.Reached text tokens made due) (ahead : lexer.cursor.rest = rest)
    (filled : FilledBefore text tokens lexer.index ∨
      ∃ c ∈ rest.head?, c ≠ ' ' ∧ c ≠ '\t' ∧ isBreak c = false)
    (lt : lexer.index < middle.index) (clean : Clean text tokens lexer.index middle.index) :
    FilledBefore text tokens middle.index := by
  rcases filled with before | ⟨c, first, space, tab, _⟩
  · exact before.extend lt.le clean
  · apply filledBefore_of_char ?_ space tab lt clean
    obtain ⟨more, rfl⟩ := List.head?_eq_some_iff.mp first
    exact h.getElem?_index ahead

/-- What the body of a line does for a lexer that stands on that line. -/
theorem Reached.body
    (h : lexer.Reached text tokens made ((lexer.body (Line.readPieces rest)).tokens ++ due))
    (ahead : lexer.cursor.rest = rest) (goes : (lexer.body (Line.readPieces rest)).stop? = none)
    (after : ∀ t ∈ due, (lexer.body (Line.readPieces rest)).lexer.position ≤ t.position)
    (onLine : OnLine text tokens begin lexer.index)
    (filled : FilledBefore text tokens lexer.index ∨
      ∃ c ∈ rest.head?, c ≠ ' ' ∧ c ≠ '\t' ∧ isBreak c = false) :
    (lexer.body (Line.readPieces rest)).Marks text tokens made due lexer := by
  fun_induction Line.readPieces rest generalizing lexer made with
  | case1 =>
    rw [body_of_no_pieces _ rfl] at h ⊢
    have reached : lexer.Reached text tokens (made ++ []) due := by
      rwa [List.append_nil]
    exact ⟨reached, .nil, .inr ahead⟩
  | case2 c rest ends =>
    rw [body_of_no_pieces _ rfl] at h after ⊢
    -- nothing of the line is ahead of its line break, so the line was filled before
    have filled : FilledBefore text tokens lexer.index := by
      refine filled.resolve_right ?_
      rintro ⟨_, ⟨⟩, _, _, still⟩
      rw [ends] at still
      contradiction
    exact h.ending ahead ends after filled onLine.not_endsComment
  | case3 c rest still blank ih =>
    rw [body_gap] at h goes after ⊢
    have other : c ≠ '#' := by
      rintro rfl
      contradiction
    have plain : ∀ d ∈ [c], isMark d = false := by
      simpa [isMark, other] using still
    have within : [c] <+: lexer.cursor.rest := by
      rw [ahead]
      exact ⟨rest, rfl⟩
    have cut : CutBehind [c] lexer.cursor.rest :=
      cutBehind_of_ne (ne_of_not_isBreak (by simpa using still)) _
    have further : (lexer.past [c]).cursor.rest = rest := by simp [Lexer.past, ahead]
    have clean := h.clean within plain
    rw [← index_past] at clean
    have reached := h.past within cut ((body_from (.start _) further).append after)
    refine (ih reached further goes after (onLine.extend (by simp) clean) ?_).past
      (clean.marked (by simp))
    exact .inl (h.filled ahead filled (by simp) clean)
  | case4 rest still blank =>
    rw [body_of_no_pieces _ rfl] at h after ⊢
    exact h.comment ahead after
  | case5 c rest still blank other r read ih =>
    rw [body_lexeme] at h goes after ⊢
    have split : r.text ++ r.rest = c :: rest := (Lexeme.scan_splits c rest).of_ok read
    have further : (lexer.behind r.value r.text).cursor.rest = r.rest :=
      Cursor.rest_past_splits (ahead ▸ split)
    obtain ⟨reached, clean⟩ := Reached.lexeme h ahead (by simpa using still) read
      ((body_from (.start _) further).append after)
    rw [← index_behind] at clean
    refine (ih reached further goes after (onLine.extend (by simp) clean) ?_).after
      (clean.marked ?_)
    · have some := Lexeme.scan_consumed_ne_nil c rest
      rw [read] at some
      have length := List.length_pos_iff.mpr some
      refine .inl (h.filled ahead filled ?_ clean)
      rw [index_behind]
      exact Nat.lt_add_of_pos_right length
    · intro t member newLine
      have spelled := (Lexeme.scan_spelled read).not_isLayout
      cases List.mem_singleton.mp member
      have same : r.value = .newLine := newLine
      rw [same] at spelled
      contradiction
  | case6 c rest still blank other f read =>
    rw [body_of_no_pieces _ rfl] at goes
    contradiction

theorem Reached.emptyBody (h : lexer.Reached text tokens made due)
    (ahead : lexer.cursor.rest = rest) (empty : (Line.readPieces rest).isEmpty = true)
    (after : ∀ t ∈ due, (lexer.body (Line.readPieces rest)).lexer.position ≤ t.position)
    (unfilled : ¬FilledBefore text tokens lexer.index) :
    Step.Marks text tokens made due lexer
      { tokens := [], lexer := (lexer.body (Line.readPieces rest)).lexer } := by
  rw [Line.isEmpty_readPieces] at empty
  cases rest with
  | nil =>
    rw [Line.readPieces, body_of_no_pieces _ rfl]
    rw [← List.append_nil made] at h
    exact ⟨h, .nil, .inr ahead⟩
  | cons c rest =>
    by_cases ends : isBreak c = true
    · rw [Line.readPieces, if_pos ends, body_of_no_pieces _ rfl] at after ⊢
      exact h.bareBreak ahead ends after fun filled => absurd filled unfilled
    · obtain rfl : c = '#' := by simpa [ends] using empty
      have blank : ¬isBlank '#' = true := by decide
      rw [Line.readPieces, if_neg ends, if_neg blank, if_pos rfl,
        body_of_no_pieces _ rfl] at after ⊢
      exact h.comment ahead after

theorem Reached.indented (h : lexer.Reached text tokens made (lexer.indented.tokens ++ due))
    (after : ∀ t ∈ due, lexer.indented.lexer.position ≤ t.position) :
    lexer.indented.lexer.Reached text tokens (made ++ lexer.indented.tokens) due where
  stands := by
    rw [indented_cursor]
    exact (past_indent_standsIn h.stands).1
  whole := by
    rw [List.append_assoc]
    exact h.whole
  before := indented_ordered h.before
  after := after
  depth := by
    have same : lexer.indented.lexer.depth = lexer.depth := indentTo_depth _ _ _
    rw [same, h.depth, bracketsOpen_of_layout]
    intro t member
    rcases (mem_indented member).2 with kind | kind <;> rw [kind] <;> rfl
  closed i quote literal value quotes isLiteral begins member := by
    rcases List.mem_append.mp member with earlier | here
    · have := h.closed i quote literal value quotes isLiteral begins earlier
      rw [indented_cursor]
      simp only [Cursor.past, List.length_append]
      omega
    · rcases (mem_indented here).2 with kind | kind <;> contradiction

theorem Reached.line (h : lexer.Reached text tokens made (lexer.line.tokens ++ due))
    (goes : lexer.line.stop? = none)
    (after : ∀ t ∈ due, lexer.line.lexer.position ≤ t.position)
    (begins : LineBegins text tokens lexer.index) :
    lexer.line.Marks text tokens made due lexer := by
  have split := Line.indent_append_rest lexer.cursor.rest
  have within : lexer.ahead.indent <+: lexer.cursor.rest := ⟨_, split⟩
  have margin : ∀ c ∈ lexer.ahead.indent, c = ' ' ∨ c = '\t' :=
    fun c member => Line.isIndent_iff.mp (isIndent_of_mem_indent c member)
  have clean : Clean text tokens lexer.index (lexer.past lexer.ahead.indent).index := by
    rw [index_past]
    apply h.clean within
    intro c member
    rcases margin c member with rfl | rfl <;> decide
  have onLine : OnLine text tokens lexer.index (lexer.past lexer.ahead.indent).index :=
    ⟨begins, by simp, clean⟩
  have rest := past_indent_rest lexer
  have same := indented_cursor lexer
  rcases line_cases lexer with ⟨empty, e⟩ | ⟨_, stops, e⟩ | ⟨full, fine, e⟩
  · rw [e] at h after ⊢
    have onward := (body_from (.start _) rest).append after
    have reached := h.past within (cutBehind_of_not_mem (indent_not_mem _) _) fun t member =>
      onward t (List.mem_append_right _ member)
    -- so far the line is its margin, which fills nothing
    have unfilled : ¬FilledBefore text tokens (lexer.past lexer.ahead.indent).index := by
      apply onLine.not_filled
      intro i c low high here
      rw [index_past] at high
      exact margin c (h.mem_of_getElem? within low high here)
    exact (reached.emptyBody rest empty after unfilled).past (clean.marked (by simp))
  · rw [e] at goes
    contradiction
  · rw [e] at h goes after ⊢
    rw [Step.after_tokens, List.append_assoc] at h
    have index : lexer.indented.lexer.index = (lexer.past lexer.ahead.indent).index :=
      congrArg (·.passed.length) same
    have rest := (congrArg Cursor.rest same).trans rest
    have reached := h.indented ((body_from (.start _) rest).append after)
    rw [← index] at clean onLine
    refine (reached.body rest goes after onLine (.inr ?_)).after (clean.marked ?_)
    · obtain ⟨c, more, whole, stops, still, _⟩ := Line.read_of_not_isEmpty full
      have first : (Reading.span Line.isIndent lexer.cursor.rest).rest = c :: more :=
        List.append_cancel_left (split.trans whole)
      have other : c ≠ ' ' ∧ c ≠ '\t' := by simpa [Line.isIndent] using stops
      exact ⟨c, by simp [first], other.1, other.2, still⟩
    · intro t member
      rcases (mem_indented member).2 with kind | kind <;> rw [kind] <;> simp

theorem Reached.lines (h : lexer.Reached text tokens made (lexer.lines.tokens ++ due))
    (goes : lexer.lines.stop? = none)
    (after : ∀ t ∈ due, lexer.lines.lexer.position ≤ t.position)
    (begins : LineBegins text tokens lexer.index ∨ lexer.cursor.rest = []) :
    lexer.lines.Marks text tokens made due lexer := by
  fun_induction Lexer.lines lexer generalizing made with
  | case1 lexer done =>
    rw [← List.append_nil made] at h
    exact ⟨h, .nil, .inr done⟩
  | case2 lexer _ line s =>
    rename_i stops
    rw [stops] at goes
    contradiction
  | case3 lexer ahead line fine following =>
    rename_i ih
    rw [List.append_assoc] at h
    have onward := (lines_from (.start _)).append after
    have first := h.line fine onward (begins.resolve_right ahead)
    exact (ih first.reached goes after first.ends).after first.marked

end Marking

theorem newLine_mem_finish {lexer : Lexer} :
    ⟨lexer.position, .newLine⟩ ∈ lexer.finish.tokens ↔ lexer.indents ≠ .empty := by
  obtain ⟨cursor, ⟨widths⟩, depth, tabWidth⟩ := lexer
  cases widths <;> simp [finish, IndentStack.isEmpty, IndentStack.empty]

/-- A lexer at the beginning of a text, with all the tokens of its lines and of its end due. -/
theorem ofText_reached (text : List Char) (options : Options) :
    let lines := (ofText text options).lines
    (ofText text options).Reached text (lines.tokens ++ lines.lexer.finish.tokens) []
      (lines.tokens ++ lines.lexer.finish.tokens) where
  stands := Cursor.ofText_standsIn text
  whole := rfl
  before := .nil _
  after := (lines_from (.start _)).append fun t last => (mem_finish last).1.ge
  depth := rfl
  closed := by simp

/-- In tokens that are in order, no line end is there twice. -/
theorem count_newLine {tokens : List Token} (inOrder : tokens.Pairwise Token.Precedes) {t : Token}
    (member : t ∈ tokens) (newLine : t.kind = .newLine) : tokens.count t = 1 := by
  have some := List.count_pos_iff.mpr member
  have once : ¬2 ≤ tokens.count t := by
    intro twice
    have both := inOrder.sublist (List.replicate_sublist_iff.mpr twice)
    have closes := ((List.pairwise_cons.mp both).1 t (by simp)).2 rfl
    rw [newLine] at closes
    simp at closes
  omega

/-- The line ends of a text. A line break outside of string literals has a token exactly if there is
something before it on its line, it does not end a comment and no bracket is open there. The end of
the text has one exactly if some block is still open there. There are no others, and each is there
once. -/
theorem tokenize_newLines {text : List Char} {options : Options} {tokens : List Token}
    (h : tokenize text options = .ok tokens) :
    (∀ n, BreaksAt text n → ¬InLiteral text tokens n →
      (⟨placeOf text n, .newLine⟩ ∈ tokens ↔
        FilledBefore text tokens n ∧ ¬EndsComment text tokens n ∧
          bracketsOpen (tokensBefore tokens (placeOf text n)) = 0)) ∧
    (⟨placeOf text text.length, .newLine⟩ ∈ tokens ↔
      (ofText text options).lines.lexer.indents ≠ .empty) ∧
    ∀ t ∈ tokens, t.kind = .newLine → tokens.count t = 1 ∧
      (t.position = placeOf text text.length ∨
        ∃ n, BreaksAt text n ∧ ¬InLiteral text tokens n ∧ t.position = placeOf text n) := by
  obtain ⟨ok, rfl⟩ := tokenize_eq_ok_iff.mp h
  rw [run_stop?] at ok
  have whole : (ofText text options).run.tokens = (ofText text options).lines.tokens ++
      (ofText text options).lines.lexer.finish.tokens := by
    rcases run_cases (ofText text options) with ⟨stops, _⟩ | ⟨_, e⟩
    · contradiction
    · rw [e, Step.after_tokens]
  have inOrder : (ofText text options).run.tokens.Pairwise Token.Precedes := by
    rcases run_ordered (.nil (ofText text options).position) with ordered | ⟨inOrder, _⟩
    · exact ordered.inOrder
    · exact inOrder
  have lines := (ofText_reached text options).lines ok
    (fun t member => (mem_finish member).1.ge) (.inl (.inl rfl))
  rw [← whole] at lines
  generalize (ofText text options).run.tokens = tokens at whole inOrder lines
  -- after the last line the lexer stands at the end of the text
  have behind : (ofText text options).lines.lexer.index = text.length := by
    have drop := lines.reached.drop
    rw [lines_rest ok, List.drop_eq_nil_iff] at drop
    exact lines.reached.index_le.antisymm drop
  have place : (ofText text options).lines.lexer.position = placeOf text text.length := by
    rw [lines.reached.position, behind]
  refine ⟨?breaks, ?last, ?others⟩
  case breaks =>
    intro n breaks outside
    obtain ⟨c, here, _⟩ := breaks.1
    have inside := (List.getElem?_eq_some_iff.mp here).1
    exact lines.marked.breaks n (Nat.zero_le n) (behind ▸ inside) breaks outside
  case last =>
    rw [whole, ← place, List.mem_append, newLine_mem_finish, or_iff_right]
    intro own
    rcases lines.reached.before.reached _ own with earlier | ⟨_, closes⟩
    · exact earlier.ne rfl
    · contradiction
  case others =>
    intro t member newLine
    refine ⟨count_newLine inOrder member newLine, ?_⟩
    rw [whole] at member
    rcases List.mem_append.mp member with own | last
    · exact .inr (lines.marked.located t own newLine)
    · exact .inl ((mem_finish last).1.trans place)

theorem tokenize_newLines_call :
    tokenize "f(\n # it's\r\na\nb)\n \t\n\x0c\n\tx".toList {} =
      .ok [⟨⟨1, 1⟩, .id "f"⟩, ⟨⟨1, 2⟩, .punct .openParen⟩, ⟨⟨3, 1⟩, .id "a"⟩, ⟨⟨4, 1⟩, .id "b"⟩,
        ⟨⟨4, 2⟩, .punct .closeParen⟩, ⟨⟨4, 3⟩, .newLine⟩, ⟨⟨6, 2⟩, .newLine⟩, ⟨⟨7, 1⟩, .indent⟩,
        ⟨⟨7, 2⟩, .id "x"⟩, ⟨⟨7, 3⟩, .newLine⟩, ⟨⟨7, 3⟩, .dedent⟩] ∧
    (ofText "f(\n # it's\r\na\nb)\n \t\n\x0c\n\tx".toList {}).lines.lexer.indents ≠ .empty := by
  have lexed : tokenize "f(\n # it's\r\na\nb)\n \t\n\x0c\n\tx".toList {} =
      .ok [⟨⟨1, 1⟩, .id "f"⟩, ⟨⟨1, 2⟩, .punct .openParen⟩, ⟨⟨3, 1⟩, .id "a"⟩, ⟨⟨4, 1⟩, .id "b"⟩,
        ⟨⟨4, 2⟩, .punct .closeParen⟩, ⟨⟨4, 3⟩, .newLine⟩, ⟨⟨6, 2⟩, .newLine⟩, ⟨⟨7, 1⟩, .indent⟩,
        ⟨⟨7, 2⟩, .id "x"⟩, ⟨⟨7, 3⟩, .newLine⟩, ⟨⟨7, 3⟩, .dedent⟩] := by cbv
  refine ⟨lexed, (tokenize_newLines lexed).2.1.mp ?_⟩
  have last : placeOf "f(\n # it's\r\na\nb)\n \t\n\x0c\n\tx".toList
      "f(\n # it's\r\na\nb)\n \t\n\x0c\n\tx".toList.length = ⟨7, 3⟩ := by cbv
  rw [last]
  simp

end Lexer

end Offside
