import Offside.Cursor
import Offside.Proofs.LineStarts

/-!
Where a cursor can get to. In whatever order its operations are called, it stands where its text may
be cut, and its position, its offset and the line map of the text say the same about that place.
-/

namespace Offside.Cursor

/-- A cursor stands in `text` where the text may be cut, and has counted what it passed. -/
structure StandsIn (text : List Char) (cursor : Cursor) : Prop where
  source : cursor.source = text
  position : cursor.position = Position.start.past cursor.passed.reverse
  cut : Text.Cut cursor.passed.reverse cursor.rest

theorem ofText_standsIn (text : List Char) : (ofText text).StandsIn text :=
  ⟨rfl, rfl, Text.cut_nil_left text⟩

theorem offset_eq (cursor : Cursor) :
    cursor.offset = Text.byteLength cursor.passed.reverse :=
  (Text.byteLength_reverse cursor.passed).symm

theorem offset_past (cursor : Cursor) (text : List Char) :
    (cursor.past text).offset = cursor.offset + Text.byteLength text := by
  rw [offset, Cursor.past, Text.byteLength_append, Text.byteLength_reverse, Nat.add_comm]
  rfl

theorem StandsIn.split {text : List Char} {cursor : Cursor} (h : cursor.StandsIn text) :
    cursor.passed.reverse ++ cursor.rest = text :=
  h.source

theorem past_append (cursor : Cursor) {a b : List Char} (cut : Text.Cut a b) :
    cursor.past (a ++ b) = (cursor.past a).past b := by
  simp only [Cursor.past, Position.past_append _ a b cut, List.reverse_append, List.append_assoc,
    List.length_append, List.drop_drop]

theorem StandsIn.past {source text : List Char} {cursor : Cursor} (h : cursor.StandsIn source)
    (front : text <+: cursor.rest) (cut : Text.CutBehind text cursor.rest) :
    (cursor.past text).StandsIn source := by
  have passed : (cursor.past text).passed.reverse = cursor.passed.reverse ++ text := by
    simp [Cursor.past]
  constructor
  · rw [source_past front, h.source]
  · rw [passed, Position.past_append _ _ _ (h.cut.of_prefix front), ← h.position]
    rfl
  · rw [passed]
    have split := List.prefix_iff_eq_append.mp front
    exact Text.Cut.append (split.symm ▸ h.cut) cut

theorem StandsIn.position_eq {text : List Char} {cursor : Cursor} (h : cursor.StandsIn text) :
    cursor.position = ⟨1 + Text.lineBreaks cursor.passed.reverse,
      1 + (Text.lastLine cursor.passed.reverse).length⟩ := by
  rw [h.position, Position.start_past]

theorem StandsIn.line {text : List Char} {cursor : Cursor} (h : cursor.StandsIn text) :
    ∃ start, (LineMap.linesFrom 0 text)[Text.lineBreaks cursor.passed.reverse]? = some start ∧
      start.text = Text.lastLine cursor.passed.reverse ++ cursor.rest ∧
      start.offset + Text.byteLength (Text.lastLine cursor.passed.reverse) = cursor.offset := by
  obtain ⟨start, found, text, place⟩ := LineMap.linesFrom_of_cut 0 h.cut
  rw [h.split] at found
  rw [Nat.zero_add, ← offset_eq] at place
  exact ⟨start, found, text, place⟩

theorem StandsIn.offsetOf {text : List Char} {cursor : Cursor} (h : cursor.StandsIn text) :
    (LineMap.ofText text).offsetOf cursor.position = cursor.offset := by
  obtain ⟨start, found, rest, place⟩ := h.line
  have begins : (LineMap.ofText text).lineStart? cursor.position.line = some start.offset := by
    rw [h.position_eq, Nat.add_comm, LineMap.lineStart?_succ, found]
    rfl
  have ahead : Text.dropBytes? start.offset (LineMap.ofText text).text = some start.text :=
    LineMap.dropBytes?_of_linesFrom found
  have column : cursor.position.column - 1 = (Text.lastLine cursor.passed.reverse).length := by
    rw [h.position_eq]
    exact Nat.add_sub_cancel_left 1 _
  simp only [LineMap.offsetOf, begins, ahead]
  rw [rest, column, List.take_left, place]

theorem StandsIn.position_le {text : List Char} {cursor : Cursor} (h : cursor.StandsIn text) :
    cursor.position.line ≤ 1 + Text.byteLength text ∧
      cursor.position.column ≤ 1 + Text.byteLength text := by
  have passed : cursor.passed.reverse.length ≤ Text.byteLength text := by
    have := Text.length_le_byteLength text
    rw [← h.split, List.length_append] at this
    rw [← h.split]
    omega
  have line := Text.lineBreaks_le_length cursor.passed.reverse
  have column : (Text.lastLine cursor.passed.reverse).length ≤ cursor.passed.reverse.length :=
    (List.rtakeWhile_suffix _ _).length_le
  rw [h.position_eq]
  constructor <;> simp only <;> omega

inductive Move where
  | advance
  | acceptChar (c : Char)
  | acceptBreak
  | skipLine

/-- The cursor after a call. One that fails changes nothing. -/
def move (cursor : Cursor) : Move → Cursor
  | .advance =>
    match cursor.advance with
    | .ok (_, next) => next
    | .error _ => cursor
  | .acceptChar c => (cursor.acceptChar? c).getD cursor
  | .acceptBreak => cursor.acceptBreak?.getD cursor
  | .skipLine => cursor.skipLine

def moves (cursor : Cursor) (calls : List Move) : Cursor :=
  calls.foldl move cursor

theorem StandsIn.accept {text : List Char} {cursor : Cursor} (h : cursor.StandsIn text)
    (wanted : Char → Bool) : ((cursor.accept? wanted).getD cursor).StandsIn text := by
  unfold accept?
  split
  · exact h
  · rename_i c rest ahead
    split
    · have split : (Text.first c rest).text ++ (Text.first c rest).rest = c :: rest :=
        Text.first_splits c rest
      have cut := Text.first_cutBehind c rest
      rw [← ahead] at split cut
      exact h.past ⟨_, split⟩ cut
    · exact h

theorem advance_eq_accept (cursor : Cursor) :
    cursor.move .advance = (cursor.accept? fun _ => true).getD cursor := by
  unfold move advance next? accept?
  cases cursor.rest with
  | nil => rfl
  | cons c rest => rfl

theorem advance_of_rest {cursor : Cursor} {c : Char} {rest : List Char}
    (ahead : cursor.rest = c :: rest) :
    cursor.advance = .ok ((Text.first c rest).value, cursor.past (Text.first c rest).text) := by
  simp only [advance, next?, ahead]

theorem advance_eq_ok {cursor next : Cursor} {c : Char} (h : cursor.advance = .ok (c, next)) :
    ∃ d rest, cursor.rest = d :: rest ∧ next = cursor.past (Text.first d rest).text := by
  cases ahead : cursor.rest with
  | nil => simp [advance, next?, ahead] at h
  | cons d rest =>
    rw [advance_of_rest ahead] at h
    cases h
    exact ⟨d, rest, rfl, rfl⟩

theorem StandsIn.skipLine {text : List Char} {cursor : Cursor} (h : cursor.StandsIn text) :
    cursor.skipLine.StandsIn text := by
  have eol := h.past (List.takeWhile_prefix (!Text.isBreak ·))
    (Text.cutBehind_of_not_mem (Text.span_not_mem (by decide) cursor.rest) cursor.rest)
  exact eol.accept Text.isBreak

theorem StandsIn.move {text : List Char} {cursor : Cursor} (h : cursor.StandsIn text)
    (call : Move) : (cursor.move call).StandsIn text := by
  cases call with
  | advance =>
    rw [advance_eq_accept]
    exact h.accept _
  | acceptChar c => exact h.accept (· == c)
  | acceptBreak => exact h.accept Text.isBreak
  | skipLine => exact h.skipLine

theorem StandsIn.moves {text : List Char} {cursor : Cursor} (h : cursor.StandsIn text)
    (calls : List Move) : (cursor.moves calls).StandsIn text := by
  induction calls generalizing cursor with
  | nil => exact h
  | cons call calls ih => exact ih (h.move call)

theorem rest_past_first {cursor : Cursor} {c : Char} {rest behind after : List Char}
    (split : (Text.first c rest).text ++ behind ++ after = cursor.rest)
    (left : (Text.first c rest).rest = behind ++ after) :
    cursor.rest = c :: rest ∧ (cursor.past (Text.first c rest).text).rest = behind ++ after := by
  have whole : (Text.first c rest).Splits (c :: rest) := Text.first_splits c rest
  have ahead : cursor.rest = c :: rest := by
    rw [← split, List.append_assoc, ← left]
    exact whole
  refine ⟨ahead, ?_⟩
  rw [← left]
  exact rest_past_splits (ahead ▸ whole)

/-- A cursor can be advanced to every place at which its text may be cut. -/
theorem exists_moves_past (cursor : Cursor) {front after : List Char}
    (split : front ++ after = cursor.rest) (cut : Text.Cut front after) :
    ∃ calls, (cursor.moves calls).passed.reverse = cursor.passed.reverse ++ front := by
  induction cut using Text.cut_induction generalizing cursor with
  | nil after => exact ⟨[], by simp [moves]⟩
  | step c rest behind after left _ _ ih =>
    -- one step may pass two characters, but never more than lie in front of the cut
    obtain ⟨ahead, further⟩ := rest_past_first split left
    have step : cursor.move .advance = cursor.past (Text.first c rest).text := by
      rw [move, advance_of_rest ahead]
    obtain ⟨calls, arrives⟩ := ih (cursor.past (Text.first c rest).text) further.symm
    refine ⟨.advance :: calls, ?_⟩
    rw [moves, List.foldl_cons, step]
    exact arrives.trans (by simp [Cursor.past])

/-- Whatever calls are made, a cursor stands inside of no "\r\n", its line and its column count the
line breaks and the characters that it has passed, and the line map leads from its position back to
its offset. The lines of the map begin at the places where a cursor can have column 1. -/
theorem moves_agree_with_lines (text : List Char) :
    (∀ calls : List Move,
      let cursor := (ofText text).moves calls
      ∃ before after, before ++ after = text ∧ cursor.rest = after ∧
        cursor.offset = Text.byteLength before ∧
        ¬ (before.getLast? = some '\r' ∧ after.head? = some '\n') ∧
        cursor.position.line = 1 + Text.lineBreaks before ∧
        cursor.position.column = 1 + (Text.lastLine before).length ∧
        cursor.position.line ≤ 1 + Text.byteLength text ∧
        cursor.position.column ≤ 1 + Text.byteLength text ∧
        (LineMap.ofText text).offsetOf cursor.position = cursor.offset) ∧
    ∀ line offset, (LineMap.ofText text).lineStart? line = some offset ↔
      ∃ calls, ((ofText text).moves calls).position = ⟨line, 1⟩ ∧
        ((ofText text).moves calls).offset = offset := by
  constructor
  · intro calls cursor
    have h : cursor.StandsIn text := (ofText_standsIn text).moves calls
    refine ⟨cursor.passed.reverse, cursor.rest, h.split, rfl, offset_eq cursor, ?_, ?_, ?_,
      h.position_le.1, h.position_le.2, h.offsetOf⟩
    · rintro ⟨last, head⟩
      exact h.cut last head
    · rw [h.position_eq]
    · rw [h.position_eq]
  · intro line offset
    constructor
    · intro found
      cases line with
      | zero => contradiction
      | succ n =>
        rw [LineMap.lineStart?_succ] at found
        obtain ⟨start, at_line, rfl⟩ := Option.map_eq_some_iff.mp found
        -- the start of a line is a cut of the text, and moves lead to every cut
        obtain ⟨before, split, cut, count, last, place⟩ := LineMap.cut_of_linesFrom 0 at_line
        obtain ⟨calls, arrives⟩ := exists_moves_past (ofText text) split cut
        have h := (ofText_standsIn text).moves calls
        have passed : ((ofText text).moves calls).passed.reverse = before := arrives
        refine ⟨calls, ?_, ?_⟩
        · rw [h.position_eq, passed, count, last, Nat.add_comm]
          rfl
        · rw [offset_eq, passed, place, Nat.zero_add]
    · rintro ⟨calls, position, rfl⟩
      have h := (ofText_standsIn text).moves calls
      obtain ⟨start, found, _, place⟩ := h.line
      have here := h.position_eq
      rw [position, Position.mk.injEq] at here
      obtain ⟨rfl, column⟩ := here
      -- in column 1 no character of the line has been passed
      have last : Text.lastLine ((ofText text).moves calls).passed.reverse = [] := by
        apply List.length_eq_zero_iff.mp
        omega
      rw [last, Text.byteLength_nil, Nat.add_zero] at place
      rw [Nat.add_comm, LineMap.lineStart?_succ, found, ← place]
      rfl

end Offside.Cursor
