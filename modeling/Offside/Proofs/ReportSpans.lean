import Offside.Proofs.CursorMoves
import Offside.Proofs.LineEnds
import Offside.Report

/-!
What a report shows of its text. The text is sliced twice to find it, where the line of the error
begins and at the offset of the error, and both places are known in bytes only. Whatever the position
of the error is, they lie between characters, and what the report shows is one whole character, or
nothing at the end of the text.
-/

namespace Offside

namespace LineMap

/-- The byte offset of a position, if the text can be sliced where its line begins. -/
def offsetOf? (map : LineMap) (p : Position) : Option Nat :=
  (map.lineStart? p.line).elim (some (Text.byteLength map.text)) fun start =>
    (Text.dropBytes? start map.text).map fun line =>
      start + Text.byteLength (line.take (p.column - 1))

theorem dropBytes?_lineStart {text : List Char} {n start : Nat}
    (found : (ofText text).lineStart? n = some start) :
    ∃ before rest, before ++ rest = text ∧ start = Text.byteLength before ∧
      Text.dropBytes? start text = some rest := by
  obtain ⟨before, line, behind, isLine, rfl⟩ := exists_isLine found
  have split : before ++ (line ++ behind) = text := by
    rw [← List.append_assoc, isLine.split]
  exact ⟨before, line ++ behind, split, rfl, Text.dropBytes?_byteLength split⟩

theorem le_of_mem_starts {text : List Char} {start : Nat}
    (member : start ∈ (ofText text).starts) : start ≤ Text.byteLength text := by
  obtain ⟨n, found⟩ := List.mem_iff_getElem?.mp member
  have line : (ofText text).lineStart? (n + 1) = some start := found
  obtain ⟨before, rest, split, rfl, _⟩ := dropBytes?_lineStart line
  rw [← split, Text.byteLength_append]
  omega

theorem offsetOf?_eq (text : List Char) (p : Position) :
    (ofText text).offsetOf? p = some ((ofText text).offsetOf p) := by
  cases found : (ofText text).lineStart? p.line with
  | none => simp only [offsetOf?, offsetOf, found, Option.elim_none]
  | some start =>
    obtain ⟨_, rest, _, _, sliced⟩ := dropBytes?_lineStart found
    have ahead : Text.dropBytes? start (ofText text).text = some rest := sliced
    simp only [offsetOf?, offsetOf, found, ahead, Option.elim_some, Option.map_some]

/-- Every position leads to a place between characters, or to an end of the text. -/
theorem offsetOf_splits (text : List Char) (p : Position) :
    ∃ before after, before ++ after = text ∧ (ofText text).offsetOf p = Text.byteLength before := by
  cases found : (ofText text).lineStart? p.line with
  | none =>
    -- a line that does not exist, be it line 0, stands for the end of the text
    refine ⟨text, [], List.append_nil text, ?_⟩
    simp only [offsetOf, found]
    rfl
  | some start =>
    obtain ⟨before, rest, split, place, _⟩ := dropBytes?_lineStart found
    refine ⟨before ++ rest.take (p.column - 1), rest.drop (p.column - 1), ?_, ?_⟩
    · rw [List.append_assoc, List.take_append_drop, split]
    · rw [Text.byteLength_append, ← place]
      exact offsetOf_eq found split place p.column

/-- The position of a place in a text leads back to that place. -/
theorem offsetOf_start_past {before after : List Char} (cut : Text.Cut before after) :
    (ofText (before ++ after)).offsetOf (Position.start.past before) = Text.byteLength before := by
  have fresh := Cursor.ofText_standsIn (before ++ after)
  have there := fresh.past ⟨after, rfl⟩ (Text.cutBehind_iff.mpr cut)
  have offset := Cursor.offset_past (Cursor.ofText (before ++ after)) before
  exact (there.offsetOf.trans offset).trans (Nat.zero_add _)

end LineMap

namespace Report

def ofError? (file : String) (text : List Char) (e : LexError) (d : Diagnostic) :
    Option Report := do
  let offset ← (LineMap.ofText text).offsetOf? e.position
  let ahead ← Text.dropBytes? offset text
  return { file
           title := d.codeText ++ ": " ++ d.text
           offset
           length := (ahead.head?.map Char.utf8Size).getD 0
           label := e.fault.text }

/-- A report shows one whole character of a text, or nothing at the end of it. -/
structure Spans (report : Report) (text before there behind : List Char) : Prop where
  split : before ++ there ++ behind = text
  offset : report.offset = Text.byteLength before
  length : report.length = Text.byteLength there
  whole : there = [] ∧ behind = [] ∨ ∃ c, there = [c]

section

variable {report : Report} {text before there behind : List Char}

theorem Spans.offset_add_length_le (h : report.Spans text before there behind) :
    report.offset + report.length ≤ Text.byteLength text := by
  rw [h.offset, h.length, ← h.split, Text.byteLength_append, Text.byteLength_append]
  omega

theorem Spans.length_eq_zero_iff (h : report.Spans text before there behind) :
    report.length = 0 ↔ report.offset = Text.byteLength text := by
  rw [h.offset, h.length, ← h.split, Text.byteLength_append, Text.byteLength_append]
  rcases h.whole with ⟨rfl, rfl⟩ | ⟨c, rfl⟩
  · simp
  · have := c.utf8Size_pos
    rw [Text.byteLength_cons]
    omega

end

variable {file : String} {text before after : List Char} {e : LexError} {d : Diagnostic}

/-- A report shows the first character behind the place that the position of its error leads to. -/
theorem ofError_spans (split : before ++ after = text)
    (place : (LineMap.ofText text).offsetOf e.position = Text.byteLength before) :
    (ofError file text e d).Spans text before (after.take 1) (after.drop 1) where
  split := by rw [List.append_assoc, List.take_append_drop, split]
  offset := place
  length := by
    simp only [ofError, place, Text.dropBytes?_byteLength split, Option.bind_some]
    cases after <;> rfl
  whole := by
    cases after with
    | nil => exact .inl ⟨rfl, rfl⟩
    | cons c rest => exact .inr ⟨c, rfl⟩

theorem ofError?_eq (file : String) (text : List Char) (e : LexError) (d : Diagnostic) :
    ofError? file text e d = some (ofError file text e d) := by
  obtain ⟨before, after, split, place⟩ := LineMap.offsetOf_splits text e.position
  have sliced := Text.dropBytes?_byteLength split
  simp only [ofError?, ofError, LineMap.offsetOf?_eq, place, sliced, Option.bind_eq_bind,
    Option.bind_some, Option.pure_def]

/-- A report can be made for every error, wherever its position leads: the text is sliced between
characters only, at offsets that are no larger than the text. The stretch that the report shows is
one whole character, or nothing at the end of the text, and it is the character at the place of the
error if the position is that of a place in the text. -/
theorem ofError_spans_character (file : String) (text : List Char) (e : LexError)
    (d : Diagnostic) :
    let report := ofError file text e d
    let size := Text.byteLength text
    ofError? file text e d = some report ∧
    (∀ start ∈ (LineMap.ofText text).starts, start ≤ size) ∧
    (∃ before there behind, report.Spans text before there behind) ∧
    (report.length = 0 ↔ report.offset = size) ∧
    report.offset + report.length ≤ size ∧
    ∀ front rest, front ++ rest = text → Text.Cut front rest →
      e.position = Position.start.past front →
        report.Spans text front (rest.take 1) (rest.drop 1) := by
  intro report size
  obtain ⟨before, after, split, place⟩ := LineMap.offsetOf_splits text e.position
  have spans : report.Spans text before (after.take 1) (after.drop 1) := ofError_spans split place
  refine ⟨ofError?_eq file text e d, fun _ => LineMap.le_of_mem_starts, ⟨_, _, _, spans⟩,
    spans.length_eq_zero_iff, spans.offset_add_length_le, ?_⟩
  intro front rest parts cut position
  apply ofError_spans parts
  rw [position, ← parts]
  exact LineMap.offsetOf_start_past cut

theorem ofError_spans_character_second_line :
    let text := ['a', '\r', '\n', 'é']
    let e : LexError := ⟨.unrecognizedOperator 'é', ⟨2, 1⟩⟩
    let report := ofError "a.snek" text e (e.diagnostic none)
    3 ∈ (LineMap.ofText text).starts ∧ 3 ≤ Text.byteLength text ∧
      Text.Cut ['a', '\r', '\n'] ['é'] ∧
        e.position = Position.start.past ['a', '\r', '\n'] ∧
          report.Spans text ['a', '\r', '\n'] ['é'] [] := by
  intro text e report
  have second : 3 ∈ (LineMap.ofText text).starts := by decide
  have cut : Text.Cut ['a', '\r', '\n'] ['é'] := fun last => absurd last (by decide)
  have position : e.position = Position.start.past ['a', '\r', '\n'] := by decide
  obtain ⟨_, starts, _, _, _, places⟩ :=
    ofError_spans_character "a.snek" text e (e.diagnostic none)
  exact ⟨second, starts 3 second, cut, position, places _ ['é'] rfl cut position⟩

end Report

end Offside
