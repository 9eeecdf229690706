import Offside.Proofs.LineStarts

/-!
Where the lines of a text end. A line map counts the columns of a position from the beginning of its
line without a look at where the line ends. So a column leads into its line as long as it is at most
one past the characters of the line, and for the last line always; any other column leads behind it.
-/

namespace Offside

namespace Text

@[simp] theorem byteLength_eq_zero_iff {text : List Char} : byteLength text = 0 ↔ text = [] := by
  constructor
  · intro empty
    have := length_le_byteLength text
    exact List.length_eq_zero_iff.mp (by omega)
  · rintro rfl
    rfl

theorem byteLength_take_le (text : List Char) (n : Nat) :
    byteLength (text.take n) ≤ byteLength text := by
  have whole := congrArg byteLength (List.take_append_drop n text)
  rw [byteLength_append] at whole
  omega

/-- A line of a text, the `n`th one from 1: what stands between two line breaks, or between one and
an end of the text. -/
structure IsLine (text : List Char) (n : Nat) (before line behind : List Char) : Prop where
  split : before ++ line ++ behind = text
  whole : Cut before (line ++ behind)
  number : lineBreaks before + 1 = n
  front : lastLine before = []
  inside : ∀ c ∈ line, isBreak c = false
  ends : ∀ c ∈ behind.head?, isBreak c = true

end Text

namespace LineMap

variable {text : List Char} {n start : Nat}

theorem exists_isLine (found : (ofText text).lineStart? n = some start) :
    ∃ before line behind, Text.IsLine text n before line behind ∧ start = Text.byteLength before := by
  cases n with
  | zero => contradiction
  | succ n =>
    rw [lineStart?_succ] at found
    obtain ⟨here, line, rfl⟩ := Option.map_eq_some_iff.mp found
    obtain ⟨before, split, cut, count, last, place⟩ := cut_of_linesFrom 0 line
    have halves := List.takeWhile_append_dropWhile (p := (!Text.isBreak ·)) (l := here.text)
    refine ⟨before, here.text.takeWhile (!Text.isBreak ·), here.text.dropWhile (!Text.isBreak ·),
      { split := by rw [List.append_assoc, halves, split]
        whole := halves.symm ▸ cut
        number := by rw [count]
        front := last
        inside := fun c member => by simpa using List.mem_takeWhile_imp member
        ends := fun c member => ?_ }, by rw [place, Nat.zero_add]⟩
    have := List.head?_dropWhile_not (!Text.isBreak ·) here.text
    rw [member] at this
    simpa using this

theorem offsetOf_eq (found : (ofText text).lineStart? n = some start) {before rest : List Char}
    (split : before ++ rest = text) (place : start = Text.byteLength before) (column : Nat) :
    (ofText text).offsetOf ⟨n, column⟩ = start + Text.byteLength (rest.take (column - 1)) := by
  have ahead : Text.dropBytes? start (ofText text).text = some rest := by
    rw [place]
    exact Text.dropBytes?_byteLength split
  simp only [offsetOf, found, ahead]

/-- The columns of a line, counted in bytes. They lead past the line if and only if something stands
behind the line and the column is more than one past its characters. -/
theorem byteLength_take_line (line behind : List Char) (column : Nat) :
    let bytes := Text.byteLength ((line ++ behind).take (column - 1))
    (bytes ≤ Text.byteLength line ↔ column ≤ line.length + 1 ∨ behind = []) ∧
      (bytes ≤ Text.byteLength line → line.length < column → bytes = Text.byteLength line) := by
  intro bytes
  by_cases within : column ≤ line.length + 1
  · have front : (line ++ behind).take (column - 1) = line.take (column - 1) :=
      List.take_append_of_le_length (by omega)
    have le : bytes ≤ Text.byteLength line := by
      simp only [bytes, front]
      exact Text.byteLength_take_le line _
    refine ⟨by simp [le, within], fun _ past => ?_⟩
    simp only [bytes, front]
    rw [List.take_of_length_le (by omega)]
  · have further : bytes =
        Text.byteLength line + Text.byteLength (behind.take (column - 1 - line.length)) := by
      simp only [bytes]
      rw [List.take_append, List.take_of_length_le (show line.length ≤ column - 1 by omega),
        Text.byteLength_append]
    have none : Text.byteLength (behind.take (column - 1 - line.length)) = 0 ↔ behind = [] := by
      rw [Text.byteLength_eq_zero_iff, List.take_eq_nil_iff]
      exact or_iff_right (by omega)
    refine ⟨⟨fun le => .inr (none.mp (by omega)), ?_⟩, fun le _ => by omega⟩
    rintro (inside | last)
    · contradiction
    · have := none.mpr last
      omega

/-- The offset of a position on a line that exists is that of a place in the text behind the start
of the line. It lies on the line if and only if its column is at most one past the characters of the
line, or the line is the last one, and then a column past the end gives the end. -/
theorem offsetOf_le_lineEnd_iff (found : (ofText text).lineStart? n = some start) :
    ∃ before line behind, Text.IsLine text n before line behind ∧
      start = Text.byteLength before ∧ ∀ column,
        let offset := (ofText text).offsetOf ⟨n, column⟩
        let lineEnd := start + Text.byteLength line
        offset = start + Text.byteLength ((line ++ behind).take (column - 1)) ∧
        (offset ≤ lineEnd ↔ column ≤ line.length + 1 ∨ behind = []) ∧
        (offset ≤ lineEnd → line.length < column → offset = lineEnd) := by
  obtain ⟨before, line, behind, isLine, place⟩ := exists_isLine found
  refine ⟨before, line, behind, isLine, place, fun column => ?_⟩
  have split : before ++ (line ++ behind) = text := by
    rw [← List.append_assoc, isLine.split]
  obtain ⟨within, ends⟩ := byteLength_take_line line behind column
  intro offset lineEnd
  have value : offset = start + Text.byteLength ((line ++ behind).take (column - 1)) :=
    offsetOf_eq found split place column
  simp only [value, lineEnd, Nat.add_le_add_iff_left, Nat.add_left_cancel_iff]
  exact ⟨trivial, within, ends⟩

theorem offsetOf_le_lineEnd_iff_second :
    let text := ['a', '\r', '\n', 'é', '\n', 'b']
    (ofText text).lineStart? 2 = some 3 ∧
      ∃ before line behind, Text.IsLine text 2 before line behind ∧ 3 = Text.byteLength before ∧
        ((ofText text).offsetOf ⟨2, 3⟩ ≤ 3 + Text.byteLength line ↔
          3 ≤ line.length + 1 ∨ behind = []) := by
  intro text
  have found : (ofText text).lineStart? 2 = some 3 := by decide
  obtain ⟨before, line, behind, isLine, place, columns⟩ := offsetOf_le_lineEnd_iff found
  exact ⟨found, before, line, behind, isLine, place, (columns 3).2.1⟩

/-- Past the end of a line that is not the last one, columns lead into the lines below. -/
theorem offsetOf_runs_on :
    let text := ['a', '\n', 'b', 'c']
    Text.IsLine text 1 [] ['a'] ['\n', 'b', 'c'] ∧
      (ofText text).lineStart? 1 = some 0 ∧ (ofText text).lineStart? 2 = some 2 ∧
        (ofText text).offsetOf ⟨1, 4⟩ = 3 ∧
          ¬(ofText text).offsetOf ⟨1, 4⟩ ≤ Text.byteLength ['a'] := by
  intro text
  have line : Text.IsLine text 1 [] ['a'] ['\n', 'b', 'c'] :=
    { split := rfl
      whole := Text.cut_nil_left _
      number := rfl
      front := rfl
      inside := by simp [Text.isBreak]
      ends := by simp [Text.isBreak] }
  exact ⟨line, by decide, by decide, by decide, by decide⟩

end LineMap

end Offside
