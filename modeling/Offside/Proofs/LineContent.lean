import Offside.Proofs.LexerSteps

/-!
Lines with and without content, told from their texts. A line holds nothing if it is made of spaces
and tabs and perhaps a comment, and these are the lines that a lexer skips.
-/

namespace Offside

/-- A line of spaces and tabs, with a comment or without, up to one of the given ends. -/
def IsBare (ends : List (List Char)) (line : List Char) : Prop :=
  ∃ indent remark last, line = indent ++ (remark ++ last) ∧ (∀ c ∈ indent, c = ' ' ∨ c = '\t') ∧
    (remark = [] ∨ ∃ inside, remark = '#' :: inside ∧ ∀ c ∈ inside, c ≠ '\n' ∧ c ≠ '\r') ∧
    last ∈ ends

/-- A bare line, up to any line break or to the end of the text. -/
def HoldsNothing (line : List Char) : Prop :=
  IsBare [[], ['\n'], ['\r'], ['\r', '\n']] line

/-- The spaces and tabs at the front of a text. -/
def margin (text : List Char) : List Char :=
  text.takeWhile fun c => c = ' ' || c = '\t'

theorem Text.not_isBreak_iff {c : Char} : isBreak c = false ↔ c ≠ '\n' ∧ c ≠ '\r' := by
  simp [isBreak]

namespace Text

/-- The lines of a text, each with the line break that ends it. -/
def lines : List Char → List (List Char)
  | [] => []
  | c :: rest =>
    if endsLine c rest then [c] :: lines rest
    else
      match lines rest with
      | [] => [[c]]
      | line :: more => (c :: line) :: more

theorem lines_cons_of_not_isBreak {c : Char} (inside : isBreak c = false) {text line : List Char}
    {more : List (List Char)} (h : lines text = line :: more) :
    lines (c :: text) = (c :: line) :: more := by
  have goes : endsLine c text = false := by
    simp only [isBreak, Bool.or_eq_false_iff, decide_eq_false_iff_not] at inside
    simp [endsLine, inside]
  rw [lines, if_neg (by simp [goes]), h]

theorem lines_append {front : List Char} (inside : ∀ c ∈ front, isBreak c = false)
    {text line : List Char} {more : List (List Char)} (h : lines text = line :: more) :
    lines (front ++ text) = (front ++ line) :: more := by
  induction front with
  | nil => exact h
  | cons c front ih =>
    obtain ⟨first, later⟩ := List.forall_mem_cons.mp inside
    exact lines_cons_of_not_isBreak first (ih later)

theorem lines_of_not_isBreak {front : List Char} (inside : ∀ c ∈ front, isBreak c = false)
    (some : front ≠ []) : lines front = [front] := by
  induction front with
  | nil => exact absurd rfl some
  | cons c front ih =>
    obtain ⟨first, later⟩ := List.forall_mem_cons.mp inside
    by_cases last : front = []
    · subst last
      have goes : endsLine c [] = false := by
        simp only [isBreak, Bool.or_eq_false_iff, decide_eq_false_iff_not] at first
        simp [endsLine, first]
      simp [lines, goes]
    · exact lines_cons_of_not_isBreak first (ih later last)

theorem lines_first {c : Char} (ends : isBreak c = true) (rest : List Char) :
    lines (c :: rest) = (first c rest).text :: lines (first c rest).rest := by
  rcases first_cases c rest with ⟨behind, rfl, rfl, e⟩ | ⟨rfl, single, e⟩ | ⟨other, e⟩
  · rw [e]
    rfl
  · rw [e, lines, if_pos (by simp [endsLine, single])]
  · have lf : c = '\n' := by simpa [isBreak, other] using ends
    rw [e, lines, if_pos (by simp [endsLine, lf])]

end Text

theorem Text.first_text_mem {c : Char} (h : isBreak c = true) (rest : List Char) :
    (first c rest).text ∈ [['\n'], ['\r'], ['\r', '\n']] := by
  rcases first_cases c rest with ⟨_, _, _, e⟩ | ⟨_, _, e⟩ | ⟨other, e⟩
  · simp [e]
  · simp [e]
  · have lf : c = '\n' := by simpa [isBreak, other] using h
    rw [e, lf]
    exact List.mem_cons_self

theorem margin_append {indent rest : List Char} (blank : ∀ c ∈ indent, c = ' ' ∨ c = '\t')
    (stops : ∀ c ∈ rest.head?, c ≠ ' ' ∧ c ≠ '\t') : margin (indent ++ rest) = indent := by
  have split : Text.Reading.span Line.isIndent (indent ++ rest) =
      { value := indent, text := indent, rest } :=
    Text.Reading.span_append (fun c member => Line.isIndent_iff.mpr (blank c member))
      fun c first => by simpa [Line.isIndent] using stops c first
  exact congrArg Text.Reading.text split

theorem margin_eq_self {indent : List Char} (blank : ∀ c ∈ indent, c = ' ' ∨ c = '\t') :
    margin indent = indent := by
  have whole : margin (indent ++ []) = indent := margin_append blank (by simp)
  rwa [List.append_nil] at whole

theorem HoldsNothing.cases {indent rest : List Char} (h : HoldsNothing (indent ++ rest))
    (blank : ∀ c ∈ indent, c = ' ' ∨ c = '\t') (stops : ∀ c ∈ rest.head?, c ≠ ' ' ∧ c ≠ '\t') :
    ∀ c ∈ rest.head?, Text.isBreak c = true ∨ c = '#' := by
  obtain ⟨front, remark, last, split, inside, comment, ends⟩ := h
  have first : ∀ c ∈ (remark ++ last).head?, Text.isBreak c = true ∨ c = '#' := by
    rcases comment with rfl | ⟨_, rfl, _⟩
    · simp only [List.mem_cons, List.not_mem_nil, or_false] at ends
      rcases ends with rfl | rfl | rfl | rfl <;> simp [Text.isBreak]
    · simp
  -- both are the spaces and tabs at the front
  have same : indent = front := by
    rw [← margin_append blank stops, split]
    refine margin_append inside fun c member => ?_
    rcases first c member with ends | rfl
    · constructor <;> rintro rfl <;> contradiction
    · decide
  rw [same] at split
  rwa [List.append_cancel_left split]

namespace Line

variable (text : List Char)

theorem read_text_eq : (read text).text = (read text).indent ++
    ((readPieces (text.dropWhile isIndent)).pieces.flatMap Piece.text ++
      (readPieces (text.dropWhile isIndent)).ending.text) :=
  List.append_assoc ..

/-- A line is its indentation and, unless the text ends there, what begins with the character
behind. -/
theorem read_cases :
    (text.dropWhile isIndent = [] ∧ (read text).text = (read text).indent) ∨
      ∃ c rest more, text.dropWhile isIndent = c :: rest ∧ c ≠ ' ' ∧ c ≠ '\t' ∧
        (read text).text = (read text).indent ++ c :: more := by
  have stops := List.head?_dropWhile_not isIndent text
  rw [read_text_eq]
  cases behind : text.dropWhile isIndent with
  | nil => simp [readPieces, Ending.text]
  | cons c rest =>
    rw [behind] at stops
    have whole := readPieces_text (c :: rest)
    obtain ⟨d, more, front⟩ :=
      List.exists_cons_of_ne_nil (readPieces_text_ne_nil (List.cons_ne_nil c rest))
    rw [front, List.cons_append] at whole
    obtain ⟨rfl, _⟩ := List.cons.inj whole
    have other : isIndent d = false := by simpa using stops
    have apart : d ≠ ' ' ∧ d ≠ '\t' := by simpa [isIndent] using other
    rw [front]
    exact .inr ⟨d, rest, more, rfl, apart.1, apart.2, rfl⟩

theorem indent_blank : ∀ c ∈ (read text).indent, c = ' ' ∨ c = '\t' := fun c member =>
  isIndent_iff.mp (Text.Reading.span_inside isIndent text c member)

theorem margin_read : margin (read text).text = (read text).indent := by
  rcases read_cases text with ⟨_, whole⟩ | ⟨c, _, more, _, space, tab, whole⟩
  · rw [whole, margin_eq_self (indent_blank text)]
  · rw [whole]
    refine margin_append (indent_blank text) ?_
    rintro _ ⟨⟩
    exact ⟨space, tab⟩

theorem read_of_not_isEmpty {text : List Char} (h : (read text).isEmpty = false) :
    ∃ c rest, text = (read text).indent ++ c :: rest ∧
      isIndent c = false ∧ Text.isBreak c = false ∧ c ≠ '#' := by
  have split : (read text).indent ++ text.dropWhile isIndent = text := indent_append_rest text
  rw [isEmpty_read] at h
  rcases read_cases text with ⟨behind, _⟩ | ⟨c, rest, _, behind, space, tab, _⟩
  · rw [behind] at h
    contradiction
  · rw [behind] at h split
    exact ⟨c, rest, split.symm, by simp [isIndent, space, tab], by simpa using h⟩

theorem holdsNothing_of_isEmpty {text : List Char} (h : (read text).isEmpty = true) :
    HoldsNothing (read text).text := by
  have blank := indent_blank text
  rw [isEmpty_read] at h
  rw [read_text_eq]
  cases behind : text.dropWhile isIndent with
  | nil => exact ⟨_, [], [], by simp [readPieces, Ending.text], blank, .inl rfl, by simp⟩
  | cons c rest =>
    rw [behind] at h
    have first : Text.isBreak c = true ∨ c = '#' := by simpa using h
    rcases first with ends | rfl
    · have text : (readPieces (c :: rest)).pieces.flatMap Piece.text ++
          (readPieces (c :: rest)).ending.text = (Text.first c rest).text := by
        rw [readPieces, if_pos ends]
        rfl
      rw [text]
      exact ⟨_, [], _, rfl, blank, .inl rfl, .tail _ (Text.first_text_mem ends rest)⟩
    · rw [readPieces_comment]
      obtain ⟨body, inside, ⟨_, e⟩ | ⟨c, more, ends, _, e⟩⟩ := comment_cases rest
      · rw [e]
        exact ⟨_, '#' :: body, [], by simp [Ending.text], blank,
          .inr ⟨body, rfl, fun c member => Text.not_isBreak_iff.mp (inside c member)⟩, by simp⟩
      · rw [e]
        exact ⟨_, '#' :: body, _, rfl, blank,
          .inr ⟨body, rfl, fun c member => Text.not_isBreak_iff.mp (inside c member)⟩,
          .tail _ (Text.first_text_mem ends more)⟩

/-- The lines that a lexer skips are those whose texts hold nothing. -/
theorem isEmpty_iff_holdsNothing : (read text).isEmpty = true ↔ HoldsNothing (read text).text := by
  constructor
  · exact holdsNothing_of_isEmpty
  · intro nothing
    rw [isEmpty_read]
    rcases read_cases text with ⟨behind, _⟩ | ⟨c, rest, more, behind, space, tab, whole⟩
    · rw [behind]
      rfl
    · rw [whole] at nothing
      have first := nothing.cases (indent_blank text) (by simpa using ⟨space, tab⟩) c rfl
      rw [behind]
      simpa using first

end Line

end Offside
