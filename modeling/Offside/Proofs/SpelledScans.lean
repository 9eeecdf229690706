import Offside.Proofs.ScanCuts

namespace Offside

namespace Text

def Spaced (after : List Char) : Prop :=
  ∀ c ∈ after.head?, c = ' '

theorem spaced_nil : Spaced [] := by
  intro c member
  contradiction

theorem spaced_space (rest : List Char) : Spaced (' ' :: rest) := by
  intro c member
  exact (Option.some.inj member).symm

theorem Spaced.stops {after : List Char} (h : Spaced after) {p : Char → Bool}
    (space : p ' ' = false) : ∀ c ∈ after.head?, p c = false := by
  intro c member
  rw [h c member]
  exact space

theorem Spaced.not_mem {after : List Char} (h : Spaced after) {c : Char} (other : c ≠ ' ') :
    c ∉ after.head? := by
  intro member
  exact other (h c member)

theorem Reading.span_inside (p : Char → Bool) (text : List Char) :
    ∀ c ∈ (span p text).text, p c = true :=
  fun _ member => List.mem_takeWhile_imp member

theorem Reading.span_stops (p : Char → Bool) (text : List Char) :
    ∀ c ∈ (span p text).rest.head?, p c = false := by
  intro c member
  have stops := List.head?_dropWhile_not p text
  have head : (text.dropWhile p).head? = some c := member
  simpa [head] using stops

theorem Reading.span_append {p : Char → Bool} {text after : List Char}
    (inside : ∀ c ∈ text, p c = true) (stops : ∀ c ∈ after.head?, p c = false) :
    span p (text ++ after) = { value := text, text, rest := after } := by
  have none : after.takeWhile p = [] ∧ after.dropWhile p = after := by
    cases after with
    | nil => exact ⟨rfl, rfl⟩
    | cons c after =>
      have other : p c = false := stops c rfl
      constructor
      · simp [other]
      · simp [other]
  simp only [span, List.takeWhile_append_of_pos inside, List.dropWhile_append_of_pos inside,
    none.1, none.2, List.append_nil]

end Text

namespace Punct

theorem exists_longest? {q : Punct} {text : List Char} (front : q.spelling <+: text) :
    ∃ p, longest? text = some p := by
  have found : (longest? text).isSome = true := by
    rw [longest?, List.find?_isSome]
    exact ⟨q, mem_all q, by simpa using front⟩
  exact Option.isSome_iff_exists.mp found

theorem length_le_of_longest? {p q : Punct} {text : List Char} (h : longest? text = some p)
    (front : q.spelling <+: text) : q.spelling.length ≤ p.spelling.length := by
  obtain ⟨_, before, behind, split, shorter⟩ := List.find?_eq_some_iff_append.mp h
  have sorted := all_sorted
  have member := mem_all q
  rw [split] at sorted member
  rcases List.mem_append.mp member with early | late
  · have fits : q.spelling.isPrefixOf text = true := List.isPrefixOf_iff_prefix.mpr front
    have other := shorter q early
    rw [fits] at other
    contradiction
  · rcases List.mem_cons.mp late with rfl | later
    · exact Nat.le_refl _
    · exact (List.pairwise_cons.mp (List.pairwise_append.mp sorted).2.1).1 q later

theorem longest?_spelling (p : Punct) {after : List Char} (spaced : Text.Spaced after) :
    longest? (p.spelling ++ after) = some p := by
  have front : p.spelling <+: p.spelling ++ after := List.prefix_append _ _
  obtain ⟨q, found⟩ := exists_longest? front
  obtain ⟨more, same⟩ := List.prefix_of_prefix_length_le front (spelling_prefix_of_longest? found)
    (length_le_of_longest? found front)
  -- a longer punctuator would reach the space
  have none : more = [] := by
    cases more with
    | nil => rfl
    | cons c more =>
      have within := spelling_prefix_of_longest? found
      rw [← same, List.prefix_append_right_inj] at within
      have space : c = ' ' := spaced c (by obtain ⟨rest, rfl⟩ := within; rfl)
      have member : ' ' ∈ q.spelling := by
        rw [← same, ← space]
        simp
      exact absurd member (Lexeme.blank_not_mem_spelling (by decide) q)
  rw [none, List.append_nil] at same
  rw [found, spelling_injective same]

end Punct

namespace Lexeme

/-- `text` is scanned as a lexeme of this kind where a space or nothing follows it. -/
def Spells (text : List Char) (kind : Token.Kind) : Prop :=
  ∀ after, Text.Spaced after → ∃ c rest, text ++ after = c :: rest ∧
    scan c rest = .ok { value := kind, text, rest := after }

/-- An ASCII letter, '_' or '$'. -/
def BeginsWord (c : Char) : Prop :=
  ('A' ≤ c ∧ c ≤ 'Z') ∨ ('a' ≤ c ∧ c ≤ 'z') ∨ c = '_' ∨ c = '$'

/-- A character that may begin a word, or an ASCII digit. -/
def InWord (c : Char) : Prop :=
  BeginsWord c ∨ ('0' ≤ c ∧ c ≤ '9')

theorem isWordStart_iff {c : Char} : isWordStart c = true ↔ BeginsWord c := by
  have upper : c.isUpper = true ↔ 'A' ≤ c ∧ c ≤ 'Z' := decide_eq_true_iff
  have lower : c.isLower = true ↔ 'a' ≤ c ∧ c ≤ 'z' :=
    (Bool.and_eq_true_iff).trans (and_congr decide_eq_true_iff decide_eq_true_iff)
  have letter : c.isAlpha = true ↔ c.isUpper = true ∨ c.isLower = true := Bool.or_eq_true_iff
  simp only [isWordStart, BeginsWord, Bool.or_eq_true, decide_eq_true_eq]
  rw [letter, upper, lower, or_assoc, or_assoc]

theorem isDigit_iff {c : Char} : c.isDigit = true ↔ '0' ≤ c ∧ c ≤ '9' :=
  (Bool.and_eq_true_iff).trans (and_congr decide_eq_true_iff decide_eq_true_iff)

theorem isWordPart_iff {c : Char} : isWordPart c = true ↔ InWord c := by
  rw [isWordPart, Bool.or_eq_true, isWordStart_iff, isDigit_iff, InWord]

theorem isWordPart_eq_false_iff {c : Char} : isWordPart c = false ↔ ¬InWord c := by
  rw [← isWordPart_iff, Bool.not_eq_true]

theorem toNat_of_isWordStart {c : Char} (h : isWordStart c = true) :
    65 ≤ c.toNat ∧ c.toNat ≤ 90 ∨ 97 ≤ c.toNat ∧ c.toNat ≤ 122 ∨ c = '_' ∨ c = '$' := by
  have range := isWordStart_iff.mp h
  simp only [BeginsWord, Char.le_def, UInt32.le_iff_toNat_le] at range
  exact range

theorem toNat_of_isDigit {c : Char} (h : c.isDigit = true) : 48 ≤ c.toNat ∧ c.toNat ≤ 57 := by
  simp only [Char.isDigit, Bool.and_eq_true, decide_eq_true_eq, UInt32.le_iff_toNat_le,
    ge_iff_le] at h
  exact h

theorem isWordStart_of_isDigit {c : Char} (h : c.isDigit = true) : isWordStart c = false := by
  have digit := toNat_of_isDigit h
  rw [← Bool.not_eq_true]
  intro word
  rcases toNat_of_isWordStart word with upper | lower | rfl | rfl
  · omega
  · omega
  · contradiction
  · contradiction

theorem isSign_of_isDigit {c : Char} (h : c.isDigit = true) : isSign c = false := by
  rw [← Bool.not_eq_true]
  intro sign
  simp only [isSign, Bool.or_eq_true, decide_eq_true_eq] at sign
  rcases sign with rfl | rfl <;> contradiction

theorem isQuote_eq_false {p : Char → Bool} {c : Char} (double : p '"' = false)
    (single : p '\'' = false) (h : p c = true) : isQuote c = false := by
  rw [← Bool.not_eq_true]
  intro quote
  simp only [isQuote, Bool.or_eq_true, decide_eq_true_eq] at quote
  rcases quote with rfl | rfl
  · rw [double] at h
    contradiction
  · rw [single] at h
    contradiction

/-- A word that may be reserved. -/
structure IsWord (text : List Char) : Prop where
  begins : ∃ c, text.head? = some c ∧ BeginsWord c
  inside : ∀ c ∈ text, InWord c

theorem isWord_iff {text : List Char} :
    IsWord text ↔ text.head?.any isWordStart = true ∧ text.all isWordPart = true := by
  simp only [Option.any_eq_true, List.all_eq_true, isWordStart_iff, isWordPart_iff]
  exact ⟨fun h => ⟨h.begins, h.inside⟩, fun h => ⟨h.1, h.2⟩⟩

theorem word_spells {text : List Char} (h : IsWord text) :
    Spells text (wordKind (String.ofList text)) := by
  intro after spaced
  obtain ⟨starts, parts⟩ := isWord_iff.mp h
  cases text with
  | nil => contradiction
  | cons c inner =>
    have first : isWordStart c = true := by simpa using starts
    have stops : ∀ d ∈ after.head?, isWordPart d = false := spaced.stops (by decide)
    refine ⟨c, inner ++ after, rfl, ?_⟩
    rw [scan, isQuote_eq_false (p := isWordStart) (by decide) (by decide) first, first, word,
      ← List.cons_append, Text.Reading.span_append (List.all_eq_true.mp parts) stops]
    rfl

theorem punct_spells (p : Punct) : Spells p.spelling (.punct p) := by
  intro after spaced
  have longest := p.longest?_spelling spaced
  have classes : ∃ c inner, p.spelling = c :: inner ∧ isQuote c = false ∧
      isWordStart c = false ∧ c.isDigit = false ∧ (p = .dot → inner = []) := by
    cases p <;> exact ⟨_, _, rfl, by decide, by decide, by decide, by decide⟩
  obtain ⟨c, inner, spelling, quote, word, digit, alone⟩ := classes
  have single : ¬(p = .dot ∧ (inner ++ after).head? = some '.') := by
    rintro ⟨dot, second⟩
    rw [alone dot, List.nil_append] at second
    have space := spaced '.' second
    contradiction
  have whole : p.spelling ++ after = c :: (inner ++ after) := by rw [spelling, List.cons_append]
  have left : (c :: (inner ++ after)).drop p.spelling.length = after := by
    rw [← whole, List.drop_left]
  rw [whole] at longest
  refine ⟨c, inner ++ after, whole, ?_⟩
  simp only [scan, quote, word, digit, Bool.false_eq_true, if_false, punctuator, longest,
    if_neg single, left]

/-- A run of digits, without underscores. -/
def IsDigits (text : List Char) : Prop :=
  text ≠ [] ∧ text.all Char.isDigit = true

inductive IsFraction : List Char → Prop where
  | none : IsFraction []
  | digits {ds : List Char} : IsDigits ds → IsFraction ('.' :: ds)

/-- An exponent with its letter in lower case, or nothing. -/
inductive IsExponent : List Char → Prop where
  | none : IsExponent []
  | digits {sign ds : List Char} : sign = [] ∨ sign = ['+'] ∨ sign = ['-'] → IsDigits ds →
      IsExponent ('e' :: (sign ++ ds))

section Number

variable {ds f e after : List Char}

theorem digits_append (h : ds.all Char.isDigit = true)
    (stops : ∀ c ∈ after.head?, isDigitOrUnderscore c = false) :
    digits (ds ++ after) = { value := ds, text := ds, rest := after } := by
  have inside : ∀ c ∈ ds, isDigitOrUnderscore c = true := by
    intro c member
    simp [isDigitOrUnderscore, List.all_eq_true.mp h c member]
  have plain : ds.filter (· != '_') = ds := by
    apply List.filter_eq_self.mpr
    intro c member
    have digit := List.all_eq_true.mp h c member
    have other : c ≠ '_' := by
      rintro rfl
      contradiction
    simpa using other
  rw [digits, Text.Reading.span_append inside stops, Text.Reading.map, plain]

theorem IsDigits.head (h : IsDigits ds) (after : List Char) :
    ∃ c inner, ds ++ after = c :: inner ∧ c.isDigit = true := by
  obtain ⟨some, all⟩ := h
  cases ds with
  | nil => contradiction
  | cons c inner => exact ⟨c, inner ++ after, rfl, List.all_eq_true.mp all c (by simp)⟩

theorem digitsOr_append (missing : Fault) (h : IsDigits ds)
    (stops : ∀ c ∈ after.head?, isDigitOrUnderscore c = false) :
    digitsOr missing (ds ++ after) = .ok { value := ds, text := ds, rest := after } := by
  obtain ⟨c, inner, ahead, digit⟩ := h.head after
  have begins : (ds ++ after).head?.any Char.isDigit = true := by
    rw [ahead]
    simpa using digit
  rw [digitsOr, if_pos begins, digits_append h.2 stops]

theorem fraction_append (h : IsFraction f)
    (stops : ∀ c ∈ after.head?, isDigitOrUnderscore c = false) (point : '.' ∉ after.head?) :
    fraction (f ++ after) = .ok { value := f, text := f, rest := after } := by
  cases h with
  | none =>
    rw [List.nil_append, fraction]
    rintro rest rfl
    exact point rfl
  | digits h =>
    rw [List.cons_append, fraction, digitsOr_append _ h stops]
    rfl

theorem sign_append {s : List Char} (h : s = [] ∨ s = ['+'] ∨ s = ['-']) (ahead : IsDigits ds)
    (after : List Char) :
    sign (s ++ (ds ++ after)) = { value := s, text := s, rest := ds ++ after } := by
  obtain ⟨c, inner, begins, digit⟩ := ahead.head after
  have other := isSign_of_isDigit digit
  rcases h with rfl | rfl | rfl
  · rw [begins]
    simp [sign, other]
  · rfl
  · rfl

theorem exponent_append (h : IsExponent e)
    (stops : ∀ c ∈ after.head?, isDigitOrUnderscore c = false)
    (lower : 'e' ∉ after.head?) (upper : 'E' ∉ after.head?) :
    exponent (e ++ after) = .ok { value := e, text := e, rest := after } := by
  cases h with
  | none =>
    cases after with
    | nil => rfl
    | cons c after =>
      have other : ¬(c = 'e' ∨ c = 'E') := by
        rintro (rfl | rfl)
        · exact lower rfl
        · exact upper rfl
      simp [exponent, other]
  | @digits sign ds signed h =>
    rw [List.cons_append, List.append_assoc, exponent, if_pos (.inl rfl), Scan.ofReading,
      sign_append signed h, digitsOr_append _ h stops]
    simp [Scan.mapValue, Scan.after, Text.Reading.map, Text.Reading.after]

theorem number_append {whole : List Char} (hw : IsDigits whole) (hf : IsFraction f)
    (he : IsExponent e) (spaced : Text.Spaced after) :
    number (whole ++ (f ++ (e ++ after))) =
      .ok { value := numberKind whole f e, text := whole ++ (f ++ e), rest := after } := by
  have behind : ∀ c ∈ (e ++ after).head?, isDigitOrUnderscore c = false := by
    cases he with
    | none => exact spaced.stops (by decide)
    | digits => rintro c ⟨⟩; decide
  have noPoint : '.' ∉ (e ++ after).head? := by
    cases he with
    | none => exact spaced.not_mem (by decide)
    | digits => rintro ⟨⟩
  have behindWhole : ∀ c ∈ (f ++ (e ++ after)).head?, isDigitOrUnderscore c = false := by
    cases hf with
    | none => exact behind
    | digits => rintro c ⟨⟩; decide
  have exponent_ := exponent_append he (spaced.stops (by decide)) (spaced.not_mem (by decide))
    (spaced.not_mem (by decide))
  rw [number, digits_append hw.2 behindWhole, Scan.ofReading, fraction_append hf behind noPoint,
    Scan.andThen, Scan.ofReading, exponent_]
  rfl

theorem number_spells {whole : List Char} (hw : IsDigits whole) (hf : IsFraction f)
    (he : IsExponent e) : Spells (whole ++ (f ++ e)) (numberKind whole f e) := by
  intro after spaced
  obtain ⟨c, inner, ahead, digit⟩ := hw.head (f ++ (e ++ after))
  refine ⟨c, inner, by simpa using ahead, ?_⟩
  rw [scan, isQuote_eq_false (by decide) (by decide) digit, isWordStart_of_isDigit digit, digit,
    ← ahead, number_append hw hf he spaced]
  rfl

end Number

/-- `text` is how a literal in the quotes `quote` has the character `value` in it. -/
def Writes (quote : Char) (text : List Char) (value : Char) : Prop :=
  ∃ c inner, text = c :: inner ∧ c ≠ quote ∧
    ∀ rest, item c (inner ++ rest) = .ok { value, text, rest }

def quoted : Char → List Char
  | '"' => ['\\', '"']
  | '\\' => ['\\', '\\']
  | '\r' => ['\\', 'r']
  | c => [c]

theorem quoted_writes (value : Char) : Writes '"' (quoted value) value := by
  unfold quoted
  split
  · exact ⟨_, _, rfl, by decide, fun rest => rfl⟩
  · exact ⟨_, _, rfl, by decide, fun rest => rfl⟩
  · exact ⟨_, _, rfl, by decide, fun rest => rfl⟩
  · rename_i quote backslash cr
    refine ⟨value, [], rfl, quote, fun rest => ?_⟩
    simp only [item, Text.first, if_neg backslash, if_neg cr]
    rfl

theorem body_append {quote : Char} {write : Char → List Char}
    (writes : ∀ c, Writes quote (write c) c) (value after : List Char) :
    body quote (value.flatMap write ++ quote :: after) =
      .ok { value, text := value.flatMap write ++ [quote], rest := after } := by
  induction value with
  | nil =>
    rw [List.flatMap_nil, List.nil_append, body_cons, if_pos rfl]
    rfl
  | cons c value ih =>
    obtain ⟨d, inner, text, other, item⟩ := writes c
    rw [List.flatMap_cons, text, List.append_assoc, List.cons_append, body_cons, if_neg other,
      item, Scan.andThen, Scan.ofReading, ih, text]
    simp [Scan.mapValue, Scan.after, Text.Reading.map, Text.Reading.after]

theorem stringLiteral_spells {quote : Char} (quotes : isQuote quote = true)
    {write : Char → List Char} (writes : ∀ c, Writes quote (write c) c) (value : List Char) :
    Spells (quote :: (value.flatMap write ++ [quote])) (.str (String.ofList value)) := by
  intro after _
  refine ⟨quote, value.flatMap write ++ quote :: after, by simp, ?_⟩
  rw [scan, if_pos quotes, stringLiteral, body_append writes]
  rfl

theorem isBlank_of_visible {c : Char} (low : 33 ≤ c.toNat) (high : c.toNat ≤ 126) :
    Text.isBlank c = false := by
  rw [← Bool.not_eq_true, Text.isBlank, Text.Ranges.contains_iff]
  rintro ⟨r, member, inside⟩
  have outside : ∀ r ∈ Text.whiteSpace, r.2 < 33 ∨ 126 < r.1 := by decide
  have apart := outside r member
  omega

theorem first_of_scan {c : Char} {rest : List Char} {r : Text.Reading Token.Kind}
    (h : scan c rest = .ok r) : Text.isBlank c = false ∧ c ≠ '#' := by
  unfold scan at h
  split at h
  · rename_i quote
    simp only [isQuote, Bool.or_eq_true, decide_eq_true_eq] at quote
    rcases quote with rfl | rfl <;> decide
  · split at h
    · rename_i word
      constructor
      · rcases toNat_of_isWordStart word with upper | lower | rfl | rfl
        · exact isBlank_of_visible (by omega) (by omega)
        · exact isBlank_of_visible (by omega) (by omega)
        · decide
        · decide
      · rintro rfl
        contradiction
    · split at h
      · rename_i digit
        have range := toNat_of_isDigit digit
        constructor
        · exact isBlank_of_visible (by omega) (by omega)
        · rintro rfl
          contradiction
      · unfold punctuator at h
        split at h
        · rename_i p found
          obtain ⟨more, same⟩ := Punct.spelling_prefix_of_longest? found
          cases p <;> (cases same; decide)
        · contradiction

end Lexeme

end Offside
