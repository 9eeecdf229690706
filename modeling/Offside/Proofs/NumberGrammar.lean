import Mathlib.Computability.Language
import Offside.Proofs.LiteralGrammar
import Offside.Proofs.Respelling

/-!
The grammar of numbers. A numeral is a run of digits, perhaps with a fraction and perhaps with an
exponent behind it. The scan of a number reads the longest numeral at the front of a text, without
ever going back, and refuses a text in which that numeral looks as if it should go on.
-/

namespace Offside

/-- `front` is the longest front of a text that belongs to a language. -/
structure Text.Longest (l : Language Char) (text front : List Char) : Prop where
  begins : front <+: text
  mem : front ∈ l
  length_le : ∀ other ∈ l, other <+: text → other.length ≤ front.length

namespace Numeral

def run : Language Char :=
  {text | ∃ first more, text = first :: more ∧ first.isDigit = true ∧
    ∀ c ∈ more, c.isDigit = true ∨ c = '_'}

def point : Language Char := {['.']}

def letter : Language Char := {['e'], ['E']}

def sign : Language Char := {['+'], ['-']}

def optional (l : Language Char) : Language Char := 1 + l

def fraction : Language Char := optional (point * run)

def exponent : Language Char := optional (letter * (optional sign * run))

def numeral : Language Char := run * (fraction * exponent)

def hasFraction (text : List Char) : Bool :=
  text.contains '.'

def hasExponent (text : List Char) : Bool :=
  text.contains 'e' || text.contains 'E'

/-- What a numeral is as a token. -/
def kind (text : List Char) : Token.Kind :=
  if hasFraction text || hasExponent text then .float (String.ofList (Lexeme.canonical text))
  else .int (String.ofList (Lexeme.canonical text))

/-- The text behind a numeral begins like a part that the numeral does not have and that is not
there: the fault in it and what of it lies before the fault. -/
inductive Dangling (text : List Char) : List Char → Fault → List Char → Prop where
  | point {rest : List Char} : hasFraction text = false → hasExponent text = false →
      Dangling text ('.' :: rest) .missingFractionDigits ['.']
  | signed {letter sign : Char} {rest : List Char} : hasExponent text = false →
      letter = 'e' ∨ letter = 'E' → sign = '+' ∨ sign = '-' →
        Dangling text (letter :: sign :: rest) .missingExponentDigits [letter, sign]
  | unsigned {letter : Char} {rest : List Char} : hasExponent text = false →
      letter = 'e' ∨ letter = 'E' → (∀ c ∈ rest.head?, ¬(c = '+' ∨ c = '-')) →
        Dangling text (letter :: rest) .missingExponentDigits [letter]

theorem Dangling.unique {text after first second : List Char} {fault other : Fault}
    (h : Dangling text after fault first) (again : Dangling text after other second) :
    fault = other ∧ first = second := by
  cases h with
  | point =>
    cases again with
    | point => exact ⟨rfl, rfl⟩
    | signed _ begins => exact absurd begins (by decide)
    | unsigned _ begins => exact absurd begins (by decide)
  | signed _ begins signs =>
    cases again with
    | point => exact absurd begins (by decide)
    | signed => exact ⟨rfl, rfl⟩
    | unsigned _ _ none => exact absurd signs (none _ rfl)
  | unsigned _ begins none =>
    cases again with
    | point => exact absurd begins (by decide)
    | signed _ _ signs => exact absurd signs (none _ rfl)
    | unsigned => exact ⟨rfl, rfl⟩

theorem mem_run_iff {text : List Char} :
    text ∈ run ↔ text.head?.any Char.isDigit = true ∧
      ∀ c ∈ text, Lexeme.isDigitOrUnderscore c = true := by
  constructor
  · rintro ⟨first, more, rfl, digit, inside⟩
    refine ⟨digit, ?_⟩
    intro c member
    rcases List.mem_cons.mp member with rfl | later
    · simp [Lexeme.isDigitOrUnderscore, digit]
    · simpa [Lexeme.isDigitOrUnderscore] using inside c later
  · rintro ⟨begins, inside⟩
    cases text with
    | nil => contradiction
    | cons first more =>
      refine ⟨first, more, rfl, begins, fun c later => ?_⟩
      simpa [Lexeme.isDigitOrUnderscore] using inside c (List.mem_cons_of_mem first later)

theorem mem_fraction_iff {text : List Char} :
    text ∈ fraction ↔ text = [] ∨ ∃ ds ∈ run, text = '.' :: ds := by
  constructor
  · rintro (none | ⟨_, rfl, ds, digits, rfl⟩)
    · exact .inl none
    · exact .inr ⟨ds, digits, rfl⟩
  · rintro (none | ⟨ds, digits, rfl⟩)
    · exact .inl none
    · exact .inr ⟨['.'], rfl, ds, digits, rfl⟩

theorem mem_exponent_iff {text : List Char} :
    text ∈ exponent ↔ text = [] ∨ ∃ c s, ∃ ds ∈ run, (c = 'e' ∨ c = 'E') ∧
      (s = [] ∨ s = ['+'] ∨ s = ['-']) ∧ text = c :: (s ++ ds) := by
  constructor
  · rintro (none | ⟨_, letter, _, ⟨s, signs, ds, digits, rfl⟩, rfl⟩)
    · exact .inl none
    · right
      rcases letter with rfl | rfl
      · exact ⟨'e', s, ds, digits, .inl rfl, signs, rfl⟩
      · exact ⟨'E', s, ds, digits, .inr rfl, signs, rfl⟩
  · rintro (none | ⟨c, s, ds, digits, begins, signs, rfl⟩)
    · exact .inl none
    · refine .inr ⟨[c], ?_, s ++ ds, ⟨s, signs, ds, digits, rfl⟩, rfl⟩
      rcases begins with rfl | rfl
      · exact .inl rfl
      · exact .inr rfl

theorem mem_numeral_iff {text : List Char} :
    text ∈ numeral ↔ ∃ w ∈ run, ∃ f ∈ fraction, ∃ e ∈ exponent, text = w ++ (f ++ e) := by
  constructor
  · rintro ⟨w, whole, _, ⟨f, hf, e, he, rfl⟩, rfl⟩
    exact ⟨w, whole, f, hf, e, he, rfl⟩
  · rintro ⟨w, whole, f, hf, e, he, rfl⟩
    exact ⟨w, whole, _, ⟨f, hf, e, he, rfl⟩, rfl⟩

theorem nil_mem_fraction : [] ∈ fraction :=
  mem_fraction_iff.mpr (.inl rfl)

theorem nil_mem_exponent : [] ∈ exponent :=
  mem_exponent_iff.mpr (.inl rfl)

/-- No exponent begins like a run, and none like a fraction. -/
theorem head_of_mem_exponent {text : List Char} (h : text ∈ exponent) {c : Char}
    (first : c ∈ text.head?) : c = 'e' ∨ c = 'E' := by
  rcases mem_exponent_iff.mp h with rfl | ⟨d, s, ds, _, letter, _, rfl⟩
  · contradiction
  · cases first
    exact letter

theorem heads_exponent {text : List Char} (h : text ∈ exponent) :
    ∀ c ∈ text.head?, Lexeme.isDigitOrUnderscore c = false := by
  intro c first
  rcases head_of_mem_exponent h first with rfl | rfl <;> decide

theorem heads_tail {text : List Char} (h : text ∈ fraction * exponent) :
    ∀ c ∈ text.head?, Lexeme.isDigitOrUnderscore c = false := by
  obtain ⟨f, hf, e, he, rfl⟩ := h
  rcases mem_fraction_iff.mp hf with rfl | ⟨ds, _, rfl⟩
  · exact heads_exponent he
  · rintro c ⟨⟩
    decide

end Numeral

namespace Lexeme

section Run

variable {text back : List Char} (begins : text.head?.any Char.isDigit = true)

include begins

theorem digits_mem_run : (digits text).text ∈ Numeral.run := by
  rw [Numeral.mem_run_iff]
  constructor
  · obtain ⟨c, rest, rfl⟩ : ∃ c rest, text = c :: rest := by
      cases text with
      | nil => contradiction
      | cons c rest => exact ⟨c, rest, rfl⟩
    have digit : c.isDigit = true := begins
    simp [digits, Text.Reading.map, Text.Reading.span, isDigitOrUnderscore, digit]
  · intro c member
    exact List.mem_takeWhile_imp member

/-- Behind the longest run of a text, the longest text of a language that does not go on like a
run. -/
theorem longest_run_mul {l : Language Char}
    (heads : ∀ x ∈ l, ∀ c ∈ x.head?, isDigitOrUnderscore c = false)
    (h : Text.Longest l (digits text).rest back) :
    Text.Longest (Numeral.run * l) text ((digits text).text ++ back) := by
  have split : (digits text).text ++ (digits text).rest = text := digits_splits text
  constructor
  · conv => rhs; rw [← split]
    exact (List.prefix_append_right_inj _).mpr h.begins
  · exact ⟨_, digits_mem_run begins, back, h.mem, rfl⟩
  · rintro _ ⟨w, whole, x, member, rfl⟩ ⟨z, rfl⟩
    have inside := (Numeral.mem_run_iff.mp whole).2
    rw [List.append_assoc] at h ⊢
    cases x with
    | nil =>
      simp [digits, Text.Reading.map, Text.Reading.span, List.takeWhile_append_of_pos inside]
    | cons c x =>
      have stops : ∀ d ∈ (c :: x ++ z).head?, isDigitOrUnderscore d = false := heads (c :: x) member
      have read : digits (w ++ (c :: x ++ z)) =
          { value := w.filter (· != '_'), text := w, rest := c :: x ++ z } := by
        rw [digits, Text.Reading.span_append inside stops]
        rfl
      rw [read] at h ⊢
      have shorter := h.length_le (c :: x) member (List.prefix_append _ _)
      simp only [List.length_append] at shorter ⊢
      omega

theorem longest_run : Text.Longest Numeral.run text (digits text).text := by
  have none : Text.Longest 1 (digits text).rest [] := by
    refine ⟨List.nil_prefix, rfl, ?_⟩
    rintro _ rfl _
    exact Nat.le_refl 0
  have longest := longest_run_mul begins (l := 1) (by rintro _ rfl _ ⟨⟩) none
  rwa [mul_one, List.append_nil] at longest

end Run

theorem sign_append_run {s ds : List Char} (signs : s = [] ∨ s = ['+'] ∨ s = ['-'])
    (digits : ds ∈ Numeral.run) (after : List Char) :
    (sign (s ++ (ds ++ after))).text = s ∧ (sign (s ++ (ds ++ after))).rest = ds ++ after := by
  obtain ⟨d, more, rfl, digit, _⟩ := digits
  have other := isSign_of_isDigit digit
  rcases signs with rfl | rfl | rfl
  · simp [sign, other]
  · exact ⟨rfl, rfl⟩
  · exact ⟨rfl, rfl⟩

section Exponent

variable {c : Char} {rest : List Char} (letter : c = 'e' ∨ c = 'E')

/-- An exponent at the front of a text has the letter and the sign that are read there, and what of
it lies behind them is a run. -/
theorem run_of_exponent {other : List Char} (h : other ∈ Numeral.exponent)
    (front : other <+: c :: rest) : other = [] ∨ ∃ ds ∈ Numeral.run,
      other = c :: ((sign rest).text ++ ds) ∧ ds <+: (sign rest).rest := by
  rcases Numeral.mem_exponent_iff.mp h with none | ⟨d, s, ds, digits, _, signs, rfl⟩
  · exact .inl none
  · right
    obtain ⟨after, whole⟩ := front
    rw [List.cons_append, List.append_assoc] at whole
    obtain ⟨rfl, rfl⟩ := List.cons.inj whole
    obtain ⟨read, left⟩ := sign_append_run signs digits after
    rw [read, left]
    exact ⟨ds, digits, rfl, List.prefix_append _ _⟩

include letter

theorem longest_exponent (begins : (sign rest).rest.head?.any Char.isDigit = true) :
    Text.Longest Numeral.exponent (c :: rest)
      (c :: ((sign rest).text ++ (digits (sign rest).rest).text)) := by
  have split : (sign rest).text ++ (sign rest).rest = rest := sign_splits rest
  have run := longest_run begins
  have signs : (sign rest).text = [] ∨ (sign rest).text = ['+'] ∨ (sign rest).text = ['-'] := by
    unfold sign
    split
    · split
      · rename_i is
        simpa [isSign] using is
      · exact .inl rfl
    · exact .inl rfl
  constructor
  · conv => rhs; rw [← split]
    exact List.cons_prefix_cons.mpr ⟨rfl, (List.prefix_append_right_inj _).mpr run.begins⟩
  · exact Numeral.mem_exponent_iff.mpr (.inr ⟨c, _, _, run.mem, letter, signs, rfl⟩)
  · intro other member front
    rcases run_of_exponent member front with rfl | ⟨ds, digits, rfl, within⟩
    · exact Nat.zero_le _
    · have shorter := run.length_le ds digits within
      simp only [List.length_cons, List.length_append]
      omega

theorem exponent_of_digits (begins : (sign rest).rest.head?.any Char.isDigit = true) :
    let text := c :: ((sign rest).text ++ (digits (sign rest).rest).text)
    let after := (digits (sign rest).rest).rest
    exponent (c :: rest) = .ok { value := canonical text, text, rest := after } ∧
      text ++ after = c :: rest := by
  intro text after
  have signed : (sign rest).text ++ (sign rest).rest = rest := sign_splits rest
  have whole : (digits (sign rest).rest).text ++ after = (sign rest).rest := digits_splits _
  have read : exponent (c :: rest) =
      .ok { value := 'e' :: (sign rest).value ++ (digits (sign rest).rest).value, text,
            rest := after } := by
    rw [exponent, if_pos letter, Scan.ofReading, digitsOr, if_pos begins]
    rfl
  have value : 'e' :: (sign rest).value ++ (digits (sign rest).rest).value = canonical text :=
    exponent_canonical _ _ read
  rw [value] at read
  exact ⟨read, by rw [List.cons_append, List.append_assoc, whole, signed]⟩

theorem dangling_letter {t : List Char} (free : Numeral.hasExponent t = false) :
    Numeral.Dangling t (c :: rest) .missingExponentDigits (c :: (sign rest).text) := by
  cases rest with
  | nil => exact .unsigned free letter (by simp)
  | cons d rest =>
    by_cases signed : d = '+' ∨ d = '-'
    · have is : isSign d = true := by simpa [isSign] using signed
      simp only [sign, is, if_true]
      exact .signed free letter signed
    · have other : isSign d = false := by simpa [isSign] using signed
      simp only [sign, other, Bool.false_eq_true, if_false]
      refine .unsigned free letter ?_
      rintro _ ⟨⟩
      exact signed

end Exponent

theorem longest_nil {l : Language Char} {text : List Char} (nil : [] ∈ l)
    (none : ∀ other ∈ l, other <+: text → other = []) : Text.Longest l text [] := by
  refine ⟨List.nil_prefix, nil, fun other member front => ?_⟩
  rw [none other member front]

/-- An exponent is read as far as it goes, or its letter stands there without digits. -/
theorem exponent_cases (text : List Char) :
    (∃ e after, exponent text = .ok { value := canonical e, text := e, rest := after } ∧
      e ++ after = text ∧ Text.Longest Numeral.exponent text e ∧
      (e = [] → ∀ c ∈ after.head?, ¬(c = 'e' ∨ c = 'E'))) ∨
    ∃ before, exponent text = .error { fault := .missingExponentDigits, before, text := before } ∧
      Text.Longest Numeral.exponent text [] ∧ ∀ t, Numeral.hasExponent t = false →
        Numeral.Dangling t text .missingExponentDigits before := by
  cases text with
  | nil =>
    have none : Text.Longest Numeral.exponent [] [] :=
      longest_nil Numeral.nil_mem_exponent fun other _ front => List.prefix_nil.mp front
    exact .inl ⟨[], [], rfl, rfl, none, by simp⟩
  | cons c rest =>
    by_cases letter : c = 'e' ∨ c = 'E'
    · by_cases begins : (sign rest).rest.head?.any Char.isDigit = true
      · left
        obtain ⟨read, split⟩ := exponent_of_digits letter begins
        exact ⟨_, _, read, split, longest_exponent letter begins, by simp⟩
      · right
        refine ⟨c :: (sign rest).text, ?_, ?_, fun t free => dangling_letter letter free⟩
        · rw [exponent, if_pos letter, Scan.ofReading, digitsOr, if_neg begins]
          simp [Scan.mapValue, Scan.after, Scan.Failure.after]
        · refine longest_nil Numeral.nil_mem_exponent fun other member front => ?_
          rcases run_of_exponent member front with none | ⟨_, ⟨d, more, rfl, digit, _⟩, _, within⟩
          · exact none
          · obtain ⟨after, behind⟩ := within
            rw [← behind] at begins
            exact absurd digit begins
    · left
      refine ⟨[], c :: rest, ?_, rfl, ?_, ?_⟩
      · rw [exponent, if_neg letter]
        rfl
      · refine longest_nil Numeral.nil_mem_exponent fun other member front => ?_
        cases other with
        | nil => rfl
        | cons d more =>
          obtain ⟨rfl, _⟩ := List.cons_prefix_cons.mp front
          exact absurd (Numeral.head_of_mem_exponent member rfl) letter
      · rintro _ d ⟨⟩
        exact letter

/-- What of a numeral may stand at a point is a run behind it, with an exponent or without. -/
theorem run_of_point {other rest : List Char} (h : other ∈ Numeral.fraction * Numeral.exponent)
    (front : other <+: '.' :: rest) : other = [] ∨ ∃ inner ∈ Numeral.run * Numeral.exponent,
      other = '.' :: inner ∧ inner <+: rest := by
  obtain ⟨f, hf, e, he, rfl⟩ := h
  rcases Numeral.mem_fraction_iff.mp hf with rfl | ⟨ds, digits, rfl⟩
  · cases e with
    | nil => exact .inl rfl
    | cons c e =>
      -- no exponent begins with the point
      obtain ⟨rfl, _⟩ := List.cons_prefix_cons.mp front
      exact absurd (Numeral.head_of_mem_exponent he rfl) (by decide)
  · exact .inr ⟨ds ++ e, ⟨ds, digits, e, he, rfl⟩, rfl, (List.cons_prefix_cons.mp front).2⟩

theorem longest_fraction {rest e : List Char} (begins : rest.head?.any Char.isDigit = true)
    (h : Text.Longest Numeral.exponent (digits rest).rest e) :
    Text.Longest (Numeral.fraction * Numeral.exponent) ('.' :: rest)
      ('.' :: (digits rest).text ++ e) := by
  have inner := longest_run_mul begins (fun _ => Numeral.heads_exponent) h
  have point : '.' :: (digits rest).text ∈ Numeral.fraction :=
    Numeral.mem_fraction_iff.mpr (.inr ⟨_, digits_mem_run begins, rfl⟩)
  constructor
  · exact List.cons_prefix_cons.mpr ⟨rfl, inner.begins⟩
  · exact ⟨_, point, e, h.mem, rfl⟩
  · intro other member front
    rcases run_of_point member front with rfl | ⟨more, within, rfl, behind⟩
    · exact Nat.zero_le _
    · exact Nat.succ_le_succ (inner.length_le more within behind)

/-- A fraction is read as far as it goes, or its point stands there without digits. -/
theorem fraction_cases (text : List Char) :
    (∃ f after, fraction text = .ok { value := canonical f, text := f, rest := after } ∧
      f ++ after = text ∧ f ∈ Numeral.fraction ∧ (f = [] → '.' ∉ after.head?) ∧
      ∀ e, Text.Longest Numeral.exponent after e →
        Text.Longest (Numeral.fraction * Numeral.exponent) text (f ++ e)) ∨
    fraction text = .error { fault := .missingFractionDigits, before := ['.'], text := ['.'] } ∧
      Text.Longest (Numeral.fraction * Numeral.exponent) text [] ∧
        ∃ after, text = '.' :: after := by
  by_cases point : ∃ rest, text = '.' :: rest
  · obtain ⟨rest, rfl⟩ := point
    by_cases begins : rest.head?.any Char.isDigit = true
    · left
      have split : (digits rest).text ++ (digits rest).rest = rest := digits_splits rest
      have read : fraction ('.' :: rest) =
          .ok { value := '.' :: (digits rest).value, text := '.' :: (digits rest).text,
                rest := (digits rest).rest } := by
        rw [fraction, digitsOr, if_pos begins]
        rfl
      have value : '.' :: (digits rest).value = canonical ('.' :: (digits rest).text) :=
        fraction_canonical _ _ read
      rw [value] at read
      exact ⟨_, _, read, by rw [List.cons_append, split],
        Numeral.mem_fraction_iff.mpr (.inr ⟨_, digits_mem_run begins, rfl⟩), by simp,
        fun e longest => longest_fraction begins longest⟩
    · right
      refine ⟨?_, longest_nil ?_ fun other member front => ?_, rest, rfl⟩
      · rw [fraction, digitsOr, if_neg begins]
        rfl
      · exact ⟨[], Numeral.nil_mem_fraction, [], Numeral.nil_mem_exponent, rfl⟩
      · rcases run_of_point member front with
          none | ⟨_, ⟨_, ⟨d, _, rfl, digit, _⟩, _, _, rfl⟩, _, behind⟩
        · exact none
        · obtain ⟨after, rfl⟩ := behind
          exact absurd digit begins
  · left
    have read : fraction text = .ok { value := [], text := [], rest := text } := by
      unfold fraction
      split
      · rename_i rest
        exact absurd ⟨rest, rfl⟩ point
      · rfl
    refine ⟨[], text, read, rfl, Numeral.nil_mem_fraction, fun _ first => ?_, fun e longest => ?_⟩
    · obtain ⟨rest, rfl⟩ := List.head?_eq_some_iff.mp first
      exact point ⟨rest, rfl⟩
    · refine ⟨longest.begins, ⟨[], Numeral.nil_mem_fraction, e, longest.mem, rfl⟩, ?_⟩
      rintro _ ⟨f, hf, x, hx, rfl⟩ ⟨behind, rfl⟩
      rcases Numeral.mem_fraction_iff.mp hf with rfl | ⟨ds, _, rfl⟩
      · exact longest.length_le x hx (List.prefix_append _ _)
      · exact absurd ⟨_, rfl⟩ point

end Lexeme

namespace Numeral

section Parts

variable {w f e : List Char} (hw : w ∈ run) (hf : f ∈ fraction) (he : e ∈ exponent)

theorem not_mem_run {c : Char} (other : Lexeme.isDigitOrUnderscore c = false) (h : w ∈ run) :
    c ∉ w := by
  intro member
  rw [(mem_run_iff.mp h).2 c member] at other
  contradiction

include hw in
theorem isDigits_canonical : Lexeme.IsDigits (Lexeme.canonical w) := by
  obtain ⟨d, more, rfl, digit, inside⟩ := hw
  have other : d ≠ '_' ∧ d ≠ 'E' := by
    constructor <;> (rintro rfl; contradiction)
  constructor
  · simp [Lexeme.canonical, other.1]
  · rw [List.all_eq_true]
    intro c member
    simp only [Lexeme.canonical, List.mem_map, List.mem_filter] at member
    obtain ⟨b, ⟨source, keeps⟩, rfl⟩ := member
    have digit : b.isDigit = true := by
      rcases List.mem_cons.mp source with rfl | later
      · exact digit
      · exact (inside b later).resolve_right (by simpa using keeps)
    have lower : b ≠ 'E' := by
      rintro rfl
      contradiction
    rwa [if_neg lower]

include hf in
theorem isFraction_canonical : Lexeme.IsFraction (Lexeme.canonical f) := by
  rcases mem_fraction_iff.mp hf with rfl | ⟨ds, digits, rfl⟩
  · exact .none
  · exact .digits (isDigits_canonical digits)

include he in
theorem isExponent_canonical : Lexeme.IsExponent (Lexeme.canonical e) := by
  rcases mem_exponent_iff.mp he with rfl | ⟨c, s, ds, digits, letter, signs, rfl⟩
  · exact .none
  · have front : Lexeme.canonical (c :: s) = 'e' :: s := by
      rcases letter with rfl | rfl <;> rcases signs with rfl | rfl | rfl <;> decide
    rw [← List.cons_append, Lexeme.canonical_append, front]
    exact .digits signs (isDigits_canonical digits)

include hw hf he

theorem hasFraction_eq : hasFraction (w ++ (f ++ e)) = !f.isEmpty := by
  have whole : '.' ∉ w := not_mem_run (by decide) hw
  have last : '.' ∉ e := by
    rcases mem_exponent_iff.mp he with rfl | ⟨c, s, ds, digits, letter, signs, rfl⟩
    · exact List.not_mem_nil
    · have run : '.' ∉ ds := not_mem_run (by decide) digits
      rcases letter with rfl | rfl <;> rcases signs with rfl | rfl | rfl <;> simp [run]
  rcases mem_fraction_iff.mp hf with rfl | ⟨ds, _, rfl⟩
  · simp [hasFraction, whole, last]
  · simp [hasFraction]

theorem hasExponent_eq : hasExponent (w ++ (f ++ e)) = !e.isEmpty := by
  have whole : 'e' ∉ w ∧ 'E' ∉ w := ⟨not_mem_run (by decide) hw, not_mem_run (by decide) hw⟩
  have middle : 'e' ∉ f ∧ 'E' ∉ f := by
    rcases mem_fraction_iff.mp hf with rfl | ⟨ds, digits, rfl⟩
    · exact ⟨List.not_mem_nil, List.not_mem_nil⟩
    · have lower : 'e' ∉ ds := not_mem_run (by decide) digits
      have upper : 'E' ∉ ds := not_mem_run (by decide) digits
      simp [lower, upper]
  rcases mem_exponent_iff.mp he with rfl | ⟨c, s, ds, _, letter, _, rfl⟩
  · simp [hasExponent, whole, middle]
  · rcases letter with rfl | rfl <;> simp [hasExponent]

theorem numberKind_eq : Lexeme.numberKind (Lexeme.canonical w) (Lexeme.canonical f)
    (Lexeme.canonical e) = kind (w ++ (f ++ e)) := by
  have first : (Lexeme.canonical f).isEmpty = f.isEmpty := by
    rcases mem_fraction_iff.mp hf with rfl | ⟨ds, _, rfl⟩ <;> rfl
  have second : (Lexeme.canonical e).isEmpty = e.isEmpty := by
    rcases mem_exponent_iff.mp he with rfl | ⟨c, s, ds, _, letter, _, rfl⟩
    · rfl
    · rcases letter with rfl | rfl <;> rfl
  rw [Lexeme.numberKind, kind, hasFraction_eq hw hf he, hasExponent_eq hw hf he, first, second,
    Lexeme.canonical_append, Lexeme.canonical_append, List.append_assoc]
  cases f.isEmpty <;> cases e.isEmpty <;> rfl

end Parts

theorem canonical_spells {text : List Char} (h : text ∈ numeral) :
    Lexeme.Spells (Lexeme.canonical text) (kind text) := by
  obtain ⟨w, hw, f, hf, e, he, rfl⟩ := mem_numeral_iff.mp h
  rw [← numberKind_eq hw hf he, Lexeme.canonical_append, Lexeme.canonical_append]
  exact Lexeme.number_spells (isDigits_canonical hw) (isFraction_canonical hf)
    (isExponent_canonical he)

end Numeral

namespace Lexeme

theorem number_cases {text : List Char} (begins : text.head?.any Char.isDigit = true) :
    ∃ t after, t ++ after = text ∧ Text.Longest Numeral.numeral text t ∧
      ((number text = .ok { value := Numeral.kind t, text := t, rest := after } ∧
          ∀ fault before, ¬Numeral.Dangling t after fault before) ∨
        ∃ fault before, (number text).fault? = some (fault, t ++ before) ∧
          Numeral.Dangling t after fault before) := by
  have run := digits_mem_run begins
  have split : (digits text).text ++ (digits text).rest = text := digits_splits text
  -- the fraction may lack its digits; if not, the exponent may; and without a part, what is behind
  -- does not begin like one
  rcases fraction_cases (digits text).rest with ⟨f, behind, read, parts, hf, noPoint, tail⟩ |
    ⟨fails, tail, behind, ahead⟩
  · rcases exponent_cases behind with ⟨e, after, last, whole, longest, noLetter⟩ |
      ⟨before, fails, longest, dangles⟩
    · have point := Numeral.hasFraction_eq run hf longest.mem
      have letter := Numeral.hasExponent_eq run hf longest.mem
      refine ⟨(digits text).text ++ (f ++ e), after, ?_,
        longest_run_mul begins (fun _ => Numeral.heads_tail) (tail e longest), .inl ⟨?_, ?_⟩⟩
      · rw [List.append_assoc, List.append_assoc, whole, parts, split]
      · rw [number, Scan.ofReading, read, Scan.andThen, Scan.ofReading, last, digits_canonical,
          ← Numeral.numberKind_eq run hf longest.mem]
        rfl
      · have empty (free : Numeral.hasExponent ((digits text).text ++ (f ++ e)) = false) :
            e = [] := by
          rw [letter] at free
          simpa using free
        intro fault before dangling
        cases dangling with
        | point none free =>
          rw [point] at none
          rw [empty free] at whole
          refine noPoint (by simpa using none) ?_
          rw [← whole]
          rfl
        | signed free begins => exact noLetter (empty free) _ rfl begins
        | unsigned free begins => exact noLetter (empty free) _ rfl begins
    · have free := Numeral.hasExponent_eq run hf Numeral.nil_mem_exponent
      refine ⟨(digits text).text ++ (f ++ []), behind, ?_,
        longest_run_mul begins (fun _ => Numeral.heads_tail) (tail [] longest),
        .inr ⟨_, before, ?_, dangles _ free⟩⟩
      · rw [List.append_nil, List.append_assoc, parts, split]
      · rw [number, Scan.ofReading, read, Scan.andThen, Scan.ofReading, fails]
        simp [Scan.mapValue, Scan.after, Scan.Failure.after, Scan.fault?]
  · have none := Numeral.hasFraction_eq run Numeral.nil_mem_fraction Numeral.nil_mem_exponent
    have free := Numeral.hasExponent_eq run Numeral.nil_mem_fraction Numeral.nil_mem_exponent
    have dangling : Numeral.Dangling ((digits text).text ++ ([] ++ [])) (digits text).rest
        .missingFractionDigits ['.'] := by
      rw [ahead]
      exact .point none free
    refine ⟨(digits text).text ++ ([] ++ []), (digits text).rest, ?_,
      longest_run_mul begins (fun _ => Numeral.heads_tail) tail, .inr ⟨_, ['.'], ?_, dangling⟩⟩
    · rw [List.append_nil, List.append_nil, split]
    · rw [number, Scan.ofReading, fails]
      simp [Scan.andThen, Scan.after, Scan.Failure.after, Scan.fault?]

/-- The scan of a number reads the longest numeral at the front of a text, as the token that the
numeral is, unless the text behind it begins like a part that the numeral does not have. Then the
digits of that part are missing. What the token carries is read as the same token again. -/
theorem number_exact {c : Char} (digit : c.isDigit = true) (rest : List Char) :
    ∃ t after, t ++ after = c :: rest ∧ Text.Longest Numeral.numeral (c :: rest) t ∧
      (∀ r, number (c :: rest) = .ok r ↔
        (∀ fault before, ¬Numeral.Dangling t after fault before) ∧
          r = { value := Numeral.kind t, text := t, rest := after }) ∧
      (∀ fault before, (number (c :: rest)).fault? = some (fault, before) ↔
        ∃ behind, before = t ++ behind ∧ Numeral.Dangling t after fault behind) ∧
      ∀ options, Lexer.tokenize (canonical t) options = .ok [⟨.start, Numeral.kind t⟩] := by
  have begins : (c :: rest).head?.any Char.isDigit = true := digit
  obtain ⟨t, after, split, longest, outcome⟩ := number_cases begins
  have again (options : Options) :=
    Lexer.tokenize_of_spells (Numeral.canonical_spells longest.mem) options
  refine ⟨t, after, split, longest, ?_, ?_, again⟩
  · intro r
    rcases outcome with ⟨read, complete⟩ | ⟨fault, before, fails, dangling⟩
    · rw [read, Except.ok.injEq, eq_comm]
      exact ⟨fun same => ⟨complete, same⟩, And.right⟩
    · constructor
      · intro read
        rw [read] at fails
        contradiction
      · rintro ⟨complete, _⟩
        exact absurd dangling (complete fault before)
  · intro fault before
    rcases outcome with ⟨read, complete⟩ | ⟨fault', behind, fails, dangling⟩
    · rw [read]
      constructor
      · intro fails
        contradiction
      · rintro ⟨behind, _, dangling⟩
        exact absurd dangling (complete fault behind)
    · rw [fails, Option.some.injEq, Prod.mk.injEq]
      constructor
      · rintro ⟨rfl, rfl⟩
        exact ⟨behind, rfl, dangling⟩
      · rintro ⟨other, rfl, again⟩
        obtain ⟨rfl, rfl⟩ := dangling.unique again
        exact ⟨rfl, rfl⟩

theorem number_exact_no_power :
    (number "1_0.5E+x".toList).fault? = some (.missingExponentDigits, "1_0.5E+".toList) ∧
    Text.Longest Numeral.numeral "1_0.5E+x".toList "1_0.5".toList ∧
    ∀ options, Lexer.tokenize "10.5".toList options = .ok [⟨.start, .float "10.5"⟩] := by
  have fails : (number "1_0.5E+x".toList).fault? =
      some (.missingExponentDigits, "1_0.5E+".toList) := by decide
  obtain ⟨t, after, split, longest, _, faults, again⟩ :=
    number_exact (c := '1') (by decide) "_0.5E+x".toList
  obtain ⟨behind, before, dangling⟩ := (faults _ _).mp fails
  obtain rfl : t = "1_0.5".toList := by
    cases dangling with
    | signed =>
      have split : "1_0.5".toList ++ ['E', '+'] = t ++ [_, _] := before
      exact (List.append_inj' split rfl).1.symm
    | unsigned _ letter =>
      have split : "1_0.5E".toList ++ ['+'] = t ++ [_] := before
      obtain ⟨rfl, _⟩ := List.cons.inj (List.append_inj' split rfl).2
      exact absurd letter (by decide)
  exact ⟨fails, longest, again⟩

end Lexeme

end Offside
