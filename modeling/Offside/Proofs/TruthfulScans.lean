import Offside.Proofs.Indentation
import Offside.Proofs.UnifiedText

/-!
What a fault says about its place. Every fault tells something of the text before its place and of
the text behind it, and whatever a scan reports is true in this sense, as long as what it needs to
know of the text in front of it is true.
-/

namespace Offside

/-- The character is a quote or a digit, or a word or a punctuator begins with it. -/
def StartsToken (c : Char) : Prop :=
  c = '"' ∨ c = '\'' ∨ ('0' ≤ c ∧ c ≤ '9') ∨ Lexeme.BeginsWord c ∨
    ∃ p : Punct, p.spelling.head? = some c

def NoDigitAhead (text : List Char) : Prop :=
  ∀ c, text.head? = some c → c.isDigit = false

def IsCodeUnit (digits : List Char) : Prop :=
  digits.length = 4 ∧ ∀ d ∈ digits, Text.Hex.isDigit d = true

/-- A line begins behind this text. -/
def LineBeginsBehind (before : List Char) : Prop :=
  ∀ c, before.getLast? = some c → Text.isBreak c = true

/-- A surrogate that has no partner in the text behind its escape. -/
def Unpaired (unit : Nat) (behind : List Char) : Prop :=
  Text.Utf16.isLow unit = true ∨
    Text.Utf16.isHigh unit = true ∧
      ∀ digits, IsCodeUnit digits → ['\\', 'u'] ++ digits <+: behind →
        Text.Utf16.isLow (Text.Hex.value digits) = false

/-- What a fault says of its place, which lies between `before` and `after`. -/
def Fault.TrueBetween (tabWidth : UInt32) (before after : List Char) : Fault → Prop
  | unexpectedEndOfInput => False
  | unterminatedString | unterminatedEscape => after = []
  | illegalHexDigit c =>
    after.head? = some c ∧ Text.Hex.isDigit c = false ∧
      ∃ digits, ['\\', 'u'] ++ digits <:+ before ∧ digits.length < 4 ∧
        ∀ d ∈ digits, Text.Hex.isDigit d = true
  | unrecognizedEscape c =>
    ['\\'] <:+ before ∧ after.head?.map Text.unifyBreak = some c ∧
      c ≠ 'u' ∧ Lexeme.shortEscape? c = none
  | missingFractionDigits =>
    (∃ d, Lexeme.isDigitOrUnderscore d = true ∧ [d, '.'] <:+ before) ∧ NoDigitAhead after
  | missingExponentDigits =>
    (∃ letter sign, letter ∈ ['e', 'E'] ∧ sign ∈ [[], ['+'], ['-']] ∧
      letter :: sign <:+ before) ∧ NoDigitAhead after
  | malformedSpread => ['.', '.'] <+: after ∧ ¬['.', '.', '.'] <+: after
  | malformedConditionalDot => ['?'] <+: after ∧ ¬['?', '.'] <+: after
  | unrecognizedOperator c => after.head? = some c ∧ ¬StartsToken c
  | indentationMismatch width =>
    LineBeginsBehind before ∧ 0 < width ∧
      ∃ indent c rest, after = indent ++ c :: rest ∧ (∀ d ∈ indent, Line.isIndent d = true) ∧
        Line.columns indent tabWidth = width ∧
        Line.isIndent c = false ∧ Text.isBreak c = false ∧ c ≠ '#'
  | invalidScalar unit =>
    ['\\'] <:+ before ∧
      ∃ digits behind, after = 'u' :: (digits ++ behind) ∧ IsCodeUnit digits ∧
        Text.Hex.value digits = unit ∧ Unpaired unit behind

namespace Text

theorem Hex.digit?_lt {c : Char} {n : Nat} (h : Hex.digit? c = some n) : n < 16 := by
  unfold Hex.digit? at h
  split at h
  · rename_i range
    have : c.toNat ≤ '9'.toNat := range.2
    cases h
    simp only [Char.reduceToNat] at *
    omega
  · split at h
    · rename_i range
      have : c.toNat ≤ 'f'.toNat := range.2
      cases h
      simp only [Char.reduceToNat] at *
      omega
    · split at h
      · rename_i range
        have : c.toNat ≤ 'F'.toNat := range.2
        cases h
        simp only [Char.reduceToNat] at *
        omega
      · contradiction

theorem Hex.value_lt (digits : List Char) : Hex.value digits < 16 ^ digits.length := by
  have from_ (n : Nat) : digits.foldl (fun n c => 16 * n + (Hex.digit? c).getD 0) n <
      (n + 1) * 16 ^ digits.length := by
    induction digits generalizing n with
    | nil => simp
    | cons c digits ih =>
      have small : (Hex.digit? c).getD 0 < 16 := by
        cases h : Hex.digit? c with
        | none => decide
        | some d => exact Hex.digit?_lt h
      calc (c :: digits).foldl (fun n c => 16 * n + (Hex.digit? c).getD 0) n
          < (16 * n + (Hex.digit? c).getD 0 + 1) * 16 ^ digits.length := ih _
        _ ≤ ((n + 1) * 16) * 16 ^ digits.length := Nat.mul_le_mul_right _ (by omega)
        _ = (n + 1) * 16 ^ (c :: digits).length := by
          rw [List.length_cons, Nat.pow_succ', Nat.mul_assoc]
  simpa [Hex.value] using from_ 0

theorem Utf16.isSurrogate_of_scalar? {n : Nat} (h : Utf16.scalar? n = none) (small : n < 65536) :
    Utf16.isHigh n = true ∨ Utf16.isLow n = true := by
  have apart : ¬n.isValidChar := by simpa [Utf16.scalar?] using h
  simp only [Nat.isValidChar, not_or, not_and] at apart
  simp only [Utf16.isHigh, Utf16.isLow, Bool.and_eq_true, decide_eq_true_eq]
  omega

theorem Utf16.isLow_of_pair? {high low : Nat} (h : Utf16.pair? high low = none)
    (first : Utf16.isHigh high = true) : Utf16.isLow low = false := by
  rw [← Bool.not_eq_true]
  intro second
  simp only [Utf16.isHigh, Utf16.isLow, Bool.and_eq_true, decide_eq_true_eq] at first second
  have valid : (0x10000 + (high - 0xD800) * 0x400 + (low - 0xDC00)).isValidChar := by
    right
    omega
  simp [Utf16.pair?, Utf16.isHigh, Utf16.isLow, first, second, Utf16.scalar?, valid] at h

end Text

namespace Scan

variable {tabWidth : UInt32} {front input : List Char}

def Truthful {α : Type} (tabWidth : UInt32) (front input : List Char) : Scan α → Prop
  | .ok _ => True
  | .error f =>
    f.fault.TrueBetween tabWidth (front ++ f.before) (input.drop f.before.length)

theorem Truthful.after {α : Type} (text : List Char) {s : Scan α}
    (h : s.Truthful tabWidth (front ++ text) input) :
    (s.after text).Truthful tabWidth front (text ++ input) := by
  cases s with
  | ok r => trivial
  | error f =>
    have place : (text ++ input).drop (text ++ f.before).length = input.drop f.before.length := by
      rw [List.length_append, ← List.drop_drop, List.drop_left]
    simp only [Scan.after, Truthful, Failure.after] at h ⊢
    rw [place, ← List.append_assoc]
    exact h

theorem Truthful.mapValue {α β : Type} {s : Scan α} (h : s.Truthful tabWidth front input)
    (f : α → β) : (s.mapValue f).Truthful tabWidth front input := by
  cases s with
  | ok r => trivial
  | error e => exact h

theorem Truthful.of_error {α : Type} {s : Scan α} {f : Failure}
    (h : s.Truthful tabWidth front input) (e : s = .error f) :
    f.fault.TrueBetween tabWidth (front ++ f.before) (input.drop f.before.length) := by
  subst e
  exact h

theorem ofReading_truthful {α β : Type} {r : Text.Reading α} {next : α → List Char → Scan β}
    (splits : r.Splits input)
    (hn : (next r.value r.rest).Truthful tabWidth (front ++ r.text) r.rest) :
    (ofReading r next).Truthful tabWidth front input := by
  have split : r.text ++ r.rest = input := splits
  subst split
  exact hn.after _

theorem Truthful.andThen {α β : Type} {s : Scan α} {next : α → List Char → Scan β}
    (splits : s.Splits input) (h : s.Truthful tabWidth front input)
    (hn : ∀ v front rest, (next v rest).Truthful tabWidth front rest) :
    (s.andThen next).Truthful tabWidth front input := by
  cases s with
  | ok r => exact ofReading_truthful splits (hn _ _ _)
  | error f => exact h

end Scan

namespace Lexeme

variable {tabWidth : UInt32} {front : List Char}

theorem digitsOr_truthful {missing : Fault} {text : List Char}
    (h : NoDigitAhead text → missing.TrueBetween tabWidth front text) :
    (digitsOr missing text).Truthful tabWidth front text := by
  unfold digitsOr
  split
  · trivial
  · rename_i none
    have ahead : NoDigitAhead text := by
      intro c head
      simpa [head] using none
    simpa [Scan.Truthful] using h ahead

theorem fraction_truthful (text : List Char)
    (digit : ∃ d, isDigitOrUnderscore d = true ∧ [d] <:+ front) :
    (fraction text).Truthful tabWidth front text := by
  obtain ⟨d, class_, last⟩ := digit
  unfold fraction
  split
  · rename_i rest
    refine Scan.Truthful.after ['.'] (Scan.Truthful.mapValue (digitsOr_truthful ?_) _)
    intro ahead
    obtain ⟨earlier, rfl⟩ := last
    exact ⟨⟨d, class_, earlier, by simp⟩, ahead⟩
  · trivial

theorem exponent_truthful (text : List Char) :
    (exponent text).Truthful tabWidth front text := by
  unfold exponent
  split
  · rename_i c rest
    split
    · rename_i letter
      refine Scan.Truthful.after [c] (Scan.ofReading_truthful (sign_splits rest) ?_)
      refine Scan.Truthful.mapValue (digitsOr_truthful ?_) _
      intro ahead
      have signed : (sign rest).text ∈ [[], ['+'], ['-']] := by
        unfold sign
        split
        · split
          · rename_i d _ signed
            simp only [isSign, Bool.or_eq_true, decide_eq_true_eq] at signed
            rcases signed with rfl | rfl <;> simp
          · simp
        · simp
      refine ⟨⟨c, (sign rest).text, by simpa using letter, signed, front, by simp⟩, ahead⟩
    · trivial
  · trivial

theorem number_truthful {c : Char} (h : c.isDigit = true) (rest : List Char) :
    (number (c :: rest)).Truthful tabWidth front (c :: rest) := by
  have some : (digits (c :: rest)).text ≠ [] := by
    simp [digits, Text.Reading.map, Text.Reading.span, isDigitOrUnderscore, h]
  have last : ∃ d, isDigitOrUnderscore d = true ∧ [d] <:+ front ++ (digits (c :: rest)).text := by
    obtain ⟨before, d, ends⟩ := (List.eq_nil_or_concat _).resolve_left some
    have member : d ∈ (c :: rest).takeWhile isDigitOrUnderscore := by
      show d ∈ (digits (c :: rest)).text
      simp [ends]
    refine ⟨d, List.mem_takeWhile_imp member, front ++ before, ?_⟩
    rw [ends, List.concat_eq_append, List.append_assoc]
  refine Scan.ofReading_truthful (digits_splits _) ?_
  refine Scan.Truthful.andThen (fraction_splits _) (fraction_truthful _ last) ?_
  intro f front rest
  exact (exponent_truthful rest).mapValue _

theorem first_of_spelling (p : Punct) :
    p = .questionDot ∨ ∃ q ∈ Punct.all, q.spelling = p.spelling.take 1 := by
  cases p <;> decide

theorem not_prefix_of_longest? {text : List Char} (h : Punct.longest? text = none) (p : Punct) :
    ¬p.spelling <+: text := by
  have unfit := List.find?_eq_none.mp h p p.mem_all
  rwa [List.isPrefixOf_iff_prefix] at unfit

/-- If no punctuator is at the front of a text, then none begins with the first character of the
text, whatever may follow it. -/
theorem longest?_eq_none {c : Char} {rest : List Char} (h : Punct.longest? (c :: rest) = none)
    (other : c ≠ '?') (after : List Char) : Punct.longest? (c :: after) = none := by
  cases found : Punct.longest? (c :: after) with
  | none => rfl
  | some p =>
    have front := Punct.spelling_prefix_of_longest? found
    rcases first_of_spelling p with rfl | ⟨q, _, single⟩
    · obtain ⟨behind, split⟩ := front
      injection split with head
      exact absurd head.symm other
    · have spelled : q.spelling = [c] := by
        cases letters : p.spelling with
        | nil => exact absurd letters p.spelling_ne_nil
        | cons d ds =>
          rw [letters, List.cons_prefix_cons] at front
          rw [single, letters, front.1]
          rfl
      exact absurd (spelled ▸ ⟨rest, rfl⟩) (not_prefix_of_longest? h q)

theorem not_startsToken {c : Char} {rest : List Char} (quote : isQuote c = false)
    (word : isWordStart c = false) (digit : c.isDigit = false)
    (none : Punct.longest? (c :: rest) = none) (other : c ≠ '?') : ¬StartsToken c := by
  rintro (rfl | rfl | range | begins | ⟨p, first⟩)
  · contradiction
  · contradiction
  · rw [isDigit_iff.mpr range] at digit
    contradiction
  · rw [isWordStart_iff.mpr begins] at word
    contradiction
  · obtain ⟨more, spelled⟩ := List.head?_eq_some_iff.mp first
    have unfit := not_prefix_of_longest? (longest?_eq_none none other more) p
    exact unfit (spelled ▸ List.prefix_rfl)

theorem punctuator_truthful {c : Char} (rest : List Char) (quote : isQuote c = false)
    (word : isWordStart c = false) (digit : c.isDigit = false) :
    (punctuator c rest).Truthful tabWidth front (c :: rest) := by
  unfold punctuator
  split
  · rename_i p found
    split
    · rename_i spread
      obtain ⟨rfl, second⟩ := spread
      obtain ⟨behind, rfl⟩ := List.head?_eq_some_iff.mp second
      have first : '.' = c := by
        obtain ⟨_, split⟩ := Punct.spelling_prefix_of_longest? found
        injection split
      subst first
      refine ⟨⟨behind, rfl⟩, ?_⟩
      intro third
      have fits : Punct.spread.spelling.isPrefixOf ('.' :: '.' :: behind) = true :=
        List.isPrefixOf_iff_prefix.mpr third
      simp [Punct.longest?, Punct.all, fits] at found
    · trivial
  · rename_i none
    unfold noPunctuator
    split
    · rename_i question
      subst question
      exact ⟨⟨rest, rfl⟩, not_prefix_of_longest? none .questionDot⟩
    · rename_i other
      exact ⟨rfl, not_startsToken quote word digit none other⟩

theorem not_isDigit_behind {text : List Char} {c : Char} {rest : List Char}
    (short : ((text.take 4).takeWhile Text.Hex.isDigit).length ≠ 4)
    (behind : text.drop ((text.take 4).takeWhile Text.Hex.isDigit).length = c :: rest) :
    Text.Hex.isDigit c = false := by
  have split := List.takeWhile_append_dropWhile (p := Text.Hex.isDigit) (l := text.take 4)
  have stops := List.head?_dropWhile_not Text.Hex.isDigit (text.take 4)
  generalize (text.take 4).takeWhile Text.Hex.isDigit = read at short behind split
  generalize (text.take 4).dropWhile Text.Hex.isDigit = left at split stops
  have whole : text = read ++ (left ++ text.drop 4) := by
    rw [← List.append_assoc, split, List.take_append_drop]
  rw [whole, List.drop_left] at behind
  cases left with
  | nil =>
    -- the digits end where the text does, so nothing is behind them
    have length := congrArg List.length split
    have more := congrArg List.length behind
    simp only [List.append_nil, List.length_take, List.nil_append, List.length_drop,
      List.length_cons] at length more
    omega
  | cons d left =>
    injection behind with head
    simpa [head] using stops

theorem codeUnit_truthful (text : List Char) (escape : ['\\', 'u'] <:+ front) :
    (codeUnit text).Truthful tabWidth front text := by
  have digits : ∀ d ∈ (text.take 4).takeWhile Text.Hex.isDigit, Text.Hex.isDigit d = true :=
    fun d member => List.mem_takeWhile_imp member
  have few := length_hexDigits_le text
  obtain ⟨earlier, rfl⟩ := escape
  simp only [codeUnit]
  split
  · trivial
  · rename_i short
    split
    · rename_i none
      exact none
    · rename_i c rest behind
      refine ⟨by rw [behind]; rfl, not_isDigit_behind short behind, _, ?_, ?_, digits⟩
      · rw [List.append_assoc]
        exact List.suffix_append _ _
      · omega

theorem codeUnit_eq_ok {text : List Char} {r : Text.Reading Nat} (h : codeUnit text = .ok r) :
    IsCodeUnit r.text ∧ r.value = Text.Hex.value r.text := by
  simp only [codeUnit] at h
  split at h
  · rename_i four
    cases h
    exact ⟨⟨four, fun d member => List.mem_takeWhile_imp member⟩, rfl⟩
  · split at h <;> contradiction

theorem codeUnit_of_isCodeUnit {digits : List Char} (h : IsCodeUnit digits) (rest : List Char) :
    codeUnit (digits ++ rest) = .ok { value := Text.Hex.value digits, text := digits, rest } := by
  obtain ⟨four, digit⟩ := h
  have front : (digits ++ rest).take 4 = digits := by
    rw [← four, List.take_left]
  have all : digits.takeWhile Text.Hex.isDigit = digits := List.takeWhile_eq_self_iff.mpr digit
  simp [codeUnit, front, all, four]

theorem partner_truthful (text : List Char) : (partner text).Truthful tabWidth front text := by
  unfold partner
  split
  · rename_i rest
    refine Scan.Truthful.after ['\\', 'u'] (Scan.Truthful.mapValue ?_ _)
    exact codeUnit_truthful rest (List.suffix_append _ _)
  · trivial

/-- A partner that is read is no low surrogate if a pair with it names nothing, and where no escape
follows none is read. -/
theorem unpaired_of_partner {unit : Nat} {text : List Char} {low : Text.Reading (Option Nat)}
    (high : Text.Utf16.isHigh unit = true) (read : partner text = .ok low)
    (alone : ∀ second, low.value = some second → Text.Utf16.pair? unit second = none) :
    Unpaired unit text := by
  refine Or.inr ⟨high, ?_⟩
  rintro digits four ⟨behind, rfl⟩
  have second : partner (['\\', 'u'] ++ digits ++ behind) =
      .ok { value := some (Text.Hex.value digits), text := ['\\', 'u'] ++ digits,
            rest := behind } := by
    show ((codeUnit (digits ++ behind)).mapValue some).after ['\\', 'u'] = _
    rw [codeUnit_of_isCodeUnit four]
    rfl
  rw [second] at read
  cases read
  exact Text.Utf16.isLow_of_pair? (alone _ rfl) high

theorem resolve_truthful {unit : Nat} {low? : Option Nat} {escape : Text.Reading Unit}
    {input : List Char}
    (h : (match low? with
        | some low => Text.Utf16.pair? unit low
        | none => Text.Utf16.scalar? unit) = none →
      (Fault.invalidScalar unit).TrueBetween tabWidth front input) :
    (resolve unit low? escape).Truthful tabWidth front input := by
  simp only [resolve]
  split
  · trivial
  · rename_i unnamed
    simpa [Scan.Truthful] using h unnamed

theorem unicodeEscape_truthful (rest : List Char) (backslash : ['\\'] <:+ front) :
    (unicodeEscape rest).Truthful tabWidth front ('u' :: rest) := by
  have escape : ['\\', 'u'] <:+ front ++ ['u'] := by
    obtain ⟨earlier, rfl⟩ := backslash
    exact ⟨earlier, by simp⟩
  have first : ((codeUnit rest).after ['u']).Truthful tabWidth front ('u' :: rest) :=
    (codeUnit_truthful rest escape).after _
  unfold unicodeEscape
  cases read : codeUnit rest with
  | error f =>
    rw [read] at first
    exact first
  | ok unit =>
    obtain ⟨four, value⟩ := codeUnit_eq_ok read
    have split : unit.text ++ unit.rest = rest := (codeUnit_splits rest).of_ok read
    have invalid (unpaired : Unpaired unit.value unit.rest) :
        (Fault.invalidScalar unit.value).TrueBetween tabWidth front ('u' :: rest) :=
      ⟨backslash, unit.text, unit.rest, by rw [split], four, value.symm, unpaired⟩
    have small : unit.value < 65536 := by
      have := Text.Hex.value_lt unit.text
      rwa [four.1, ← value] at this
    have surrogate (unnamed : Text.Utf16.scalar? unit.value = none) :=
      Text.Utf16.isSurrogate_of_scalar? unnamed small
    simp only [Scan.after, Text.Reading.after]
    split
    · rename_i high
      cases second : partner unit.rest with
      | error f =>
        have later : (partner unit.rest).Truthful tabWidth (front ++ ('u' :: unit.text)) unit.rest :=
          partner_truthful unit.rest
        have whole : 'u' :: unit.text ++ unit.rest = 'u' :: rest := by rw [← split]; rfl
        rw [second] at later
        exact whole ▸ later.after _
      | ok low =>
        refine resolve_truthful fun unnamed => invalid (unpaired_of_partner high second ?_)
        intro value found
        simpa [Text.Reading.after, Text.Reading.map, found] using unnamed
    · rename_i other
      refine resolve_truthful fun unnamed => invalid (Or.inl ?_)
      exact (surrogate unnamed).resolve_left other

theorem escape_truthful (text : List Char) (backslash : ['\\'] <:+ front) :
    (escape text).Truthful tabWidth front text := by
  unfold escape
  split
  · rfl
  · rename_i c rest
    split
    · rename_i unicode
      exact unicode ▸ unicodeEscape_truthful rest backslash
    · rename_i other
      simp only
      split
      · trivial
      · rename_i unknown
        refine ⟨by simpa using backslash, ?_, ?_, unknown⟩
        · rw [Text.first_value]
          rfl
        · rw [Text.first_value, Ne, Text.unifyBreak_eq_iff (by decide)]
          exact other

theorem item_truthful (c : Char) (rest : List Char) :
    (item c rest).Truthful tabWidth front (c :: rest) := by
  unfold item
  split
  · rename_i backslash
    subst backslash
    exact (escape_truthful rest (List.suffix_append _ _)).after _
  · trivial

theorem body_truthful (quote : Char) (text : List Char) :
    (body quote text).Truthful tabWidth front text := by
  fun_induction body quote text generalizing front with
  | case1 => rfl
  | case2 => trivial
  | case3 c rest _ f e => exact (item_truthful c rest).of_error e
  | case4 c rest _ r e ih =>
    have split : r.text ++ r.rest = c :: rest := (item_splits c rest).of_ok e
    rw [← split]
    exact (ih.mapValue _).after _

theorem scan_truthful (c : Char) (rest : List Char) :
    (scan c rest).Truthful tabWidth front (c :: rest) := by
  unfold scan
  split
  · exact ((body_truthful c rest).mapValue _).after _
  · rename_i quote
    split
    · trivial
    · rename_i start
      split
      · rename_i digit
        exact number_truthful digit rest
      · rename_i digit
        exact punctuator_truthful rest (by simpa using quote) (by simpa using start)
          (by simpa using digit)

end Lexeme

end Offside
