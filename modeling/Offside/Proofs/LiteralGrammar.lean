import Offside.Proofs.CodeUnits
import Offside.Proofs.HexNumerals
import Offside.Proofs.SpelledScans
import Offside.Proofs.UnifiedText

/-!
The grammar of string literals. A literal is a quote, items and the same quote again, and each item
stands for one character. The grammar says which texts are literals and what they stand for, and for
every other text at which place it stops to be one and why. The scan of a literal decides exactly
this.
-/

namespace Offside

namespace Scan

/-- The fault for which a scan fails, and what it read before the fault. -/
def fault? {α : Type} : Scan α → Option (Fault × List Char)
  | .ok _ => none
  | .error f => some (f.fault, f.before)

@[simp] theorem fault?_mapValue {α β : Type} (f : α → β) (s : Scan α) :
    (s.mapValue f).fault? = s.fault? := by
  cases s <;> rfl

@[simp] theorem fault?_after {α : Type} (text : List Char) (s : Scan α) :
    (s.after text).fault? = s.fault?.map fun failure => (failure.1, text ++ failure.2) := by
  cases s <;> rfl

theorem fault?_andThen {α β : Type} {s : Scan α} {next : α → List Char → Scan β}
    {failure : Fault × List Char} (h : s.fault? = some failure) :
    (s.andThen next).fault? = some failure := by
  cases s with
  | ok r => contradiction
  | error f => exact h

end Scan

namespace Lexeme

/-- An escape of the form \uXXXX for each of some code units. -/
inductive Escaped : List Nat → List Char → Prop where
  | nil : Escaped [] []
  | cons {unit : Nat} {digits : List Char} {units : List Nat} {text : List Char} :
      Text.Hex.IsNumeral digits unit → Escaped units text →
        Escaped (unit :: units) ('\\' :: 'u' :: (digits ++ text))

/-- The letters that stand for a character behind a backslash, each with its character. -/
def letters : List (Char × Char) :=
  [('b', '\x08'), ('t', '\t'), ('n', '\n'), ('f', '\x0c'), ('r', '\r'), ('"', '"'), ('\'', '\''),
    ('\\', '\\'), ('/', '/')]

/-- `text` stands for the character `value` in a literal with the quotes `quote`, where the
character `next?` follows. -/
inductive IsItem (quote : Char) (next? : Option Char) : List Char → Char → Prop where
  | plain {c : Char} : c ≠ quote → c ≠ '\\' → Text.isBreak c = false → IsItem quote next? [c] c
  | lf : IsItem quote next? ['\n'] '\n'
  | cr : next? ≠ some '\n' → IsItem quote next? ['\r'] '\n'
  | crlf : IsItem quote next? ['\r', '\n'] '\n'
  | letter {c value : Char} : (c, value) ∈ letters → IsItem quote next? ['\\', c] value
  | units {text : List Char} {value : Char} :
      Escaped (Text.Utf16.units value) text → IsItem quote next? text value

/-- Items one after the other, and the characters that they stand for. -/
inductive AreItems (quote : Char) (next? : Option Char) : List Char → List Char → Prop where
  | nil : AreItems quote next? [] []
  | cons {front text : List Char} {c : Char} {value : List Char} :
      IsItem quote (text.head?.or next?) front c → AreItems quote next? text value →
        AreItems quote next? (front ++ text) (c :: value)

/-- A whole literal and what it stands for. -/
def IsLiteral (quote : Char) (text value : List Char) : Prop :=
  ∃ inside, text = quote :: (inside ++ [quote]) ∧ AreItems quote (some quote) inside value

/-- A text that does not begin with four hexadecimal digits, for lack of text or for another
character, and the digits that it begins with. -/
inductive NoCodeUnit : List Char → Fault → List Char → Prop where
  | ends {digits : List Char} : digits.length < 4 → (∀ d ∈ digits, Text.Hex.isDigit d = true) →
      NoCodeUnit digits .unterminatedEscape digits
  | other {digits rest : List Char} {c : Char} : digits.length < 4 →
      (∀ d ∈ digits, Text.Hex.isDigit d = true) → Text.Hex.isDigit c = false →
        NoCodeUnit (digits ++ c :: rest) (.illegalHexDigit c) digits

/-- A text that begins with neither an item nor a quote, the fault in it and what of it lies before
the fault. -/
inductive NoItem : List Char → Fault → List Char → Prop where
  | ends : NoItem [] .unterminatedString []
  | escapeEnds : NoItem ['\\'] .unterminatedEscape ['\\']
  | letter {c : Char} {rest : List Char} : c ≠ 'u' → (∀ value, (c, value) ∉ letters) →
      NoItem ('\\' :: c :: rest) (.unrecognizedEscape (Text.unifyBreak c)) ['\\']
  | unit {rest before : List Char} {fault : Fault} : NoCodeUnit rest fault before →
      NoItem ('\\' :: 'u' :: rest) fault ('\\' :: 'u' :: before)
  | partner {digits rest before : List Char} {high : Nat} {fault : Fault} :
      Text.Hex.IsNumeral digits high → Text.Utf16.isHigh high = true →
        NoCodeUnit rest fault before →
          NoItem ('\\' :: 'u' :: (digits ++ '\\' :: 'u' :: rest)) fault
            ('\\' :: 'u' :: (digits ++ '\\' :: 'u' :: before))
  | low {digits rest : List Char} {unit : Nat} : Text.Hex.IsNumeral digits unit →
      Text.Utf16.isLow unit = true →
        NoItem ('\\' :: 'u' :: (digits ++ rest)) (.invalidScalar unit) ['\\']
  | alone {digits rest : List Char} {high : Nat} : Text.Hex.IsNumeral digits high →
      Text.Utf16.isHigh high = true → ¬['\\', 'u'] <+: rest →
        NoItem ('\\' :: 'u' :: (digits ++ rest)) (.invalidScalar high) ['\\']
  | unpaired {digits second rest : List Char} {high unit : Nat} :
      Text.Hex.IsNumeral digits high → Text.Utf16.isHigh high = true →
        Text.Hex.IsNumeral second unit → Text.Utf16.isLow unit = false →
          NoItem ('\\' :: 'u' :: (digits ++ '\\' :: 'u' :: (second ++ rest))) (.invalidScalar high)
            ['\\']

/-- A text in quotes that stops to be a literal behind some items: the fault there, and all that
lies before it. -/
inductive NoLiteral (quote : Char) : List Char → Fault → List Char → Prop where
  | behind {inside value rest before : List Char} {fault : Fault} :
      AreItems quote rest.head? inside value → NoItem rest fault before →
        NoLiteral quote (quote :: (inside ++ rest)) fault (quote :: (inside ++ before))

theorem mem_letters_iff {c value : Char} : (c, value) ∈ letters ↔ shortEscape? c = some value := by
  constructor
  · intro member
    simp only [letters, List.mem_cons, Prod.mk.injEq, List.not_mem_nil, or_false] at member
    rcases member with ⟨rfl, rfl⟩ | ⟨rfl, rfl⟩ | ⟨rfl, rfl⟩ | ⟨rfl, rfl⟩ | ⟨rfl, rfl⟩ | ⟨rfl, rfl⟩ |
      ⟨rfl, rfl⟩ | ⟨rfl, rfl⟩ | ⟨rfl, rfl⟩ <;> rfl
  · intro h
    unfold shortEscape? at h
    split at h <;> first | contradiction | (cases h; decide)

section CodeUnit

variable {digits rest before : List Char} {unit : Nat} {fault : Fault}

theorem codeUnit_of_isNumeral (h : Text.Hex.IsNumeral digits unit) (rest : List Char) :
    codeUnit (digits ++ rest) = .ok { value := unit, text := digits, rest } := by
  obtain ⟨digits, rfl⟩ := Text.Hex.isNumeral_iff.mp h
  exact codeUnit_of_isCodeUnit digits rest

theorem codeUnit_of_noCodeUnit (h : NoCodeUnit rest fault before) :
    codeUnit rest = .error { fault, before, text := before } := by
  cases h with
  | ends few digits =>
    have front : rest.take 4 = rest := List.take_of_length_le (by omega)
    have all : rest.takeWhile Text.Hex.isDigit = rest := List.takeWhile_eq_self_iff.mpr digits
    simp [codeUnit, front, all, Nat.ne_of_lt few]
  | @other _ rest c few digits other =>
    have front : (before ++ c :: rest).take 4 = before ++ (c :: rest).take (4 - before.length) := by
      rw [List.take_append, List.take_of_length_le (by omega)]
    obtain ⟨k, more⟩ : ∃ k, 4 - before.length = k + 1 := ⟨3 - before.length, by omega⟩
    have stop : (before ++ (c :: rest).take (4 - before.length)).takeWhile Text.Hex.isDigit =
        before := by
      rw [List.takeWhile_append_of_pos digits, more, List.take_succ_cons]
      simp [other]
    simp only [codeUnit, front, stop, if_neg (Nat.ne_of_lt few), List.drop_left]

theorem codeUnit_cases (text : List Char) :
    (∃ digits unit rest, text = digits ++ rest ∧ Text.Hex.IsNumeral digits unit) ∨
      ∃ fault before, NoCodeUnit text fault before := by
  have digits : ∀ d ∈ (text.take 4).takeWhile Text.Hex.isDigit, Text.Hex.isDigit d = true :=
    fun d member => List.mem_takeWhile_imp member
  have few := length_hexDigits_le text
  have split : text = (text.take 4).takeWhile Text.Hex.isDigit ++
      text.drop ((text.take 4).takeWhile Text.Hex.isDigit).length :=
    (List.prefix_iff_eq_append.mp (front_hexDigits text)).symm
  by_cases four : ((text.take 4).takeWhile Text.Hex.isDigit).length = 4
  · exact .inl ⟨_, _, _, split, Text.Hex.isNumeral_iff.mpr ⟨⟨four, digits⟩, rfl⟩⟩
  · right
    cases behind : text.drop ((text.take 4).takeWhile Text.Hex.isDigit).length with
    | nil =>
      rw [behind, List.append_nil] at split
      have noUnit := NoCodeUnit.ends (by omega) digits
      rw [← split] at noUnit
      exact ⟨_, _, noUnit⟩
    | cons c rest =>
      have other := not_isDigit_behind four behind
      rw [behind] at split
      have noUnit : NoCodeUnit (_ ++ c :: rest) _ _ := .other (by omega) digits other
      rw [← split] at noUnit
      exact ⟨_, _, noUnit⟩

end CodeUnit

section Item

variable {quote c : Char} {rest after : List Char}

theorem unicodeEscape_of_units {value : Char} {text : List Char}
    (h : Escaped (Text.Utf16.units value) text) (after : List Char) :
    ∃ inner, text = '\\' :: 'u' :: inner ∧
      unicodeEscape (inner ++ after) = .ok { value, text := 'u' :: inner, rest := after } := by
  rcases Text.Utf16.units_cases value with ⟨single, high, _⟩ | ⟨high, low, pair, first, _⟩
  · rw [single] at h
    cases h with
    | cons digits none =>
      cases none
      have scalar : Text.Utf16.scalar? value.toNat = some value :=
        Text.Utf16.scalar?_eq_some_iff.mpr rfl
      refine ⟨_, rfl, ?_⟩
      rw [List.append_nil, unicodeEscape, codeUnit_of_isNumeral digits]
      simp [Scan.after, Text.Reading.after, high, resolve, scalar, Text.Reading.map]
  · rw [pair] at h
    cases h with
    | cons digits more =>
      cases more with
      | cons second none =>
        cases none
        have both : Text.Utf16.pair? high low = some value :=
          Text.Utf16.pair?_eq_some_iff.mpr pair
        refine ⟨_, rfl, ?_⟩
        rw [List.append_nil, List.append_assoc, unicodeEscape, codeUnit_of_isNumeral digits]
        simp [Scan.after, Text.Reading.after, first, partner, codeUnit_of_isNumeral second,
          Scan.mapValue, resolve, both, Text.Reading.map]

theorem ne_of_isQuote (quotes : isQuote quote = true) :
    '\n' ≠ quote ∧ '\r' ≠ quote ∧ '\\' ≠ quote := by
  simp only [isQuote, Bool.or_eq_true, decide_eq_true_eq] at quotes
  rcases quotes with rfl | rfl <;> decide

/-- Items are read as what they stand for. No item begins like the end of the literal. -/
theorem IsItem.reads {text : List Char} {value : Char} (quotes : isQuote quote = true)
    (h : IsItem quote after.head? text value) :
    ∃ c inner, text = c :: inner ∧ c ≠ quote ∧
      item c (inner ++ after) = .ok { value, text, rest := after } := by
  have apart := ne_of_isQuote quotes
  cases h with
  | plain other backslash noBreak =>
    refine ⟨value, [], rfl, other, ?_⟩
    rw [item, if_neg backslash, List.nil_append, Text.first_of_not_isBreak noBreak]
  | lf => exact ⟨_, _, rfl, apart.1, rfl⟩
  | cr lone =>
    refine ⟨_, _, rfl, apart.2.1, ?_⟩
    cases after with
    | nil => rfl
    | cons d after =>
      have other : d ≠ '\n' := fun same => lone (congrArg some same)
      simp [item, Text.first, other]
  | crlf => exact ⟨_, _, rfl, apart.2.1, rfl⟩
  | @letter c _ member =>
    have short := mem_letters_iff.mp member
    have noUnit : c ≠ 'u' ∧ c ≠ '\r' := by
      constructor <;> (rintro rfl; contradiction)
    refine ⟨_, _, rfl, apart.2.2, ?_⟩
    simp [item, escape, Text.first, short, noUnit.1, noUnit.2, Scan.after, Text.Reading.after,
      Text.Reading.map]
  | units escaped =>
    obtain ⟨inner, rfl, read⟩ := unicodeEscape_of_units escaped after
    refine ⟨_, _, rfl, apart.2.2, ?_⟩
    rw [item, if_pos rfl, List.cons_append, escape, if_pos rfl, read]
    rfl

end Item

theorem escape_fault? {tail before : List Char} {fault : Fault}
    (h : NoItem ('\\' :: tail) fault before) :
    ((escape tail).after ['\\']).fault? = some (fault, before) := by
  cases h with
  | escapeEnds => rfl
  | @letter c tail other unknown =>
    have none : shortEscape? (Text.first c tail).value = none := by
      rw [Text.first_value, Text.apply_unifyBreak (f := shortEscape?) rfl,
        Option.eq_none_iff_forall_ne_some]
      intro value found
      exact unknown value (mem_letters_iff.mpr found)
    simp only [escape, if_neg other, none]
    rw [Text.first_value]
    rfl
  | unit noUnit =>
    simp only [escape, if_true, unicodeEscape, codeUnit_of_noCodeUnit noUnit]
    rfl
  | partner digits high noUnit =>
    simp only [escape, if_true, unicodeEscape, codeUnit_of_isNumeral digits, Scan.after,
      Text.Reading.after, high, partner, codeUnit_of_noCodeUnit noUnit]
    rfl
  | low digits low =>
    have unnamed := Text.Utf16.scalar?_of_isSurrogate (.inr low)
    have other := Text.Utf16.isHigh_of_isLow low
    simp only [escape, if_true, unicodeEscape, codeUnit_of_isNumeral digits, Scan.after,
      Text.Reading.after, other, resolve, unnamed]
    rfl
  | @alone digits behind high numeral surrogate none =>
    have unnamed := Text.Utf16.scalar?_of_isSurrogate (.inl surrogate)
    have single : partner behind = .ok { value := Option.none, text := [], rest := behind } := by
      unfold partner
      split
      · rename_i rest
        exact absurd ⟨rest, rfl⟩ none
      · rfl
    simp only [escape, if_true, unicodeEscape, codeUnit_of_isNumeral numeral, Scan.after,
      Text.Reading.after, surrogate, single, resolve, unnamed]
    rfl
  | unpaired digits high second other =>
    have unnamed (unit : Nat) : Text.Utf16.pair? unit _ = none :=
      Text.Utf16.pair?_of_not_isLow other
    simp only [escape, if_true, unicodeEscape, codeUnit_of_isNumeral digits, Scan.after,
      Text.Reading.after, high, partner, codeUnit_of_isNumeral second, Scan.mapValue,
      Text.Reading.map, resolve, unnamed]
    rfl

theorem body_fault? {quote : Char} {rest before : List Char} {fault : Fault}
    (quotes : isQuote quote = true) (h : NoItem rest fault before) :
    (body quote rest).fault? = some (fault, before) := by
  have backslash : '\\' ≠ quote := (ne_of_isQuote quotes).2.2
  cases rest with
  | nil =>
    rw [body]
    cases h
    rfl
  | cons c tail =>
    obtain rfl : c = '\\' := by cases h <;> rfl
    rw [body_cons, if_neg backslash, item, if_pos rfl]
    exact Scan.fault?_andThen (escape_fault? h)

theorem body_items {quote : Char} {inside value rest : List Char} (quotes : isQuote quote = true)
    (h : AreItems quote rest.head? inside value) :
    body quote (inside ++ rest) =
      ((body quote rest).mapValue (value ++ ·)).after inside := by
  induction h with
  | nil =>
    rw [List.nil_append]
    cases body quote rest <;> rfl
  | @cons front text c value item _ ih =>
    rw [← List.head?_append] at item
    obtain ⟨d, inner, rfl, other, read⟩ := item.reads quotes
    rw [List.append_assoc, List.cons_append, body_cons, if_neg other, read, Scan.andThen,
      Scan.ofReading, ih]
    cases body quote rest with
    | ok r => simp [Scan.mapValue, Scan.after, Text.Reading.map, Text.Reading.after]
    | error f => simp [Scan.mapValue, Scan.after, Scan.Failure.after]

theorem units_cases (quote : Char) (rest : List Char) :
    (∃ front value after, '\\' :: 'u' :: rest = front ++ after ∧
        IsItem quote after.head? front value) ∨
      ∃ fault before, NoItem ('\\' :: 'u' :: rest) fault before := by
  rcases codeUnit_cases rest with ⟨digits, unit, behind, rfl, first⟩ | ⟨fault, before, none⟩
  · cases low : Text.Utf16.isLow unit with
    | true => exact .inr ⟨_, _, .low first low⟩
    | false =>
      cases high : Text.Utf16.isHigh unit with
      | false =>
        obtain ⟨value, single⟩ := Text.Utf16.exists_units first.lt high low
        have escaped := Escaped.cons first .nil
        rw [← single] at escaped
        exact .inl ⟨_, value, behind, by simp, .units escaped⟩
      | true =>
        by_cases escape : ['\\', 'u'] <+: behind
        · obtain ⟨behind, rfl⟩ := escape
          rcases codeUnit_cases behind with
            ⟨digits', second, after, rfl, next⟩ | ⟨fault, before, none⟩
          · cases pair : Text.Utf16.isLow second with
            | true =>
              obtain ⟨value, both, _⟩ := Text.Utf16.exists_pair? high pair
              have escaped := Escaped.cons first (.cons next .nil)
              rw [← Text.Utf16.pair?_eq_some_iff.mp both] at escaped
              exact .inl ⟨_, value, after, by simp, .units escaped⟩
            | false =>
              have noItem : NoItem ('\\' :: 'u' :: (digits ++ '\\' :: 'u' :: (digits' ++ after)))
                  (.invalidScalar unit) ['\\'] := .unpaired first high next pair
              exact .inr ⟨_, _, noItem⟩
          · exact .inr ⟨_, _, .partner first high none⟩
        · exact .inr ⟨_, _, .alone first high escape⟩
  · exact .inr ⟨_, _, .unit none⟩

/-- A text begins with an item, or with the end of the literal, or with neither for one reason. -/
theorem item_cases (quote c : Char) (rest : List Char) (other : c ≠ quote) :
    (∃ front value after, c :: rest = front ++ after ∧ IsItem quote after.head? front value) ∨
      ∃ fault before, NoItem (c :: rest) fault before := by
  by_cases backslash : c = '\\'
  · subst backslash
    cases rest with
    | nil => exact .inr ⟨_, _, .escapeEnds⟩
    | cons d rest =>
      by_cases unicode : d = 'u'
      · exact unicode ▸ units_cases quote rest
      · by_cases known : ∃ value, (d, value) ∈ letters
        · obtain ⟨value, member⟩ := known
          exact .inl ⟨['\\', d], value, rest, rfl, .letter member⟩
        · exact .inr ⟨_, _, .letter unicode (not_exists.mp known)⟩
  · left
    by_cases ends : Text.isBreak c = true
    · simp only [Text.isBreak, Bool.or_eq_true, decide_eq_true_eq] at ends
      rcases ends with rfl | rfl
      · exact ⟨_, _, rest, rfl, .lf⟩
      · by_cases pair : rest.head? = some '\n'
        · obtain ⟨after, rfl⟩ := List.head?_eq_some_iff.mp pair
          exact ⟨['\r', '\n'], _, after, rfl, .crlf⟩
        · exact ⟨['\r'], _, rest, rfl, .cr pair⟩
    · exact ⟨[c], c, rest, rfl, .plain other backslash (Bool.eq_false_iff.mpr ends)⟩

/-- A text has items at its front, behind which the literal ends or stops to be one. -/
theorem items_cases {quote : Char} (quotes : isQuote quote = true) (text : List Char) :
    (∃ inside value after, text = inside ++ quote :: after ∧
        AreItems quote (some quote) inside value) ∨
      ∃ inside value rest fault before, text = inside ++ rest ∧
        AreItems quote rest.head? inside value ∧ NoItem rest fault before := by
  induction h : text.length using Nat.strongRecOn generalizing text with
  | ind n ih =>
    subst h
    cases text with
    | nil => exact .inr ⟨[], [], [], _, _, rfl, .nil, .ends⟩
    | cons c rest =>
      by_cases ends : c = quote
      · exact .inl ⟨[], [], rest, by rw [ends]; rfl, .nil⟩
      · rcases item_cases quote c rest ends with
          ⟨front, v, after, split, item⟩ | ⟨fault, before, none⟩
        · obtain ⟨d, inner, begins, _⟩ := item.reads quotes
          have shorter : after.length < (c :: rest).length := by
            rw [split, begins]
            simp
          rw [split]
          rcases ih _ shorter after rfl with ⟨inside, value, behind, rfl, items⟩ |
            ⟨inside, value, behind, fault, before, rfl, items, none⟩
          · left
            have first : IsItem quote (inside.head?.or (some quote)) front v := by
              rwa [List.head?_append] at item
            exact ⟨front ++ inside, v :: value, behind, by simp, .cons first items⟩
          · right
            rw [List.head?_append] at item
            exact ⟨front ++ inside, v :: value, behind, fault, before, by simp, .cons item items,
              none⟩
        · exact .inr ⟨[], [], c :: rest, fault, before, rfl, .nil, none⟩

section Literal

variable {quote : Char} {rest : List Char} (quotes : isQuote quote = true)

include quotes

theorem stringLiteral_of_isLiteral {text value after : List Char}
    (literal : IsLiteral quote text value) (split : text ++ after = quote :: rest) :
    stringLiteral quote rest =
      .ok { value := .str (String.ofList value), text, rest := after } := by
  obtain ⟨inside, rfl, items⟩ := literal
  have behind : rest = inside ++ quote :: after := by simpa using split.symm
  have closing :
      body quote (quote :: after) = .ok { value := [], text := [quote], rest := after } := by
    rw [body_cons, if_pos rfl]
  have front : AreItems quote (quote :: after).head? inside value := items
  rw [behind, stringLiteral, body_items quotes front, closing]
  simp [Scan.mapValue, Scan.after, Text.Reading.map, Text.Reading.after]

theorem stringLiteral_of_noLiteral {before : List Char} {fault : Fault}
    (h : NoLiteral quote (quote :: rest) fault before) :
    (stringLiteral quote rest).fault? = some (fault, before) := by
  cases h with
  | behind items none =>
    rw [stringLiteral, body_items quotes items]
    simp [body_fault? quotes none]

theorem literal_cases (rest : List Char) :
    (∃ text value after, text ++ after = quote :: rest ∧ IsLiteral quote text value) ∨
      ∃ fault before, NoLiteral quote (quote :: rest) fault before := by
  rcases items_cases quotes rest with ⟨inside, value, after, rfl, items⟩ |
    ⟨inside, value, behind, fault, before, rfl, items, none⟩
  · exact .inl ⟨quote :: (inside ++ [quote]), value, after, by simp, inside, rfl, items⟩
  · exact .inr ⟨fault, _, .behind items none⟩

end Literal

/-- The scan of a literal reads a text if the front of it is a literal, the shortest there is, and
its value is what the literal stands for. Otherwise it fails where the text stops to be a literal. -/
theorem stringLiteral_exact {quote : Char} (quotes : isQuote quote = true) (rest : List Char) :
    (∀ r : Text.Reading Token.Kind, stringLiteral quote rest = .ok r ↔
      r.Splits (quote :: rest) ∧
        (∃ value, r.value = .str (String.ofList value) ∧ IsLiteral quote r.text value) ∧
          ∀ text value, text <+: quote :: rest → IsLiteral quote text value →
            r.text.length ≤ text.length) ∧
      ∀ fault before, (stringLiteral quote rest).fault? = some (fault, before) ↔
        NoLiteral quote (quote :: rest) fault before := by
  have reads {text value after : List Char} (split : text ++ after = quote :: rest)
      (literal : IsLiteral quote text value) :=
    stringLiteral_of_isLiteral quotes literal split
  constructor
  · intro r
    constructor
    · intro read
      rcases literal_cases quotes rest with
        ⟨text, value, after, split, literal⟩ | ⟨fault, before, none⟩
      · have whole := reads split literal
        rw [read] at whole
        cases whole
        refine ⟨split, ⟨value, rfl, literal⟩, ?_⟩
        rintro other value' ⟨behind, split'⟩ literal'
        have same := reads split' literal'
        rw [read] at same
        have length : text = other := congrArg Text.Reading.text (Except.ok.inj same)
        exact Nat.le_of_eq (congrArg List.length length)
      · have fails := stringLiteral_of_noLiteral quotes none
        rw [read] at fails
        contradiction
    · rintro ⟨split, ⟨value, same, literal⟩, _⟩
      rw [reads split literal, ← same]
  · intro fault before
    constructor
    · intro fails
      rcases literal_cases quotes rest with
        ⟨text, value, after, split, literal⟩ | ⟨fault', before', none⟩
      · rw [reads split literal] at fails
        contradiction
      · have first := stringLiteral_of_noLiteral quotes none
        rw [fails] at first
        cases first
        exact none
    · exact stringLiteral_of_noLiteral quotes

theorem stringLiteral_exact_half_pair :
    (stringLiteral '\'' "a\r\n\\ud83d\\u12".toList).fault? =
      some (.unterminatedEscape, "'a\r\n\\ud83d\\u12".toList) := by
  have high : Text.Hex.IsNumeral "d83d".toList 0xD83D := ⟨by decide, by decide⟩
  have two : NoCodeUnit "12".toList .unterminatedEscape "12".toList :=
    .ends (by decide) (List.all_eq_true.mp (by decide))
  have half : NoItem "\\ud83d\\u12".toList .unterminatedEscape "\\ud83d\\u12".toList :=
    .partner high (by decide) two
  have letter : IsItem '\'' (some '\r') ['a'] 'a' := .plain (by decide) (by decide) (by decide)
  have lineBreak : IsItem '\'' (some '\\') ['\r', '\n'] '\n' := .crlf
  have items : AreItems '\'' (some '\\') ['a', '\r', '\n'] ['a', '\n'] :=
    AreItems.cons letter (AreItems.cons lineBreak .nil)
  exact ((stringLiteral_exact (by decide) _).2 _ _).mpr (.behind items half)

end Lexeme

end Offside
