import Offside.Proofs.ScanCuts
import Offside.Proofs.UnifiedText

namespace Offside

/-- The same fault in a text whose line breaks are all spelled '\n'. A missing hexadecimal digit is
reported with the character that stands in its place, which may be half of a line break. -/
def Fault.unified : Fault → Fault
  | illegalHexDigit c => illegalHexDigit (Text.unifyBreak c)
  | f => f

namespace Scan

def Failure.unified (f : Failure) : Failure :=
  { fault := f.fault.unified
    before := Text.unifyBreaks f.before
    text := Text.unifyBreaks f.text }

def unified {α : Type} : Scan α → Scan α
  | .ok r => .ok r.unified
  | .error f => .error f.unified

@[simp] theorem unified_ok {α : Type} (r : Text.Reading α) :
    unified (.ok r) = .ok r.unified := rfl

@[simp] theorem unified_error {α : Type} (f : Failure) :
    unified (.error f : Scan α) = .error f.unified := rfl

theorem unified_mapValue {α β : Type} (f : α → β) (s : Scan α) :
    (s.mapValue f).unified = s.unified.mapValue f := by
  cases s <;> rfl

theorem unified_after {α : Type} {input text : List Char} {s : Scan α}
    (cut : Text.Cut text input) (splits : s.Splits input) :
    (s.after text).unified = s.unified.after (Text.unifyBreaks text) := by
  cases s with
  | ok r =>
    have front : Text.Cut text r.text := cut.of_prefix ⟨r.rest, splits⟩
    exact congrArg Except.ok (Text.Reading.unified_after front)
  | error f =>
    obtain ⟨inside, within⟩ := splits
    simp only [after, unified, Failure.after, Failure.unified,
      Text.unifyBreaks_append (cut.of_prefix within),
      Text.unifyBreaks_append (cut.of_prefix (inside.trans within))]

theorem unified_ofReading {α β : Type} {input : List Char} {r : Text.Reading α}
    {next : α → List Char → Scan β} (splits : r.Splits input)
    (cut : Text.CutBehind r.text input) (hs : ∀ v rest, (next v rest).Splits rest)
    (hn : ∀ v rest, next v (Text.unifyBreaks rest) = (next v rest).unified) :
    ofReading r.unified next = (ofReading r next).unified := by
  have split : r.text ++ r.rest = input := splits
  subst split
  rw [ofReading, ofReading, unified_after (Text.cutBehind_iff.mp cut) (hs _ _), ← hn]
  rfl

theorem unified_andThen {α β : Type} {input : List Char} {s : Scan α}
    {next : α → List Char → Scan β} (splits : s.Splits input) (cuts : s.Cuts input)
    (hs : ∀ v rest, (next v rest).Splits rest)
    (hn : ∀ v rest, next v (Text.unifyBreaks rest) = (next v rest).unified) :
    s.unified.andThen next = (s.andThen next).unified := by
  cases s with
  | ok r => exact unified_ofReading splits cuts hs hn
  | error f => rfl

end Scan

namespace Lexeme

theorem word_unifyBreaks (text : List Char) :
    word (Text.unifyBreaks text) = (word text).unified := by
  rw [word, Text.Reading.span_unifyBreaks (by decide) (by decide)]
  rfl

theorem digits_unifyBreaks (text : List Char) :
    digits (Text.unifyBreaks text) = (digits text).unified := by
  rw [digits, Text.Reading.span_unifyBreaks (by decide) (by decide)]
  rfl

theorem digitsOr_unifyBreaks {missing : Fault} (h : missing.unified = missing)
    (text : List Char) :
    digitsOr missing (Text.unifyBreaks text) = (digitsOr missing text).unified := by
  have head : (Text.unifyBreaks text).head?.any Char.isDigit = text.head?.any Char.isDigit := by
    rw [Text.head?_unifyBreaks, Option.any_map]
    exact congrArg (text.head?.any ·) (funext (Text.apply_unifyBreak (by decide)))
  unfold digitsOr
  rw [head, digits_unifyBreaks]
  split
  · rfl
  · rw [Scan.unified, Scan.Failure.unified, h]
    rfl

theorem fraction_of_head {text : List Char} (h : text.head? ≠ some '.') :
    fraction text = .ok { value := [], text := [], rest := text } := by
  unfold fraction
  split
  · exact absurd rfl h
  · rfl

theorem fraction_unifyBreaks (text : List Char) :
    fraction (Text.unifyBreaks text) = (fraction text).unified := by
  by_cases head : text.head? = some '.'
  · obtain ⟨rest, rfl⟩ := List.head?_eq_some_iff.mp head
    have cut : Text.Cut ['.'] rest := Text.cut_of_ne (by decide) rest
    rw [Text.unifyBreaks_cons (by decide), fraction, fraction, digitsOr_unifyBreaks rfl,
      Scan.unified_after cut ((digitsOr_splits _ rest).mapValue _), Scan.unified_mapValue]
    rfl
  · have unified : (Text.unifyBreaks text).head? ≠ some '.' := by
      rwa [Ne, Text.head?_unifyBreaks_eq_iff (by decide)]
    rw [fraction_of_head head, fraction_of_head unified]
    rfl

theorem sign_unifyBreaks (text : List Char) :
    sign (Text.unifyBreaks text) = (sign text).unified := by
  cases text with
  | nil => rfl
  | cons c rest =>
    by_cases signed : isSign c = true
    · have other : c ≠ '\r' := by
        rintro rfl
        contradiction
      simp [Text.unifyBreaks_cons other, sign, signed, Text.Reading.unified]
    · have unsigned : isSign (Text.unifyBreak c) ≠ true := by
        rwa [Text.apply_unifyBreak (f := isSign) (by decide)]
      simp [Text.unifyBreaks_first, sign, signed, unsigned, Text.Reading.unified]

theorem exponent_unifyBreaks (text : List Char) :
    exponent (Text.unifyBreaks text) = (exponent text).unified := by
  cases text with
  | nil => rfl
  | cons c rest =>
    by_cases letter : c = 'e' ∨ c = 'E'
    · have other : c ≠ '\r' := by
        rintro rfl
        exact absurd letter (by decide)
      have cut : Text.Cut [c] rest := Text.cut_of_ne other rest
      have tail (s rest : List Char) :
          ((digitsOr .missingExponentDigits rest).mapValue ('e' :: s ++ ·)).Splits rest :=
        (digitsOr_splits _ rest).mapValue _
      have inner (s rest : List Char) :
          (digitsOr .missingExponentDigits (Text.unifyBreaks rest)).mapValue ('e' :: s ++ ·) =
            ((digitsOr .missingExponentDigits rest).mapValue ('e' :: s ++ ·)).unified := by
        rw [digitsOr_unifyBreaks rfl, Scan.unified_mapValue]
      rw [Text.unifyBreaks_cons other, exponent, exponent, if_pos letter, if_pos letter,
        Scan.unified_after cut (Scan.ofReading_splits (sign_splits rest) tail), sign_unifyBreaks,
        Scan.unified_ofReading (sign_splits rest) (sign_cuts rest) tail inner,
        Text.unifyBreaks_cons other]
      rfl
    · have other : ¬(Text.unifyBreak c = 'e' ∨ Text.unifyBreak c = 'E') := by
        rwa [Text.unifyBreak_eq_iff (by decide), Text.unifyBreak_eq_iff (by decide)]
      simp [Text.unifyBreaks_first, exponent, letter, other, Text.Reading.unified, Scan.unified]

theorem number_unifyBreaks (text : List Char) :
    number (Text.unifyBreaks text) = (number text).unified := by
  have tail (w f rest : List Char) :
      ((exponent rest).mapValue fun e => numberKind w f e).Splits rest :=
    (exponent_splits rest).mapValue _
  have inner (w f rest : List Char) :
      ((exponent (Text.unifyBreaks rest)).mapValue fun e => numberKind w f e) =
        ((exponent rest).mapValue fun e => numberKind w f e).unified := by
    rw [exponent_unifyBreaks, Scan.unified_mapValue]
  rw [number, digits_unifyBreaks]
  refine Scan.unified_ofReading (digits_splits text) (digits_cuts text) ?_ ?_
  · intro w rest
    exact (fraction_splits rest).andThen (tail w)
  · intro w rest
    rw [fraction_unifyBreaks]
    exact Scan.unified_andThen (fraction_splits rest) (fraction_cuts rest) (tail w) (inner w)

theorem longest?_unifyBreaks {c : Char} (h : Text.isBreak c = false) (rest : List Char) :
    Punct.longest? (c :: Text.unifyBreaks rest) = Punct.longest? (c :: rest) := by
  have clean (p : Punct) : p.spelling.any Text.isBreak = false := by
    cases p <;> rfl
  have same (p : Punct) : p.spelling.isPrefixOf (c :: Text.unifyBreaks rest) =
      p.spelling.isPrefixOf (c :: rest) := by
    rw [← Text.unifyBreaks_cons (Text.ne_of_not_isBreak h), Bool.eq_iff_iff,
      List.isPrefixOf_iff_prefix, List.isPrefixOf_iff_prefix, Text.prefix_unifyBreaks_iff (clean p)]
  simp only [Punct.longest?, same]

theorem punctuator_unifyBreaks {c : Char} (h : Text.isBreak c = false) (rest : List Char) :
    punctuator c (Text.unifyBreaks rest) = (punctuator c rest).unified := by
  have whole : c :: Text.unifyBreaks rest = Text.unifyBreaks (c :: rest) :=
    (Text.unifyBreaks_cons (Text.ne_of_not_isBreak h) rest).symm
  unfold punctuator
  simp only [longest?_unifyBreaks h, Text.head?_unifyBreaks_eq_iff (c := '.') (by decide)]
  split
  · rename_i p found
    have front := Punct.spelling_prefix_of_longest? found
    have cut : Text.CutBehind p.spelling (c :: rest) :=
      Text.cutBehind_of_not_mem (blank_not_mem_spelling (by decide) p) _
    split
    · rfl
    · simp only [Scan.unified_ok, Text.Reading.unified, Text.unifyBreaks_drop front cut, whole,
        Text.unifyBreaks_of_not_mem (blank_not_mem_spelling (by decide) p)]
  · have fault : (noPunctuator c).unified = noPunctuator c := by
      unfold noPunctuator
      split <;> rfl
    simp [Scan.unified, Scan.Failure.unified, fault,
      Text.unifyBreaks_cons (Text.ne_of_not_isBreak h)]

theorem codeUnit_unifyBreaks (text : List Char) :
    codeUnit (Text.unifyBreaks text) = (codeUnit text).unified := by
  have digits : ((Text.unifyBreaks text).take 4).takeWhile Text.Hex.isDigit =
      (text.take 4).takeWhile Text.Hex.isDigit := by
    rw [← List.take_takeWhile, ← List.take_takeWhile,
      Text.takeWhile_unifyBreaks (by decide) (by decide)]
  have front := front_hexDigits text
  have clean := hexDigits_not_mem (text.take 4)
  have behind := Text.unifyBreaks_drop front (Text.cutBehind_of_not_mem clean text)
  have same := Text.unifyBreaks_of_not_mem clean
  rw [same] at behind
  simp only [codeUnit, digits, ← behind]
  split
  · simp [Scan.unified, Text.Reading.unified, same]
  · cases text.drop ((text.take 4).takeWhile Text.Hex.isDigit).length with
    | nil => simp [Scan.unified, Scan.Failure.unified, Fault.unified, same]
    | cons c rest =>
      simp [Scan.unified, Scan.Failure.unified, Fault.unified, same, Text.unifyBreaks_first]

theorem partner_of_no_escape {text : List Char} (h : ¬['\\', 'u'] <+: text) :
    partner text = .ok { value := none, text := [], rest := text } := by
  unfold partner
  split
  · rename_i rest
    exact absurd ⟨rest, rfl⟩ h
  · rfl

theorem partner_unifyBreaks (text : List Char) :
    partner (Text.unifyBreaks text) = (partner text).unified := by
  by_cases escape : ['\\', 'u'] <+: text
  · obtain ⟨rest, rfl⟩ := escape
    have cut : Text.Cut ['\\', 'u'] rest := Text.cut_of_not_mem (by decide) rest
    have same : Text.unifyBreaks ['\\', 'u'] = ['\\', 'u'] := rfl
    rw [Text.unifyBreaks_append cut, same]
    simp only [List.cons_append, List.nil_append, partner]
    rw [codeUnit_unifyBreaks, Scan.unified_after cut ((codeUnit_splits rest).mapValue _),
      Scan.unified_mapValue, same]
  · have other : ¬['\\', 'u'] <+: Text.unifyBreaks text := by
      rwa [Text.prefix_unifyBreaks_iff (by decide)]
    rw [partner_of_no_escape escape, partner_of_no_escape other]
    rfl

theorem resolve_unified (unit : Nat) (low? : Option Nat) (escape : Text.Reading Unit) :
    resolve unit low? escape.unified = (resolve unit low? escape).unified := by
  simp only [resolve]
  split <;> rfl

theorem unicodeEscape_unifyBreaks (rest : List Char) :
    unicodeEscape (Text.unifyBreaks rest) = (unicodeEscape rest).unified := by
  have cut : Text.Cut ['u'] rest := Text.cut_of_ne (by decide) rest
  have first : (codeUnit (Text.unifyBreaks rest)).after ['u'] =
      ((codeUnit rest).after ['u']).unified := by
    rw [codeUnit_unifyBreaks, Scan.unified_after cut (codeUnit_splits rest)]
    rfl
  have splits := (codeUnit_splits rest).after ['u']
  have cuts := (codeUnit_cuts rest).after cut
  unfold unicodeEscape
  rw [first]
  cases read : (codeUnit rest).after ['u'] with
  | error f => rfl
  | ok unit =>
    obtain ⟨value, text, after⟩ := unit
    have split : text ++ after = 'u' :: rest := splits.of_ok read
    have behind : Text.Cut text after := by
      have := cuts.of_ok read
      rw [List.singleton_append, ← split] at this
      exact Text.cutBehind_iff.mp this
    have second : (partner (Text.unifyBreaks after)).after (Text.unifyBreaks text) =
        ((partner after).after text).unified := by
      rw [partner_unifyBreaks, Scan.unified_after behind (partner_splits after)]
    simp only [Scan.unified_ok, Text.Reading.unified]
    by_cases high : Text.Utf16.isHigh value = true
    · rw [if_pos high, if_pos high, second]
      cases (partner after).after text with
      | error f => rfl
      | ok low => exact resolve_unified value low.value (low.map fun _ => ())
    · rw [if_neg high, if_neg high]
      exact resolve_unified value none ⟨(), text, after⟩

theorem escape_unifyBreaks (text : List Char) :
    escape (Text.unifyBreaks text) = (escape text).unified := by
  cases text with
  | nil => rfl
  | cons c rest =>
    by_cases unicode : c = 'u'
    · subst unicode
      rw [Text.unifyBreaks_cons (by decide), escape, if_pos rfl, escape, if_pos rfl]
      exact unicodeEscape_unifyBreaks rest
    · have other : Text.unifyBreak c ≠ 'u' := by
        rwa [Ne, Text.unifyBreak_eq_iff (by decide)]
      have read := Text.first_of_ne (Text.unifyBreak_ne c) (Text.unifyBreaks (Text.first c rest).rest)
      rw [Text.unifyBreaks_first, escape, if_neg other, escape, if_neg unicode]
      simp only [read, Text.first_value]
      cases shortEscape? (Text.unifyBreak c) with
      | some value =>
        simp [Text.Reading.unified, Text.Reading.map, Text.unifyBreaks_first_text]
      | none =>
        simp [Scan.Failure.unified, Fault.unified, Text.unifyBreaks_first_text]

theorem item_unifyBreaks (c : Char) (rest : List Char) :
    item (Text.unifyBreak c) (Text.unifyBreaks (Text.first c rest).rest) =
      (item c rest).unified := by
  by_cases backslash : c = '\\'
  · subst backslash
    have cut : Text.Cut ['\\'] rest := Text.cut_of_ne (by decide) rest
    have same : (Text.first '\\' rest).rest = rest := rfl
    have read : Text.unifyBreak '\\' = '\\' := rfl
    rw [read, item, if_pos rfl, item, if_pos rfl, same, escape_unifyBreaks,
      Scan.unified_after cut (escape_splits rest)]
    rfl
  · have other : Text.unifyBreak c ≠ '\\' := by
      rwa [Ne, Text.unifyBreak_eq_iff (by decide)]
    rw [item, if_neg other, item, if_neg backslash, Text.first_of_ne (Text.unifyBreak_ne c)]
    simp [Text.Reading.unified, Text.first_value, Text.unifyBreaks_first_text]

theorem body_unifyBreaks {quote : Char} (h : Text.isBreak quote = false) (text : List Char) :
    body quote (Text.unifyBreaks text) = (body quote text).unified := by
  fun_induction body quote text with
  | case1 => simp [body, Scan.Failure.unified, Fault.unified]
  | case2 rest =>
    rw [Text.unifyBreaks_cons (Text.ne_of_not_isBreak h), body_cons, if_pos rfl]
    simp [Text.Reading.unified, Text.unifyBreaks_cons (Text.ne_of_not_isBreak h)]
  | case3 c rest other f e =>
    have apart : Text.unifyBreak c ≠ quote := by
      rwa [Ne, Text.unifyBreak_eq_iff h]
    rw [Text.unifyBreaks_first, body_cons, if_neg apart, item_unifyBreaks, e]
    rfl
  | case4 c rest other r e ih =>
    have apart : Text.unifyBreak c ≠ quote := by
      rwa [Ne, Text.unifyBreak_eq_iff h]
    have split : r.text ++ r.rest = c :: rest := (item_splits c rest).of_ok e
    have cut : Text.Cut r.text r.rest := by
      have := (item_cuts c rest).of_ok e
      rw [← split] at this
      exact Text.cutBehind_iff.mp this
    rw [Text.unifyBreaks_first, body_cons, if_neg apart, item_unifyBreaks, e,
      Scan.unified_after cut ((body_splits quote r.rest).mapValue _), Scan.unified_mapValue, ← ih]
    rfl

theorem stringLiteral_unifyBreaks {quote : Char} (h : Text.isBreak quote = false)
    (rest : List Char) :
    stringLiteral quote (Text.unifyBreaks rest) = (stringLiteral quote rest).unified := by
  have other := Text.ne_of_not_isBreak h
  rw [stringLiteral, stringLiteral, body_unifyBreaks h,
    Scan.unified_after (Text.cut_of_ne other rest) ((body_splits quote rest).mapValue _),
    Scan.unified_mapValue, Text.unifyBreaks_cons other]
  rfl

theorem scan_unifyBreaks {c : Char} (h : Text.isBreak c = false) (rest : List Char) :
    scan c (Text.unifyBreaks rest) = (scan c rest).unified := by
  have whole : c :: Text.unifyBreaks rest = Text.unifyBreaks (c :: rest) :=
    (Text.unifyBreaks_cons (Text.ne_of_not_isBreak h) rest).symm
  unfold scan
  split
  · exact stringLiteral_unifyBreaks h rest
  · rw [whole, word_unifyBreaks, number_unifyBreaks, punctuator_unifyBreaks h]
    split
    · rfl
    · split <;> rfl

end Lexeme

end Offside
