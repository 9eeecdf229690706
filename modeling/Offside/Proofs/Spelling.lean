import Mathlib.Data.List.TakeWhile
import Offside.Lexeme.Basic

namespace Offside

namespace Lexeme

/-- A numeral without its underscores and with the letter of its exponent in lower case. -/
def canonical (numeral : List Char) : List Char :=
  (numeral.filter (· != '_')).map fun c => if c = 'E' then 'e' else c

theorem canonical_append (a b : List Char) : canonical (a ++ b) = canonical a ++ canonical b := by
  simp [canonical]

end Lexeme

/-- Whether `text` spells a token of a kind. Blocks and line ends are not spelled. -/
def Token.Kind.SpelledBy (text : List Char) : Token.Kind → Prop
  | punct p => text = p.spelling
  | keyword k => text = k.word.toList
  | id name => text = name.toList
  | int numeral | float numeral => Lexeme.canonical text = numeral.toList
  | str _ => ∃ quote inside, Lexeme.isQuote quote = true ∧ text = [quote] ++ inside ++ [quote]
  | indent | dedent | newLine => False

def Token.Kind.isLayout : Token.Kind → Bool
  | indent | dedent | newLine => true
  | punct _ | keyword _ | id _ | int _ | float _ | str _ => false

theorem Token.Kind.SpelledBy.not_isLayout {kind : Token.Kind} {text : List Char}
    (h : kind.SpelledBy text) : kind.isLayout = false := by
  cases kind <;> first | rfl | exact False.elim h

namespace Lexeme

theorem wordKind_spelled (word : List Char) : (wordKind (String.ofList word)).SpelledBy word := by
  unfold wordKind
  split
  · rename_i k found
    have same : k.word = String.ofList word := by simpa using List.find?_some found
    simp [Token.Kind.SpelledBy, same]
  · simp [Token.Kind.SpelledBy]

def Canonical (s : Scan (List Char)) : Prop :=
  ∀ r, s = .ok r → r.value = canonical r.text

theorem Canonical.after {s : Scan (List Char)} {front text : List Char} (h : Canonical s)
    (e : front = canonical text) : Canonical ((s.mapValue (front ++ ·)).after text) := by
  cases s with
  | ok r =>
    intro read same
    cases same
    rw [Text.Reading.after, canonical_append, ← e]
    exact congrArg (front ++ ·) (h r rfl)
  | error f =>
    intro read same
    contradiction

theorem digits_canonical (text : List Char) :
    (digits text).value = canonical (digits text).text := by
  have small : ∀ c ∈ (digits text).value, c = if c = 'E' then 'e' else c := by
    intro c member
    have class_ := List.mem_takeWhile_imp (List.mem_filter.mp member).1
    rw [if_neg]
    rintro rfl
    contradiction
  calc (digits text).value
      = (digits text).value.map id := (List.map_id _).symm
    _ = canonical (digits text).text := List.map_congr_left small

theorem digitsOr_canonical (missing : Fault) (text : List Char) :
    Canonical (digitsOr missing text) := by
  intro r h
  unfold digitsOr at h
  split at h
  · cases h
    exact digits_canonical text
  · contradiction

theorem fraction_canonical (text : List Char) : Canonical (fraction text) := by
  unfold fraction
  split
  · have point : ['.'] = canonical ['.'] := by decide
    exact (digitsOr_canonical _ _).after point
  · intro r h
    cases h
    rfl

theorem sign_canonical (text : List Char) : (sign text).value = canonical (sign text).text := by
  unfold sign
  split
  · rename_i c rest
    split
    · rename_i signed
      simp only [isSign, Bool.or_eq_true, decide_eq_true_eq] at signed
      rcases signed with rfl | rfl <;> rfl
    · rfl
  · rfl

theorem exponent_canonical (text : List Char) : Canonical (exponent text) := by
  unfold exponent
  split
  · rename_i c rest
    split
    · rename_i letter
      have front : 'e' :: (sign rest).value = canonical ([c] ++ (sign rest).text) := by
        rw [canonical_append, ← sign_canonical]
        rcases letter with rfl | rfl <;> rfl
      rw [Scan.ofReading, Scan.after_after]
      exact (digitsOr_canonical _ _).after front
    · intro r h
      cases h
      rfl
  · intro r h
    cases h
    rfl

theorem number_eq_ok {text : List Char} {r : Text.Reading Token.Kind} (h : number text = .ok r) :
    ∃ f e, fraction (digits text).rest = .ok f ∧ exponent f.rest = .ok e ∧
      r.value = numberKind (digits text).value f.value e.value ∧
      r.text = (digits text).text ++ (f.text ++ e.text) := by
  obtain ⟨_, inner, rfl⟩ := Scan.after_eq_ok h
  obtain ⟨f, _, hf, behind, rfl⟩ := Scan.andThen_eq_ok inner
  obtain ⟨e, he, rfl⟩ := Scan.mapValue_eq_ok behind
  exact ⟨f, e, hf, he, rfl, rfl⟩

theorem number_spelled {text : List Char} {r : Text.Reading Token.Kind} (h : number text = .ok r) :
    r.value.SpelledBy r.text := by
  obtain ⟨f, e, hf, he, value, front⟩ := number_eq_ok h
  have whole : canonical r.text = (digits text).value ++ f.value ++ e.value := by
    rw [front, canonical_append, canonical_append, ← digits_canonical, ← fraction_canonical _ f hf,
      ← exponent_canonical _ e he, List.append_assoc]
  rw [value, numberKind]
  split
  · simpa [Token.Kind.SpelledBy] using whole
  · simpa [Token.Kind.SpelledBy] using whole

theorem body_ends {quote : Char} {text : List Char} {r : Text.Reading (List Char)}
    (h : body quote text = .ok r) : ∃ inside, r.text = inside ++ [quote] := by
  fun_induction body quote text generalizing r with
  | case1 => contradiction
  | case2 rest =>
    cases h
    exact ⟨[], rfl⟩
  | case3 => contradiction
  | case4 c rest _ first _ ih =>
    obtain ⟨_, inner, rfl⟩ := Scan.after_eq_ok h
    obtain ⟨read, behind, rfl⟩ := Scan.mapValue_eq_ok inner
    obtain ⟨inside, ends⟩ := ih behind
    exact ⟨first.text ++ inside, by simp [Text.Reading.after, Text.Reading.map, ends]⟩

theorem stringLiteral_eq_ok {quote : Char} {rest : List Char} {r : Text.Reading Token.Kind}
    (h : stringLiteral quote rest = .ok r) :
    ∃ inner, body quote rest = .ok inner ∧ r.value = .str (String.ofList inner.value) ∧
      r.text = quote :: inner.text := by
  obtain ⟨_, literal, rfl⟩ := Scan.after_eq_ok h
  obtain ⟨inner, read, rfl⟩ := Scan.mapValue_eq_ok literal
  exact ⟨inner, read, rfl, rfl⟩

theorem stringLiteral_spelled {quote : Char} {rest : List Char} {r : Text.Reading Token.Kind}
    (quotes : isQuote quote = true) (h : stringLiteral quote rest = .ok r) :
    r.value.SpelledBy r.text := by
  obtain ⟨inner, read, value, text⟩ := stringLiteral_eq_ok h
  obtain ⟨inside, ends⟩ := body_ends read
  rw [value, text, ends]
  exact ⟨quote, inside, quotes, rfl⟩

theorem punctuator_eq_ok {c : Char} {rest : List Char} {r : Text.Reading Token.Kind}
    (h : punctuator c rest = .ok r) : ∃ p : Punct, r.value = .punct p ∧ r.text = p.spelling := by
  unfold punctuator at h
  split at h
  · split at h
    · contradiction
    · cases h
      exact ⟨_, rfl, rfl⟩
  · contradiction

theorem punctuator_spelled {c : Char} {rest : List Char} {r : Text.Reading Token.Kind}
    (h : punctuator c rest = .ok r) : r.value.SpelledBy r.text := by
  obtain ⟨p, value, text⟩ := punctuator_eq_ok h
  rw [value, text]
  rfl

theorem scan_spelled {c : Char} {rest : List Char} {r : Text.Reading Token.Kind}
    (h : scan c rest = .ok r) : r.value.SpelledBy r.text := by
  unfold scan at h
  split at h
  · rename_i quotes
    exact stringLiteral_spelled quotes h
  · split at h
    · cases h
      exact wordKind_spelled _
    · split at h
      · exact number_spelled h
      · exact punctuator_spelled h

end Lexeme

end Offside
