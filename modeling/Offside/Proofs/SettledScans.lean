import Offside.Proofs.UnifiedScans

/-!
Scans of a text that ends with '\n'. Only a string literal that is still open can run into the end
of such a text; every other scan is settled before. Whatever text follows then changes nothing but
what is left over.
-/

namespace Offside.Text

/-- The text ends with '\n'. -/
def Terminated (text : List Char) : Prop :=
  text.getLast? = some '\n'

theorem Terminated.ne_nil {text : List Char} (h : Terminated text) : text ≠ [] := by
  rintro rfl
  contradiction

theorem Terminated.of_append {front left : List Char} (h : Terminated (front ++ left))
    (ne : left ≠ []) : Terminated left := by
  have last : left.getLast? = some (left.getLast ne) := List.getLast?_eq_some_getLast ne
  have whole : (front ++ left).getLast? = some (left.getLast ne) := by
    rw [List.getLast?_append, last, Option.some_or]
  exact last.trans (whole.symm.trans h)

theorem Terminated.behind {front left : List Char} (h : Terminated (front ++ left))
    (clean : '\n' ∉ front) : Terminated left := by
  apply h.of_append
  rintro rfl
  rw [List.append_nil] at h
  exact clean (List.mem_of_getLast? h)

theorem Terminated.tail {c : Char} {rest : List Char} (h : Terminated (c :: rest))
    (other : c ≠ '\n') : Terminated rest := by
  have split : Terminated ([c] ++ rest) := h
  exact split.behind (by simpa using other.symm)

theorem Terminated.inside {c : Char} {rest : List Char} (h : Terminated (c :: rest))
    (inside : isBreak c = false) : Terminated rest := by
  apply h.tail
  rintro rfl
  contradiction

/-- The text is empty or ends with '\n'. -/
def WholeLines (text : List Char) : Prop :=
  text = [] ∨ Terminated text

instance (text : List Char) : Decidable (WholeLines text) :=
  inferInstanceAs (Decidable (text = [] ∨ text.getLast? = some '\n'))

theorem WholeLines.of_append {front left : List Char} (h : WholeLines (front ++ left)) :
    WholeLines left := by
  by_cases none : left = []
  · exact Or.inl none
  · rcases h with empty | ends
    · exact absurd (List.append_eq_nil_iff.mp empty).2 none
    · exact Or.inr (ends.of_append none)

theorem WholeLines.terminated {c : Char} {rest : List Char} (h : WholeLines (c :: rest)) :
    Terminated (c :: rest) :=
  h.resolve_left (List.cons_ne_nil c rest)

theorem Terminated.head?_append {text : List Char} (h : Terminated text) (more : List Char) :
    (text ++ more).head? = text.head? := by
  obtain ⟨c, rest, rfl⟩ := List.exists_cons_of_ne_nil h.ne_nil
  rfl

def Reading.extend {α : Type} (more : List Char) (r : Reading α) : Reading α :=
  { r with rest := r.rest ++ more }

theorem first_extend {c : Char} {rest : List Char} (h : Terminated (c :: rest))
    (more : List Char) : first c (rest ++ more) = (first c rest).extend more := by
  by_cases cr : c = '\r'
  · subst cr
    obtain ⟨d, rest, rfl⟩ := List.exists_cons_of_ne_nil (h.tail (by decide)).ne_nil
    by_cases lf : d = '\n'
    · subst lf
      rfl
    · simp [first, lf, Reading.extend]
  · simp [first, cr, Reading.extend]

section Span

variable {p : Char → Bool} {text : List Char} (stops : p '\n' = false) (h : Terminated text)

include stops h

theorem span_terminated : Terminated (Reading.span p text).rest := by
  have clean : '\n' ∉ text.takeWhile p := by
    intro member
    have inside := List.mem_takeWhile_imp member
    rw [stops] at inside
    contradiction
  have split : text.takeWhile p ++ text.dropWhile p = text := List.takeWhile_append_dropWhile
  exact Terminated.behind (split.symm ▸ h) clean

theorem span_extend (more : List Char) :
    Reading.span p (text ++ more) = (Reading.span p text).extend more := by
  have left : text.dropWhile p ≠ [] := (span_terminated stops h).ne_nil
  have short : (text.takeWhile p).length ≠ text.length := by
    intro full
    have whole := (List.takeWhile_prefix p).eq_of_length full
    exact left (List.dropWhile_eq_nil_iff.mpr (List.takeWhile_eq_self_iff.mp whole))
  simp [Reading.span, Reading.extend, List.takeWhile_append, List.dropWhile_append, short, left]

end Span

end Offside.Text

namespace Offside

namespace Scan

def extend {α : Type} (more : List Char) : Scan α → Scan α
  | .ok r => .ok (r.extend more)
  | .error f => .error f

/-- The scan `s` of a text is settled before the end of the text: with `more` behind the text it is
`longer`, which reads the same and leaves more. -/
structure Settled {α : Type} (more : List Char) (s longer : Scan α) : Prop where
  same : longer = s.extend more
  rest : ∀ r, s = .ok r → Text.Terminated r.rest

namespace Settled

variable {α β : Type} {more : List Char}

theorem ok {r : Text.Reading α} (h : Text.Terminated r.rest) :
    Settled more (.ok r) (.ok (r.extend more)) := by
  refine ⟨rfl, ?_⟩
  intro _ same
  cases same
  exact h

theorem error (f : Failure) : Settled more (.error f : Scan α) (.error f) :=
  ⟨rfl, by simp⟩

theorem after {s longer : Scan α} (h : Settled more s longer) (text : List Char) :
    Settled more (s.after text) (longer.after text) := by
  obtain ⟨rfl, rest⟩ := h
  cases s with
  | ok r => exact ok (r := r.after text) (rest r rfl)
  | error f => exact error (f.after text)

theorem mapValue {s longer : Scan α} (h : Settled more s longer) (f : α → β) :
    Settled more (s.mapValue f) (longer.mapValue f) := by
  obtain ⟨rfl, rest⟩ := h
  cases s with
  | ok r => exact ok (r := r.map f) (rest r rfl)
  | error e => exact error e

theorem ofReading {r : Text.Reading α} {next : α → List Char → Scan β}
    (h : Text.Terminated r.rest)
    (hn : ∀ v rest, Text.Terminated rest → Settled more (next v rest) (next v (rest ++ more))) :
    Settled more (Scan.ofReading r next) (Scan.ofReading (r.extend more) next) :=
  (hn r.value r.rest h).after r.text

theorem andThen {s longer : Scan α} {next : α → List Char → Scan β} (h : Settled more s longer)
    (hn : ∀ v rest, Text.Terminated rest → Settled more (next v rest) (next v (rest ++ more))) :
    Settled more (s.andThen next) (longer.andThen next) := by
  obtain ⟨rfl, rest⟩ := h
  cases s with
  | ok r => exact ofReading (rest r rfl) hn
  | error f => exact error f

end Settled

end Scan

namespace Lexeme

section Terminated

variable {text : List Char} (h : Text.Terminated text) (more : List Char)

include h

theorem word_settled : Scan.Settled more (.ok (word text)) (.ok (word (text ++ more))) := by
  have longer : word (text ++ more) = (word text).extend more := by
    rw [word, Text.span_extend (by decide) h more]
    rfl
  have left : Text.Terminated (word text).rest :=
    Text.span_terminated (p := isWordPart) (by decide) h
  rw [longer]
  exact .ok left

theorem digits_terminated : Text.Terminated (digits text).rest :=
  Text.span_terminated (p := isDigitOrUnderscore) (by decide) h

theorem digits_extend : digits (text ++ more) = (digits text).extend more := by
  rw [digits, Text.span_extend (by decide) h more]
  rfl

theorem digitsOr_settled (missing : Fault) :
    Scan.Settled more (digitsOr missing text) (digitsOr missing (text ++ more)) := by
  unfold digitsOr
  rw [h.head?_append, digits_extend h more]
  split
  · exact .ok (digits_terminated h)
  · exact .error _

theorem fraction_settled : Scan.Settled more (fraction text) (fraction (text ++ more)) := by
  unfold fraction
  split
  · rename_i rest
    have left : Text.Terminated rest := h.tail (by decide)
    exact ((digitsOr_settled left more _).mapValue _).after _
  · rename_i other
    obtain ⟨c, rest, rfl⟩ := List.exists_cons_of_ne_nil h.ne_nil
    split
    · rename_i front same
      cases same
      exact absurd rfl (other _)
    · exact .ok h

theorem sign_terminated : Text.Terminated (sign text).rest := by
  unfold sign
  split
  · split
    · rename_i signed
      refine h.tail ?_
      rintro rfl
      contradiction
    · exact h
  · exact h

theorem sign_extend : sign (text ++ more) = (sign text).extend more := by
  obtain ⟨c, rest, rfl⟩ := List.exists_cons_of_ne_nil h.ne_nil
  simp only [List.cons_append, sign]
  split <;> rfl

theorem exponent_settled : Scan.Settled more (exponent text) (exponent (text ++ more)) := by
  obtain ⟨c, rest, rfl⟩ := List.exists_cons_of_ne_nil h.ne_nil
  simp only [List.cons_append, exponent]
  split
  · rename_i letter
    have left : Text.Terminated rest := by
      refine h.tail ?_
      rintro rfl
      exact absurd letter (by decide)
    rw [sign_extend left more]
    refine Scan.Settled.after (.ofReading (sign_terminated left) ?_) _
    intro s rest ends
    exact (digitsOr_settled ends more _).mapValue _
  · exact .ok (r := ⟨[], [], c :: rest⟩) h

theorem number_settled : Scan.Settled more (number text) (number (text ++ more)) := by
  rw [number, number, digits_extend h more]
  refine .ofReading (digits_terminated h) ?_
  intro w rest ends
  refine (fraction_settled ends more).andThen ?_
  intro f rest ends
  exact (exponent_settled ends more).mapValue _

/-- A spelling without '\n' does not reach beyond a terminated text. -/
theorem prefix_append_iff {front : List Char} (clean : '\n' ∉ front) :
    front <+: text ++ more ↔ front <+: text := by
  constructor
  · intro within
    rcases List.prefix_or_prefix_of_prefix within (List.prefix_append text more) with
      inside | beyond
    · exact inside
    · exact absurd (beyond.subset (List.mem_of_getLast? h)) clean
  · intro within
    exact within.trans (List.prefix_append text more)

theorem longest?_append : Punct.longest? (text ++ more) = Punct.longest? text := by
  have clean (p : Punct) : '\n' ∉ p.spelling := blank_not_mem_spelling (by decide) p
  have same (p : Punct) : p.spelling.isPrefixOf (text ++ more) = p.spelling.isPrefixOf text := by
    rw [Bool.eq_iff_iff, List.isPrefixOf_iff_prefix, List.isPrefixOf_iff_prefix,
      prefix_append_iff h more (clean p)]
  simp only [Punct.longest?, same]

theorem codeUnit_settled : Scan.Settled more (codeUnit text) (codeUnit (text ++ more)) := by
  have digits : ((text ++ more).take 4).takeWhile Text.Hex.isDigit =
      (text.take 4).takeWhile Text.Hex.isDigit := by
    have same : (text ++ more).takeWhile Text.Hex.isDigit = text.takeWhile Text.Hex.isDigit :=
      congrArg Text.Reading.text (Text.span_extend (by decide) h more)
    rw [← List.take_takeWhile, ← List.take_takeWhile, same]
  have front := front_hexDigits text
  have clean : '\n' ∉ (text.take 4).takeWhile Text.Hex.isDigit := by
    intro member
    have := List.mem_takeWhile_imp member
    contradiction
  have split := List.prefix_iff_eq_append.mp front
  have left : Text.Terminated (text.drop ((text.take 4).takeWhile Text.Hex.isDigit).length) :=
    Text.Terminated.behind (split.symm ▸ h) clean
  obtain ⟨c, rest, ahead⟩ := List.exists_cons_of_ne_nil left.ne_nil
  simp only [codeUnit, digits, List.drop_append_of_le_length front.length_le]
  split
  · exact .ok (r := ⟨_, _, _⟩) left
  · simp only [ahead, List.cons_append]
    exact .error _

theorem partner_settled : Scan.Settled more (partner text) (partner (text ++ more)) := by
  by_cases escape : ['\\', 'u'] <+: text
  · obtain ⟨rest, rfl⟩ := escape
    have left : Text.Terminated rest := h.behind (by decide)
    exact ((codeUnit_settled left more).mapValue some).after ['\\', 'u']
  · have other : ¬['\\', 'u'] <+: text ++ more := by
      rwa [prefix_append_iff h more (by decide)]
    rw [partner_of_no_escape escape, partner_of_no_escape other]
    exact .ok (r := ⟨none, [], text⟩) h

omit h in
theorem resolve_settled (unit : Nat) (low? : Option Nat) (escape : Text.Reading Unit)
    (left : Text.Terminated escape.rest) :
    Scan.Settled more (resolve unit low? escape) (resolve unit low? (escape.extend more)) := by
  simp only [resolve]
  split
  · exact .ok (r := escape.map _) left
  · exact .error _

theorem unicodeEscape_settled :
    Scan.Settled more (unicodeEscape text) (unicodeEscape (text ++ more)) := by
  have first := (codeUnit_settled h more).after ['u']
  unfold unicodeEscape
  rw [first.same]
  cases read : (codeUnit text).after ['u'] with
  | error f => exact .error f
  | ok unit =>
    have left : Text.Terminated unit.rest := first.rest unit read
    have second := (partner_settled left more).after unit.text
    simp only [Scan.extend, Text.Reading.extend]
    split
    · rw [second.same]
      cases pair : (partner unit.rest).after unit.text with
      | error f => exact .error f
      | ok low => exact resolve_settled more _ _ (low.map _) (second.rest low pair)
    · exact resolve_settled more _ _ (unit.map _) left

theorem escape_settled : Scan.Settled more (escape text) (escape (text ++ more)) := by
  obtain ⟨c, rest, rfl⟩ := List.exists_cons_of_ne_nil h.ne_nil
  simp only [List.cons_append, escape]
  split
  · rename_i unicode
    exact unicodeEscape_settled (h.tail (by rw [unicode]; decide)) more
  · rw [Text.first_extend h more]
    cases ends : Text.isBreak c with
    | true =>
      -- no escape stands for a line break, which may be the last of the text
      have value : (Text.first c rest).value = '\n' := by
        rw [Text.first_value, Text.unifyBreak_of_isBreak ends]
      simp only [Text.Reading.extend, value]
      exact .error _
    | false =>
      have left := h.inside ends
      rw [Text.first_of_not_isBreak ends]
      simp only [Text.Reading.extend]
      split
      · exact .ok (r := ⟨_, [c], rest⟩) left
      · exact .error _

end Terminated

theorem item_extend {c : Char} {rest : List Char} (h : Text.Terminated (c :: rest))
    (more : List Char) : item c (rest ++ more) = (item c rest).extend more := by
  unfold item
  split
  · rename_i backslash
    have left : Text.Terminated rest := h.tail (by rw [backslash]; decide)
    exact ((escape_settled left more).after ['\\']).same
  · rw [Text.first_extend h more]
    rfl

/-- A literal that is closed within a text, or wrong within it, is settled. -/
theorem body_settled {quote : Char} (visible : quote ≠ '\n') {text : List Char}
    (lines : Text.WholeLines text) (more : List Char)
    (closed : ∀ f, body quote text = .error f → f.fault ≠ .unterminatedString) :
    Scan.Settled more (body quote text) (body quote (text ++ more)) := by
  fun_induction body quote text with
  | case1 => exact absurd rfl (closed _ rfl)
  | case2 rest =>
    have h := lines.terminated
    rw [List.cons_append, body_cons, if_pos rfl]
    exact .ok (r := ⟨[], [quote], rest⟩) (h.tail visible)
  | case3 c rest other f e =>
    have h := lines.terminated
    rw [List.cons_append, body_cons, if_neg other, item_extend h more, e]
    exact .error f
  | case4 c rest other r e ih =>
    have h := lines.terminated
    have split : r.text ++ r.rest = c :: rest := (item_splits c rest).of_ok e
    have left : Text.WholeLines r.rest := Text.WholeLines.of_append (split.symm ▸ lines)
    have further : ∀ f, body quote r.rest = .error f → f.fault ≠ .unterminatedString := by
      intro f failed
      apply closed (f.after r.text)
      rw [failed]
      rfl
    rw [List.cons_append, body_cons, if_neg other, item_extend h more, e]
    exact ((ih left further).mapValue _).after r.text

section Front

variable {c : Char} {rest : List Char} (h : Text.Terminated (c :: rest)) (more : List Char)

include h

theorem punctuator_settled (inside : Text.isBreak c = false) :
    Scan.Settled more (punctuator c rest) (punctuator c (rest ++ more)) := by
  have left := h.inside inside
  have found := longest?_append h more
  rw [List.cons_append] at found
  simp only [punctuator, found, left.head?_append]
  split
  · rename_i p longest
    split
    · exact .error _
    · have front := Punct.spelling_prefix_of_longest? longest
      have clean : '\n' ∉ p.spelling := by
        cases p <;> decide
      have split := List.prefix_iff_eq_append.mp front
      have behind : Text.Terminated ((c :: rest).drop p.spelling.length) :=
        Text.Terminated.behind (split.symm ▸ h) clean
      have longer : (c :: (rest ++ more)).drop p.spelling.length =
          (c :: rest).drop p.spelling.length ++ more :=
        List.drop_append_of_le_length front.length_le
      rw [longer]
      exact .ok (r := ⟨Token.Kind.punct p, p.spelling, _⟩) behind
  · exact .error _

/-- A lexeme in a terminated text is settled, unless it is a string literal that is open at the
end. -/
theorem scan_settled (inside : Text.isBreak c = false)
    (closed : ∀ f, scan c rest = .error f → f.fault ≠ .unterminatedString) :
    Scan.Settled more (scan c rest) (scan c (rest ++ more)) := by
  have visible : c ≠ '\n' := by
    rintro rfl
    contradiction
  unfold scan at closed ⊢
  split
  · rename_i quotes
    rw [if_pos quotes] at closed
    have within : ∀ f, body c rest = .error f → f.fault ≠ .unterminatedString := by
      intro f failed
      apply closed (f.after [c])
      rw [stringLiteral, failed]
      rfl
    exact ((body_settled visible (Or.inr (h.tail visible)) more within).mapValue _).after [c]
  · split
    · exact word_settled h more
    · split
      · exact number_settled h more
      · exact punctuator_settled h more inside

end Front

end Lexeme

end Offside
