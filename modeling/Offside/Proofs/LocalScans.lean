import Offside.Proofs.LiteralGrammar
import Offside.Proofs.MaximalMunch

/-!
How far a scan looks. A scan that succeeds looks at one character behind what it reads, so it reads
the same in front of any other text that begins with that character. A line that ends with a line
break is therefore read the same way whatever follows the line break.
-/

namespace Offside

namespace Scan

/-- A scan that succeeds looks no further than at the first character of what it leaves. -/
def Local {α : Type} (scan : List Char → Scan α) : Prop :=
  ∀ text r after, scan text = .ok r → after.head? = r.rest.head? →
    scan (r.text ++ after) = .ok { r with rest := after }

namespace Local

variable {α β : Type}

theorem mapValue {scan : List Char → Scan α} (h : Local scan) (f : α → β) :
    Local fun text => (scan text).mapValue f := by
  intro text r after read head
  beta_reduce at read ⊢
  obtain ⟨found, first, rfl⟩ := mapValue_eq_ok read
  have again := h text found after first head
  simp only [Text.Reading.map] at again ⊢
  rw [again]
  rfl

/-- What a second scan reads stands behind what the first one reads, so the first one sees no other
character than before. -/
theorem andThen {scan : List Char → Scan α} {next : α → List Char → Scan β} (h : Local scan)
    (hn : ∀ v, Local (next v)) (splits : ∀ v rest, (next v rest).Splits rest) :
    Local fun text => (scan text).andThen next := by
  intro text r after read head
  beta_reduce at read ⊢
  obtain ⟨found, further, first, second, rfl⟩ := andThen_eq_ok read
  have split : further.text ++ further.rest = found.rest := (splits _ _).of_ok second
  have ahead : (further.text ++ after).head? = found.rest.head? := by
    rw [← split, List.head?_append, List.head?_append]
    exact congrArg _ head
  have again := h text found (further.text ++ after) first ahead
  have then_ := hn found.value found.rest further after second head
  simp only [Text.Reading.after, List.append_assoc]
  rw [again]
  simp only [Scan.andThen, ofReading, then_]
  rfl

end Local

end Scan

namespace Lexeme

theorem span_local (p : Char → Bool) : Scan.Local fun text => .ok (Text.Reading.span p text) := by
  intro text r after read head
  cases read
  refine congrArg Except.ok (Text.Reading.span_append (Text.Reading.span_inside p text) ?_)
  rw [head]
  exact Text.Reading.span_stops p text

theorem word_local : Scan.Local fun text => .ok (word text) :=
  (span_local isWordPart).mapValue _

theorem digits_local : Scan.Local fun text => .ok (digits text) :=
  (span_local isDigitOrUnderscore).mapValue _

theorem digitsOr_local (missing : Fault) : Scan.Local (digitsOr missing) := by
  intro text r after read head
  unfold digitsOr at read ⊢
  split at read
  · rename_i begins
    have again := digits_local text r after read head
    cases read
    cases text with
    | nil => contradiction
    | cons c rest =>
      have digit : c.isDigit = true := by simpa using begins
      have front : ((digits (c :: rest)).text ++ after).head? = some c := by
        simp [digits, Text.Reading.map, Text.Reading.span, isDigitOrUnderscore, digit]
      rw [front, Option.any_some, digit, if_pos rfl]
      exact again
  · contradiction

theorem Scan.Local.after_first {α : Type} {scan : List Char → Scan α} (h : Scan.Local scan) (c : Char)
    {rest after : List Char} {r : Text.Reading α} (read : (scan rest).after [c] = .ok r)
    (head : after.head? = r.rest.head?) :
    ∃ more, r.text = c :: more ∧
      (scan (more ++ after)).after [c] =
        .ok { value := r.value, text := c :: more, rest := after } := by
  obtain ⟨found, first, rfl⟩ := Scan.after_eq_ok read
  refine ⟨found.text, rfl, ?_⟩
  rw [h rest found after first head]
  rfl

theorem fraction_local : Scan.Local fraction := by
  intro text r after read head
  have digits : Scan.Local fun rest => (digitsOr .missingFractionDigits rest).mapValue ('.' :: ·) :=
    (digitsOr_local _).mapValue _
  by_cases point : text.head? = some '.'
  · obtain ⟨rest, rfl⟩ := List.head?_eq_some_iff.mp point
    obtain ⟨more, front, again⟩ := Scan.Local.after_first digits '.' read head
    rw [front]
    exact again
  · have none (text : List Char) (other : text.head? ≠ some '.') :
        fraction text = .ok { value := [], text := [], rest := text } := by
      unfold fraction
      split
      · exact absurd rfl other
      · rfl
    rw [none text point] at read
    cases read
    exact none after (head ▸ point)

theorem sign_local : Scan.Local fun text => .ok (sign text) := by
  intro text r after read head
  beta_reduce at read ⊢
  cases read
  have none (text : List Char) (other : text.head?.any isSign = false) :
      sign text = { value := [], text := [], rest := text } := by
    cases text with
    | nil => rfl
    | cons c rest => simp_all [sign]
  cases signed : text.head?.any isSign with
  | false =>
    rw [none text signed] at head ⊢
    exact congrArg Except.ok (none after (by simpa [head] using signed))
  | true =>
    cases text with
    | nil => contradiction
    | cons c rest =>
      have own : isSign c = true := signed
      simp [sign, own]

theorem exponent_local : Scan.Local exponent := by
  have signed (s : List Char) : Scan.Local fun rest =>
      (digitsOr .missingExponentDigits rest).mapValue ('e' :: s ++ ·) :=
    (digitsOr_local _).mapValue _
  have power : Scan.Local fun rest => Scan.ofReading (sign rest) fun s rest =>
      (digitsOr .missingExponentDigits rest).mapValue ('e' :: s ++ ·) :=
    sign_local.andThen signed fun s rest => (digitsOr_splits _ rest).mapValue _
  intro text r after read head
  have none (text : List Char) (other : ∀ c ∈ text.head?, ¬(c = 'e' ∨ c = 'E')) :
      exponent text = .ok { value := [], text := [], rest := text } := by
    cases text with
    | nil => rfl
    | cons c rest => simp [exponent, other c rfl]
  cases text with
  | nil =>
    cases read
    exact none after (by simp [head])
  | cons c rest =>
    by_cases letter : c = 'e' ∨ c = 'E'
    · rw [exponent, if_pos letter] at read
      obtain ⟨more, front, again⟩ := Scan.Local.after_first power c read head
      rw [front, List.cons_append, exponent, if_pos letter]
      exact again
    · have other : ∀ d ∈ (c :: rest).head?, ¬(d = 'e' ∨ d = 'E') := by
        rintro d ⟨⟩
        exact letter
      rw [none _ other] at read
      cases read
      exact none after (head ▸ other)

theorem number_local : Scan.Local number := by
  have further (w : List Char) : Scan.Local fun rest => (fraction rest).andThen fun f rest =>
      (exponent rest).mapValue fun e => numberKind w f e :=
    fraction_local.andThen (fun f => exponent_local.mapValue _)
      fun f rest => (exponent_splits rest).mapValue _
  exact digits_local.andThen further fun w rest =>
    (fraction_splits rest).andThen fun f rest => (exponent_splits rest).mapValue _

/-- No punctuator goes on from another one by more than one character, apart from the three dots. -/
theorem length_of_prefix {p q : Punct} (h : p.spelling <+: q.spelling) :
    q.spelling.length ≤ p.spelling.length + 1 ∨ p = .dot ∧ q = .spread := by
  have table : ∀ p ∈ Punct.all, ∀ q ∈ Punct.all, p.spelling <+: q.spelling →
      q.spelling.length ≤ p.spelling.length + 1 ∨ p = .dot ∧ q = .spread := by decide
  exact table p p.mem_all q q.mem_all h

theorem isLongest_local {p : Punct} {rest after : List Char} (h : p.IsLongest (p.spelling ++ rest))
    (head : after.head? = rest.head?) (alone : p = .dot → rest.head? ≠ some '.') :
    p.IsLongest (p.spelling ++ after) := by
  refine ⟨List.prefix_append _ _, ?_⟩
  intro q front
  by_contra longer
  have within : p.spelling <+: q.spelling :=
    List.prefix_of_prefix_length_le (List.prefix_append _ _) front (by omega)
  obtain ⟨more, spelled⟩ := within
  rw [← spelled, List.prefix_append_right_inj] at front
  cases more with
  | nil => simp [← spelled] at longer
  | cons c more =>
    obtain ⟨behind, rfl⟩ := front
    obtain ⟨left, rfl⟩ := List.head?_eq_some_iff.mp head.symm
    rcases length_of_prefix ⟨_, spelled⟩ with one | ⟨rfl, rfl⟩
    · -- the first character behind `p` is all that it takes, and that one was there before
      have last : more = [] := by
        rw [← spelled, List.length_append, List.length_cons] at one
        exact List.length_eq_zero_iff.mp (by omega)
      subst last
      have fits : q.spelling <+: p.spelling ++ c :: left := by
        rw [← spelled, List.prefix_append_right_inj]
        exact ⟨left, rfl⟩
      exact longer (h.longest q fits)
    · cases spelled
      exact alone rfl rfl

theorem punctuator_local {c : Char} {rest after : List Char} {r : Text.Reading Token.Kind}
    (read : punctuator c rest = .ok r) (head : after.head? = r.rest.head?) :
    ∃ more, r.text ++ after = c :: more ∧ punctuator c more = .ok { r with rest := after } := by
  have splits : r.text ++ r.rest = c :: rest := (punctuator_splits c rest).of_ok read
  unfold punctuator at read
  split at read
  · rename_i p found
    split at read
    · contradiction
    · rename_i single
      cases read
      have longest := Punct.longest?_eq_some_iff.mp found
      obtain ⟨d, inner, spelled⟩ := List.exists_cons_of_ne_nil p.spelling_ne_nil
      have first : d = c := by
        rw [spelled] at splits
        exact (List.cons.inj splits).1
      subst first
      have behind : p = .dot → (inner ++ after).head? = rest.head? := by
        rintro rfl
        cases spelled
        exact head
      have alone : p = .dot → ((d :: rest).drop p.spelling.length).head? ≠ some '.' := by
        rintro rfl second
        exact single ⟨rfl, second⟩
      have whole : d :: (inner ++ after) = p.spelling ++ after := by
        rw [spelled, List.cons_append]
      have again : Punct.longest? (d :: (inner ++ after)) = some p := by
        rw [whole, Punct.longest?_eq_some_iff]
        rw [← splits] at longest
        exact isLongest_local longest head alone
      have left : (d :: (inner ++ after)).drop p.spelling.length = after := by
        rw [whole, List.drop_left]
      have still : ¬(p = .dot ∧ (inner ++ after).head? = some '.') := by
        rintro ⟨dot, second⟩
        exact single ⟨dot, behind dot ▸ second⟩
      refine ⟨inner ++ after, whole.symm, ?_⟩
      simp only [punctuator, again, if_neg still, left]
  · contradiction

theorem scan_local {c : Char} {rest after : List Char} {r : Text.Reading Token.Kind}
    (read : scan c rest = .ok r) (head : after.head? = r.rest.head?) :
    ∃ more, r.text ++ after = c :: more ∧ scan c more = .ok { r with rest := after } := by
  have splits : r.text ++ r.rest = c :: rest := (scan_splits c rest).of_ok read
  have some := scan_consumed_ne_nil c rest
  rw [read] at some
  obtain ⟨d, inner, front⟩ := List.exists_cons_of_ne_nil some
  have front : r.text = d :: inner := front
  have first : d = c := by
    rw [front] at splits
    exact (List.cons.inj splits).1
  subst first
  have whole : r.text ++ after = d :: (inner ++ after) := by rw [front, List.cons_append]
  unfold scan at read
  split at read
  · rename_i quote
    obtain ⟨_, ⟨value, same, literal⟩, _⟩ := ((stringLiteral_exact quote rest).1 r).mp read
    refine ⟨_, whole, ?_⟩
    rw [scan, if_pos quote, stringLiteral_of_isLiteral quote literal whole, same]
  · rename_i quote
    split at read
    · rename_i start
      have again := word_local _ _ _ read head
      rw [whole] at again
      refine ⟨_, whole, ?_⟩
      rw [scan, if_neg quote, if_pos start]
      exact again
    · rename_i start
      split at read
      · rename_i digit
        have again := number_local _ _ _ read head
        rw [whole] at again
        refine ⟨_, whole, ?_⟩
        rw [scan, if_neg quote, if_neg start, if_pos digit]
        exact again
      · rename_i digit
        obtain ⟨more, again, reads⟩ := punctuator_local read head
        refine ⟨more, again, ?_⟩
        rw [scan, if_neg quote, if_neg start, if_neg digit]
        exact reads

end Lexeme

inductive Ending.Alike : Ending → Ending → Prop where
  | refl (e : Ending) : Alike e e
  | lineBreak {text other : List Char} : Text.unifyBreaks text = Text.unifyBreaks other →
      Alike (.lineBreak text) (.lineBreak other)
  | comment {text other : List Char} : Text.unifyBreaks text = Text.unifyBreaks other →
      Alike (.comment text) (.comment other)

namespace Line

/-- A line that ends with a line break, with a comment before it or without, is read in the same way
whatever follows its line break. -/
theorem readPieces_local (text : List Char) :
    (∃ f, (readPieces text).ending = .failure f) ∨ (readPieces text).rest = [] ∨
    ∃ front c tail, Text.isBreak c = true ∧ text = front ++ c :: tail ∧
      (readPieces text).rest = (Text.first c tail).rest ∧
      ∀ other, (readPieces (front ++ c :: other)).pieces = (readPieces text).pieces ∧
        (readPieces text).ending.Alike (readPieces (front ++ c :: other)).ending ∧
        (readPieces (front ++ c :: other)).rest = (Text.first c other).rest := by
  fun_induction readPieces text with
  | case1 => exact .inr (.inl rfl)
  | case2 c rest ends eol =>
    refine .inr (.inr ⟨[], c, rest, ends, rfl, rfl, ?_⟩)
    intro other
    rw [List.nil_append, readPieces, if_pos ends]
    refine ⟨rfl, .lineBreak ?_, rfl⟩
    rw [Text.unifyBreaks_first_text, Text.unifyBreaks_first_text]
  | case3 c rest inside blank ih =>
    rcases ih with fails | done | ⟨front, d, tail, ends, split, left, again⟩
    · exact .inl fails
    · exact .inr (.inl done)
    · refine .inr (.inr ⟨c :: front, d, tail, ends, by rw [split, List.cons_append], left, ?_⟩)
      intro other
      obtain ⟨pieces, ending, rest⟩ := again other
      rw [List.cons_append, readPieces, if_neg inside, if_pos blank]
      exact ⟨congrArg (List.cons _) pieces, ending, rest⟩
  | case4 rest inside blank =>
    obtain ⟨body, within, ⟨rfl, none⟩ | ⟨d, tail, ends, rfl, remark⟩⟩ := comment_cases rest
    · rw [none]
      exact .inr (.inl rfl)
    · refine .inr (.inr ⟨'#' :: body, d, tail, ends, rfl, by rw [remark], ?_⟩)
      intro other
      -- a comment holds no "\r", so nothing of it joins the line break
      have cut (tail : List Char) : Text.Cut ('#' :: body) (Text.first d tail).text := by
        apply Text.cut_of_not_mem
        intro member
        rcases List.mem_cons.mp member with hash | inner
        · contradiction
        · have still := within '\r' inner
          contradiction
      rw [List.cons_append, readPieces_comment, comment_of_break within ends, remark]
      refine ⟨rfl, .comment ?_, rfl⟩
      simp only [Text.unifyBreaks_append (cut _), Text.unifyBreaks_first_text]
  | case5 c rest inside blank comment r read ih =>
    rcases ih with fails | done | ⟨front, d, tail, ends, split, left, again⟩
    · exact .inl fails
    · exact .inr (.inl done)
    · refine .inr (.inr ⟨r.text ++ front, d, tail, ends, ?_, left, ?_⟩)
      · rw [List.append_assoc, ← split]
        exact ((Lexeme.scan_splits c rest).of_ok read).symm
      · intro other
        obtain ⟨pieces, ending, rest⟩ := again other
        -- the lexeme is scanned again, for what is behind it begins with the same character
        have head : (front ++ d :: other).head? = r.rest.head? := by
          rw [split, List.head?_append, List.head?_append]
          rfl
        obtain ⟨more, whole, reads⟩ := Lexeme.scan_local read head
        rw [List.append_assoc, whole, readPieces_lexeme (by simpa using blank) comment reads]
        exact ⟨congrArg (List.cons _) pieces, ending, rest⟩
  | case6 c rest inside blank comment f read => exact .inl ⟨f, rfl⟩

end Line

end Offside
