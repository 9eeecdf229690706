import Offside.Proofs.Cuts
import Offside.Text.Blank

namespace Offside.Scan

/-- What a scan of `input` consumed, and what lies before its fault, may be cut off from the rest. -/
def Cuts {α : Type} (input : List Char) : Scan α → Prop
  | .ok r => Text.CutBehind r.text input
  | .error f => Text.CutBehind f.before input ∧ Text.CutBehind f.text input

theorem Cuts.after {α : Type} {input text : List Char} {s : Scan α} (cut : Text.Cut text input)
    (h : s.Cuts input) : (s.after text).Cuts (text ++ input) := by
  cases s with
  | ok r => exact Text.CutBehind.append cut h
  | error f => exact ⟨Text.CutBehind.append cut h.1, Text.CutBehind.append cut h.2⟩

theorem Cuts.mapValue {α β : Type} {input : List Char} {s : Scan α} (f : α → β)
    (h : s.Cuts input) : (s.mapValue f).Cuts input := by
  cases s with
  | ok r => exact h
  | error e => exact h

theorem Cuts.of_ok {α : Type} {input : List Char} {s : Scan α} {r : Text.Reading α}
    (h : s.Cuts input) (e : s = .ok r) : Text.CutBehind r.text input := by
  subst e
  exact h

theorem Cuts.of_error {α : Type} {input : List Char} {s : Scan α} {f : Failure}
    (h : s.Cuts input) (e : s = .error f) :
    Text.CutBehind f.before input ∧ Text.CutBehind f.text input := by
  subst e
  exact h

theorem ofReading_cuts {α β : Type} {input : List Char} {r : Text.Reading α}
    {next : α → List Char → Scan β} (splits : r.Splits input) (cut : Text.CutBehind r.text input)
    (hn : ∀ v rest, (next v rest).Cuts rest) : (ofReading r next).Cuts input := by
  have split : r.text ++ r.rest = input := splits
  subst split
  exact Cuts.after (Text.cutBehind_iff.mp cut) (hn r.value r.rest)

theorem Cuts.andThen {α β : Type} {input : List Char} {s : Scan α}
    {next : α → List Char → Scan β} (splits : s.Splits input) (h : s.Cuts input)
    (hn : ∀ v rest, (next v rest).Cuts rest) : (s.andThen next).Cuts input := by
  cases s with
  | ok r => exact ofReading_cuts splits h hn
  | error f => exact h

end Offside.Scan

namespace Offside.Lexeme

theorem word_cuts (text : List Char) : Text.CutBehind (word text).text text :=
  Text.cutBehind_of_not_mem (Text.span_not_mem (by decide) text) text

theorem digits_cuts (text : List Char) : Text.CutBehind (digits text).text text :=
  Text.cutBehind_of_not_mem (Text.span_not_mem (by decide) text) text

theorem digitsOr_cuts (missing : Fault) (text : List Char) :
    (digitsOr missing text).Cuts text := by
  unfold digitsOr
  split
  · exact digits_cuts text
  · exact ⟨Text.cutBehind_nil _, Text.cutBehind_nil _⟩

theorem fraction_cuts (text : List Char) : (fraction text).Cuts text := by
  unfold fraction
  split
  · rename_i rest
    exact Scan.Cuts.after (Text.cut_of_ne (by decide) rest) ((digitsOr_cuts _ _).mapValue _)
  · exact Text.cutBehind_nil _

theorem sign_cuts (text : List Char) : Text.CutBehind (sign text).text text := by
  unfold sign
  split
  · rename_i c rest
    split
    · rename_i signed
      apply Text.cutBehind_of_ne
      rintro rfl
      contradiction
    · exact Text.cutBehind_nil _
  · exact Text.cutBehind_nil _

theorem exponent_cuts (text : List Char) : (exponent text).Cuts text := by
  unfold exponent
  split
  · rename_i c rest
    split
    · rename_i letter
      have cut : Text.Cut [c] rest := by
        apply Text.cut_of_ne
        rintro rfl
        exact absurd letter (by decide)
      refine Scan.Cuts.after cut (Scan.ofReading_cuts (sign_splits rest) (sign_cuts rest) ?_)
      intro s rest
      exact (digitsOr_cuts _ _).mapValue _
    · exact Text.cutBehind_nil _
  · exact Text.cutBehind_nil _

theorem number_cuts (text : List Char) : (number text).Cuts text := by
  refine Scan.ofReading_cuts (digits_splits text) (digits_cuts text) ?_
  intro w rest
  refine Scan.Cuts.andThen (fraction_splits rest) (fraction_cuts rest) ?_
  intro f rest
  exact (exponent_cuts rest).mapValue _

theorem blank_not_mem_spelling {c : Char} (blank : Text.isBlank c = true) (p : Punct) :
    c ∉ p.spelling := by
  have visible : p.spelling.all (!Text.isBlank ·) = true := by
    cases p <;> decide
  intro member
  have other := List.all_eq_true.mp visible c member
  rw [blank] at other
  contradiction

theorem punctuator_cuts {c : Char} (h : Text.isBreak c = false) (rest : List Char) :
    (punctuator c rest).Cuts (c :: rest) := by
  unfold punctuator
  split
  · rename_i p _
    split
    · exact ⟨Text.cutBehind_nil _, Text.cutBehind_of_not_mem (by decide) _⟩
    · exact Text.cutBehind_of_not_mem (blank_not_mem_spelling (by decide) p) _
  · exact ⟨Text.cutBehind_nil _, Text.cutBehind_of_ne (Text.ne_of_not_isBreak h) _⟩

theorem hexDigits_not_mem (text : List Char) : '\r' ∉ text.takeWhile Text.Hex.isDigit := by
  intro member
  have := List.mem_takeWhile_imp member
  contradiction

theorem codeUnit_cuts (text : List Char) : (codeUnit text).Cuts text := by
  have digits := Text.cutBehind_of_not_mem (hexDigits_not_mem (text.take 4)) text
  simp only [codeUnit]
  split
  · exact digits
  · split
    · exact ⟨digits, digits⟩
    · exact ⟨digits, digits⟩

theorem partner_cuts (text : List Char) : (partner text).Cuts text := by
  unfold partner
  split
  · rename_i rest
    have cut : Text.Cut ['\\', 'u'] rest := Text.cut_of_not_mem (by decide) rest
    exact Scan.Cuts.after cut ((codeUnit_cuts rest).mapValue _)
  · exact Text.cutBehind_nil _

theorem resolve_cuts {unit : Nat} {low? : Option Nat} {escape : Text.Reading Unit}
    {input : List Char} (h : Text.CutBehind escape.text input) :
    (resolve unit low? escape).Cuts input := by
  simp only [resolve]
  split
  · exact h
  · exact ⟨Text.cutBehind_nil _, h⟩

theorem unicodeEscape_cuts (rest : List Char) : (unicodeEscape rest).Cuts ('u' :: rest) := by
  have su := (codeUnit_splits rest).after ['u']
  have hu := (codeUnit_cuts rest).after (Text.cut_of_ne (c := 'u') (by decide) rest)
  unfold unicodeEscape
  split
  · rename_i f h
    exact hu.of_error h
  · rename_i unit h
    have split : unit.text ++ unit.rest = 'u' :: rest := su.of_ok h
    have cut := hu.of_ok h
    rw [List.singleton_append, ← split] at cut
    split
    · have hp := Scan.Cuts.after (Text.cutBehind_iff.mp cut) (partner_cuts unit.rest)
      rw [split] at hp
      split
      · rename_i f e
        exact hp.of_error e
      · rename_i low e
        exact resolve_cuts (hp.of_ok e)
    · rw [split] at cut
      exact resolve_cuts cut

theorem escape_cuts (text : List Char) : (escape text).Cuts text := by
  unfold escape
  split
  · exact ⟨Text.cutBehind_nil _, Text.cutBehind_nil _⟩
  · rename_i c rest
    split
    · rename_i h
      exact h ▸ unicodeEscape_cuts rest
    · have cut := Text.first_cutBehind c rest
      simp only
      split
      · exact cut
      · exact ⟨Text.cutBehind_nil _, cut⟩

theorem item_cuts (c : Char) (rest : List Char) : (item c rest).Cuts (c :: rest) := by
  unfold item
  split
  · rename_i h
    subst h
    exact (escape_cuts rest).after (Text.cut_of_ne (by decide) rest)
  · exact Text.first_cutBehind c rest

theorem body_cuts {quote : Char} (h : quote ≠ '\r') (text : List Char) :
    (body quote text).Cuts text := by
  fun_induction body quote text with
  | case1 => exact ⟨Text.cutBehind_nil _, Text.cutBehind_nil _⟩
  | case2 rest => exact Text.cutBehind_of_ne h _
  | case3 c rest _ f e => exact (item_cuts c rest).of_error e
  | case4 c rest _ r e ih =>
    have split : r.text ++ r.rest = c :: rest := (item_splits c rest).of_ok e
    have cut := (item_cuts c rest).of_ok e
    rw [← split] at cut ⊢
    exact Scan.Cuts.after (Text.cutBehind_iff.mp cut) (ih.mapValue _)

theorem stringLiteral_cuts {quote : Char} (h : quote ≠ '\r') (rest : List Char) :
    (stringLiteral quote rest).Cuts (quote :: rest) :=
  Scan.Cuts.after (Text.cut_of_ne h rest) ((body_cuts h rest).mapValue _)

theorem scan_cuts {c : Char} (h : Text.isBreak c = false) (rest : List Char) :
    (scan c rest).Cuts (c :: rest) := by
  unfold scan
  split
  · exact stringLiteral_cuts (Text.ne_of_not_isBreak h) rest
  · split
    · exact word_cuts (c :: rest)
    · split
      · exact number_cuts (c :: rest)
      · exact punctuator_cuts h rest

end Offside.Lexeme
