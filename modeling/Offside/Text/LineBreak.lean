import Offside.Text.Reading

/-!
Line breaks. A line ends with "\n", with "\r", or with the pair "\r\n", which is one break. Whoever
reads a text character by character sees each of them as a single '\n'.
-/

namespace Offside.Text

def isBreak (c : Char) : Bool :=
  c = '\n' || c = '\r'

/-- Whether a line ends right after the character `c`. A "\r" with a "\n" behind it is only the
first half of a break. -/
def endsLine (c : Char) (rest : List Char) : Bool :=
  c = '\n' || (c = '\r' && rest.head? ≠ some '\n')

/-- The first character of the text `c :: rest`, where a line break in any spelling is the one
character '\n'. -/
def first (c : Char) (rest : List Char) : Reading Char :=
  if c = '\r' then
    match rest with
    | '\n' :: rest => { value := '\n', text := ['\r', '\n'], rest }
    | rest => { value := '\n', text := ['\r'], rest }
  else
    { value := c, text := [c], rest }

def unifyBreaks : List Char → List Char
  | [] => []
  | c :: rest =>
    if endsLine c rest then '\n' :: unifyBreaks rest
    else if c = '\r' then unifyBreaks rest
    else c :: unifyBreaks rest

theorem first_of_ne {c : Char} (h : c ≠ '\r') (rest : List Char) :
    first c rest = { value := c, text := [c], rest } :=
  if_neg h

theorem first_of_single {rest : List Char} (alone : rest.head? ≠ some '\n') :
    first '\r' rest = { value := '\n', text := ['\r'], rest } := by
  unfold first
  rw [if_pos rfl]
  split
  · exact absurd rfl alone
  · rfl

theorem first_cases (c : Char) (rest : List Char) :
    (∃ behind, c = '\r' ∧ rest = '\n' :: behind ∧
      first c rest = { value := '\n', text := ['\r', '\n'], rest := behind }) ∨
    (c = '\r' ∧ rest.head? ≠ some '\n' ∧
      first c rest = { value := '\n', text := ['\r'], rest }) ∨
    (c ≠ '\r' ∧ first c rest = { value := c, text := [c], rest }) := by
  by_cases cr : c = '\r'
  · subst cr
    by_cases pair : rest.head? = some '\n'
    · obtain ⟨behind, rfl⟩ := List.head?_eq_some_iff.mp pair
      exact .inl ⟨behind, rfl, rfl, rfl⟩
    · exact .inr (.inl ⟨rfl, pair, first_of_single pair⟩)
  · exact .inr (.inr ⟨cr, first_of_ne cr rest⟩)

theorem first_splits (c : Char) (rest : List Char) : (first c rest).Splits (c :: rest) := by
  rcases first_cases c rest with ⟨behind, rfl, rfl, e⟩ | ⟨rfl, _, e⟩ | ⟨_, e⟩ <;> rw [e] <;> rfl

theorem first_text_ne_nil (c : Char) (rest : List Char) : (first c rest).text ≠ [] := by
  rcases first_cases c rest with ⟨_, _, _, e⟩ | ⟨_, _, e⟩ | ⟨_, e⟩ <;> simp [e]

theorem first_rest_length_lt (c : Char) (rest : List Char) :
    (first c rest).rest.length < (c :: rest).length :=
  (first_splits c rest).rest_length_lt (first_text_ne_nil c rest)

theorem first_of_not_isBreak {c : Char} (h : isBreak c = false) (rest : List Char) :
    first c rest = { value := c, text := [c], rest } := by
  simp only [isBreak, Bool.or_eq_false_iff, decide_eq_false_iff_not] at h
  exact first_of_ne h.2 rest

end Offside.Text
