import Mathlib.Data.List.TakeWhile
import Offside.Lexeme.Basic

/-!
Places at which a text may be cut in two. A "\r\n" is one line break, so a cut between its halves
would make two of it. No scan ends at such a place, and no fault lies at one.
-/

namespace Offside.Text

/-- A text may be cut between `a` and `b`: no "\r\n" comes apart there. -/
def Cut (a b : List Char) : Prop :=
  a.getLast? = some '\r' → b.head? ≠ some '\n'

def CutBehind (text input : List Char) : Prop :=
  Cut text (input.drop text.length)

theorem cut_nil_left (b : List Char) : Cut [] b := by
  intro h
  simp at h

theorem cut_nil_right (a : List Char) : Cut a [] := by
  intro _ h
  simp at h

theorem cut_of_not_mem {a : List Char} (h : '\r' ∉ a) (b : List Char) : Cut a b := by
  intro last
  exact absurd (List.mem_of_getLast? last) h

theorem cut_of_ne {c : Char} (h : c ≠ '\r') (b : List Char) : Cut [c] b :=
  cut_of_not_mem (by simpa using h.symm) b

theorem Cut.of_prefix {a b c : List Char} (h : Cut a c) (front : b <+: c) : Cut a b := by
  cases b with
  | nil => exact cut_nil_right a
  | cons d b =>
    obtain ⟨rest, rfl⟩ := front
    exact h

theorem Cut.append {a b c : List Char} (first : Cut a (b ++ c)) (second : Cut b c) :
    Cut (a ++ b) c := by
  cases b with
  | nil => simpa using first
  | cons d b =>
    intro last
    apply second
    simpa using last

theorem Cut.of_append {a b c : List Char} (h : Cut (a ++ b) c) : Cut b c := by
  cases b with
  | nil => exact cut_nil_left c
  | cons d b =>
    intro last
    apply h
    rw [List.getLast?_append, last, Option.some_or]

theorem Cut.tail {c : Char} {a b : List Char} (h : Cut (c :: a) b) : Cut a b :=
  Cut.of_append (a := [c]) h

theorem Cut.cons {a b : List Char} (h : Cut a b) (some : a ≠ []) (c : Char) : Cut (c :: a) b := by
  intro last
  rw [List.getLast?_cons_of_ne_nil some] at last
  exact h last

theorem endsLine_append {c : Char} {a b : List Char} (h : Cut (c :: a) b) :
    endsLine c (a ++ b) = endsLine c a := by
  cases a with
  | nil =>
    by_cases cr : c = '\r'
    · have := h (by simp [cr])
      simp [endsLine, cr, this]
    · simp [endsLine, cr]
  | cons d a => simp [endsLine]

theorem cut_of_endsLine {c : Char} {rest : List Char} (h : endsLine c rest = true) :
    Cut [c] rest := by
  intro last head
  obtain rfl : c = '\r' := by simpa using last
  simp [endsLine, head] at h

theorem CutBehind.append {a b c : List Char} (first : Cut a b) (second : CutBehind c b) :
    CutBehind (a ++ c) (a ++ b) := by
  unfold CutBehind at *
  rw [List.length_append, ← List.drop_drop, List.drop_left]
  cases c with
  | nil => simpa using first
  | cons d c =>
    intro last
    apply second
    simpa using last

theorem cutBehind_iff {a b : List Char} : CutBehind a (a ++ b) ↔ Cut a b := by
  rw [CutBehind, List.drop_left]

theorem cutBehind_nil (input : List Char) : CutBehind [] input :=
  cut_nil_left _

theorem cutBehind_of_not_mem {text : List Char} (h : '\r' ∉ text) (input : List Char) :
    CutBehind text input :=
  cut_of_not_mem h _

theorem cutBehind_of_ne {c : Char} (h : c ≠ '\r') (input : List Char) : CutBehind [c] input :=
  cut_of_ne h _

theorem ne_of_not_isBreak {c : Char} (h : isBreak c = false) : c ≠ '\r' := by
  rintro rfl
  contradiction

theorem first_cut (c : Char) (rest : List Char) :
    Cut (first c rest).text (first c rest).rest := by
  rcases first_cases c rest with ⟨_, _, _, e⟩ | ⟨_, alone, e⟩ | ⟨other, e⟩
  · rw [e]
    intro last
    simp at last
  · rw [e]
    exact fun _ => alone
  · rw [e]
    exact cut_of_ne other rest

theorem first_cutBehind (c : Char) (rest : List Char) :
    CutBehind (first c rest).text (c :: rest) := by
  have split : (first c rest).text ++ (first c rest).rest = c :: rest := first_splits c rest
  rw [← split]
  exact cutBehind_iff.mpr (first_cut c rest)

theorem first_within {c : Char} {front after : List Char} (h : Cut (c :: front) after) :
    ∃ behind, (first c (front ++ after)).text ++ behind = c :: front ∧
      (first c (front ++ after)).rest = behind ++ after := by
  by_cases cr : c = '\r'
  · subst cr
    cases front with
    | nil =>
      cases after with
      | nil => exact ⟨[], rfl, rfl⟩
      | cons d after =>
        have other : d ≠ '\n' := by simpa using h rfl
        refine ⟨[], ?_⟩
        simp [first, other]
    | cons d front =>
      by_cases lf : d = '\n'
      · subst lf
        exact ⟨front, rfl, rfl⟩
      · refine ⟨d :: front, ?_⟩
        simp [first, lf]
  · refine ⟨front, ?_⟩
    simp [first, cr]

/-- The text in front of a cut, taken one character, or line break, at a time. -/
@[elab_as_elim]
theorem cut_induction {motive : (front after : List Char) → Cut front after → Prop}
    (nil : ∀ after, motive [] after (cut_nil_left after))
    (step : ∀ c rest behind after, (first c rest).rest = behind ++ after →
      ∀ (further : Cut behind after) (cut : Cut ((first c rest).text ++ behind) after),
      motive behind after further → motive ((first c rest).text ++ behind) after cut)
    {front after : List Char} (cut : Cut front after) : motive front after cut := by
  induction length : front.length using Nat.strong_induction_on generalizing front with
  | h n ih =>
    subst length
    cases front with
    | nil => exact nil after
    | cons c front =>
      obtain ⟨behind, whole, rest⟩ := first_within cut
      have further : Cut behind after := Cut.of_append (whole ▸ cut)
      have shorter : behind.length < (c :: front).length := by
        have := List.length_pos_iff.mpr (first_text_ne_nil c (front ++ after))
        rw [← whole, List.length_append]
        omega
      have earlier := ih _ shorter further rfl
      revert cut
      rw [← whole]
      intro cut
      exact step c (front ++ after) behind after rest further cut earlier

theorem span_not_mem {p : Char → Bool} (h : p '\r' = false) (text : List Char) :
    '\r' ∉ (Reading.span p text).text := by
  intro member
  have := List.mem_takeWhile_imp member
  simp [h] at this

end Offside.Text
