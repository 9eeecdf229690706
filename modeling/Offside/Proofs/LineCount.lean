import Mathlib.Data.List.DropRight
import Offside.Position
import Offside.Proofs.Cuts

namespace Offside.Text

/-- The number of line breaks of a text, where "\r\n" is one. -/
def lineBreaks : List Char → Nat
  | [] => 0
  | '\r' :: '\n' :: rest => lineBreaks rest + 1
  | c :: rest => if isBreak c then lineBreaks rest + 1 else lineBreaks rest

/-- What stands behind the last line break of a text. -/
def lastLine (text : List Char) : List Char :=
  text.rtakeWhile (!isBreak ·)

theorem isBreak_of_endsLine {c : Char} {rest : List Char} (h : endsLine c rest = true) :
    isBreak c = true := by
  simp only [endsLine, isBreak, Bool.or_eq_true, Bool.and_eq_true] at *
  exact h.imp id And.left

theorem lineBreaks_of_endsLine {c : Char} {rest : List Char} (h : endsLine c rest = true) :
    lineBreaks (c :: rest) = lineBreaks rest + 1 := by
  have single : ∀ after, c = '\r' → rest = '\n' :: after → False := by
    rintro after rfl rfl
    contradiction
  rw [lineBreaks.eq_3 c rest single, if_pos (isBreak_of_endsLine h)]

theorem lineBreaks_of_not_endsLine {c : Char} {rest : List Char} (h : endsLine c rest = false) :
    lineBreaks (c :: rest) = lineBreaks rest := by
  simp only [endsLine, Bool.or_eq_false_iff, decide_eq_false_iff_not, Bool.and_eq_false_iff] at h
  obtain ⟨lf, other | pair⟩ := h
  · have single : ∀ after, c = '\r' → rest = '\n' :: after → False := fun _ e _ => other e
    rw [lineBreaks.eq_3 c rest single, if_neg]
    simp [isBreak, lf, other]
  · obtain ⟨after, rfl⟩ := List.head?_eq_some_iff.mp (not_not.mp pair)
    by_cases cr : c = '\r'
    · subst cr
      rfl
    · rw [lineBreaks.eq_3 c _ (fun _ e _ => cr e), if_neg]
      simp [isBreak, lf, cr]

theorem lineBreaks_eq_zero_iff (text : List Char) :
    lineBreaks text = 0 ↔ ∀ c ∈ text, isBreak c = false := by
  induction text with
  | nil => simp [lineBreaks]
  | cons c rest ih =>
    cases he : endsLine c rest with
    | true =>
      rw [lineBreaks_of_endsLine he]
      simp [isBreak_of_endsLine he]
    | false =>
      rw [lineBreaks_of_not_endsLine he, ih, List.forall_mem_cons]
      refine ⟨fun none => ⟨?_, none⟩, And.right⟩
      -- a "\r" that ends no line has a "\n" behind it
      by_contra hb
      cases rest with
      | nil => simp_all [endsLine, isBreak]
      | cons d rest =>
        have := none d (by simp)
        simp_all [endsLine, isBreak]

theorem lastLine_of_isBreak {c : Char} (h : isBreak c = true) (rest : List Char) :
    lastLine (c :: rest) = lastLine rest := by
  rw [lastLine, lastLine, List.rtakeWhile, List.reverse_cons, List.takeWhile_append]
  split
  · rename_i full
    have whole := (List.takeWhile_prefix (!isBreak ·)).eq_of_length full
    simp [List.rtakeWhile, whole, h]
  · rfl

theorem lastLine_of_break_behind {rest : List Char} (h : lineBreaks rest ≠ 0) (c : Char) :
    lastLine (c :: rest) = lastLine rest := by
  rw [lastLine, lastLine, List.rtakeWhile, List.reverse_cons, List.takeWhile_append, if_neg]
  · rfl
  · intro full
    have whole := (List.takeWhile_prefix (!isBreak ·)).eq_of_length full
    apply h
    rw [lineBreaks_eq_zero_iff]
    intro d member
    have := List.mem_takeWhile_imp (whole ▸ List.mem_reverse.mpr member)
    simpa using this

theorem lastLine_of_no_break {text : List Char} (h : lineBreaks text = 0) :
    lastLine text = text := by
  rw [lastLine, List.rtakeWhile_eq_self_iff]
  intro c member
  simp [(lineBreaks_eq_zero_iff text).mp h c member]

theorem lineBreaks_le_length (text : List Char) : lineBreaks text ≤ text.length := by
  induction text with
  | nil => exact Nat.le_refl 0
  | cons c rest ih =>
    cases he : endsLine c rest with
    | true =>
      rw [lineBreaks_of_endsLine he, List.length_cons]
      omega
    | false =>
      rw [lineBreaks_of_not_endsLine he, List.length_cons]
      omega

end Offside.Text

namespace Offside.Position

theorem past_of_break (p : Position) {text : List Char} (h : Text.lineBreaks text ≠ 0) :
    p.past text = ⟨p.line + Text.lineBreaks text, 1 + (Text.lastLine text).length⟩ := by
  induction text generalizing p with
  | nil => contradiction
  | cons c rest ih =>
    cases he : Text.endsLine c rest with
    | true =>
      rw [past, if_pos he, Text.lineBreaks_of_endsLine he,
        Text.lastLine_of_isBreak (Text.isBreak_of_endsLine he)]
      by_cases none : Text.lineBreaks rest = 0
      · rw [past_of_no_break _ ((Text.lineBreaks_eq_zero_iff rest).mp none), none,
          Text.lastLine_of_no_break none]
        rfl
      · rw [ih p.nextLine none]
        simp only [nextLine, mk.injEq, and_true]
        omega
    | false =>
      rw [Text.lineBreaks_of_not_endsLine he] at h ⊢
      rw [past, he, if_neg Bool.false_ne_true, Text.lastLine_of_break_behind h, ih p h,
        ih p.nextColumn h]
      exact ite_self _

/-- Behind a text, the line is one more than its line breaks and the column one more than the
characters that follow the last of them. -/
theorem start_past (text : List Char) :
    start.past text = ⟨1 + Text.lineBreaks text, 1 + (Text.lastLine text).length⟩ := by
  by_cases none : Text.lineBreaks text = 0
  · rw [past_of_no_break _ ((Text.lineBreaks_eq_zero_iff text).mp none), none,
      Text.lastLine_of_no_break none]
    rfl
  · exact past_of_break start none

end Offside.Position
