import Mathlib.Data.List.TakeWhile
import Offside.Position
import Offside.Proofs.Cuts
import Offside.Proofs.Replacement

namespace Offside.Text

def unifyBreak (c : Char) : Char :=
  if c = '\r' then '\n' else c

theorem unifyBreak_of_isBreak {c : Char} (h : isBreak c = true) : unifyBreak c = '\n' := by
  have which : c = '\n' ∨ c = '\r' := by simpa [isBreak] using h
  rcases which with rfl | rfl <;> rfl

theorem unifyBreak_ne (c : Char) : unifyBreak c ≠ '\r' := by
  unfold unifyBreak
  split
  · decide
  · assumption

theorem apply_unifyBreak {α : Type} {f : Char → α} (h : f '\r' = f '\n') (c : Char) :
    f (unifyBreak c) = f c := by
  unfold unifyBreak
  split
  · rename_i cr
    rw [cr, h]
  · rfl

theorem unifyBreak_eq_iff {c d : Char} (h : isBreak d = false) : unifyBreak c = d ↔ c = d := by
  unfold unifyBreak
  split
  · rename_i cr
    subst cr
    constructor
    · rintro rfl
      contradiction
    · rintro rfl
      contradiction
  · rfl

theorem first_value (c : Char) (rest : List Char) : (first c rest).value = unifyBreak c := by
  rcases first_cases c rest with ⟨_, rfl, _, e⟩ | ⟨rfl, _, e⟩ | ⟨other, e⟩
  · rw [e]
    rfl
  · rw [e]
    rfl
  · rw [e, unifyBreak, if_neg other]

@[simp] theorem unifyBreaks_nil : unifyBreaks [] = [] := rfl

theorem unifyBreaks_cons {c : Char} (h : c ≠ '\r') (rest : List Char) :
    unifyBreaks (c :: rest) = c :: unifyBreaks rest := by
  by_cases lf : c = '\n'
  · subst lf
    rfl
  · simp [unifyBreaks, endsLine, h, lf]

theorem unifyBreaks_first (c : Char) (rest : List Char) :
    unifyBreaks (c :: rest) = unifyBreak c :: unifyBreaks (first c rest).rest := by
  rcases first_cases c rest with ⟨_, rfl, rfl, e⟩ | ⟨rfl, alone, e⟩ | ⟨other, e⟩
  · rw [e]
    rfl
  · have ends : endsLine '\r' rest = true := by simp [endsLine, alone]
    rw [unifyBreaks, if_pos ends, e]
    rfl
  · rw [unifyBreaks_cons other, unifyBreak, if_neg other, e]

theorem unifyBreaks_first_text (c : Char) (rest : List Char) :
    unifyBreaks (first c rest).text = [unifyBreak c] := by
  rcases first_cases c rest with ⟨_, rfl, _, e⟩ | ⟨rfl, _, e⟩ | ⟨other, e⟩
  · rw [e]
    rfl
  · rw [e]
    rfl
  · rw [e, unifyBreaks_cons other, unifyBreak, if_neg other]
    rfl

theorem unifyBreaks_append {a b : List Char} (cut : Cut a b) :
    unifyBreaks (a ++ b) = unifyBreaks a ++ unifyBreaks b := by
  induction a with
  | nil => rfl
  | cons c a ih =>
    have inner := ih cut.tail
    simp only [List.cons_append, unifyBreaks, endsLine_append cut]
    split
    · rw [inner, List.cons_append]
    · split
      · exact inner
      · rw [inner, List.cons_append]

theorem unifyBreaks_of_not_mem {text : List Char} (h : '\r' ∉ text) : unifyBreaks text = text := by
  induction text with
  | nil => rfl
  | cons c text ih =>
    rw [List.mem_cons, not_or] at h
    rw [unifyBreaks_cons (Ne.symm h.1), ih h.2]

theorem head?_unifyBreaks (text : List Char) :
    (unifyBreaks text).head? = text.head?.map unifyBreak := by
  cases text with
  | nil => rfl
  | cons c rest =>
    rw [unifyBreaks_first]
    rfl

theorem head?_unifyBreaks_eq_iff {c : Char} (h : isBreak c = false) {text : List Char} :
    (unifyBreaks text).head? = some c ↔ text.head? = some c := by
  simp [head?_unifyBreaks, unifyBreak_eq_iff h]

@[simp] theorem unifyBreaks_eq_nil_iff (text : List Char) : unifyBreaks text = [] ↔ text = [] := by
  cases text with
  | nil => simp
  | cons c rest => simp [unifyBreaks_first]

theorem unifyBreaks_drop {front text : List Char} (prefix_ : front <+: text)
    (cut : CutBehind front text) :
    unifyBreaks (text.drop front.length) = (unifyBreaks text).drop (unifyBreaks front).length := by
  obtain ⟨rest, rfl⟩ := prefix_
  rw [unifyBreaks_append (cutBehind_iff.mp cut), List.drop_left, List.drop_left]

/-- A text without line breaks is a front of the rewritten text if it is one of the text. -/
theorem prefix_unifyBreaks_iff {front text : List Char} (h : front.any isBreak = false) :
    front <+: unifyBreaks text ↔ front <+: text := by
  induction front generalizing text with
  | nil => simp
  | cons c front ih =>
    obtain ⟨other, inner⟩ : isBreak c = false ∧ front.any isBreak = false := by simpa using h
    cases text with
    | nil => simp
    | cons d rest =>
      by_cases same : c = d
      · subst same
        rw [unifyBreaks_cons (ne_of_not_isBreak other), List.cons_prefix_cons,
          List.cons_prefix_cons, ih inner]
      · rw [unifyBreaks_first, List.cons_prefix_cons, List.cons_prefix_cons, eq_comm,
          unifyBreak_eq_iff other, eq_comm]
        simp [same]

section Span

variable {p : Char → Bool}

theorem takeWhile_unifyBreaks (cr : p '\r' = false) (lf : p '\n' = false) (text : List Char) :
    (unifyBreaks text).takeWhile p = text.takeWhile p := by
  induction text with
  | nil => rfl
  | cons c rest ih =>
    by_cases other : c = '\r'
    · subst other
      rw [unifyBreaks_first, List.takeWhile_cons, apply_unifyBreak (cr.trans lf.symm),
        List.takeWhile_cons, cr]
      rfl
    · rw [unifyBreaks_cons other, List.takeWhile_cons, List.takeWhile_cons, ih]

theorem dropWhile_unifyBreaks (cr : p '\r' = false) (lf : p '\n' = false) (text : List Char) :
    (unifyBreaks text).dropWhile p = unifyBreaks (text.dropWhile p) := by
  induction text with
  | nil => rfl
  | cons c rest ih =>
    by_cases other : c = '\r'
    · subst other
      rw [List.dropWhile_cons_of_neg (by simp [cr]), unifyBreaks_first]
      exact List.dropWhile_cons_of_neg (by simp [apply_unifyBreak (cr.trans lf.symm), cr])
    · rw [unifyBreaks_cons other, List.dropWhile_cons, List.dropWhile_cons]
      split
      · exact ih
      · rw [unifyBreaks_cons other]

end Span

theorem replaceAll_cr (text : List Char) :
    replaceAll ['\r'] ['\n'] text = text.map unifyBreak := by
  induction text with
  | nil => rfl
  | cons c rest ih =>
    rw [List.map_cons, ← ih, unifyBreak]
    by_cases cr : c = '\r'
    · subst cr
      rw [if_pos rfl]
      exact replaceAll_prefix ['\n'] (List.cons_ne_nil _ _) rest
    · have other : ¬['\r'] <+: c :: rest := by simp [List.cons_prefix_cons, Ne.symm cr]
      rw [if_neg cr, replaceAll_cons _ other]

/-- Behind the first character, or line break, the pairs "\r\n" are replaced as in a text of its
own. -/
theorem replaceAll_crlf_first (c : Char) (rest : List Char) :
    (replaceAll ['\r', '\n'] ['\n'] (c :: rest)).map unifyBreak =
      unifyBreak c :: (replaceAll ['\r', '\n'] ['\n'] (first c rest).rest).map unifyBreak := by
  rcases first_cases c rest with ⟨_, rfl, rfl, e⟩ | ⟨rfl, alone, e⟩ | ⟨cr, e⟩
  · rw [e]
    rfl
  · have single : ¬['\r', '\n'] <+: '\r' :: rest := by
      rintro ⟨more, split⟩
      apply alone
      rw [← (List.cons.inj split).2]
      rfl
    rw [e, replaceAll_cons _ single]
    rfl
  · have other : ¬['\r', '\n'] <+: c :: rest := by simp [List.cons_prefix_cons, Ne.symm cr]
    rw [e, replaceAll_cons _ other]
    rfl

/-- Line breaks are rewritten if first every "\r\n" and then every '\r' that is left is replaced
by '\n'. -/
theorem replaceAll_eq_unifyBreaks (text : List Char) :
    replaceAll ['\r'] ['\n'] (replaceAll ['\r', '\n'] ['\n'] text) = unifyBreaks text := by
  rw [replaceAll_cr]
  cases text with
  | nil => rfl
  | cons c rest =>
    have shorter := first_rest_length_lt c rest
    rw [replaceAll_crlf_first, unifyBreaks_first, ← replaceAll_eq_unifyBreaks, replaceAll_cr]
termination_by text.length
decreasing_by exact shorter

namespace Reading

def unified {α : Type} (r : Reading α) : Reading α :=
  { r with text := unifyBreaks r.text, rest := unifyBreaks r.rest }

@[simp] theorem unified_text {α : Type} (r : Reading α) :
    r.unified.text = unifyBreaks r.text := rfl

@[simp] theorem unified_rest {α : Type} (r : Reading α) :
    r.unified.rest = unifyBreaks r.rest := rfl

theorem span_unifyBreaks {p : Char → Bool} (cr : p '\r' = false) (lf : p '\n' = false)
    (text : List Char) : span p (unifyBreaks text) = (span p text).unified := by
  have front : unifyBreaks (text.takeWhile p) = text.takeWhile p :=
    unifyBreaks_of_not_mem (span_not_mem cr text)
  simp only [span, unified, takeWhile_unifyBreaks cr lf, dropWhile_unifyBreaks cr lf, front]

theorem unified_after {α : Type} {text : List Char} {r : Reading α}
    (cut : Cut text r.text) :
    (r.after text).unified = r.unified.after (unifyBreaks text) := by
  simp [after, unified, unifyBreaks_append cut]

end Reading

end Offside.Text

namespace Offside.Position

theorem past_unifyBreaks (p : Position) (text : List Char) :
    p.past (Text.unifyBreaks text) = p.past text := by
  induction text generalizing p with
  | nil => rfl
  | cons c rest ih =>
    rw [Text.unifyBreaks, past]
    split
    · exact ih _
    · split
      · exact ih _
      · rename_i inside other
        have still : Text.endsLine c (Text.unifyBreaks rest) = false := by
          have lf : c ≠ '\n' := by
            rintro rfl
            exact inside rfl
          simp [Text.endsLine, lf, other]
        rw [past, still, if_neg Bool.false_ne_true, if_neg other]
        exact ih _

end Offside.Position
