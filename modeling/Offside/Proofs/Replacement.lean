import Offside.Text.Replace

namespace Offside.Text

section Replace

variable {pattern : List Char} (replacement : List Char)

@[simp] theorem replaceAll_nil : replaceAll pattern replacement [] = [] := rfl

theorem replaceAll_go_append (front rest : List Char) :
    replaceAll.go pattern replacement front.length (front ++ rest) =
      replaceAll.go pattern replacement 0 rest := by
  induction front with
  | nil => rfl
  | cons c front ih => exact ih

theorem replaceAll_prefix (some : pattern ≠ []) (rest : List Char) :
    replaceAll pattern replacement (pattern ++ rest) =
      replacement ++ replaceAll pattern replacement rest := by
  cases pattern with
  | nil => contradiction
  | cons c more =>
    have front : (c :: more).isPrefixOf (c :: (more ++ rest)) = true := by simp
    rw [List.cons_append, replaceAll, replaceAll.go, if_pos front, List.tail_cons,
      replaceAll_go_append]
    rfl

theorem replaceAll_cons {c : Char} {rest : List Char} (other : ¬pattern <+: c :: rest) :
    replaceAll pattern replacement (c :: rest) = c :: replaceAll pattern replacement rest := by
  rw [← List.isPrefixOf_iff_prefix] at other
  rw [replaceAll, replaceAll.go, if_neg other]
  rfl

theorem replaceAll_append {front rest : List Char}
    (clear : ∀ u, u <:+ front → u ≠ [] → ¬pattern <+: u ++ rest) :
    replaceAll pattern replacement (front ++ rest) =
      front ++ replaceAll pattern replacement rest := by
  induction front with
  | nil => rfl
  | cons c front ih =>
    have here := clear (c :: front) (List.suffix_refl _) (List.cons_ne_nil _ _)
    have further := ih fun u suffix => clear u (suffix.trans (List.suffix_cons _ _))
    rw [List.cons_append] at here ⊢
    rw [replaceAll_cons replacement here, further, List.cons_append]

end Replace

/-- A text is made of occurrences of some patterns and of characters at which none begins. -/
theorem patterns_induction {P motive : List Char → Prop}
    (nonempty : ∀ p, P p → p ≠ []) (nil : motive [])
    (occurrence : ∀ p rest, P p → motive rest → motive (p ++ rest))
    (copy : ∀ c rest, (∀ p, P p → ¬p <+: c :: rest) → motive rest → motive (c :: rest))
    (text : List Char) : motive text := by
  induction length : text.length using Nat.strongRecOn generalizing text with
  | ind n ih =>
    by_cases front : ∃ p, P p ∧ p <+: text
    · obtain ⟨p, pattern, rest, rfl⟩ := front
      have some := List.length_pos_iff.mpr (nonempty p pattern)
      rw [List.length_append] at length
      exact occurrence p rest pattern (ih rest.length (by omega) rest rfl)
    · cases text with
      | nil => exact nil
      | cons c rest =>
        rw [List.length_cons] at length
        exact copy c rest (fun p pattern here => front ⟨p, pattern, here⟩)
          (ih rest.length (by omega) rest rfl)

section Absent

variable {pattern : List Char} {x : Char}

/-- What stands in front of a text without the replacement stood there before. -/
theorem prefix_of_prefix_replaceAll {q text : List Char} (clear : x ∉ q)
    (front : q <+: replaceAll pattern [x] text) (some : pattern ≠ []) : q <+: text := by
  induction text generalizing q with
  | nil => exact front
  | cons c rest ih =>
    cases q with
    | nil => exact List.nil_prefix
    | cons d q =>
      rw [List.mem_cons, not_or] at clear
      by_cases here : pattern <+: c :: rest
      · obtain ⟨behind, split⟩ := here
        rw [← split, replaceAll_prefix _ some, List.singleton_append, List.cons_prefix_cons] at front
        exact absurd front.1.symm clear.1
      · rw [replaceAll_cons _ here, List.cons_prefix_cons] at front
        rw [List.cons_prefix_cons]
        exact ⟨front.1, ih clear.2 front.2⟩

theorem not_infix_replaceAll (some : pattern ≠ []) (clear : x ∉ pattern) (text : List Char) :
    ¬pattern <:+: replaceAll pattern [x] text := by
  induction text using patterns_induction (P := (· = pattern)) with
  | nonempty p same => exact same ▸ some
  | nil => simpa using some
  | occurrence p rest same ih =>
    rw [same, replaceAll_prefix _ some, List.singleton_append, List.infix_cons_iff]
    rintro (front | further)
    · cases pattern with
      | nil => contradiction
      | cons c more =>
        rw [List.cons_prefix_cons] at front
        exact clear (front.1 ▸ List.mem_cons_self)
    · exact ih further
  | copy c rest other ih =>
    have here := other pattern rfl
    rw [replaceAll_cons _ here, List.infix_cons_iff, ← replaceAll_cons _ here]
    rintro (front | further)
    · exact here (prefix_of_prefix_replaceAll clear front some)
    · exact ih further

end Absent

end Offside.Text
