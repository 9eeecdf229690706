import Mathlib.Data.List.TakeWhile
import Offside.Proofs.NumberGrammar

namespace Offside

/-- Whether a character ends a line or begins a comment where it stands between lexemes. -/
def Text.isMark (c : Char) : Bool :=
  isBreak c || c = '#'

theorem Text.isMark_of_isBreak {c : Char} (h : isBreak c = true) : isMark c = true := by
  rw [isMark, h]
  rfl

theorem Text.isMark_iff {c : Char} : isMark c = true ↔ c = '\n' ∨ c = '\r' ∨ c = '#' := by
  simp [isMark, isBreak, or_assoc]

theorem Text.not_isMark {p : Char → Bool} (lf : p '\n' = false) (cr : p '\r' = false)
    (sign : p '#' = false) {c : Char} (h : p c = true) : isMark c = false := by
  rw [← Bool.not_eq_true, isMark_iff]
  rintro (rfl | rfl | rfl)
  · exact absurd h (by simp [lf])
  · exact absurd h (by simp [cr])
  · exact absurd h (by simp [sign])

theorem Numeral.not_isMark {text : List Char} (h : text ∈ numeral) :
    ∀ c ∈ text, Text.isMark c = false := by
  have digits {w : List Char} (hw : w ∈ run) : ∀ c ∈ w, Text.isMark c = false := fun c member =>
    Text.not_isMark (by decide) (by decide) (by decide) ((mem_run_iff.mp hw).2 c member)
  obtain ⟨w, hw, f, hf, e, he, rfl⟩ := mem_numeral_iff.mp h
  simp only [List.forall_mem_append]
  refine ⟨digits hw, ?_, ?_⟩
  · rcases mem_fraction_iff.mp hf with rfl | ⟨ds, hds, rfl⟩
    · simp
    · exact List.forall_mem_cons.mpr ⟨by decide, digits hds⟩
  · rcases mem_exponent_iff.mp he with rfl | ⟨c, s, ds, hds, letter, signs, rfl⟩
    · simp
    · refine List.forall_mem_cons.mpr ⟨?_, List.forall_mem_append.mpr ⟨?_, digits hds⟩⟩
      · rcases letter with rfl | rfl <;> decide
      · rcases signs with rfl | rfl | rfl <;> simp [Text.isMark, Text.isBreak]

theorem Punct.not_isMark (p : Punct) : ∀ c ∈ p.spelling, Text.isMark c = false := by
  cases p <;> simp [spelling, Text.isMark, Text.isBreak]

namespace Lexeme

/-- The text of a lexeme is a literal, or none of its characters is a mark. -/
theorem scan_cases {c : Char} {rest : List Char} {r : Text.Reading Token.Kind}
    (h : scan c rest = .ok r) :
    (∃ value, isQuote c = true ∧ IsLiteral c r.text value ∧
      r.value = .str (String.ofList value)) ∨
    ∀ d ∈ r.text, Text.isMark d = false := by
  unfold scan at h
  split at h
  · rename_i quotes
    left
    rcases literal_cases quotes rest with ⟨text, value, after, split, literal⟩ |
      ⟨fault, before, none⟩
    · rw [stringLiteral_of_isLiteral quotes literal split] at h
      cases h
      exact ⟨value, quotes, literal, rfl⟩
    · have fails := stringLiteral_of_noLiteral quotes none
      rw [h] at fails
      contradiction
  · right
    split at h
    · cases h
      intro d member
      have part : isWordPart d = true := List.mem_takeWhile_imp member
      exact Text.not_isMark (by decide) (by decide) (by decide) part
    · split at h
      · rename_i digit
        have begins : (c :: rest).head?.any Char.isDigit = true := digit
        obtain ⟨t, after, _, longest, ⟨read, _⟩ | ⟨fault, before, fails, _⟩⟩ := number_cases begins
        · rw [read] at h
          cases h
          exact Numeral.not_isMark longest.mem
        · rw [h] at fails
          contradiction
      · obtain ⟨p, _, text⟩ := punctuator_eq_ok h
        rw [text]
        exact Punct.not_isMark p

end Lexeme

end Offside
