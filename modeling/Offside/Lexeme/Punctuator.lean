import Offside.Scan
import Offside.Token.Basic

/-!
Punctuators in a text: always the longest one that fits. Two dots that are not the beginning of
three are refused rather than read as two tokens.
-/

namespace Offside.Lexeme

def noPunctuator (c : Char) : Fault :=
  if c = '?' then .malformedConditionalDot else .unrecognizedOperator c

def punctuator (c : Char) (rest : List Char) : Scan Token.Kind :=
  match Punct.longest? (c :: rest) with
  | some p =>
    if p = .dot ∧ rest.head? = some '.' then
      .error { fault := .malformedSpread, before := [], text := ['.', '.'] }
    else
      .ok
        { value := .punct p, text := p.spelling, rest := (c :: rest).drop p.spelling.length }
  | none => .error { fault := noPunctuator c, before := [], text := [c] }

theorem punctuator_splits (c : Char) (rest : List Char) :
    (punctuator c rest).Splits (c :: rest) := by
  unfold punctuator
  split
  · rename_i p h
    have front := Punct.spelling_prefix_of_longest? h
    split
    · rename_i hd
      obtain ⟨rfl, hr⟩ := hd
      refine ⟨List.nil_prefix, ?_⟩
      obtain ⟨t, ht⟩ := front
      obtain ⟨r, rfl⟩ := List.head?_eq_some_iff.mp hr
      simp only [Punct.spelling, List.cons_append, List.nil_append, List.cons.injEq] at ht
      exact ⟨r, by simp [← ht.1]⟩
    · exact List.prefix_iff_eq_append.mp front
  · exact ⟨List.nil_prefix, ⟨rest, rfl⟩⟩

end Offside.Lexeme
