import Offside.Text.LineBreak

namespace Offside

/-- A place in a text. Lines and columns are counted from 1, a column for every character. -/
structure Position where
  line : Nat
  column : Nat
  deriving DecidableEq

namespace Position

def start : Position := ⟨1, 1⟩

def nextLine (p : Position) : Position := ⟨p.line + 1, 1⟩

def nextColumn (p : Position) : Position := { p with column := p.column + 1 }

/-- The place behind a text that stands at `p`. -/
def past (p : Position) : List Char → Position
  | [] => p
  | c :: rest =>
    if Text.endsLine c rest then p.nextLine.past rest
    else if c = '\r' then p.past rest
    else p.nextColumn.past rest

def compare (p q : Position) : Ordering :=
  (Ord.compare p.line q.line).then (Ord.compare p.column q.column)

instance : Ord Position := ⟨compare⟩

instance : ToString Position :=
  ⟨fun p => s!"{p.line}:{p.column}"⟩

@[simp] theorem past_nil (p : Position) : p.past [] = p := rfl

/-- Moving past a text piece by piece, as long as no "\r\n" is cut in two. -/
theorem past_append (p : Position) (a b : List Char)
    (whole : a.getLast? = some '\r' → b.head? ≠ some '\n') :
    p.past (a ++ b) = (p.past a).past b := by
  induction a generalizing p with
  | nil => rfl
  | cons c a ih =>
    have same : Text.endsLine c (a ++ b) = Text.endsLine c a := by
      cases a with
      | nil =>
        by_cases h : c = '\r'
        · have := whole (by simp [h])
          simp [Text.endsLine, h, this]
        · simp [Text.endsLine, h]
      | cons d a => simp [Text.endsLine]
    have rest : a.getLast? = some '\r' → b.head? ≠ some '\n' := by
      intro h
      apply whole
      cases a with
      | nil => simp at h
      | cons d a => simpa [List.getLast?_cons_cons] using h
    simp only [List.cons_append, past, same]
    split
    · exact ih _ rest
    · split <;> exact ih _ rest

/-- A text without line breaks moves only the column. -/
theorem past_of_no_break (p : Position) {text : List Char}
    (h : ∀ c ∈ text, Text.isBreak c = false) :
    p.past text = { p with column := p.column + text.length } := by
  induction text generalizing p with
  | nil => rfl
  | cons c text ih =>
    have hc : c ≠ '\n' ∧ c ≠ '\r' := by simpa [Text.isBreak] using h c (by simp)
    simp only [past, Text.endsLine, hc.1, hc.2, decide_false, Bool.false_and, Bool.or_false,
      Bool.false_eq_true, if_false]
    rw [ih _ fun d hd => h d (by simp [hd])]
    simp only [nextColumn, List.length_cons, mk.injEq, true_and]
    omega

end Position

end Offside
