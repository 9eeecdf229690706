import Offside.Lexer.Basic

namespace Offside.Lexer

def lines (lexer : Lexer) : Step :=
  if _ahead : lexer.cursor.rest = [] then { tokens := [], lexer }
  else
    let step := lexer.line
    match _h : step.stop? with
    | some _ => step
    | none =>
      let following := step.lexer.lines
      { following with tokens := step.tokens ++ following.tokens }
termination_by lexer.cursor.rest.length
decreasing_by exact line_rest_length_lt _ahead _h

/-- Closes the blocks that are still open at the end of the text, behind one line end. -/
def finish (lexer : Lexer) : Step :=
  if lexer.indents.isEmpty then { tokens := [], lexer }
  else
    { tokens := ⟨lexer.position, .newLine⟩ ::
        List.replicate lexer.indents.size ⟨lexer.position, .dedent⟩
      lexer := { lexer with indents := .empty } }

def run (lexer : Lexer) : Step :=
  lexer.lines.andThen finish

def runs : Nat → Lexer → List Step
  | 0, _ => []
  | n + 1, lexer =>
    let step := lexer.run
    step :: runs n step.lexer

theorem lines_eq (lexer : Lexer) :
    lexer.lines =
      if lexer.cursor.rest = [] then { tokens := [], lexer } else lexer.line.andThen lines := by
  rw [lines]
  split
  · rfl
  · simp only [Step.andThen]
    split <;> rename_i h <;> simp [h]

theorem lines_ne_misuse (lexer : Lexer) (m : IndentStack.Misuse) :
    lexer.lines.stop? ≠ some (.misuse m) := by
  fun_induction lines lexer with
  | case1 => simp
  | case2 lexer _ step s h => exact take_ne_misuse lexer _ m
  | case3 lexer _ step h following ih => exact ih

theorem run_ne_misuse (lexer : Lexer) (m : IndentStack.Misuse) :
    lexer.run.stop? ≠ some (.misuse m) := by
  have hl := lines_ne_misuse lexer m
  unfold run
  cases hs : lexer.lines.stop? with
  | some s =>
    rw [hs] at hl
    simpa [Step.andThen, hs] using hl
  | none =>
    rw [Step.andThen_eq hs]
    simp only [finish]
    split <;> simp

/-- The tokens of a text, or its first fault. A run that stops at no fault has reached the end of
the text, for by `run_ne_misuse` there is no other reason to stop. -/
def tokenize (text : List Char) (options : Options) : Except LexError (List Token) :=
  let step := (ofText text options).run
  match step.error? with
  | some e => .error e
  | none => .ok step.tokens

theorem tokenize_eq_error_iff {text : List Char} {options : Options} {e : LexError} :
    tokenize text options = .error e ↔ (ofText text options).run.stop? = some (.error e) := by
  simp only [tokenize, Step.error?]
  cases h : (ofText text options).run.stop? with
  | none => simp
  | some stop =>
    cases stop with
    | error e => simp
    | misuse m => exact absurd h (run_ne_misuse _ m)

theorem tokenize_eq_ok_iff {text : List Char} {options : Options} {ts : List Token} :
    tokenize text options = .ok ts ↔
      (ofText text options).run.stop? = none ∧ (ofText text options).run.tokens = ts := by
  simp only [tokenize, Step.error?]
  cases h : (ofText text options).run.stop? with
  | none => simp
  | some stop =>
    cases stop with
    | error e => simp
    | misuse m => exact absurd h (run_ne_misuse _ m)

end Offside.Lexer
