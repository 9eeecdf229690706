import Offside.Fault
import Offside.Text.Reading

/-!
Scans: attempts to read the front of a text. A scan knows nothing of positions. Where it fails, it
says which text lies before the fault and which it has consumed, and whoever keeps the position
turns the one into the place of the fault and the other into the place to go on from.
-/

namespace Offside

/-- A scan that failed. The fault lies behind the text `before`; `text` is all that was consumed. -/
structure Scan.Failure where
  fault : Fault
  before : List Char
  text : List Char

/-- The outcome of reading the front of a text. -/
abbrev Scan (α : Type) := Except Scan.Failure (Text.Reading α)

namespace Scan

def Failure.after (text : List Char) (f : Failure) : Failure :=
  { f with before := text ++ f.before, text := text ++ f.text }

/-- The same scan, begun earlier: `text` was consumed before it. -/
def after {α : Type} (text : List Char) : Scan α → Scan α
  | .ok r => .ok (r.after text)
  | .error f => .error (f.after text)

def mapValue {α β : Type} (f : α → β) : Scan α → Scan β
  | .ok r => .ok (r.map f)
  | .error e => .error e

def ofReading {α β : Type} (r : Text.Reading α) (next : α → List Char → Scan β) : Scan β :=
  (next r.value r.rest).after r.text

def andThen {α β : Type} (s : Scan α) (next : α → List Char → Scan β) : Scan β :=
  match s with
  | .ok r => ofReading r next
  | .error f => .error f

def consumed {α : Type} : Scan α → List Char
  | .ok r => r.text
  | .error f => f.text

/-- A scan splits `input` if what it consumed is the front of `input`, what it leaves is the rest,
and a fault lies within what was consumed. -/
def Splits {α : Type} (input : List Char) : Scan α → Prop
  | .ok r => r.Splits input
  | .error f => f.before <+: f.text ∧ f.text <+: input

@[simp] theorem consumed_after {α : Type} (text : List Char) (s : Scan α) :
    (s.after text).consumed = text ++ s.consumed := by
  cases s <;> rfl

theorem after_after {α : Type} (a b : List Char) (s : Scan α) :
    (s.after a).after b = s.after (b ++ a) := by
  cases s with
  | ok r => simp [after, Text.Reading.after]
  | error f => simp [after, Failure.after]

theorem after_eq_ok {α : Type} {text : List Char} {s : Scan α} {r : Text.Reading α}
    (h : s.after text = .ok r) : ∃ inner, s = .ok inner ∧ r = inner.after text := by
  cases s with
  | ok inner => exact ⟨inner, rfl, (Except.ok.inj h).symm⟩
  | error f => contradiction

theorem mapValue_eq_ok {α β : Type} {f : α → β} {s : Scan α} {r : Text.Reading β}
    (h : s.mapValue f = .ok r) : ∃ inner, s = .ok inner ∧ r = inner.map f := by
  cases s with
  | ok inner => exact ⟨inner, rfl, (Except.ok.inj h).symm⟩
  | error e => contradiction

theorem andThen_eq_ok {α β : Type} {s : Scan α} {next : α → List Char → Scan β}
    {r : Text.Reading β} (h : s.andThen next = .ok r) :
    ∃ front behind, s = .ok front ∧ next front.value front.rest = .ok behind ∧
      r = behind.after front.text := by
  cases s with
  | ok front =>
    obtain ⟨behind, read, whole⟩ := after_eq_ok (show (next _ _).after front.text = .ok r from h)
    exact ⟨front, behind, rfl, read, whole⟩
  | error f => contradiction

theorem Splits.after {α : Type} {input : List Char} {s : Scan α} (text : List Char)
    (h : s.Splits input) : (s.after text).Splits (text ++ input) := by
  cases s with
  | ok r => exact Text.Reading.Splits.after text h
  | error f => exact ⟨(List.prefix_append_right_inj text).mpr h.1,
      (List.prefix_append_right_inj text).mpr h.2⟩

theorem Splits.mapValue {α β : Type} {input : List Char} {s : Scan α} (f : α → β)
    (h : s.Splits input) : (s.mapValue f).Splits input := by
  cases s with
  | ok r => exact Text.Reading.Splits.map f h
  | error e => exact h

theorem Splits.of_ok {α : Type} {input : List Char} {s : Scan α} {r : Text.Reading α}
    (h : s.Splits input) (e : s = .ok r) : r.Splits input := by
  subst e
  exact h

theorem Splits.of_error {α : Type} {input : List Char} {s : Scan α} {f : Failure}
    (h : s.Splits input) (e : s = .error f) : f.before <+: f.text ∧ f.text <+: input := by
  subst e
  exact h

theorem ofReading_splits {α β : Type} {input : List Char} {r : Text.Reading α}
    {next : α → List Char → Scan β} (h : r.Splits input)
    (hn : ∀ v rest, (next v rest).Splits rest) : (ofReading r next).Splits input := by
  have h : r.text ++ r.rest = input := h
  rw [← h]
  exact (hn r.value r.rest).after r.text

theorem Splits.andThen {α β : Type} {input : List Char} {s : Scan α}
    {next : α → List Char → Scan β} (h : s.Splits input)
    (hn : ∀ v rest, (next v rest).Splits rest) : (s.andThen next).Splits input := by
  cases s with
  | ok r => exact ofReading_splits h hn
  | error f => exact h

end Scan

end Offside
