/-!
Readings: what a scanner makes of the front of a text. The text read and the text left over are
both kept, so that nothing a scanner consumes can get lost.
-/

namespace Offside.Text

/-- The front of a text, read as a value: `text` was read and `rest` follows it. -/
structure Reading (α : Type) where
  value : α
  text : List Char
  rest : List Char

namespace Reading

def map {α β : Type} (f : α → β) (r : Reading α) : Reading β :=
  { r with value := f r.value }

def after {α : Type} (text : List Char) (r : Reading α) : Reading α :=
  { r with text := text ++ r.text }

/-- The longest run of characters of one class, as its own value. -/
def span (p : Char → Bool) (text : List Char) : Reading (List Char) :=
  { value := text.takeWhile p, text := text.takeWhile p, rest := text.dropWhile p }

def Splits {α : Type} (input : List Char) (r : Reading α) : Prop :=
  r.text ++ r.rest = input

theorem Splits.map {α β : Type} {input : List Char} {r : Reading α} (f : α → β)
    (h : r.Splits input) : (r.map f).Splits input := h

theorem Splits.after {α : Type} {input : List Char} {r : Reading α} (text : List Char)
    (h : r.Splits input) : (r.after text).Splits (text ++ input) := by
  simp only [Splits, Reading.after, List.append_assoc] at *
  rw [h]

theorem span_splits (p : Char → Bool) (text : List Char) : (span p text).Splits text :=
  List.takeWhile_append_dropWhile

theorem Splits.rest_length_lt {α : Type} {input : List Char} {r : Reading α}
    (h : r.Splits input) (consumed : r.text ≠ []) : r.rest.length < input.length := by
  have : 0 < r.text.length := List.length_pos_iff.mpr consumed
  rw [← h, List.length_append]
  omega

end Reading

end Offside.Text
