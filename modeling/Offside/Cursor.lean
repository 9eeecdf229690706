import Offside.Fault
import Offside.Text.Bytes

/-!
A cursor: a place in a source text, with the text on both sides of it and its line and column. It
only moves forward, and a line break in any spelling is a single step.
-/

namespace Offside

structure Cursor where
  /-- The text already passed, latest character first. -/
  passed : List Char
  rest : List Char
  position : Position

namespace Cursor

def ofText (text : List Char) : Cursor :=
  { passed := [], rest := text, position := .start }

def offset (cursor : Cursor) : Nat :=
  Text.byteLength cursor.passed

def atEnd (cursor : Cursor) : Bool :=
  cursor.rest.isEmpty

def current? (cursor : Cursor) : Option Char :=
  cursor.rest.head?

def peek (cursor : Cursor) (c : Char) (n : Nat) : Bool :=
  cursor.rest[n]? = some c

/-- The cursor behind `text`, which is what it stands before. -/
def past (cursor : Cursor) (text : List Char) : Cursor :=
  { passed := text.reverse ++ cursor.passed
    rest := cursor.rest.drop text.length
    position := cursor.position.past text }

/-- The next character along with the cursor behind it. A line break is given as '\n'. -/
def next? (cursor : Cursor) : Option (Char × Cursor) :=
  match cursor.rest with
  | [] => none
  | c :: rest =>
    let read := Text.first c rest
    some (read.value, cursor.past read.text)

def advance (cursor : Cursor) : Except LexError (Char × Cursor) :=
  match cursor.next? with
  | some step => .ok step
  | none => .error ⟨.unexpectedEndOfInput, cursor.position⟩

def accept? (cursor : Cursor) (wanted : Char → Bool) : Option Cursor :=
  match cursor.rest with
  | [] => none
  | c :: rest => if wanted c then some (cursor.past (Text.first c rest).text) else none

def acceptChar? (cursor : Cursor) (c : Char) : Option Cursor :=
  cursor.accept? (· == c)

def acceptBreak? (cursor : Cursor) : Option Cursor :=
  cursor.accept? Text.isBreak

def skipLine (cursor : Cursor) : Cursor :=
  let eol := cursor.past (cursor.rest.takeWhile (!Text.isBreak ·))
  eol.acceptBreak?.getD eol

/-- The text passed since the byte offset `start`, or nothing if `start` lies ahead of the cursor
or inside a character. -/
def sliceFrom? (cursor : Cursor) (start : Nat) : Option (List Char) :=
  Text.dropBytes? start cursor.passed.reverse

def source (cursor : Cursor) : List Char :=
  cursor.passed.reverse ++ cursor.rest

@[simp] theorem rest_past (cursor : Cursor) (text : List Char) :
    (cursor.past text).rest = cursor.rest.drop text.length := rfl

@[simp] theorem source_ofText (text : List Char) : (ofText text).source = text := rfl

theorem source_past {cursor : Cursor} {text : List Char} (h : text <+: cursor.rest) :
    (cursor.past text).source = cursor.source := by
  obtain ⟨rest, h⟩ := h
  simp [source, past, ← h]

theorem rest_past_splits {α : Type} {cursor : Cursor} {r : Text.Reading α}
    (h : r.Splits cursor.rest) : (cursor.past r.text).rest = r.rest := by
  rw [past, ← h, List.drop_left]

end Cursor

end Offside
