import Offside.Position
import Offside.Text.Bytes

/-!
Line maps: where the lines of a text begin, in bytes, and which byte a position names. A line map
looks at bytes alone, not at characters.
-/

namespace Offside

structure LineMap where
  text : List Char
  /-- The byte offsets at which the lines begin. -/
  starts : List Nat

namespace LineMap

/-- The offsets behind the line breaks among some bytes, the first of which stands at `offset`. -/
def startsFrom (offset : Nat) : List UInt8 → List Nat
  | [] => []
  | 13 :: 10 :: rest => (offset + 2) :: startsFrom (offset + 2) rest
  | b :: rest =>
    if b = 10 ∨ b = 13 then (offset + 1) :: startsFrom (offset + 1) rest
    else startsFrom (offset + 1) rest

def ofText (text : List Char) : LineMap :=
  { text, starts := 0 :: startsFrom 0 (Text.bytes text) }

/-- The byte offset at which a line begins. Lines are counted from 1. -/
def lineStart? (map : LineMap) : Nat → Option Nat
  | 0 => none
  | n + 1 => map.starts[n]?

/-- The byte offset of a position. Columns are counted on from the beginning of the line, past its
end if need be; a line that does not exist, and a column past the end of the text, give the end of
the text. -/
def offsetOf (map : LineMap) (p : Position) : Nat :=
  match map.lineStart? p.line with
  | some start =>
    match Text.dropBytes? start map.text with
    | some line => start + Text.byteLength (line.take (p.column - 1))
    | none => Text.byteLength map.text
  | none => Text.byteLength map.text

end LineMap

end Offside
