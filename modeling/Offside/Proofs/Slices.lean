import Offside.Proofs.CursorMoves

namespace Offside.Text

def isBreakByte (b : UInt8) : Bool :=
  b = 10 || b = 13

/-- The first byte of a line break in a text is where the characters before it end, for no other
character has such a byte. -/
theorem findIdx_bytes (text : List Char) :
    (bytes text).findIdx isBreakByte = byteLength (text.takeWhile (!isBreak ·)) := by
  induction text with
  | nil => rfl
  | cons c rest ih =>
    cases hb : isBreak c with
    | true =>
      have which : c = '\n' ∨ c = '\r' := by simpa [isBreak] using hb
      rcases which with rfl | rfl <;> rfl
    | false =>
      have clean : ¬(String.utf8EncodeChar c).findIdx isBreakByte <
          (String.utf8EncodeChar c).length := by
        rw [List.findIdx_lt_length]
        rintro ⟨b, member, same⟩
        obtain ⟨lf, cr⟩ := LineMap.ne_of_mem_utf8 hb member
        simp [isBreakByte, lf, cr] at same
      have further : (c :: rest).takeWhile (!isBreak ·) = c :: rest.takeWhile (!isBreak ·) := by
        simp [hb]
      rw [bytes_cons, List.findIdx_append, if_neg clean, ih, String.length_utf8EncodeChar,
        further, byteLength_cons, Nat.add_comm]

/-- Behind the first line of a text is what the bytes up to the first of a line break leave. -/
theorem dropBytes?_findIdx (text : List Char) :
    dropBytes? ((bytes text).findIdx isBreakByte) text = some (text.dropWhile (!isBreak ·)) := by
  rw [findIdx_bytes]
  exact dropBytes?_byteLength List.takeWhile_append_dropWhile

end Offside.Text

namespace Offside.Cursor

/-- The slices of the text that the operations of a cursor take are all there. -/
structure Slices (text : List Char) (cursor : Cursor) : Prop where
  /-- What is ahead. -/
  rest : Text.dropBytes? cursor.offset text = some cursor.rest
  /-- What is behind the next character, be it the first half of a line break. -/
  behind : ∀ c rest, cursor.rest = c :: rest →
    Text.dropBytes? (cursor.offset + c.utf8Size) text = some rest
  /-- What is ahead up to the first byte of a line break. -/
  line : Text.dropBytes? ((Text.bytes cursor.rest).findIdx Text.isBreakByte) cursor.rest =
    some (cursor.rest.dropWhile (!Text.isBreak ·))

variable {text : List Char} {cursor : Cursor}

theorem StandsIn.slices (h : cursor.StandsIn text) : cursor.Slices text where
  rest := by
    rw [offset_eq]
    exact Text.dropBytes?_byteLength h.split
  behind c rest ahead := by
    have split : (cursor.passed.reverse ++ [c]) ++ rest = text := by
      rw [← h.split, ahead, List.append_assoc]
      rfl
    have place : cursor.offset + c.utf8Size = Text.byteLength (cursor.passed.reverse ++ [c]) := by
      rw [offset_eq, Text.byteLength_append]
      rfl
    rw [place]
    exact Text.dropBytes?_byteLength split
  line := Text.dropBytes?_findIdx cursor.rest

theorem sliceFrom?_offset {earlier later : Cursor} {read : List Char}
    (h : later.passed.reverse = earlier.passed.reverse ++ read) :
    later.sliceFrom? earlier.offset = some read := by
  rw [sliceFrom?, offset_eq]
  exact Text.dropBytes?_byteLength h.symm

end Offside.Cursor
