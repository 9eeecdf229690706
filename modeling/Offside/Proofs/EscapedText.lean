import Offside.Proofs.LiteralGrammar
import Offside.Proofs.Respelling

/-!
Texts written in escapes. A text can be written in a literal with nothing but escapes of the form
\uXXXX, one for each of its UTF-16 code units, and is then read again as it was. The arithmetic that
makes one character of two units never leaves the range of 32 bits.
-/

namespace Offside

namespace Lexeme

theorem Escaped.of_append {front more : List Nat} {text : List Char}
    (h : Escaped (front ++ more) text) :
    ∃ first second, text = first ++ second ∧ Escaped front first ∧ Escaped more second := by
  induction front generalizing text with
  | nil => exact ⟨[], text, rfl, .nil, h⟩
  | cons unit front ih =>
    cases h with
    | cons digits rest =>
      obtain ⟨first, second, rfl, escaped, behind⟩ := ih rest
      exact ⟨_, second, by simp, .cons digits escaped, behind⟩

/-- Escapes for the code units of a text are items that stand for its characters. -/
theorem areItems_of_escaped {value text : List Char} (quote : Char) (next? : Option Char)
    (h : Escaped (Text.Utf16.encode value) text) : AreItems quote next? text value := by
  induction value generalizing text with
  | nil =>
    cases h
    exact .nil
  | cons c value ih =>
    have front : Text.Utf16.encode (c :: value) = Text.Utf16.units c ++ Text.Utf16.encode value := rfl
    rw [front] at h
    obtain ⟨first, second, rfl, escaped, behind⟩ := h.of_append
    exact .cons (.units escaped) (ih behind)

theorem spells_of_isLiteral {quote : Char} {text value : List Char} (quotes : isQuote quote = true)
    (literal : IsLiteral quote text value) : Spells text (.str (String.ofList value)) := by
  intro after _
  obtain ⟨inside, whole, _⟩ := id literal
  refine ⟨quote, inside ++ quote :: after, by simp [whole], ?_⟩
  rw [scan, if_pos quotes]
  exact stringLiteral_of_isLiteral quotes literal (by simp [whole])

end Lexeme

namespace Text.Utf16

/-- The sum on 32 bits that makes a character of two surrogates. No difference in it falls below
zero, it does not run over, and it is the code point of the character that is read. -/
structure Combines (high low : UInt32) : Prop where
  high_le : 0xD800 ≤ high
  low_le : 0xDC00 ≤ low
  sum_lt : 0x10000 + (high.toNat - 0xD800) * 0x400 + (low.toNat - 0xDC00) < UInt32.size
  exists_char : ∃ c, pair? high.toNat low.toNat = some c ∧
    c.val = 0x10000 + ((high - 0xD800) <<< (10 : UInt32)) + (low - 0xDC00)

theorem combines {high low : UInt32} (first : isHigh high.toNat = true)
    (second : isLow low.toNat = true) : Combines high low := by
  obtain ⟨c, read, value⟩ := exists_pair? first second
  simp only [isHigh, isLow, Bool.and_eq_true, decide_eq_true_eq] at first second
  have above : 0xD800 ≤ high := UInt32.le_iff_toNat_le.mpr first.1
  have behind : 0xDC00 ≤ low := UInt32.le_iff_toNat_le.mpr second.1
  refine ⟨above, behind, ?_, c, read, ?_⟩
  · simp only [UInt32.size]
    omega
  · apply UInt32.toNat_inj.mp
    have left : (high - 0xD800).toNat = high.toNat - 0xD800 := UInt32.toNat_sub_of_le _ _ above
    have right : (low - 0xDC00).toNat = low.toNat - 0xDC00 := UInt32.toNat_sub_of_le _ _ behind
    have value : c.val.toNat = _ := value
    rw [value, UInt32.toNat_add, UInt32.toNat_add, UInt32.toNat_shiftLeft, left, right]
    simp only [UInt32.reduceToNat, Nat.reduceMod, Nat.shiftLeft_eq, Nat.reducePow]
    omega

end Text.Utf16

namespace Lexer

/-- A text whose code units are written as escapes, whatever the case of their digits, comes back as
the only token. Every pair of surrogates is a character, found without leaving the range of 32
bits. -/
theorem tokenize_escaped (value : String) (text : List Char) (options : Options) {quote : Char}
    (quotes : Lexeme.isQuote quote = true)
    (escaped : Lexeme.Escaped (Text.Utf16.encode value.toList) text) :
    tokenize (quote :: (text ++ [quote])) options = .ok [⟨⟨1, 1⟩, .str value⟩] ∧
      ∀ high low : UInt32, Text.Utf16.isHigh high.toNat = true →
        Text.Utf16.isLow low.toNat = true → Text.Utf16.Combines high low := by
  constructor
  · have literal : Lexeme.IsLiteral quote (quote :: (text ++ [quote])) value.toList :=
      ⟨text, rfl, Lexeme.areItems_of_escaped quote _ escaped⟩
    have spells := Lexeme.spells_of_isLiteral quotes literal
    rw [String.ofList_toList] at spells
    exact tokenize_of_spells spells options
  · intro high low first second
    exact Text.Utf16.combines first second

theorem tokenize_escaped_pair :
    tokenize "'\\ud83D\\uDe00\\u0061'".toList {} = .ok [⟨⟨1, 1⟩, .str "😀a"⟩] ∧
      Text.Utf16.Combines 0xD83D 0xDE00 := by
  have units : Text.Utf16.encode "😀a".toList = [0xD83D, 0xDE00, 0x61] := by decide
  have escaped : Lexeme.Escaped (Text.Utf16.encode "😀a".toList) "\\ud83D\\uDe00\\u0061".toList := by
    have high : Text.Hex.IsNumeral "d83D".toList 0xD83D := ⟨by decide, by decide⟩
    have low : Text.Hex.IsNumeral "De00".toList 0xDE00 := ⟨by decide, by decide⟩
    have letter : Text.Hex.IsNumeral "0061".toList 0x61 := ⟨by decide, by decide⟩
    rw [units]
    exact .cons high (.cons low (.cons letter .nil))
  have single : Lexeme.isQuote '\'' = true := by decide
  have both := tokenize_escaped "😀a" _ {} single escaped
  exact ⟨both.1, both.2 _ _ (by decide) (by decide)⟩

end Lexer

end Offside
