import Offside.Scan
import Offside.Text.Utf16
import Offside.Token.Basic

/-!
String literals, in single or in double quotes. A literal may run over several lines, and then a
line break in any spelling stands for '\n'. A backslash begins an escape; escapes of the form
\uXXXX name UTF-16 code units, and two of them may make up one character.
-/

namespace Offside.Lexeme

def shortEscape? : Char → Option Char
  | 'b' => some '\x08'
  | 't' => some '\t'
  | 'n' => some '\n'
  | 'f' => some '\x0c'
  | 'r' => some '\r'
  | '"' => some '"'
  | '\'' => some '\''
  | '\\' => some '\\'
  | '/' => some '/'
  | _ => none

def codeUnit (text : List Char) : Scan Nat :=
  let digits := (text.take 4).takeWhile Text.Hex.isDigit
  let rest := text.drop digits.length
  if digits.length = 4 then
    .ok { value := Text.Hex.value digits, text := digits, rest }
  else
    match rest with
    | [] => .error { fault := .unterminatedEscape, before := digits, text := digits }
    | c :: _ => .error { fault := .illegalHexDigit c, before := digits, text := digits }

/-- The second half of a surrogate pair: another escape of a code unit, directly behind the first.
Without a backslash and a 'u' there is none. -/
def partner (text : List Char) : Scan (Option Nat) :=
  match text with
  | '\\' :: 'u' :: rest => ((codeUnit rest).mapValue some).after ['\\', 'u']
  | _ => .ok { value := none, text := [], rest := text }

/-- The character that one code unit or a pair of them names. A surrogate without its partner is a
fault, which lies at the front of the escape. -/
def resolve (unit : Nat) (low? : Option Nat) (escape : Text.Reading Unit) : Scan Char :=
  let named :=
    match low? with
    | some low => Text.Utf16.pair? unit low
    | none => Text.Utf16.scalar? unit
  match named with
  | some c => .ok (escape.map fun _ => c)
  | none => .error { fault := .invalidScalar unit, before := [], text := escape.text }

/-- The escape whose 'u' was found at the front of a text; `rest` is what follows the 'u'. -/
def unicodeEscape (rest : List Char) : Scan Char :=
  match (codeUnit rest).after ['u'] with
  | .error f => .error f
  | .ok unit =>
    if Text.Utf16.isHigh unit.value then
      match (partner unit.rest).after unit.text with
      | .error f => .error f
      | .ok low => resolve unit.value low.value (low.map fun _ => ())
    else
      resolve unit.value none (unit.map fun _ => ())

def escape (text : List Char) : Scan Char :=
  match text with
  | [] => .error { fault := .unterminatedEscape, before := [], text := [] }
  | c :: rest =>
    if c = 'u' then unicodeEscape rest
    else
      let read := Text.first c rest
      match shortEscape? read.value with
      | some value => .ok (read.map fun _ => value)
      | none => .error { fault := .unrecognizedEscape read.value, before := [], text := read.text }

def item (c : Char) (rest : List Char) : Scan Char :=
  if c = '\\' then (escape rest).after ['\\'] else .ok (Text.first c rest)

theorem front_hexDigits (text : List Char) :
    (text.take 4).takeWhile Text.Hex.isDigit <+: text :=
  (List.takeWhile_prefix _).trans (List.take_prefix 4 text)

theorem length_hexDigits_le (text : List Char) :
    ((text.take 4).takeWhile Text.Hex.isDigit).length ≤ 4 :=
  Nat.le_trans (List.takeWhile_prefix _).length_le (List.length_take_le 4 text)

theorem codeUnit_splits (text : List Char) : (codeUnit text).Splits text := by
  have front := front_hexDigits text
  simp only [codeUnit]
  split
  · exact List.prefix_iff_eq_append.mp front
  · split <;> exact ⟨List.prefix_refl _, front⟩

theorem partner_splits (text : List Char) : (partner text).Splits text := by
  unfold partner
  split
  · exact ((codeUnit_splits _).mapValue _).after _
  · rfl

theorem resolve_splits {unit : Nat} {low? : Option Nat} {escape : Text.Reading Unit}
    {input : List Char} (h : escape.Splits input) : (resolve unit low? escape).Splits input := by
  simp only [resolve]
  split
  · exact h
  · exact ⟨List.nil_prefix, ⟨escape.rest, h⟩⟩

theorem unicodeEscape_splits (rest : List Char) : (unicodeEscape rest).Splits ('u' :: rest) := by
  have hu := (codeUnit_splits rest).after ['u']
  unfold unicodeEscape
  split
  · rename_i f h; exact hu.of_error h
  · rename_i unit h
    have hu : unit.text ++ unit.rest = 'u' :: rest := hu.of_ok h
    split
    · have hp := (partner_splits unit.rest).after unit.text
      rw [hu] at hp
      split
      · rename_i f h; exact hp.of_error h
      · rename_i low h; exact resolve_splits ((hp.of_ok h).map _)
    · exact resolve_splits hu

theorem escape_splits (text : List Char) : (escape text).Splits text := by
  unfold escape
  split
  · exact ⟨List.prefix_refl _, List.nil_prefix⟩
  · rename_i c rest
    split
    · rename_i h; exact h ▸ unicodeEscape_splits rest
    · have hf := Text.first_splits c rest
      simp only
      split
      · exact hf
      · exact ⟨List.nil_prefix, ⟨_, hf⟩⟩

theorem item_splits (c : Char) (rest : List Char) : (item c rest).Splits (c :: rest) := by
  unfold item
  split
  · rename_i h; exact h ▸ (escape_splits rest).after ['\\']
  · exact Text.first_splits c rest

theorem item_consumed_ne_nil (c : Char) (rest : List Char) : (item c rest).consumed ≠ [] := by
  unfold item
  split
  · simp
  · exact Text.first_text_ne_nil c rest

theorem item_rest_length_lt {c : Char} {rest : List Char} {r : Text.Reading Char}
    (h : item c rest = .ok r) : r.rest.length < (c :: rest).length := by
  have consumed := item_consumed_ne_nil c rest
  rw [h] at consumed
  exact ((item_splits c rest).of_ok h).rest_length_lt consumed

def body (quote : Char) (text : List Char) : Scan (List Char) :=
  match text with
  | [] => .error { fault := .unterminatedString, before := [], text := [] }
  | c :: rest =>
    if c = quote then .ok { value := [], text := [c], rest }
    else
      match _h : item c rest with
      | .error f => .error f
      | .ok r => ((body quote r.rest).mapValue (r.value :: ·)).after r.text
termination_by text.length
decreasing_by exact item_rest_length_lt _h

def stringLiteral (quote : Char) (rest : List Char) : Scan Token.Kind :=
  ((body quote rest).mapValue fun value => .str (String.ofList value)).after [quote]

theorem body_cons (quote c : Char) (rest : List Char) :
    body quote (c :: rest) =
      if c = quote then .ok { value := [], text := [c], rest }
      else (item c rest).andThen fun v rest => (body quote rest).mapValue (v :: ·) := by
  rw [body]
  split
  · rfl
  · split <;> rename_i h <;> rw [h] <;> rfl

theorem body_splits (quote : Char) (text : List Char) : (body quote text).Splits text := by
  fun_induction body quote text with
  | case1 => exact ⟨List.prefix_refl _, List.nil_prefix⟩
  | case2 => rfl
  | case3 c rest hq f h => exact (item_splits c rest).of_error h
  | case4 c rest hq r h ih =>
    have hi : r.text ++ r.rest = c :: rest := (item_splits c rest).of_ok h
    exact hi ▸ (ih.mapValue _).after r.text

theorem stringLiteral_splits (quote : Char) (rest : List Char) :
    (stringLiteral quote rest).Splits (quote :: rest) :=
  ((body_splits quote rest).mapValue _).after [quote]

end Offside.Lexeme
