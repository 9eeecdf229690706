import Offside.Json.Basic
import Offside.Text.Hex

/-!
JSON values written without any spaces. Strings escape what they must, the quote, the backslash and
the controls below U+0020, and surrogates without a partner, which no other spelling exists for.
-/

namespace Offside.Json

def unitEscape (unit : Nat) : List Char :=
  '\\' :: 'u' :: Text.Hex.lower4 unit

def escapeChar (c : Char) : List Char :=
  if c = '"' then ['\\', '"']
  else if c = '\\' then ['\\', '\\']
  else if c = '\x08' then ['\\', 'b']
  else if c = '\t' then ['\\', 't']
  else if c = '\n' then ['\\', 'n']
  else if c = '\x0c' then ['\\', 'f']
  else if c = '\r' then ['\\', 'r']
  else if c < ' ' then unitEscape c.toNat
  else [c]

def printString (units : List Nat) : List Char :=
  let write : Char ⊕ Nat → List Char
    | .inl c => escapeChar c
    | .inr unit => unitEscape unit
  '"' :: (Text.Utf16.decode units).flatMap write ++ ['"']

mutual

def print : Json → List Char
  | .null => "null".toList
  | .bool true => "true".toList
  | .bool false => "false".toList
  | .number literal => literal
  | .str units => printString units
  | .arr items => '[' :: printItems items ++ [']']
  | .obj members => '\x7b' :: printMembers members ++ ['\x7d']

def printItems : List Json → List Char
  | [] => []
  | [item] => print item
  | item :: items => print item ++ ',' :: printItems items

def printMembers : List (List Nat × Json) → List Char
  | [] => []
  | [(name, value)] => printString name ++ ':' :: print value
  | (name, value) :: members =>
    printString name ++ ':' :: print value ++ ',' :: printMembers members

end

end Offside.Json
