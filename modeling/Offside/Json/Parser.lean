import Offside.Json.Basic
import Offside.Text.Hex

/-!
Reading JSON, with nothing beyond the standard: no comments, no trailing commas, no text behind the
value. Nesting and numbers may be of any size.
-/

namespace Offside.Json

def isSpace (c : Char) : Bool :=
  c = ' ' || c = '\t' || c = '\n' || c = '\r'

def skipSpace (text : List Char) : List Char :=
  text.dropWhile isSpace

def shortEscape? : Char → Option Nat
  | '"' => some 0x22
  | '\\' => some 0x5C
  | '/' => some 0x2F
  | 'b' => some 0x08
  | 'f' => some 0x0C
  | 'n' => some 0x0A
  | 'r' => some 0x0D
  | 't' => some 0x09
  | _ => none

def codeUnit? (text : List Char) : Option (Nat × List Char) :=
  let digits := (text.take 4).takeWhile Text.Hex.isDigit
  if digits.length = 4 then some (Text.Hex.value digits, text.drop 4) else none

/-- The code units of a string up to its closing quote, and what follows it. The fuel bounds the
number of characters and escapes. -/
def stringBody? : Nat → List Char → Option (List Nat × List Char)
  | 0, _ => none
  | _ + 1, [] => none
  | fuel + 1, c :: rest =>
    if c = '"' then some ([], rest)
    else if c = '\\' then
      match rest with
      | [] => none
      | 'u' :: rest => do
        let (unit, rest) ← codeUnit? rest
        let (units, rest) ← stringBody? fuel rest
        return (unit :: units, rest)
      | e :: rest => do
        let unit ← shortEscape? e
        let (units, rest) ← stringBody? fuel rest
        return (unit :: units, rest)
    else if c < ' ' then none
    else do
      let (units, rest) ← stringBody? fuel rest
      return (Text.Utf16.units c ++ units, rest)

def digits? (text : List Char) : Option (List Char × List Char) :=
  let digits := text.takeWhile Char.isDigit
  if digits.isEmpty then none else some (digits, text.dropWhile Char.isDigit)

/-- The whole part of a number. It has no zero in front. -/
def whole? (text : List Char) : Option (List Char × List Char) :=
  match text with
  | '0' :: rest => some (['0'], rest)
  | _ => digits? text

def fraction? (text : List Char) : Option (List Char × List Char) :=
  match text with
  | '.' :: rest => (digits? rest).map fun (digits, rest) => ('.' :: digits, rest)
  | _ => some ([], text)

def exponent? (text : List Char) : Option (List Char × List Char) :=
  match text with
  | c :: rest =>
    if c = 'e' ∨ c = 'E' then
      let sign := (rest.take 1).takeWhile fun s => s = '+' || s = '-'
      (digits? (rest.drop sign.length)).map fun (digits, rest) => (c :: sign ++ digits, rest)
    else some ([], text)
  | [] => some ([], [])

def number? (text : List Char) : Option (List Char × List Char) := do
  let sign := (text.take 1).takeWhile (· = '-')
  let (whole, rest) ← whole? (text.drop sign.length)
  let (fraction, rest) ← fraction? rest
  let (exponent, rest) ← exponent? rest
  return (sign ++ whole ++ fraction ++ exponent, rest)

mutual

/-- The value that begins here, without space before it, and what follows it. The fuel bounds the
depth of the recursion, which takes no more than one step for each character. -/
def value? : Nat → List Char → Option (Json × List Char)
  | 0, _ => none
  | fuel + 1, text =>
    match text with
    | 'n' :: 'u' :: 'l' :: 'l' :: rest => some (.null, rest)
    | 't' :: 'r' :: 'u' :: 'e' :: rest => some (.bool true, rest)
    | 'f' :: 'a' :: 'l' :: 's' :: 'e' :: rest => some (.bool false, rest)
    | '"' :: rest => (stringBody? text.length rest).map fun (units, rest) => (.str units, rest)
    | '[' :: rest =>
      match skipSpace rest with
      | ']' :: rest => some (.arr [], rest)
      | rest => (items? fuel rest).map fun (items, rest) => (.arr items, rest)
    | '\x7b' :: rest =>
      match skipSpace rest with
      | '\x7d' :: rest => some (.obj [], rest)
      | rest => (members? fuel rest).map fun (members, rest) => (.obj members, rest)
    | _ => (number? text).map fun (literal, rest) => (.number literal, rest)

def items? : Nat → List Char → Option (List Json × List Char)
  | 0, _ => none
  | fuel + 1, text => do
    let (item, rest) ← value? fuel text
    match skipSpace rest with
    | ']' :: rest => return ([item], rest)
    | ',' :: rest =>
      let (items, rest) ← items? fuel (skipSpace rest)
      return (item :: items, rest)
    | _ => none

def members? : Nat → List Char → Option (List (List Nat × Json) × List Char)
  | 0, _ => none
  | fuel + 1, text => do
    let '"' :: rest := text | none
    let (name, rest) ← stringBody? text.length rest
    let ':' :: rest := skipSpace rest | none
    let (value, rest) ← value? fuel (skipSpace rest)
    match skipSpace rest with
    | '\x7d' :: rest => return ([(name, value)], rest)
    | ',' :: rest =>
      let (members, rest) ← members? fuel (skipSpace rest)
      return ((name, value) :: members, rest)
    | _ => none

end

/-- The value that a text is, if it is one. Space may stand around it. -/
def parse? (text : List Char) : Option Json := do
  let (value, rest) ← value? (text.length + 1) (skipSpace text)
  if (skipSpace rest).isEmpty then some value else none

end Offside.Json
