namespace Offside.Text.Utf16

def isHigh (unit : Nat) : Bool :=
  0xD800 ≤ unit && unit < 0xDC00

def isLow (unit : Nat) : Bool :=
  0xDC00 ≤ unit && unit < 0xE000

/-- The character with a given code point. Surrogates and numbers above 0x10FFFF have none. -/
def scalar? (n : Nat) : Option Char :=
  if n.isValidChar then some (Char.ofNat n) else none

def pair? (high low : Nat) : Option Char :=
  if isHigh high && isLow low then
    scalar? (0x10000 + (high - 0xD800) * 0x400 + (low - 0xDC00))
  else
    none

def units (c : Char) : List Nat :=
  if c.toNat < 0x10000 then [c.toNat]
  else [0xD800 + (c.toNat - 0x10000) / 0x400, 0xDC00 + (c.toNat - 0x10000) % 0x400]

def encode (text : List Char) : List Nat :=
  text.flatMap units

/-- Code units read as characters. A surrogate without its partner stays a number. -/
def decode : List Nat → List (Char ⊕ Nat)
  | [] => []
  | [unit] => [single unit]
  | high :: low :: rest =>
    match pair? high low with
    | some c => .inl c :: decode rest
    | none => single high :: decode (low :: rest)
where
  single (unit : Nat) : Char ⊕ Nat :=
    match scalar? unit with
    | some c => .inl c
    | none => .inr unit

def text? (units : List Nat) : Option (List Char) :=
  (decode units).mapM fun
    | .inl c => some c
    | .inr _ => none

end Offside.Text.Utf16
