namespace Offside.Text.Hex

def digit? (c : Char) : Option Nat :=
  if '0' ≤ c ∧ c ≤ '9' then some (c.toNat - '0'.toNat)
  else if 'a' ≤ c ∧ c ≤ 'f' then some (c.toNat - 'a'.toNat + 10)
  else if 'A' ≤ c ∧ c ≤ 'F' then some (c.toNat - 'A'.toNat + 10)
  else none

def isDigit (c : Char) : Bool :=
  (digit? c).isSome

/-- The number that a run of digits stands for. Other characters count as zero. -/
def value (digits : List Char) : Nat :=
  digits.foldl (fun n c => 16 * n + (digit? c).getD 0) 0

def lower (n : Nat) : List Char :=
  Nat.toDigits 16 n

def upper4 (n : Nat) : List Char :=
  ((lower n).map Char.toUpper).leftpad 4 '0'

def lower4 (n : Nat) : List Char :=
  (lower n).leftpad 4 '0'

end Offside.Text.Hex
