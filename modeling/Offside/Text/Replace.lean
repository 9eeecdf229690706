namespace Offside.Text

/-- The text with each occurrence of `pattern`, which is not empty, replaced. Occurrences are found
from left to right and do not overlap, and what is put in is not searched again. -/
def replaceAll (pattern replacement text : List Char) : List Char :=
  go 0 text
where
  /-- The first `matched` characters belong to the occurrence found last. -/
  go : Nat → List Char → List Char
    | _, [] => []
    | matched + 1, _ :: rest => go matched rest
    | 0, c :: rest =>
      if pattern.isPrefixOf (c :: rest) then replacement ++ go pattern.tail.length rest
      else c :: go 0 rest

end Offside.Text
