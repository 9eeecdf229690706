namespace Offside.CommandLine.Path

def segments (path : String) : List String :=
  let cut (c : Char) (parts : List Char × List (List Char)) : List Char × List (List Char) :=
    if c = '/' then ([], parts.1 :: parts.2) else (c :: parts.1, parts.2)
  let parts := path.toList.foldr cut ([], [])
  (parts.1 :: parts.2).map String.ofList

/-- The directory that a path lies in; the empty path is the current one. A dot or a doubled slash
at its end says nothing and is left out. -/
def parent (path : String) : String :=
  match (segments path).dropLast with
  | [] => ""
  | front :: inner =>
    let inner := (inner.reverse.dropWhile fun s => s = "" || s = ".").reverse
    if front = "" && inner.isEmpty then "/" else "/".intercalate (front :: inner)

/-- A path seen from a directory. A path from the root stays what it is. -/
def join (dir path : String) : String :=
  if dir = "" || path.toList.head? = some '/' then path
  else if dir.toList.getLast? = some '/' then dir ++ path
  else dir ++ "/" ++ path

end Offside.CommandLine.Path
