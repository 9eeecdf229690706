import Offside.CommandLine.Path

namespace Offside.CommandLine

structure Files (m : Type → Type) where
  /-- Whether a path names a regular file. -/
  isFile : String → m Bool
  read : String → m (Except String (List Char))
  standardInput : m (Except String (List Char))

inductive FileTree.Entry where
  | file (content : ByteArray)
  | directory

/-- A directory with all that is in it, by the names on the way there. Directories on the way to
something need no entry of their own. -/
structure FileTree where
  entries : List (List String × FileTree.Entry)

namespace FileTree

def entry? (tree : FileTree) (way : List String) : Option Entry :=
  match tree.entries.find? (·.1 = way) with
  | some (_, entry) => some entry
  | none =>
    if way.isEmpty || tree.entries.any (way.isPrefixOf ·.1) then some .directory else none

/-- One segment of a path, taken from the directory at the end of a way. Nothing lies above the
tree. -/
def step? (tree : FileTree) (way : List String) (segment : String) : Option (List String) :=
  match tree.entry? way with
  | some .directory =>
    if segment = "" || segment = "." then some way
    else if segment = ".." then if way.isEmpty then none else some way.dropLast
    else if (tree.entry? (way ++ [segment])).isSome then some (way ++ [segment])
    else none
  | _ => none

def lookup? (tree : FileTree) (path : String) : Option Entry :=
  if path = "" || path.toList.head? = some '/' then none
  else ((Path.segments path).foldlM tree.step? []).bind tree.entry?

def decode (content : ByteArray) : Except String (List Char) :=
  match String.fromUTF8? content with
  | some text => .ok text.toList
  | none => .error "stream did not contain valid UTF-8"

def read (tree : FileTree) (path : String) : Except String (List Char) :=
  match tree.lookup? path with
  | some (.file content) => decode content
  | some .directory => .error "Is a directory"
  | none => .error "No such file or directory"

def isFile (tree : FileTree) (path : String) : Bool :=
  match tree.lookup? path with
  | some (.file _) => true
  | _ => false

def files (tree : FileTree) (standardInput : Except String (List Char)) : Files Id :=
  { isFile := tree.isFile, read := tree.read, standardInput }

end FileTree

end Offside.CommandLine
