import Offside.Diagnostic.Catalogue
import Offside.LineMap

namespace Offside

structure Report where
  file : String
  title : String
  /-- The first byte of the stretch. -/
  offset : Nat
  /-- The number of bytes of the stretch. -/
  length : Nat
  label : String
  deriving DecidableEq

namespace Report

def code : String := "snek::lex"

/-- The report on an error in a text. It is about the character at the error, or about nothing if
the text ends there. -/
def ofError (file : String) (text : List Char) (e : LexError) (d : Diagnostic) : Report :=
  let offset := (LineMap.ofText text).offsetOf e.position
  let there := (Text.dropBytes? offset text).bind List.head?
  { file
    title := d.codeText ++ ": " ++ d.text
    offset
    length := (there.map Char.utf8Size).getD 0
    label := e.fault.text }

end Report

end Offside
