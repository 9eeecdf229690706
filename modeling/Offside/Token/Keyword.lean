namespace Offside

inductive Keyword where
  | as_ | break_ | continue_ | else_ | export_ | false_ | for_ | from_ | if_ | import_ | in_ | let_
  | null_ | pass_ | return_ | true_ | type_ | while_
  deriving DecidableEq

namespace Keyword

def all : List Keyword :=
  [as_, break_, continue_, else_, export_, false_, for_, from_, if_, import_, in_, let_, null_,
    pass_, return_, true_, type_, while_]

def word : Keyword → String
  | as_ => "as"
  | break_ => "break"
  | continue_ => "continue"
  | else_ => "else"
  | export_ => "export"
  | false_ => "false"
  | for_ => "for"
  | from_ => "from"
  | if_ => "if"
  | import_ => "import"
  | in_ => "in"
  | let_ => "let"
  | null_ => "null"
  | pass_ => "pass"
  | return_ => "return"
  | true_ => "true"
  | type_ => "type"
  | while_ => "while"

def name : Keyword → String
  | as_ => "KeywordAs"
  | break_ => "KeywordBreak"
  | continue_ => "KeywordContinue"
  | else_ => "KeywordElse"
  | export_ => "KeywordExport"
  | false_ => "KeywordFalse"
  | for_ => "KeywordFor"
  | from_ => "KeywordFrom"
  | if_ => "KeywordIf"
  | import_ => "KeywordImport"
  | in_ => "KeywordIn"
  | let_ => "KeywordLet"
  | null_ => "KeywordNull"
  | pass_ => "KeywordPass"
  | return_ => "KeywordReturn"
  | true_ => "KeywordTrue"
  | type_ => "KeywordType"
  | while_ => "KeywordWhile"

def ofWord? (text : String) : Option Keyword :=
  all.find? (·.word == text)

def index (k : Keyword) : Nat :=
  all.idxOf k

theorem mem_all (k : Keyword) : k ∈ all := by
  cases k <;> decide

theorem word_injective {k l : Keyword} (h : k.word = l.word) : k = l := by
  cases k <;> cases l <;> first | rfl | exact absurd h (by decide)

theorem ofWord?_word (k : Keyword) : ofWord? k.word = some k := by
  cases k <;> decide

end Keyword

end Offside
