namespace Offside

inductive Punct where
  | spread
  | questionDot | arrow | fatArrow | equalsEquals | notEquals | lessEquals | greaterEquals
  | shiftLeft | shiftRight | andAnd | orOr
  | openParen | closeParen | openBracket | closeBracket | openBrace | closeBrace
  | dot | comma | colon | semicolon | equals | plus | minus | asterisk | slash | percent
  | ampersand | bar | exclamation | tilde | caret | less | greater
  deriving DecidableEq

namespace Punct

/-- Every punctuator, longer spellings before shorter ones. -/
def all : List Punct :=
  [spread,
    questionDot, arrow, fatArrow, equalsEquals, notEquals, lessEquals, greaterEquals,
    shiftLeft, shiftRight, andAnd, orOr,
    openParen, closeParen, openBracket, closeBracket, openBrace, closeBrace,
    dot, comma, colon, semicolon, equals, plus, minus, asterisk, slash, percent,
    ampersand, bar, exclamation, tilde, caret, less, greater]

def spelling : Punct → List Char
  | spread => ['.', '.', '.']
  | questionDot => ['?', '.']
  | arrow => ['-', '>']
  | fatArrow => ['=', '>']
  | equalsEquals => ['=', '=']
  | notEquals => ['!', '=']
  | lessEquals => ['<', '=']
  | greaterEquals => ['>', '=']
  | shiftLeft => ['<', '<']
  | shiftRight => ['>', '>']
  | andAnd => ['&', '&']
  | orOr => ['|', '|']
  | openParen => ['(']
  | closeParen => [')']
  | openBracket => ['[']
  | closeBracket => [']']
  | openBrace => ['\x7b']
  | closeBrace => ['\x7d']
  | dot => ['.']
  | comma => [',']
  | colon => [':']
  | semicolon => [';']
  | equals => ['=']
  | plus => ['+']
  | minus => ['-']
  | asterisk => ['*']
  | slash => ['/']
  | percent => ['%']
  | ampersand => ['&']
  | bar => ['|']
  | exclamation => ['!']
  | tilde => ['~']
  | caret => ['^']
  | less => ['<']
  | greater => ['>']

def longest? (text : List Char) : Option Punct :=
  all.find? (·.spelling.isPrefixOf text)

def opensBracket : Punct → Bool
  | openParen | openBracket | openBrace => true
  | _ => false

def closesBracket : Punct → Bool
  | closeParen | closeBracket | closeBrace => true
  | _ => false

theorem mem_all (p : Punct) : p ∈ all := by
  cases p <;> decide

theorem spelling_ne_nil (p : Punct) : p.spelling ≠ [] := by
  cases p <;> decide

theorem spelling_injective {p q : Punct} (h : p.spelling = q.spelling) : p = q := by
  cases p <;> cases q <;> first | rfl | exact absurd h (by decide)

/-- The order of the list of all punctuators, on which `longest?` rests. -/
theorem all_sorted : all.Pairwise fun p q => q.spelling.length ≤ p.spelling.length := by
  decide

theorem spelling_prefix_of_longest? {text : List Char} {p : Punct} (h : longest? text = some p) :
    p.spelling <+: text := by
  unfold longest? at h
  simpa using List.find?_some h

end Punct

end Offside
