import Offside.Text.LineBreak
import Offside.Text.Ranges

namespace Offside.Text

/-- The characters with the Unicode property White_Space, in order. -/
def whiteSpace : Ranges :=
  [(0x9, 0xD), (0x20, 0x20), (0x85, 0x85), (0xA0, 0xA0), (0x1680, 0x1680), (0x2000, 0x200A),
    (0x2028, 0x2029), (0x202F, 0x202F), (0x205F, 0x205F), (0x3000, 0x3000)]

/-- Whether a character is blank. Line breaks are blank, too, but the line and paragraph separators
of Unicode, which are blank as well, end no line. -/
def isBlank (c : Char) : Bool :=
  whiteSpace.contains c

theorem isBlank_of_isBreak {c : Char} (h : isBreak c = true) : isBlank c = true := by
  simp only [isBreak, Bool.or_eq_true, decide_eq_true_eq] at h
  rcases h with h | h <;> subst h <;> decide

end Offside.Text
