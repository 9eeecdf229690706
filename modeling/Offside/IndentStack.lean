/-!
The stack of open indentation levels. Every level is wider than the one around it; no level is open
where the text stands at the left margin.
-/

namespace Offside

structure IndentStack where
  /-- The widths of the open levels, innermost first. -/
  widths : List Nat
  deriving DecidableEq

inductive IndentStack.Misuse where
  | notDeeper (width : Nat)
  | popOfEmpty
  | topOfEmpty
  deriving DecidableEq

namespace IndentStack

def Misuse.text : Misuse → String
  | notDeeper width => "indent width " ++ toString width ++ " does not exceed the enclosing level"
  | popOfEmpty => "pop on an empty indent stack"
  | topOfEmpty => "top of an empty indent stack"

def empty : IndentStack := ⟨[]⟩

def isEmpty (s : IndentStack) : Bool := s.widths.isEmpty

def size (s : IndentStack) : Nat := s.widths.length

/-- The innermost width, or 0 at the left margin. -/
def current (s : IndentStack) : Nat := s.widths.headD 0

def push (s : IndentStack) (width : Nat) : Except Misuse IndentStack :=
  match s.widths with
  | [] => .ok ⟨[width]⟩
  | top :: widths => if top < width then .ok ⟨width :: top :: widths⟩ else .error (.notDeeper width)

def pop (s : IndentStack) : Except Misuse (Nat × IndentStack) :=
  match s.widths with
  | [] => .error .popOfEmpty
  | top :: widths => .ok (top, ⟨widths⟩)

def top (s : IndentStack) : Except Misuse Nat :=
  match s.widths with
  | [] => .error .topOfEmpty
  | top :: _ => .ok top

/-- Closes the levels that are wider than `width`, and tells how many there were. -/
def closeAbove (s : IndentStack) (width : Nat) : Nat × IndentStack :=
  ((s.widths.takeWhile (width < ·)).length, ⟨s.widths.dropWhile (width < ·)⟩)

def Increasing (s : IndentStack) : Prop :=
  s.widths.Pairwise (· > ·)

theorem Increasing.push {s : IndentStack} {width : Nat} (h : s.Increasing)
    (deeper : s.current < width) : Increasing ⟨width :: s.widths⟩ := by
  obtain ⟨widths⟩ := s
  cases widths with
  | nil => exact List.pairwise_singleton _ _
  | cons top widths =>
    refine List.pairwise_cons.mpr ⟨?_, h⟩
    intro v member
    rcases List.mem_cons.mp member with rfl | inner
    · exact deeper
    · exact Nat.lt_trans ((List.pairwise_cons.mp h).1 v inner) deeper

theorem push_of_current_lt {s : IndentStack} {width : Nat} (h : s.current < width) :
    s.push width = .ok ⟨width :: s.widths⟩ := by
  obtain ⟨widths⟩ := s
  cases widths with
  | nil => rfl
  | cons top widths => simpa [push, current] using h

end IndentStack

end Offside
