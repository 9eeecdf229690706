import Mathlib.Data.Finset.Card
import Mathlib.Data.Finset.Filter
import Mathlib.Data.List.Infix
import Offside.IndentStack

namespace Offside

/-- A level is open behind lines of these widths if one of them had it and no later one was
narrower. -/
def IsOpen (widths : List Nat) (v : Nat) : Prop :=
  0 < v ∧ ∃ since ∈ widths.tails, since.head? = some v ∧ ∀ w ∈ since, v ≤ w

instance (widths : List Nat) (v : Nat) : Decidable (IsOpen widths v) :=
  inferInstanceAs
    (Decidable (0 < v ∧ ∃ since ∈ widths.tails, since.head? = some v ∧ ∀ w ∈ since, v ≤ w))

/-- The open levels that are wider than `w`. -/
def openAbove (widths : List Nat) (w : Nat) : Finset Nat :=
  widths.toFinset.filter fun v => IsOpen widths v ∧ w < v

/-- The width of the last line, or 0 before the first. -/
def lastWidth (widths : List Nat) : Nat :=
  widths.getLast?.getD 0

theorem IsOpen.mem {widths : List Nat} {v : Nat} (h : IsOpen widths v) : v ∈ widths := by
  obtain ⟨_, since, tail, first, _⟩ := h
  exact ((List.mem_tails _ _).mp tail).subset (List.mem_of_head? first)

theorem mem_openAbove {widths : List Nat} {w v : Nat} :
    v ∈ openAbove widths w ↔ IsOpen widths v ∧ w < v := by
  rw [openAbove, Finset.mem_filter, List.mem_toFinset]
  constructor
  · intro h
    exact h.2
  · intro h
    exact ⟨h.1.mem, h⟩

theorem lastWidth_append (widths : List Nat) (w : Nat) : lastWidth (widths ++ [w]) = w := by
  simp [lastWidth]

/-- Of the open levels a further line leaves those that are not wider, and its own. -/
theorem isOpen_append_iff {widths : List Nat} {w v : Nat} :
    IsOpen (widths ++ [w]) v ↔ (IsOpen widths v ∧ v ≤ w) ∨ (v = w ∧ 0 < w) := by
  constructor
  · rintro ⟨positive, since, tail, first, wide⟩
    rcases List.suffix_concat_iff.mp ((List.mem_tails _ _).mp tail) with rfl | ⟨before, rfl, earlier⟩
    · contradiction
    · have narrow : v ≤ w := wide w (by simp)
      cases before with
      | nil =>
        have : v = w := by simpa using first.symm
        exact Or.inr ⟨this, this ▸ positive⟩
      | cons u before =>
        refine Or.inl ⟨⟨positive, u :: before, (List.mem_tails _ _).mpr earlier, ?_, ?_⟩, narrow⟩
        · simpa using first
        · intro x member
          exact wide x (List.mem_append_left _ member)
  · rintro (⟨⟨positive, since, tail, first, wide⟩, narrow⟩ | ⟨rfl, positive⟩)
    · refine ⟨positive, since ++ [w], (List.mem_tails _ _).mpr ?_, ?_, ?_⟩
      · exact List.suffix_concat_iff.mpr (Or.inr ⟨since, rfl, (List.mem_tails _ _).mp tail⟩)
      · rw [List.head?_append, first]
        rfl
      · intro x member
        rcases List.mem_append.mp member with earlier | last
        · exact wide x earlier
        · rwa [List.mem_singleton.mp last]
    · exact ⟨positive, [v], (List.mem_tails _ _).mpr (List.suffix_append widths [v]), rfl, by simp⟩

example : openAbove [4, 8, 12, 8, 10] 4 = {8, 10} := by decide

section Decreasing

variable {widths : List Nat}

theorem takeWhile_lt_eq_filter (h : widths.Pairwise (· > ·)) (w : Nat) :
    widths.takeWhile (w < ·) = widths.filter (w < ·) := by
  induction widths with
  | nil => rfl
  | cons top widths ih =>
    obtain ⟨below, further⟩ := List.pairwise_cons.mp h
    by_cases wider : w < top
    · simp [wider, ih further]
    · have none : widths.filter (w < ·) = [] := by
        apply List.filter_eq_nil_iff.mpr
        intro v member
        have := below v member
        simp only [decide_eq_true_eq]
        omega
      simp [wider, none]

theorem dropWhile_lt_eq_filter (h : widths.Pairwise (· > ·)) (w : Nat) :
    widths.dropWhile (w < ·) = widths.filter (· ≤ w) := by
  induction widths with
  | nil => rfl
  | cons top widths ih =>
    obtain ⟨below, further⟩ := List.pairwise_cons.mp h
    by_cases wider : w < top
    · simp [wider, ih further]
    · have all : widths.filter (· ≤ w) = widths := by
        apply List.filter_eq_self.mpr
        intro v member
        have := below v member
        simp only [decide_eq_true_eq]
        omega
      simp [wider, all, Nat.not_lt.mp wider]

end Decreasing

namespace IndentStack

/-- A stack holds the levels that the lines behind have left open. -/
structure Follows (widths : List Nat) (s : IndentStack) : Prop where
  increasing : s.Increasing
  levels : ∀ v, v ∈ s.widths ↔ IsOpen widths v
  current : s.current = lastWidth widths

namespace Follows

variable {widths : List Nat} {s : IndentStack}

theorem start : Follows [] .empty where
  increasing := List.Pairwise.nil
  levels v := by simp [IndentStack.empty, IsOpen]
  current := rfl

theorem narrow (h : Follows widths s) {v : Nat} (level : IsOpen widths v) : v ≤ s.current := by
  obtain ⟨stack⟩ := s
  have member := (h.levels v).mpr level
  cases stack with
  | nil => contradiction
  | cons top stack =>
    rcases List.mem_cons.mp member with rfl | inner
    · exact Nat.le_refl v
    · exact Nat.le_of_lt ((List.pairwise_cons.mp h.increasing).1 v inner)

theorem push (h : Follows widths s) {w : Nat} (deeper : s.current < w) :
    Follows (widths ++ [w]) ⟨w :: s.widths⟩ where
  increasing := h.increasing.push deeper
  levels v := by
    rw [isOpen_append_iff, List.mem_cons, h.levels]
    constructor
    · rintro (rfl | level)
      · exact Or.inr ⟨rfl, by omega⟩
      · have := h.narrow level
        exact Or.inl ⟨level, by omega⟩
    · rintro (⟨level, _⟩ | ⟨rfl, _⟩)
      · exact Or.inr level
      · exact Or.inl rfl
  current := (lastWidth_append widths w).symm

theorem closed (h : Follows widths s) (w : Nat) :
    (s.closeAbove w).1 = (openAbove widths w).card := by
  have nodup : (s.widths.filter (w < ·)).Nodup := (h.increasing.imp Nat.ne_of_gt).filter _
  have same : (s.widths.filter (w < ·)).toFinset = openAbove widths w := by
    ext v
    simp [mem_openAbove, h.levels]
  rw [closeAbove, takeWhile_lt_eq_filter h.increasing, ← same, List.toFinset_card_of_nodup nodup]

theorem size (h : Follows widths s) : s.size = (openAbove widths 0).card := by
  rw [← h.closed, closeAbove, takeWhile_lt_eq_filter h.increasing, List.filter_eq_self.mpr]
  · rfl
  · intro v member
    simpa using ((h.levels v).mp member).1

/-- Once the wider levels are closed, a line stands at a level that is open, or at the margin. -/
theorem current_closeAbove_iff (h : Follows widths s) (w : Nat) :
    (s.closeAbove w).2.current = w ↔ w = 0 ∨ IsOpen widths w := by
  rw [closeAbove, dropWhile_lt_eq_filter h.increasing]
  simp only [IndentStack.current]
  have ordered : (s.widths.filter (· ≤ w)).Pairwise (· > ·) := h.increasing.filter _
  have member (v : Nat) : v ∈ s.widths.filter (· ≤ w) ↔ IsOpen widths v ∧ v ≤ w := by
    simp [h.levels]
  generalize s.widths.filter (· ≤ w) = left at ordered member
  cases left with
  | nil =>
    have shut : ¬IsOpen widths w := by
      intro level
      exact List.not_mem_nil ((member w).mpr ⟨level, Nat.le_refl w⟩)
    constructor
    · intro margin
      exact Or.inl margin.symm
    · rintro (rfl | level)
      · rfl
      · contradiction
  | cons top left =>
    obtain ⟨level, narrow⟩ := (member top).mp List.mem_cons_self
    constructor
    · rintro rfl
      exact Or.inr level
    · rintro (rfl | own)
      · have := level.1
        omega
      · rcases List.mem_cons.mp ((member w).mpr ⟨own, Nat.le_refl w⟩) with same | inner
        · exact same.symm
        · have := (List.pairwise_cons.mp ordered).1 w inner
          omega

theorem closeAbove (h : Follows widths s) {w : Nat} (match_ : w = 0 ∨ IsOpen widths w) :
    Follows (widths ++ [w]) (s.closeAbove w).2 where
  increasing := h.increasing.sublist (List.dropWhile_sublist _)
  levels v := by
    rw [IndentStack.closeAbove, dropWhile_lt_eq_filter h.increasing, isOpen_append_iff]
    simp only [List.mem_filter, h.levels, decide_eq_true_eq]
    constructor
    · exact Or.inl
    · rintro (left | ⟨rfl, positive⟩)
      · exact left
      · rcases match_ with rfl | level
        · contradiction
        · exact ⟨level, Nat.le_refl v⟩
  current := by
    rw [lastWidth_append]
    exact (h.current_closeAbove_iff w).mpr match_

end Follows

end IndentStack

end Offside
