import Offside.Proofs.TruthfulScans

namespace Offside.Text.Hex

/-- The numeral of a code unit: four digits, whose letters may be in either case. -/
def IsNumeral (digits : List Char) (unit : Nat) : Prop :=
  digits.length = 4 ∧ digits.map Char.toLower = lower4 unit

theorem of_ascii {P : Char → Prop} (h : ∀ n < 128, P (Char.ofNat n)) {c : Char}
    (ascii : c.toNat < 128) : P c := by
  have holds := h c.toNat ascii
  rwa [Char.ofNat_toNat] at holds

theorem toNat_le_of_digit? {c : Char} {d : Nat} (h : digit? c = some d) : c.toNat ≤ 102 := by
  unfold digit? at h
  split at h
  · rename_i range
    exact Nat.le_trans range.2 (by decide)
  · split at h
    · rename_i range
      exact range.2
    · split at h
      · rename_i range
        exact Nat.le_trans range.2 (by decide)
      · contradiction

theorem toLower_of_not_ascii {c : Char} (h : ¬c.toNat < 128) : c.toLower = c := by
  rw [Char.toLower, dif_neg]
  rintro ⟨_, high⟩
  have letter : c.toNat ≤ 'Z'.toNat := high
  simp only [Char.reduceToNat] at letter
  omega

theorem toNat_le_toLower (c : Char) : c.toNat ≤ c.toLower.toNat := by
  by_cases ascii : c.toNat < 128
  · exact of_ascii (P := fun c => c.toNat ≤ c.toLower.toNat) (by decide +kernel) ascii
  · rw [toLower_of_not_ascii ascii]

/-- A digit in either case is known by its letter in lower case. -/
theorem digit?_eq_some_iff {c : Char} {d : Nat} :
    digit? c = some d ↔ d < 16 ∧ c.toLower = d.digitChar := by
  constructor
  · intro h
    have ascii : c.toNat < 128 := Nat.lt_of_le_of_lt (toNat_le_of_digit? h) (by decide)
    have small := digit?_lt h
    have table : ∀ n < 128, ∀ d < 16,
        digit? (Char.ofNat n) = some d → (Char.ofNat n).toLower = d.digitChar := by
      decide +kernel
    refine ⟨small, ?_⟩
    exact of_ascii (P := fun c => ∀ d < 16, digit? c = some d → c.toLower = d.digitChar) table ascii
      d small h
  · rintro ⟨small, same⟩
    have letters : ∀ d < 16, d.digitChar.toNat < 128 := by decide
    have ascii : c.toNat < 128 :=
      Nat.lt_of_le_of_lt (toNat_le_toLower c) (same ▸ letters d small)
    have table : ∀ n < 128, ∀ d < 16,
        (Char.ofNat n).toLower = d.digitChar → digit? (Char.ofNat n) = some d := by
      decide +kernel
    exact of_ascii (P := fun c => ∀ d < 16, c.toLower = d.digitChar → digit? c = some d) table ascii
      d small same

theorem digit?_digitChar {d : Nat} (small : d < 16) : digit? d.digitChar = some d := by
  have table : ∀ d < 16, d.digitChar.toLower = d.digitChar := by decide
  exact digit?_eq_some_iff.mpr ⟨small, table d small⟩

theorem value_concat (digits : List Char) (c : Char) :
    value (digits ++ [c]) = 16 * value digits + (digit? c).getD 0 := by
  simp [value]

theorem lower_concat {n d : Nat} (some : 0 < n) (small : d < 16) :
    lower (16 * n + d) = lower n ++ [d.digitChar] := by
  rw [lower, ← Nat.toDigits_append_toDigits (by decide) some small, Nat.toDigits_of_lt_base small]
  rfl

/-- Numbers by what is written for them, one digit at a time. -/
theorem lower_induction {P : Nat → List Char → Prop} (n : Nat)
    (single : ∀ d < 16, P d [d.digitChar])
    (concat : ∀ m, ∀ d < 16, P m (lower m) → P (16 * m + d) (lower m ++ [d.digitChar])) :
    P n (lower n) := by
  induction n using Nat.strongRecOn with
  | ind n ih =>
    have split : 16 * (n / 16) + n % 16 = n := Nat.div_add_mod n 16
    have small : n % 16 < 16 := Nat.mod_lt n (by decide)
    by_cases some : 0 < n / 16
    · rw [← split, lower_concat some small]
      exact concat _ _ small (ih _ (by omega))
    · have short : n < 16 := by omega
      rw [lower, Nat.toDigits_of_lt_base short]
      exact single n short

theorem value_lower (n : Nat) : value (lower n) = n := by
  refine lower_induction (P := fun n text => value text = n) n ?_ ?_
  · intro d small
    simp [value, digit?_digitChar small]
  · intro m d small ih
    rw [value_concat, ih, digit?_digitChar small]
    rfl

theorem isDigit_of_mem_lower {n : Nat} {c : Char} (h : c ∈ lower n) : isDigit c = true := by
  have digit (d : Nat) (small : d < 16) : isDigit d.digitChar = true := by
    rw [isDigit, digit?_digitChar small]
    rfl
  refine lower_induction (P := fun _ text => ∀ c ∈ text, isDigit c = true) n ?_ ?_ c h
  · intro d small c member
    rw [List.mem_singleton.mp member]
    exact digit d small
  · intro m d small ih c member
    rcases List.mem_append.mp member with front | last
    · exact ih c front
    · rw [List.mem_singleton.mp last]
      exact digit d small

theorem value_zeros (k : Nat) (digits : List Char) :
    value (List.replicate k '0' ++ digits) = value digits := by
  induction k with
  | zero => rfl
  | succ k ih =>
    rw [← ih]
    rfl

theorem value_lower4 (n : Nat) : value (lower4 n) = n := by
  rw [lower4, List.leftpad, value_zeros, value_lower]

theorem isDigit_of_mem_lower4 {n : Nat} {c : Char} (h : c ∈ lower4 n) : isDigit c = true := by
  rw [lower4, List.leftpad, List.mem_append] at h
  rcases h with zero | digit
  · rw [List.eq_of_mem_replicate zero]
    decide
  · exact isDigit_of_mem_lower digit

theorem leftpad_lower_concat {k n d : Nat} (some : 0 < k) (small : d < 16) :
    (lower (16 * n + d)).leftpad (k + 1) '0' = (lower n).leftpad k '0' ++ [d.digitChar] := by
  by_cases zero : n = 0
  · subst zero
    have digits : lower (16 * 0 + d) = [d.digitChar] := by
      rw [Nat.mul_zero, Nat.zero_add, lower, Nat.toDigits_of_lt_base small]
    have none : lower 0 = ['0'] := Nat.toDigits_zero 16
    obtain ⟨j, rfl⟩ : ∃ j, k = j + 1 := ⟨k - 1, by omega⟩
    rw [digits, none]
    simp [List.leftpad, List.replicate_succ']
  · rw [lower_concat (Nat.pos_of_ne_zero zero) small]
    simp [List.leftpad]

theorem leftpad_lower_value {digits : List Char} (some : digits ≠ [])
    (all : ∀ d ∈ digits, isDigit d = true) :
    (lower (value digits)).leftpad digits.length '0' = digits.map Char.toLower := by
  induction digits using List.reverseRecOn with
  | nil => contradiction
  | append_singleton digits c ih =>
    obtain ⟨d, last⟩ : ∃ d, digit? c = Option.some d :=
      Option.isSome_iff_exists.mp (all c (by simp))
    obtain ⟨small, letter⟩ := digit?_eq_some_iff.mp last
    rw [value_concat, last, Option.getD_some, List.length_append, List.map_append]
    by_cases front : digits = []
    · subst front
      have single : lower (16 * value [] + d) = [d.digitChar] := by
        rw [show 16 * value [] + d = d from Nat.zero_add d, lower, Nat.toDigits_of_lt_base small]
      rw [single, List.map_singleton, letter]
      rfl
    · have front_ := ih front fun e member => all e (by simp [member])
      rw [List.length_singleton, leftpad_lower_concat (List.length_pos_iff.mpr front) small, front_,
        List.map_singleton, letter]

theorem digit?_toLower (c : Char) : digit? c.toLower = digit? c := by
  have twice : c.toLower.toLower = c.toLower := by
    by_cases ascii : c.toNat < 128
    · exact of_ascii (P := fun c => c.toLower.toLower = c.toLower) (by decide +kernel) ascii
    · rw [toLower_of_not_ascii ascii, toLower_of_not_ascii ascii]
  apply Option.ext
  intro d
  rw [digit?_eq_some_iff, digit?_eq_some_iff, twice]

theorem lower4_value {digits : List Char} (h : IsCodeUnit digits) :
    lower4 (value digits) = digits.map Char.toLower := by
  have some : digits ≠ [] := by
    rintro rfl
    have none := h.1
    contradiction
  rw [← leftpad_lower_value some h.2, h.1]
  rfl

theorem isNumeral_iff {digits : List Char} {unit : Nat} :
    IsNumeral digits unit ↔ IsCodeUnit digits ∧ value digits = unit := by
  constructor
  · rintro ⟨four, written⟩
    have all : ∀ c ∈ digits, isDigit c = true := by
      intro c member
      have lowered : c.toLower ∈ lower4 unit := written ▸ List.mem_map_of_mem member
      rw [isDigit, ← digit?_toLower]
      exact isDigit_of_mem_lower4 lowered
    have same : lower4 (value digits) = lower4 unit := by
      rw [lower4_value ⟨four, all⟩, written]
    refine ⟨⟨four, all⟩, ?_⟩
    rw [← value_lower4 (value digits), same, value_lower4]
  · rintro ⟨digits, rfl⟩
    exact ⟨digits.1, (lower4_value digits).symm⟩

theorem IsNumeral.lt {digits : List Char} {unit : Nat} (h : IsNumeral digits unit) :
    unit < 0x10000 := by
  obtain ⟨⟨four, _⟩, rfl⟩ := isNumeral_iff.mp h
  have small := value_lt digits
  rwa [four] at small

theorem isNumeral_lower4 {n : Nat} (small : n < 0x10000) : IsNumeral (lower4 n) n := by
  rw [isNumeral_iff]
  have short : (lower n).length ≤ 4 := (Nat.length_toDigits_le_iff (by decide) (by decide)).mpr small
  refine ⟨⟨?_, fun _ member => isDigit_of_mem_lower4 member⟩, value_lower4 n⟩
  rw [lower4, List.length_leftpad]
  omega

end Offside.Text.Hex
