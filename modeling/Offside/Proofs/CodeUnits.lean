import Mathlib.Data.List.Basic
import Mathlib.Data.Sum.Basic
import Offside.Text.Utf16

namespace Offside.Text.Utf16

theorem toNat_cases (c : Char) : c.toNat < 0xD800 ∨ 0xDFFF < c.toNat ∧ c.toNat < 0x110000 :=
  c.valid

theorem toNat_ofNat_of_valid {n : Nat} (valid : n.isValidChar) : (Char.ofNat n).toNat = n := by
  rw [Char.ofNat, dif_pos valid]
  rfl

theorem scalar?_eq_some_iff {n : Nat} {c : Char} : scalar? n = some c ↔ c.toNat = n := by
  rw [scalar?]
  constructor
  · split
    · rename_i valid
      intro h
      rw [← Option.some.inj h, toNat_ofNat_of_valid valid]
    · intro h
      contradiction
  · rintro rfl
    have valid : c.toNat.isValidChar := toNat_cases c
    rw [if_pos valid, Char.ofNat_toNat]

theorem scalar?_of_isSurrogate {n : Nat} (h : isHigh n = true ∨ isLow n = true) :
    scalar? n = none := by
  simp only [isHigh, isLow, Bool.and_eq_true, decide_eq_true_eq] at h
  rw [scalar?, if_neg]
  rintro (low | high)
  · omega
  · omega

theorem isHigh_of_isLow {n : Nat} (h : isLow n = true) : isHigh n = false := by
  simp only [isLow, Bool.and_eq_true, decide_eq_true_eq] at h
  simp only [isHigh, Bool.and_eq_false_iff, decide_eq_false_iff_not]
  omega

theorem pair?_of_not_isLow {high low : Nat} (h : isLow low = false) : pair? high low = none := by
  rw [pair?, h, Bool.and_false]
  rfl

/-- The number that two surrogates stand for together is that of a character: it lies within the
planes above the first one. -/
theorem exists_pair? {high low : Nat} (first : isHigh high = true) (second : isLow low = true) :
    ∃ c, pair? high low = some c ∧
      c.toNat = 0x10000 + (high - 0xD800) * 0x400 + (low - 0xDC00) := by
  have both : (isHigh high && isLow low) = true := by rw [first, second]; rfl
  simp only [isHigh, isLow, Bool.and_eq_true, decide_eq_true_eq] at first second
  have valid : (0x10000 + (high - 0xD800) * 0x400 + (low - 0xDC00)).isValidChar := by
    right
    omega
  rw [pair?, if_pos both, scalar?, if_pos valid]
  exact ⟨_, rfl, toNat_ofNat_of_valid valid⟩

theorem units_of_lt {c : Char} (h : c.toNat < 0x10000) : units c = [c.toNat] :=
  if_pos h

/-- Two surrogates are read as the character that they are written for, and as no other. -/
theorem pair?_eq_some_iff {high low : Nat} {c : Char} :
    pair? high low = some c ↔ units c = [high, low] := by
  have range := toNat_cases c
  constructor
  · intro h
    have both : isHigh high = true ∧ isLow low = true := by
      rw [pair?] at h
      split at h
      · rename_i both
        exact (Bool.and_eq_true _ _).mp both
      · contradiction
    obtain ⟨d, read, value⟩ := exists_pair? both.1 both.2
    rw [h] at read
    cases read
    simp only [isHigh, isLow, Bool.and_eq_true, decide_eq_true_eq] at both
    -- a pair stands for 0x10000 or more, and what it counts on from there is its two halves
    have upper : ¬c.toNat < 0x10000 := by omega
    have first : 0xD800 + (c.toNat - 0x10000) / 0x400 = high := by omega
    have second : 0xDC00 + (c.toNat - 0x10000) % 0x400 = low := by omega
    rw [units, if_neg upper, first, second]
  · intro h
    rw [units] at h
    split at h
    · exact absurd h (by simp)
    · obtain ⟨first, tail⟩ := List.cons.inj h
      have second := List.head_eq_of_cons_eq tail
      have high_ : isHigh high = true := by
        simp only [isHigh, Bool.and_eq_true, decide_eq_true_eq]
        omega
      have low_ : isLow low = true := by
        simp only [isLow, Bool.and_eq_true, decide_eq_true_eq]
        omega
      obtain ⟨d, read, value⟩ := exists_pair? high_ low_
      have same : d = c := by
        apply Char.toNat_inj.mp
        omega
      rw [read, same]

theorem exists_units {unit : Nat} (small : unit < 0x10000) (high : isHigh unit = false)
    (low : isLow unit = false) : ∃ c, units c = [unit] := by
  simp only [isHigh, isLow, Bool.and_eq_false_iff, decide_eq_false_iff_not] at high low
  have valid : unit.isValidChar := by
    simp only [Nat.isValidChar]
    omega
  have value := toNat_ofNat_of_valid valid
  exact ⟨Char.ofNat unit, by rw [units_of_lt (by omega), value]⟩

theorem units_cases (c : Char) :
    units c = [c.toNat] ∧ isHigh c.toNat = false ∧ isLow c.toNat = false ∨
      ∃ high low, units c = [high, low] ∧ isHigh high = true ∧ isLow low = true := by
  have range := toNat_cases c
  by_cases single : c.toNat < 0x10000
  · left
    refine ⟨units_of_lt single, ?_, ?_⟩
    · simp only [isHigh, Bool.and_eq_false_iff, decide_eq_false_iff_not]
      omega
    · simp only [isLow, Bool.and_eq_false_iff, decide_eq_false_iff_not]
      omega
  · right
    refine ⟨_, _, if_neg single, ?_, ?_⟩
    · simp only [isHigh, Bool.and_eq_true, decide_eq_true_eq]
      omega
    · simp only [isLow, Bool.and_eq_true, decide_eq_true_eq]
      omega

theorem decode_units (c : Char) (rest : List Nat) :
    decode (units c ++ rest) = .inl c :: decode rest := by
  rcases units_cases c with ⟨single, high, _⟩ | ⟨high, low, pair, _, _⟩
  · have self : decode.single c.toNat = .inl c := by
      rw [decode.single, scalar?_eq_some_iff.mpr rfl]
    rw [single, List.singleton_append]
    cases rest with
    | nil =>
      rw [decode, decode, self]
    | cons next rest =>
      have none : pair? c.toNat next = none := by
        rw [pair?, high]
        rfl
      rw [decode, none, self]
  · have read : pair? high low = some c := pair?_eq_some_iff.mpr pair
    rw [pair, List.cons_append, List.singleton_append, decode, read]

theorem decode_encode (text : List Char) : decode (encode text) = text.map .inl := by
  induction text with
  | nil => rfl
  | cons c text ih =>
    have front : encode (c :: text) = units c ++ encode text := rfl
    rw [front, decode_units, ih, List.map_cons]

theorem encode_injective {a b : List Char} (h : encode a = encode b) : a = b := by
  have same : a.map (Sum.inl (β := Nat)) = b.map .inl := by
    rw [← decode_encode, ← decode_encode, h]
  exact List.map_injective_iff.mpr Sum.inl_injective same

end Offside.Text.Utf16
