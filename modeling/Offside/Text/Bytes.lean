namespace Offside.Text

def bytes (text : List Char) : List UInt8 :=
  text.flatMap String.utf8EncodeChar

def byteLength (text : List Char) : Nat :=
  text.foldr (fun c n => c.utf8Size + n) 0

/-- What is left of a text behind its first `n` bytes, or nothing if `n` lies inside a character or
past the end. -/
def dropBytes? : Nat → List Char → Option (List Char)
  | 0, text => some text
  | _ + 1, [] => none
  | n + 1, c :: rest => if c.utf8Size ≤ n + 1 then dropBytes? (n + 1 - c.utf8Size) rest else none

@[simp] theorem byteLength_nil : byteLength [] = 0 := rfl

@[simp] theorem byteLength_cons (c : Char) (text : List Char) :
    byteLength (c :: text) = c.utf8Size + byteLength text := rfl

@[simp] theorem byteLength_append (a b : List Char) :
    byteLength (a ++ b) = byteLength a + byteLength b := by
  induction a with
  | nil => simp
  | cons c a ih => rw [List.cons_append, byteLength_cons, byteLength_cons, ih, Nat.add_assoc]

theorem bytes_cons (c : Char) (text : List Char) :
    bytes (c :: text) = String.utf8EncodeChar c ++ bytes text := rfl

@[simp] theorem byteLength_reverse (text : List Char) :
    byteLength text.reverse = byteLength text := by
  induction text with
  | nil => rfl
  | cons c text ih =>
    rw [List.reverse_cons, byteLength_append, ih, Nat.add_comm]
    rfl

theorem length_le_byteLength (text : List Char) : text.length ≤ byteLength text := by
  induction text with
  | nil => exact Nat.le_refl 0
  | cons c text ih =>
    have := c.utf8Size_pos
    rw [List.length_cons, byteLength_cons]
    omega

@[simp] theorem dropBytes?_zero (text : List Char) : dropBytes? 0 text = some text := by
  simp [dropBytes?]

theorem dropBytes?_cons (n : Nat) (c : Char) (rest : List Char) :
    dropBytes? (c.utf8Size + n) (c :: rest) = dropBytes? n rest := by
  have := c.utf8Size_pos
  obtain ⟨k, hk⟩ : ∃ k, c.utf8Size + n = k + 1 := ⟨c.utf8Size + n - 1, by omega⟩
  rw [hk, dropBytes?, if_pos (by omega)]
  congr 1
  omega

theorem dropBytes?_byteLength {front rest text : List Char} (split : front ++ rest = text) :
    dropBytes? (byteLength front) text = some rest := by
  subst split
  induction front with
  | nil => simp
  | cons c front ih => rw [byteLength_cons, List.cons_append, dropBytes?_cons, ih]

end Offside.Text
