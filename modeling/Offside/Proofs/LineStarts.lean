import Offside.LineMap
import Offside.Proofs.LineCount

/-!
Where the lines of a text begin. A line map finds it by bytes, but no byte of a longer character is
that of a line break, so it finds the same places as a count of line breaks by characters.
-/

namespace Offside

/-- The beginning of a line: its byte offset and the text from there on. -/
structure LineStart where
  offset : Nat
  text : List Char

namespace LineMap

def linesBehind (offset : Nat) : List Char → List LineStart
  | [] => []
  | c :: rest =>
    let offset := offset + c.utf8Size
    if Text.endsLine c rest then ⟨offset, rest⟩ :: linesBehind offset rest
    else linesBehind offset rest

def linesFrom (offset : Nat) (text : List Char) : List LineStart :=
  ⟨offset, text⟩ :: linesBehind offset text

/-- A byte of a character is the whole character, or it is none of ASCII. -/
theorem utf8_toNat {c : Char} {b : UInt8} (member : b ∈ String.utf8EncodeChar c) :
    b.toNat = c.toNat ∨ 128 ≤ b.toNat := by
  have scalar : c.val.toNat < 1114112 := by
    have := c.valid
    rcases this with h | h
    · have : c.val.toNat < 55296 := h
      omega
    · exact h.2
  unfold String.utf8EncodeChar at member
  simp only at member
  split at member
  · obtain rfl := List.mem_singleton.mp member
    left
    rw [UInt8.toNat_ofNat']
    exact Nat.mod_eq_of_lt (by omega)
  · right
    split at member
    · simp only [List.mem_cons, List.not_mem_nil, or_false] at member
      rcases member with rfl | rfl <;> rw [UInt8.toNat_ofNat'] <;> omega
    · split at member
      · simp only [List.mem_cons, List.not_mem_nil, or_false] at member
        rcases member with rfl | rfl | rfl <;> rw [UInt8.toNat_ofNat'] <;> omega
      · simp only [List.mem_cons, List.not_mem_nil, or_false] at member
        rcases member with rfl | rfl | rfl | rfl <;> rw [UInt8.toNat_ofNat'] <;> omega

theorem ne_of_mem_utf8 {c : Char} (h : Text.isBreak c = false) {b : UInt8}
    (member : b ∈ String.utf8EncodeChar c) : b ≠ 10 ∧ b ≠ 13 := by
  have other : c.toNat ≠ 10 ∧ c.toNat ≠ 13 := by
    constructor
    · intro lf
      obtain rfl : c = '\n' := Char.ext (UInt32.toNat_inj.mp lf)
      contradiction
    · intro cr
      obtain rfl : c = '\r' := Char.ext (UInt32.toNat_inj.mp cr)
      contradiction
  constructor
  · rintro rfl
    rcases utf8_toNat member with same | high
    · exact other.1 same.symm
    · contradiction
  · rintro rfl
    rcases utf8_toNat member with same | high
    · exact other.2 same.symm
    · contradiction

theorem head_of_bytes {text : List Char} {after : List UInt8}
    (h : Text.bytes text = 10 :: after) : text.head? = some '\n' := by
  cases text with
  | nil => contradiction
  | cons c rest =>
    rw [Text.bytes_cons] at h
    have first : 10 ∈ String.utf8EncodeChar c := by
      cases e : String.utf8EncodeChar c with
      | nil => exact absurd e String.utf8EncodeChar_ne_nil
      | cons b more =>
        rw [e, List.cons_append, List.cons.injEq] at h
        rw [h.1]
        exact List.mem_cons_self
    rcases utf8_toNat first with same | high
    · obtain rfl : '\n' = c := Char.ext (UInt32.toNat_inj.mp same)
      rfl
    · contradiction

theorem startsFrom_of_no_break (offset : Nat) {front : List UInt8}
    (h : ∀ b ∈ front, b ≠ 10 ∧ b ≠ 13) (bytes : List UInt8) :
    startsFrom offset (front ++ bytes) = startsFrom (offset + front.length) bytes := by
  induction front generalizing offset with
  | nil => rfl
  | cons b front ih =>
    obtain ⟨lf, cr⟩ := h b List.mem_cons_self
    have single : ∀ rest, b = 13 → front ++ bytes = 10 :: rest → False := fun _ e _ => cr e
    rw [List.cons_append, startsFrom.eq_3 offset b _ single, if_neg (by simp [lf, cr]),
      ih _ fun d member => h d (List.mem_cons_of_mem b member), List.length_cons]
    congr 1
    omega

theorem startsFrom_bytes (offset : Nat) (text : List Char) :
    startsFrom offset (Text.bytes text) = (linesBehind offset text).map (·.offset) := by
  induction text generalizing offset with
  | nil => rfl
  | cons c rest ih =>
    rw [Text.bytes_cons, linesBehind]
    cases hb : Text.isBreak c with
    | false =>
      have inside : Text.endsLine c rest = false := by
        rw [← Bool.not_eq_true]
        intro ends
        rw [Text.isBreak_of_endsLine ends] at hb
        contradiction
      rw [startsFrom_of_no_break offset (fun b => ne_of_mem_utf8 hb), String.length_utf8EncodeChar,
        ih, inside]
      rfl
    | true =>
      have which : c = '\n' ∨ c = '\r' := by simpa [Text.isBreak] using hb
      rcases which with rfl | rfl
      · show startsFrom offset (10 :: Text.bytes rest) = _
        rw [startsFrom.eq_3 offset 10 _ (by simp), if_pos (by simp), ih]
        rfl
      · show startsFrom offset (13 :: Text.bytes rest) = _
        cases he : Text.endsLine '\r' rest with
        | true =>
          have single : ∀ bytes, (13 : UInt8) = 13 → Text.bytes rest = 10 :: bytes → False := by
            intro bytes _ e
            simp [Text.endsLine, head_of_bytes e] at he
          rw [startsFrom.eq_3 offset 13 _ single, if_pos (by simp), ih]
          rfl
        | false =>
          -- the "\r" is counted with the "\n" behind it
          have lf : rest.head? = some '\n' := by simpa [Text.endsLine] using he
          obtain ⟨after, rfl⟩ := List.head?_eq_some_iff.mp lf
          have next := ih (offset + 1)
          have bytes : Text.bytes ('\n' :: after) = 10 :: Text.bytes after := rfl
          rw [bytes, startsFrom.eq_3 (offset + 1) 10 _ (by simp), if_pos (by simp)] at next
          rw [bytes, startsFrom.eq_2]
          exact next

theorem linesFrom_of_endsLine (offset : Nat) {c : Char} {rest : List Char}
    (h : Text.endsLine c rest = true) :
    linesFrom offset (c :: rest) = ⟨offset, c :: rest⟩ :: linesFrom (offset + c.utf8Size) rest := by
  simp [linesFrom, linesBehind, h]

theorem linesFrom_of_not_endsLine (offset : Nat) {c : Char} {rest : List Char}
    (h : Text.endsLine c rest = false) {n : Nat} (positive : n ≠ 0) :
    (linesFrom offset (c :: rest))[n]? = (linesFrom (offset + c.utf8Size) rest)[n]? := by
  cases n with
  | zero => contradiction
  | succ n => simp [linesFrom, linesBehind, h]

/-- Behind as many line breaks as `before` has, a line begins whose front is the last line of
`before`. -/
theorem linesFrom_of_cut (offset : Nat) {before after : List Char} (cut : Text.Cut before after) :
    ∃ start, (linesFrom offset (before ++ after))[Text.lineBreaks before]? = some start ∧
      start.text = Text.lastLine before ++ after ∧
      start.offset + Text.byteLength (Text.lastLine before) =
        offset + Text.byteLength before := by
  induction before generalizing offset with
  | nil => exact ⟨⟨offset, after⟩, rfl, rfl, rfl⟩
  | cons c before ih =>
    obtain ⟨start, found, text, place⟩ := ih (offset + c.utf8Size) cut.tail
    have same := Text.endsLine_append cut
    rw [Text.byteLength_cons, ← Nat.add_assoc]
    cases he : Text.endsLine c before with
    | true =>
      rw [Text.lineBreaks_of_endsLine he, Text.lastLine_of_isBreak (Text.isBreak_of_endsLine he),
        List.cons_append, linesFrom_of_endsLine offset (same.trans he)]
      exact ⟨start, found, text, place⟩
    | false =>
      rw [Text.lineBreaks_of_not_endsLine he]
      by_cases none : Text.lineBreaks before = 0
      · have whole : Text.lineBreaks (c :: before) = 0 := by
          rw [Text.lineBreaks_of_not_endsLine he, none]
        rw [none, Text.lastLine_of_no_break whole]
        refine ⟨⟨offset, c :: before ++ after⟩, rfl, rfl, ?_⟩
        rw [Text.byteLength_cons, Nat.add_assoc]
      · rw [Text.lastLine_of_break_behind none, List.cons_append,
          linesFrom_of_not_endsLine offset (same.trans he) none]
        exact ⟨start, found, text, place⟩

/-- Every line of a map begins at a place where the text may be cut, right behind a line break or
at the front. -/
theorem cut_of_linesFrom (offset : Nat) {text : List Char} {n : Nat} {start : LineStart}
    (h : (linesFrom offset text)[n]? = some start) :
    ∃ before, before ++ start.text = text ∧ Text.Cut before start.text ∧
      Text.lineBreaks before = n ∧ Text.lastLine before = [] ∧
      start.offset = offset + Text.byteLength before := by
  induction text generalizing offset n with
  | nil =>
    cases n with
    | zero =>
      obtain rfl : ⟨offset, []⟩ = start := by simpa [linesFrom] using h
      exact ⟨[], rfl, Text.cut_nil_left _, rfl, rfl, rfl⟩
    | succ n => simp [linesFrom, linesBehind] at h
  | cons c rest ih =>
    cases n with
    | zero =>
      obtain rfl : ⟨offset, c :: rest⟩ = start := by simpa [linesFrom] using h
      exact ⟨[], rfl, Text.cut_nil_left _, rfl, rfl, rfl⟩
    | succ n =>
      cases he : Text.endsLine c rest with
      | true =>
        rw [linesFrom_of_endsLine offset he, List.getElem?_cons_succ] at h
        obtain ⟨before, split, cut, count, last, place⟩ := ih (offset + c.utf8Size) h
        have first : Text.Cut [c] (before ++ start.text) := split ▸ Text.cut_of_endsLine he
        have cut : Text.Cut (c :: before) start.text := Text.Cut.append (a := [c]) first cut
        have ends : Text.endsLine c before = true := by
          rw [← Text.endsLine_append cut, split, he]
        refine ⟨c :: before, by rw [List.cons_append, split], cut, ?_, ?_, ?_⟩
        · rw [Text.lineBreaks_of_endsLine ends, count]
        · rw [Text.lastLine_of_isBreak (Text.isBreak_of_endsLine ends), last]
        · rw [place, Text.byteLength_cons, Nat.add_assoc]
      | false =>
        rw [linesFrom_of_not_endsLine offset he (Nat.succ_ne_zero n)] at h
        obtain ⟨before, split, cut, count, last, place⟩ := ih (offset + c.utf8Size) h
        have more : Text.lineBreaks before ≠ 0 := by
          rw [count]
          exact Nat.succ_ne_zero n
        have some : before ≠ [] := by
          rintro rfl
          exact more rfl
        have cut := cut.cons some c
        have ends : Text.endsLine c before = false := by
          rw [← Text.endsLine_append cut, split, he]
        refine ⟨c :: before, by rw [List.cons_append, split], cut, ?_, ?_, ?_⟩
        · rw [Text.lineBreaks_of_not_endsLine ends, count]
        · rw [Text.lastLine_of_break_behind more, last]
        · rw [place, Text.byteLength_cons, Nat.add_assoc]

theorem lineStart?_succ (text : List Char) (n : Nat) :
    (ofText text).lineStart? (n + 1) = (linesFrom 0 text)[n]?.map (·.offset) := by
  rw [← List.getElem?_map, linesFrom, List.map_cons, ← startsFrom_bytes]
  rfl

theorem dropBytes?_of_linesFrom {text : List Char} {n : Nat} {start : LineStart}
    (h : (linesFrom 0 text)[n]? = some start) :
    Text.dropBytes? start.offset text = some start.text := by
  obtain ⟨before, split, _, _, _, place⟩ := cut_of_linesFrom 0 h
  rw [place, Nat.zero_add]
  exact Text.dropBytes?_byteLength split

end LineMap

end Offside
