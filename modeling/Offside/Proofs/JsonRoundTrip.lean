import Offside.Json.Parser
import Offside.Json.Printer
import Offside.Proofs.CodeUnits
import Offside.Proofs.HexNumerals
import Offside.Proofs.SpelledScans

namespace Offside.Json

/-- No number goes on at the front of a text. -/
def Apart (rest : List Char) : Prop :=
  ∀ c ∈ rest.head?, c.isDigit = false ∧ c ≠ '.' ∧ c ≠ 'e' ∧ c ≠ 'E'

/-- A value that is written on one line and read as itself, wherever it is written. Its first
character is no space and does not close an array. -/
structure Reads (json : Json) : Prop where
  line : '\n' ∉ json.print
  front : ∃ c text, json.print = c :: text ∧ isSpace c = false ∧ c ≠ ']'
  value : ∀ fuel rest, json.print.length < fuel → Apart rest →
    value? fuel (json.print ++ rest) = some (json, rest)

theorem apart_nil : Apart [] := by
  intro c member
  contradiction

theorem apart_cons {c : Char} {rest : List Char}
    (h : c.isDigit = false ∧ c ≠ '.' ∧ c ≠ 'e' ∧ c ≠ 'E') : Apart (c :: rest) := by
  intro d member
  rw [← Option.some.inj member]
  exact h

theorem skipSpace_cons {c : Char} (h : isSpace c = false) (rest : List Char) :
    skipSpace (c :: rest) = c :: rest := by
  simp [skipSpace, h]

section Number

variable {n : Nat} {rest : List Char}

theorem toDigits_injective {m n : Nat} (same : Nat.toDigits 10 m = Nat.toDigits 10 n) : m = n := by
  rw [← Nat.ofDigitChars_ten_toDigits (n := m), same, Nat.ofDigitChars_ten_toDigits]

theorem toDigits_cons (n : Nat) :
    ∃ c digits, Nat.toDigits 10 n = c :: digits ∧ c.isDigit = true := by
  cases digits : Nat.toDigits 10 n with
  | nil => exact absurd digits Nat.toDigits_ne_nil
  | cons c more =>
    have member : c ∈ Nat.toDigits 10 n := by rw [digits]; exact List.mem_cons_self
    exact ⟨c, more, rfl, Nat.isDigit_of_mem_toDigits (by decide) (by decide) member⟩

/-- A numeral other than that of zero has no zero in front. -/
theorem zero_not_mem_head_toDigits (positive : 0 < n) : '0' ∉ (Nat.toDigits 10 n).head? := by
  induction n using Nat.strongRecOn with
  | ind n ih =>
    by_cases single : n < 10
    · rw [Nat.toDigits_of_lt_base single]
      intro zero
      have digit : n.digitChar = '0' := Option.some.inj zero
      rw [Nat.digitChar_eq_zero] at digit
      omega
    · rw [Nat.toDigits_of_base_le (by decide) (by omega)]
      have inner := ih (n / 10) (by omega) (by omega)
      cases front : Nat.toDigits 10 (n / 10) with
      | nil => exact absurd front Nat.toDigits_ne_nil
      | cons c cs =>
        rw [front] at inner
        exact inner

theorem digits?_toDigits (n : Nat) (apart : Apart rest) :
    digits? (Nat.toDigits 10 n ++ rest) = some (Nat.toDigits 10 n, rest) := by
  have inside : ∀ c ∈ Nat.toDigits 10 n, c.isDigit = true := fun _ member =>
    Nat.isDigit_of_mem_toDigits (by decide) (by decide) member
  have span := Text.Reading.span_append inside fun c member => (apart c member).1
  have front := congrArg Text.Reading.text span
  have behind := congrArg Text.Reading.rest span
  simp only [Text.Reading.span] at front behind
  have some : (Nat.toDigits 10 n).isEmpty = false := by
    rw [List.isEmpty_eq_false_iff]
    exact Nat.toDigits_ne_nil
  simp [digits?, front, behind, some]

theorem whole?_toDigits (n : Nat) (apart : Apart rest) :
    whole? (Nat.toDigits 10 n ++ rest) = some (Nat.toDigits 10 n, rest) := by
  by_cases zero : n = 0
  · subst zero
    rfl
  · have first := zero_not_mem_head_toDigits (Nat.pos_of_ne_zero zero)
    obtain ⟨c, more, numeral, _⟩ := toDigits_cons n
    rw [← digits?_toDigits n apart, numeral]
    rw [numeral] at first
    unfold whole?
    split
    · rename_i same
      injection same with head
      exact absurd (congrArg some head) first
    · rfl

theorem fraction?_of_apart (apart : Apart rest) : fraction? rest = some ([], rest) := by
  unfold fraction?
  split
  · rename_i behind
    exact absurd rfl (apart '.' rfl).2.1
  · rfl

theorem exponent?_of_apart (apart : Apart rest) : exponent? rest = some ([], rest) := by
  unfold exponent?
  split
  · rename_i c behind
    have letter := (apart c rfl).2.2
    rw [if_neg]
    rintro (lower | upper)
    · exact letter.1 lower
    · exact letter.2 upper
  · rfl

theorem number?_toDigits (n : Nat) (apart : Apart rest) :
    number? (Nat.toDigits 10 n ++ rest) = some (Nat.toDigits 10 n, rest) := by
  obtain ⟨c, more, numeral, digit⟩ := toDigits_cons n
  have sign : ((Nat.toDigits 10 n ++ rest).take 1).takeWhile (· = '-') = [] := by
    have other : c ≠ '-' := by
      rintro rfl
      contradiction
    simp [numeral, other]
  simp [number?, sign, whole?_toDigits n apart, fraction?_of_apart apart, exponent?_of_apart apart]

theorem value?_of_isDigit {c : Char} (digit : c.isDigit = true) (fuel : Nat) (rest : List Char) :
    value? (fuel + 1) (c :: rest) =
      (number? (c :: rest)).map fun (literal, rest) => (.number literal, rest) := by
  rw [value?.eq_def]
  simp only
  split <;> first | rfl | (rename_i same; injection same with head; subst head; contradiction)

theorem reads_ofNat (n : Nat) : Reads (.ofNat n) := by
  obtain ⟨c, more, numeral, digit⟩ := toDigits_cons n
  have print : (ofNat n).print = Nat.toDigits 10 n := by rw [ofNat, print]
  constructor
  · rw [print]
    intro member
    exact absurd (Nat.isDigit_of_mem_toDigits (by decide) (by decide) member) (by decide)
  · have other : isSpace c = false ∧ c ≠ ']' := by
      constructor
      · rw [← Bool.not_eq_true]
        intro space
        simp only [isSpace, Bool.or_eq_true, decide_eq_true_eq] at space
        rcases space with ((rfl | rfl) | rfl) | rfl <;> contradiction
      · rintro rfl
        contradiction
    exact ⟨c, more, by rw [print, numeral], other⟩
  · intro fuel rest enough apart
    obtain ⟨fuel, rfl⟩ : ∃ k, fuel = k + 1 := ⟨fuel - 1, by omega⟩
    have number := number?_toDigits n apart
    rw [print, numeral, List.cons_append, value?_of_isDigit digit, ← List.cons_append, ← numeral,
      number]
    rfl

end Number

section String

theorem printString_encode (text : List Char) :
    printString (Text.Utf16.encode text) = '"' :: (text.flatMap escapeChar ++ ['"']) := by
  rw [printString, Text.Utf16.decode_encode, List.flatMap_map, List.cons_append]

theorem codeUnit?_lower4 {n : Nat} (small : n < 0x10000) (rest : List Char) :
    codeUnit? (Text.Hex.lower4 n ++ rest) = some (n, rest) := by
  have numeral := Text.Hex.isNumeral_lower4 small
  obtain ⟨⟨four, all⟩, value⟩ := Text.Hex.isNumeral_iff.mp numeral
  have front : (Text.Hex.lower4 n ++ rest).take 4 = Text.Hex.lower4 n := by
    rw [← four, List.take_left]
  have digits : (Text.Hex.lower4 n).takeWhile Text.Hex.isDigit = Text.Hex.lower4 n :=
    List.takeWhile_eq_self_iff.mpr all
  have behind : (Text.Hex.lower4 n ++ rest).drop 4 = rest := by
    rw [← four, List.drop_left]
  rw [codeUnit?, front, digits, if_pos four, value, behind]

theorem escapeChar_cases (c : Char) :
    (∃ e, escapeChar c = ['\\', e] ∧ e ≠ 'u' ∧ shortEscape? e = some c.toNat ∧ c.toNat < 0x10000) ∨
      (escapeChar c = unitEscape c.toNat ∧ c.toNat < 0x10000) ∨
        (escapeChar c = [c] ∧ c ≠ '"' ∧ c ≠ '\\' ∧ ¬c < ' ') := by
  by_cases short : c = '"' ∨ c = '\\' ∨ c = '\x08' ∨ c = '\t' ∨ c = '\n' ∨ c = '\x0c' ∨ c = '\r'
  · left
    rcases short with rfl | rfl | rfl | rfl | rfl | rfl | rfl <;>
      exact ⟨_, rfl, by decide, rfl, by decide⟩
  · right
    simp only [not_or] at short
    obtain ⟨quote, backslash, backspace, tab, lf, feed, cr⟩ := short
    simp only [escapeChar, quote, backslash, backspace, tab, lf, feed, cr, if_false]
    by_cases control : c < ' '
    · have low : c.toNat < ' '.toNat := control
      exact .inl ⟨if_pos control, Nat.lt_trans low (by decide)⟩
    · exact .inr ⟨if_neg control, quote, backslash, control⟩

theorem stringBody?_escapeChar (fuel : Nat) (c : Char) (rest : List Char) :
    stringBody? (fuel + 1) (escapeChar c ++ rest) =
      (stringBody? fuel rest).map fun (units, rest) => (Text.Utf16.units c ++ units, rest) := by
  rcases escapeChar_cases c with ⟨e, escape, other, short, small⟩ | ⟨escape, small⟩ |
    ⟨escape, quote, backslash, control⟩
  · rw [escape, Text.Utf16.units_of_lt small, List.cons_append, List.cons_append, stringBody?.eq_def]
    simp only [List.nil_append, if_neg (show '\\' ≠ '"' by decide), if_true]
    rw [short]
    cases stringBody? fuel rest <;> rfl
  · rw [escape, Text.Utf16.units_of_lt small, unitEscape, List.cons_append, List.cons_append,
      stringBody?.eq_def]
    simp only [if_neg (show '\\' ≠ '"' by decide), if_true, codeUnit?_lower4 small,
      Option.bind_eq_bind, Option.bind_some]
    cases stringBody? fuel rest <;> rfl
  · rw [escape, List.cons_append, List.nil_append, stringBody?.eq_def]
    simp only [if_neg quote, if_neg backslash, if_neg control]
    cases stringBody? fuel rest <;> rfl

theorem stringBody?_escaped (text rest : List Char) {fuel : Nat} (enough : text.length < fuel) :
    stringBody? fuel (text.flatMap escapeChar ++ '"' :: rest) =
      some (Text.Utf16.encode text, rest) := by
  induction text generalizing fuel with
  | nil =>
    obtain ⟨fuel, rfl⟩ : ∃ k, fuel = k + 1 := ⟨fuel - 1, by simp at enough; omega⟩
    rfl
  | cons c text ih =>
    rw [List.length_cons] at enough
    obtain ⟨fuel, rfl⟩ : ∃ k, fuel = k + 1 := ⟨fuel - 1, by omega⟩
    rw [List.flatMap_cons, List.append_assoc, stringBody?_escapeChar, ih (by omega)]
    rfl

theorem escapeChar_ne_nil (c : Char) : escapeChar c ≠ [] := by
  rcases escapeChar_cases c with ⟨e, escape, _⟩ | ⟨escape, _⟩ | ⟨escape, _⟩
  · simp [escape]
  · simp [escape, unitEscape]
  · simp [escape]

theorem length_le_escaped (text : List Char) : text.length ≤ (text.flatMap escapeChar).length := by
  induction text with
  | nil => exact Nat.le_refl 0
  | cons c text ih =>
    have some := List.length_pos_iff.mpr (escapeChar_ne_nil c)
    rw [List.length_cons, List.flatMap_cons, List.length_append]
    omega

/-- A string is read as itself, whatever the fuel, which is the length of what is read. -/
theorem stringBody?_printString (text rest : List Char) :
    ∃ inside, printString (Text.Utf16.encode text) = '"' :: inside ∧
      ∀ fuel, (inside ++ rest).length ≤ fuel →
        stringBody? fuel (inside ++ rest) = some (Text.Utf16.encode text, rest) := by
  refine ⟨_, printString_encode text, fun fuel enough => ?_⟩
  have shorter := length_le_escaped text
  have split : text.flatMap escapeChar ++ ['"'] ++ rest = text.flatMap escapeChar ++ '"' :: rest := by
    simp
  simp only [List.length_append, List.length_singleton] at enough
  rw [split]
  exact stringBody?_escaped text rest (by omega)

theorem lf_not_mem_escapeChar (c : Char) : '\n' ∉ escapeChar c := by
  rcases escapeChar_cases c with ⟨e, escape, _, short, _⟩ | ⟨escape, small⟩ |
    ⟨escape, _, _, control⟩
  · have other : '\n' ≠ e := by
      rintro rfl
      contradiction
    simp [escape, other]
  · intro member
    rw [escape, unitEscape, List.mem_cons, List.mem_cons] at member
    rcases member with backslash | letter | digit
    · contradiction
    · contradiction
    · exact absurd (Text.Hex.isDigit_of_mem_lower4 digit) (by decide)
  · rw [escape, List.mem_singleton]
    rintro rfl
    exact control (by decide)

theorem lf_not_mem_printString (text : List Char) :
    '\n' ∉ printString (Text.Utf16.encode text) := by
  rw [printString_encode]
  simp only [List.mem_cons, List.mem_append, List.mem_flatMap, List.not_mem_nil, or_false, not_or]
  refine ⟨by decide, ?_, by decide⟩
  rintro ⟨c, _, inside⟩
  exact lf_not_mem_escapeChar c inside

theorem reads_ofText (text : String) : Reads (.ofText text) := by
  have print : (ofText text).print = printString (Text.Utf16.encode text.toList) := by
    rw [ofText, print]
  constructor
  · rw [print]
    exact lf_not_mem_printString text.toList
  · exact ⟨'"', _, by rw [print, printString_encode], by decide, by decide⟩
  · intro fuel rest enough _
    obtain ⟨fuel, rfl⟩ : ∃ k, fuel = k + 1 := ⟨fuel - 1, by omega⟩
    obtain ⟨inside, whole, body⟩ := stringBody?_printString text.toList rest
    rw [print, whole, List.cons_append, value?, body _ (by simp)]
    rfl

end String

section Array

variable {item : Json} {items : List Json}

theorem printItems_cons (item next : Json) (items : List Json) :
    printItems (item :: next :: items) = item.print ++ ',' :: printItems (next :: items) := by
  rw [printItems.eq_3]
  exact List.cons_ne_nil next items

theorem printItems_front (reads : Reads item) (items : List Json) :
    ∃ c text, printItems (item :: items) = c :: text ∧ isSpace c = false ∧ c ≠ ']' := by
  obtain ⟨c, text, print, other⟩ := reads.front
  cases items with
  | nil => exact ⟨c, text, by rw [printItems, print], other⟩
  | cons next items =>
    exact ⟨c, _, by rw [printItems_cons, print, List.cons_append], other⟩

theorem lf_not_mem_printItems (reads : ∀ item ∈ items, Reads item) : '\n' ∉ printItems items := by
  induction items with
  | nil => simp [printItems]
  | cons item items ih =>
    have line := (reads item List.mem_cons_self).line
    have others := ih fun item member => reads item (List.mem_cons_of_mem _ member)
    cases items with
    | nil => rwa [printItems]
    | cons next items =>
      rw [printItems_cons]
      simp [line, others]

theorem items?_printItems (reads : ∀ item ∈ items, Reads item) (nonempty : items ≠ []) {fuel : Nat}
    (enough : (printItems items).length + 1 < fuel) (rest : List Char) :
    items? fuel (printItems items ++ ']' :: rest) = some (items, rest) := by
  induction items generalizing fuel with
  | nil => contradiction
  | cons item items ih =>
    obtain ⟨fuel, rfl⟩ : ∃ k, fuel = k + 1 := ⟨fuel - 1, by omega⟩
    have first := reads item List.mem_cons_self
    cases items with
    | nil =>
      rw [printItems] at enough ⊢
      have value := first.value fuel (']' :: rest) (by omega) (apart_cons (by decide))
      simp only [items?, value, Option.bind_eq_bind, Option.bind_some,
        skipSpace_cons (show isSpace ']' = false by decide)]
      rfl
    | cons next items =>
      have second := reads next (by simp)
      obtain ⟨c, text, print, space, _⟩ := printItems_front second items
      rw [printItems_cons, List.length_append, List.length_cons] at enough
      have value := first.value fuel (',' :: (printItems (next :: items) ++ ']' :: rest)) (by omega)
        (apart_cons (by decide))
      have others : items? fuel (printItems (next :: items) ++ ']' :: rest) =
          some (next :: items, rest) :=
        ih (fun item member => reads item (List.mem_cons_of_mem _ member))
          (List.cons_ne_nil _ _) (by omega)
      have front : skipSpace (printItems (next :: items) ++ ']' :: rest) =
          printItems (next :: items) ++ ']' :: rest := by
        rw [print, List.cons_append, skipSpace_cons space]
      rw [printItems_cons, List.append_assoc, List.cons_append]
      simp only [items?, value, Option.bind_eq_bind, Option.bind_some,
        skipSpace_cons (show isSpace ',' = false by decide), front, others]
      rfl

theorem reads_arr (reads : ∀ item ∈ items, Reads item) : Reads (.arr items) := by
  have print : (arr items).print = '[' :: (printItems items ++ [']']) := by
    rw [print, List.cons_append]
  constructor
  · rw [print]
    simp [lf_not_mem_printItems reads]
  · exact ⟨'[', _, print, by decide, by decide⟩
  · intro fuel rest enough _
    rw [print] at enough ⊢
    obtain ⟨fuel, rfl⟩ : ∃ k, fuel = k + 1 := ⟨fuel - 1, by omega⟩
    simp only [List.length_cons, List.length_append, List.length_nil] at enough
    have closed : '[' :: (printItems items ++ [']']) ++ rest =
        '[' :: (printItems items ++ ']' :: rest) := by
      simp
    rw [closed, value?.eq_def]
    simp only
    cases items with
    | nil => rfl
    | cons item others =>
      obtain ⟨c, text, front, space, bracket⟩ :=
        printItems_front (reads item List.mem_cons_self) others
      have inside : items? fuel (printItems (item :: others) ++ ']' :: rest) =
          some (item :: others, rest) :=
        items?_printItems reads (List.cons_ne_nil _ _) (by omega) rest
      rw [front, List.cons_append] at inside ⊢
      rw [skipSpace_cons space]
      split
      · rename_i same
        exact absurd (List.cons.inj same).1 bracket
      · rename_i same
        rw [inside]
        rfl

end Array

section Object

structure ReadsMember (member : List Nat × Json) : Prop where
  name : ∃ text, member.1 = Text.Utf16.encode text
  value : Reads member.2

variable {member : List Nat × Json} {members : List (List Nat × Json)}

theorem printMembers_cons (member next : List Nat × Json) (members : List (List Nat × Json)) :
    printMembers (member :: next :: members) =
      printString member.1 ++ ':' :: member.2.print ++ ',' :: printMembers (next :: members) := by
  rw [printMembers.eq_3]
  exact List.cons_ne_nil next members

theorem printMembers_singleton (member : List Nat × Json) :
    printMembers [member] = printString member.1 ++ ':' :: member.2.print := by
  rw [printMembers.eq_2]

theorem printMembers_front (reads : ReadsMember member) (members : List (List Nat × Json)) :
    ∃ text, printMembers (member :: members) = '"' :: text := by
  obtain ⟨text, name⟩ := reads.name
  cases members with
  | nil =>
    exact ⟨_, by rw [printMembers_singleton, name, printString_encode, List.cons_append]⟩
  | cons next members =>
    exact ⟨_, by rw [printMembers_cons, name, printString_encode, List.cons_append,
      List.cons_append]⟩

theorem lf_not_mem_printMembers (reads : ∀ member ∈ members, ReadsMember member) :
    '\n' ∉ printMembers members := by
  induction members with
  | nil => simp [printMembers]
  | cons member members ih =>
    have first := reads member List.mem_cons_self
    obtain ⟨text, name⟩ := first.name
    have before : '\n' ∉ printString member.1 := by
      rw [name]
      exact lf_not_mem_printString text
    have others := ih fun member among => reads member (List.mem_cons_of_mem _ among)
    cases members with
    | nil =>
      rw [printMembers_singleton]
      simp [before, first.value.line]
    | cons next members =>
      rw [printMembers_cons]
      simp [before, first.value.line, others]

theorem ReadsMember.start (reads : ReadsMember member) (rest : List Char) :
    ∃ inside, printString member.1 = '"' :: inside ∧
      stringBody? ('"' :: (inside ++ ':' :: (member.2.print ++ rest))).length
        (inside ++ ':' :: (member.2.print ++ rest)) =
          some (member.1, ':' :: (member.2.print ++ rest)) ∧
      skipSpace (':' :: (member.2.print ++ rest)) = ':' :: (member.2.print ++ rest) ∧
      skipSpace (member.2.print ++ rest) = member.2.print ++ rest := by
  obtain ⟨⟨text, name⟩, value⟩ := reads
  obtain ⟨c, behind, front, space, _⟩ := value.front
  obtain ⟨inside, whole, body⟩ := stringBody?_printString text (':' :: (member.2.print ++ rest))
  rw [name]
  refine ⟨inside, whole, body _ (by simp), skipSpace_cons (by decide) _, ?_⟩
  rw [front, List.cons_append, skipSpace_cons space]

theorem members?_last (reads : ReadsMember member) {fuel : Nat}
    (enough : member.2.print.length < fuel) (rest : List Char) :
    members? (fuel + 1) (printString member.1 ++ ':' :: member.2.print ++ '\x7d' :: rest) =
      some ([member], rest) := by
  obtain ⟨inside, whole, body, colon, start⟩ := reads.start ('\x7d' :: rest)
  have value := reads.value.value fuel ('\x7d' :: rest) enough (apart_cons (by decide))
  rw [whole, List.append_assoc, List.cons_append, List.cons_append, members?.eq_def]
  simp only [body, Option.bind_eq_bind, Option.bind_some, colon, start, value,
    skipSpace_cons (show isSpace '\x7d' = false by decide)]
  rfl

theorem members?_next (reads : ReadsMember member) {fuel : Nat}
    (enough : member.2.print.length < fuel) (rest : List Char) :
    members? (fuel + 1) (printString member.1 ++ ':' :: member.2.print ++ ',' :: rest) =
      (members? fuel (skipSpace rest)).map fun (members, rest) => (member :: members, rest) := by
  obtain ⟨inside, whole, body, colon, start⟩ := reads.start (',' :: rest)
  have value := reads.value.value fuel (',' :: rest) enough (apart_cons (by decide))
  rw [whole, List.append_assoc, List.cons_append, List.cons_append, members?.eq_def]
  simp only [body, Option.bind_eq_bind, Option.bind_some, colon, start, value,
    skipSpace_cons (show isSpace ',' = false by decide)]
  cases members? fuel (skipSpace rest) <;> rfl

theorem members?_printMembers (reads : ∀ member ∈ members, ReadsMember member)
    (nonempty : members ≠ []) {fuel : Nat} (enough : (printMembers members).length + 1 < fuel)
    (rest : List Char) :
    members? fuel (printMembers members ++ '\x7d' :: rest) = some (members, rest) := by
  induction members generalizing fuel with
  | nil => contradiction
  | cons member members ih =>
    obtain ⟨fuel, rfl⟩ : ∃ k, fuel = k + 1 := ⟨fuel - 1, by omega⟩
    have first := reads member List.mem_cons_self
    cases members with
    | nil =>
      rw [printMembers_singleton] at enough ⊢
      simp only [List.length_append, List.length_cons] at enough
      exact members?_last first (by omega) rest
    | cons next members =>
      obtain ⟨text, front⟩ := printMembers_front (reads next (by simp)) members
      rw [printMembers_cons] at enough ⊢
      simp only [List.length_append, List.length_cons] at enough
      have others : members? fuel (printMembers (next :: members) ++ '\x7d' :: rest) =
          some (next :: members, rest) :=
        ih (fun member among => reads member (List.mem_cons_of_mem _ among))
          (List.cons_ne_nil _ _) (by omega)
      have start : skipSpace (printMembers (next :: members) ++ '\x7d' :: rest) =
          printMembers (next :: members) ++ '\x7d' :: rest := by
        rw [front, List.cons_append, skipSpace_cons (by decide)]
      rw [List.append_assoc, List.cons_append,
        members?_next first (by omega), start, others, Option.map_some]

theorem reads_obj (reads : ∀ member ∈ members, ReadsMember member) : Reads (.obj members) := by
  have print : (obj members).print = '\x7b' :: (printMembers members ++ ['\x7d']) := by
    rw [print, List.cons_append]
  constructor
  · rw [print]
    simp [lf_not_mem_printMembers reads]
  · exact ⟨'\x7b', _, print, by decide, by decide⟩
  · intro fuel rest enough _
    rw [print] at enough ⊢
    obtain ⟨fuel, rfl⟩ : ∃ k, fuel = k + 1 := ⟨fuel - 1, by omega⟩
    simp only [List.length_cons, List.length_append, List.length_nil] at enough
    have closed : '\x7b' :: (printMembers members ++ ['\x7d']) ++ rest =
        '\x7b' :: (printMembers members ++ '\x7d' :: rest) := by
      simp
    rw [closed, value?.eq_def]
    simp only
    cases members with
    | nil => rfl
    | cons member others =>
      obtain ⟨text, front⟩ := printMembers_front (reads member List.mem_cons_self) others
      have inside : members? fuel (printMembers (member :: others) ++ '\x7d' :: rest) =
          some (member :: others, rest) :=
        members?_printMembers reads (List.cons_ne_nil _ _) (by omega) rest
      rw [front, List.cons_append] at inside ⊢
      rw [skipSpace_cons (by decide)]
      split
      · rename_i same
        exact absurd (List.cons.inj same).1 (by decide)
      · rw [inside]
        rfl

theorem reads_object {members : List (String × Json)} (reads : ∀ member ∈ members, Reads member.2) :
    Reads (.object members) := by
  apply reads_obj
  intro member among
  obtain ⟨source, there, rfl⟩ := List.mem_map.mp among
  exact ⟨⟨source.1.toList, rfl⟩, reads source there⟩

end Object

theorem reads_null : Reads .null := by
  have print : null.print = ['n', 'u', 'l', 'l'] := by
    rw [print]
    rfl
  constructor
  · rw [print]
    decide
  · exact ⟨'n', _, print, by decide, by decide⟩
  · intro fuel rest enough _
    obtain ⟨fuel, rfl⟩ : ∃ k, fuel = k + 1 := ⟨fuel - 1, by omega⟩
    rw [print, value?.eq_def]
    rfl

theorem parse?_print {json : Json} (reads : Reads json) : parse? json.print = some json := by
  obtain ⟨c, text, print, space, _⟩ := reads.front
  have value := reads.value (json.print.length + 1) [] (Nat.lt_succ_self _) apart_nil
  have start : skipSpace json.print = json.print := by
    rw [print, skipSpace_cons space]
  rw [List.append_nil] at value
  rw [parse?, start, value]
  rfl

theorem print_injective {first second : Json} (one : Reads first) (other : Reads second)
    (same : first.print = second.print) : first = second := by
  have read := parse?_print one
  rw [same, parse?_print other] at read
  exact (Option.some.inj read).symm

@[simp] theorem ofNat_inj {m n : Nat} : ofNat m = ofNat n ↔ m = n := by
  constructor
  · intro same
    exact toDigits_injective (number.inj same)
  · exact congrArg ofNat

@[simp] theorem ofText_inj {s t : String} : ofText s = ofText t ↔ s = t := by
  constructor
  · intro same
    exact String.toList_inj.mp (Text.Utf16.encode_injective (str.inj same))
  · exact congrArg ofText

@[simp] theorem object_inj {first second : List (String × Json)} :
    object first = object second ↔ first = second := by
  have members : Function.Injective fun (name, value) =>
      ((Text.Utf16.encode (String.toList name), value) : List Nat × Json) := by
    rintro ⟨name, value⟩ ⟨name', value'⟩ same
    obtain ⟨names, rfl⟩ := Prod.mk.inj same
    rw [String.toList_inj.mp (Text.Utf16.encode_injective names)]
  constructor
  · intro same
    exact List.map_injective_iff.mpr members (obj.inj same)
  · exact congrArg object

end Offside.Json
