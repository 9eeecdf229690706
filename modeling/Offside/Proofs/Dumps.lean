import Mathlib.Data.List.Basic
import Offside.CommandLine.Output
import Offside.Proofs.JsonRoundTrip

/-!
The dumps of tokens lose nothing. A text dump can be cut again into its lines, a line into its
fields and a quoted payload into its characters, and the JSON that is written can be read. So each
dump is that of one list of tokens only.
-/

namespace Offside

namespace Text

/-- Texts that can be told apart one after the other: none is empty, and none goes on from another
one. -/
structure Separable {α : Type} (write : α → List Char) : Prop where
  nonempty : ∀ a, write a ≠ []
  unique : ∀ {a b : α} {rest behind : List Char},
    write a ++ rest = write b ++ behind → a = b ∧ rest = behind

theorem Separable.flatMap_injective {α : Type} {write : α → List Char} (apart : Separable write)
    {xs ys : List α} (same : xs.flatMap write = ys.flatMap write) : xs = ys := by
  induction xs generalizing ys with
  | nil =>
    cases ys with
    | nil => rfl
    | cons y ys =>
      rw [List.flatMap_nil, List.flatMap_cons] at same
      exact absurd (List.append_eq_nil_iff.mp same.symm).1 (apart.nonempty y)
  | cons x xs ih =>
    cases ys with
    | nil =>
      rw [List.flatMap_nil, List.flatMap_cons] at same
      exact absurd (List.append_eq_nil_iff.mp same).1 (apart.nonempty x)
    | cons y ys =>
      rw [List.flatMap_cons, List.flatMap_cons] at same
      obtain ⟨rfl, others⟩ := apart.unique same
      rw [ih others]

theorem cut_unique {c : Char} {front front' rest rest' : List Char} (clear : c ∉ front)
    (clear' : c ∉ front') (same : front ++ c :: rest = front' ++ c :: rest') :
    front = front' ∧ rest = rest' := by
  induction front generalizing front' with
  | nil =>
    cases front' with
    | nil => exact ⟨rfl, (List.cons.inj same).2⟩
    | cons d front' =>
      rw [(List.cons.inj same).1] at clear'
      exact absurd List.mem_cons_self clear'
  | cons d front ih =>
    cases front' with
    | nil =>
      rw [← (List.cons.inj same).1] at clear
      exact absurd List.mem_cons_self clear
    | cons e front' =>
      obtain ⟨rfl, behind⟩ := List.cons.inj same
      rw [List.mem_cons, not_or] at clear clear'
      obtain ⟨rfl, ends⟩ := ih clear.2 clear'.2 behind
      exact ⟨rfl, ends⟩

theorem not_mem_toDigits {c : Char} (other : c.isDigit = false) (n : Nat) :
    c ∉ Nat.toDigits 10 n := by
  intro member
  rw [Nat.isDigit_of_mem_toDigits (by decide) (by decide) member] at other
  contradiction

end Text

namespace Text.Quoted

def short : Char → Char
  | '0' => '\x00'
  | 't' => '\t'
  | 'r' => '\r'
  | 'n' => '\n'
  | c => c

def unescape? : List Char → Option (Char × List Char)
  | '\\' :: 'u' :: '\x7b' :: rest =>
    let digits := rest.takeWhile (· ≠ '\x7d')
    some (Char.ofNat (Hex.value digits), rest.drop (digits.length + 1))
  | '\\' :: c :: rest => some (short c, rest)
  | c :: rest => some (c, rest)
  | [] => none

theorem escape_cases (c : Char) :
    (∃ e, escape '"' c = ['\\', e] ∧ e ≠ 'u' ∧ e ≠ '\n' ∧ short e = c) ∨
      escape '"' c = '\\' :: 'u' :: '\x7b' :: (Hex.lower c.toNat ++ ['\x7d']) ∨
        (escape '"' c = [c] ∧ c ≠ '\\' ∧ c ≠ '"' ∧ c ≠ '\n') := by
  by_cases brief : c = '\x00' ∨ c = '\t' ∨ c = '\r' ∨ c = '\n' ∨ c = '\\' ∨ c = '"'
  · left
    rcases brief with rfl | rfl | rfl | rfl | rfl | rfl <;>
      exact ⟨_, rfl, by decide, by decide, rfl⟩
  · right
    simp only [not_or] at brief
    obtain ⟨zero, tab, cr, lf, backslash, quote⟩ := brief
    simp only [escape, zero, tab, cr, lf, backslash, quote, or_self, if_false]
    cases showsAlone c with
    | true => exact .inr ⟨rfl, backslash, quote, lf⟩
    | false => exact .inl rfl

theorem brace_not_mem_lower (n : Nat) : '\x7d' ∉ Hex.lower n := fun member =>
  absurd (Hex.isDigit_of_mem_lower member) (by decide)

theorem unescape?_escape (c : Char) (rest : List Char) :
    unescape? (escape '"' c ++ rest) = some (c, rest) := by
  rcases escape_cases c with ⟨e, escape, other, _, short⟩ | escape | ⟨escape, backslash, _⟩
  · rw [escape, List.cons_append, List.cons_append, unescape?, short]
    · rfl
    · exact fun _ letter => absurd letter other
  · have digits : (Hex.lower c.toNat ++ '\x7d' :: rest).takeWhile (· ≠ '\x7d') =
        Hex.lower c.toNat := by
      have inside : ∀ d ∈ Hex.lower c.toNat, decide (d ≠ '\x7d') = true := by
        intro d member
        rw [decide_eq_true_eq]
        rintro rfl
        exact brace_not_mem_lower _ member
      exact congrArg Reading.text (Reading.span_append inside (by simp))
    have behind : (Hex.lower c.toNat ++ '\x7d' :: rest).drop ((Hex.lower c.toNat).length + 1) =
        rest := by
      rw [List.drop_append, List.drop_of_length_le (by omega)]
      simp
    have whole : '\\' :: 'u' :: '\x7b' :: (Hex.lower c.toNat ++ ['\x7d']) ++ rest =
        '\\' :: 'u' :: '\x7b' :: (Hex.lower c.toNat ++ '\x7d' :: rest) := by
      simp
    rw [escape, whole, unescape?, digits, behind, Hex.value_lower, Char.ofNat_toNat]
  · rw [escape, List.cons_append, List.nil_append, unescape?]
    · rintro _ rfl
      contradiction
    · rintro _ _ rfl
      contradiction

theorem escape_separable : Separable (escape '"') where
  nonempty c empty := by
    rcases escape_cases c with ⟨e, escape, _⟩ | escape | ⟨escape, _⟩ <;>
      rw [escape] at empty <;> contradiction
  unique {c d rest behind} same := by
    have first := unescape?_escape c rest
    rw [same, unescape?_escape d behind] at first
    exact (Prod.mk.inj (Option.some.inj first)).imp Eq.symm Eq.symm

theorem string_injective {first second : String} (same : string first = string second) :
    first = second := by
  have inside := (List.cons.inj (String.ofList_injective same)).2
  exact String.toList_inj.mp (escape_separable.flatMap_injective (List.append_cancel_right inside))

theorem lf_not_mem_string (text : String) : '\n' ∉ (string text).toList := by
  have inside (c : Char) : '\n' ∉ escape '"' c := by
    rcases escape_cases c with ⟨e, escape, _, other, _⟩ | escape | ⟨escape, _, _, other⟩
    · simp [escape, other.symm]
    · have digits : '\n' ∉ Hex.lower c.toNat := fun member =>
        absurd (Hex.isDigit_of_mem_lower member) (by decide)
      simp [escape, digits]
    · simp [escape, other.symm]
  simp [string, inside]

end Text.Quoted

namespace Token

def Kind.ofText? (text : String) : Option String → Option Kind
  | some payload =>
    if text = "Id" then some (.id payload)
    else if text = "Int" then some (.int payload)
    else if text = "Float" then some (.float payload)
    else if text = "Str" then some (.str payload)
    else none
  | none =>
    if text = "Indent" then some .indent
    else if text = "Dedent" then some .dedent
    else if text = "NewLine" then some .newLine
    else
      let keyword? := Keyword.all.find? (·.name = text)
      let punct? := Punct.all.find? (·.spelling = text.toList)
      (keyword?.map .keyword).or (punct?.map .punct)

theorem Kind.ofText?_text (kind : Kind) : ofText? kind.text kind.payload? = some kind := by
  cases kind with
  | punct p => cases p <;> decide
  | keyword k => cases k <;> decide
  | _ => rfl

/-- The text of a kind is a word or a spelling, without any space in it. -/
theorem Kind.text_tight (kind : Kind) : ' ' ∉ kind.text.toList ∧ '\n' ∉ kind.text.toList := by
  cases kind with
  | punct p => cases p <;> decide
  | keyword k => cases k <;> decide
  | _ => simp [text]

def Kind.shown (kind : Kind) : List Char :=
  kind.text.toList ++ (kind.payload?.map fun s => ' ' :: (Text.Quoted.string s).toList).getD []

theorem Kind.eq_of_text {first second : Kind} (text : first.text = second.text)
    (payload : first.payload? = second.payload?) : first = second := by
  have read := first.ofText?_text
  rw [text, payload, second.ofText?_text] at read
  exact (Option.some.inj read).symm

theorem Kind.shown_injective {first second : Kind} (same : first.shown = second.shown) :
    first = second := by
  rw [shown, shown] at same
  -- a space shows whether there is a payload, for none stands in the text of a kind
  cases one : first.payload? with
  | none =>
    cases other : second.payload? with
    | none =>
      rw [one, other] at same
      exact eq_of_text (String.toList_inj.mp (List.append_cancel_right same)) (one.trans other.symm)
    | some payload =>
      rw [one, other, Option.map_none, Option.getD_none, List.append_nil] at same
      exact absurd (by simp [same]) first.text_tight.1
  | some payload =>
    cases other : second.payload? with
    | none =>
      rw [one, other, Option.map_none, Option.getD_none, List.append_nil] at same
      exact absurd (by simp [← same]) second.text_tight.1
    | some payload' =>
      rw [one, other] at same
      obtain ⟨text, quoted⟩ := Text.cut_unique first.text_tight.1 second.text_tight.1 same
      rw [← Text.Quoted.string_injective (String.toList_inj.mp quoted)] at other
      exact eq_of_text (String.toList_inj.mp text) (one.trans other.symm)

theorem Kind.lf_not_mem_shown (kind : Kind) : '\n' ∉ kind.shown := by
  have quoted := Text.Quoted.lf_not_mem_string
  rw [shown]
  cases kind.payload? with
  | none => simp [kind.text_tight.2]
  | some payload => simp [kind.text_tight.2, quoted]

theorem dump_toList (t : Token) :
    t.dump.toList = Nat.toDigits 10 t.position.line ++
      ':' :: (Nat.toDigits 10 t.position.column ++ ' ' :: t.kind.shown) := by
  have place : (toString t.position).toList =
      Nat.toDigits 10 t.position.line ++ ':' :: Nat.toDigits 10 t.position.column := by
    simp [toString, Nat.repr_eq_ofList_toDigits]
  rw [dump, Kind.shown]
  cases t.kind.payload? <;> simp [place]

theorem eq_of_fields {t u : Token} (line : t.position.line = u.position.line)
    (column : t.position.column = u.position.column) (kind : t.kind = u.kind) : t = u := by
  obtain ⟨⟨_, _⟩, _⟩ := t
  obtain ⟨⟨_, _⟩, _⟩ := u
  cases line
  cases column
  cases kind
  rfl

theorem dump_injective {t u : Token} (same : t.dump = u.dump) : t = u := by
  have fields := String.toList_inj.mpr same
  rw [dump_toList, dump_toList] at fields
  obtain ⟨line, behind⟩ :=
    Text.cut_unique (Text.not_mem_toDigits rfl _) (Text.not_mem_toDigits rfl _) fields
  obtain ⟨column, shown⟩ :=
    Text.cut_unique (Text.not_mem_toDigits rfl _) (Text.not_mem_toDigits rfl _) behind
  exact eq_of_fields (Json.toDigits_injective line) (Json.toDigits_injective column)
    (Kind.shown_injective shown)

theorem lf_not_mem_dump (t : Token) : '\n' ∉ t.dump.toList := by
  rw [dump_toList]
  simp [Text.not_mem_toDigits (show Char.isDigit '\n' = false from rfl), Kind.lf_not_mem_shown]

end Token

namespace CommandLine

theorem textDump_injective {first second : List Token} (same : textDump first = textDump second) :
    first = second := by
  have line (t : Token) : (t.dump ++ "\n").toList = t.dump.toList ++ ['\n'] := String.toList_append
  have lines : Text.Separable fun t : Token => (t.dump ++ "\n").toList := by
    constructor
    · intro t empty
      rw [line] at empty
      exact List.append_ne_nil_of_right_ne_nil _ (List.cons_ne_nil _ _) empty
    · intro t u rest behind same
      rw [line, line, List.append_assoc, List.append_assoc] at same
      obtain ⟨dump, others⟩ := Text.cut_unique t.lf_not_mem_dump u.lf_not_mem_dump same
      exact ⟨Token.dump_injective (String.toList_inj.mp dump), others⟩
  have text := String.toList_inj.mpr same
  rw [textDump, textDump, String.toList_join, String.toList_join, List.flatMap_map,
    List.flatMap_map] at text
  exact lines.flatMap_injective text

theorem tokenJson_injective {t u : Token} (same : tokenJson t = tokenJson u) : t = u := by
  simp only [tokenJson, Json.object_inj, List.cons_append, List.nil_append, List.cons.injEq,
    Prod.mk.injEq, true_and, Json.ofNat_inj, Json.ofText_inj] at same
  obtain ⟨line, column, text, value⟩ := same
  have payload : t.kind.payload? = u.kind.payload? := by
    have apart : Function.Injective fun payload => ("value", Json.ofText payload) := by
      intro s s' same
      exact Json.ofText_inj.mp (Prod.mk.inj same).2
    have carried := congrArg List.head? (List.map_injective_iff.mpr apart value)
    rwa [Option.head?_toList, Option.head?_toList] at carried
  exact Token.eq_of_fields line column (Token.Kind.eq_of_text text payload)

theorem tokenJson_reads (t : Token) : Json.Reads (tokenJson t) := by
  apply Json.reads_object
  intro member among
  simp only [List.cons_append, List.nil_append, List.mem_cons, List.mem_map] at among
  rcases among with rfl | rfl | rfl | ⟨payload, _, rfl⟩
  · exact Json.reads_ofNat _
  · exact Json.reads_ofNat _
  · exact Json.reads_ofText _
  · exact Json.reads_ofText _

theorem jsonLine_reads (name : String) (tokens : List Token) :
    Json.Reads (.object [("file", .ofText name), ("tokens", .arr (tokens.map tokenJson))]) := by
  have items : ∀ item ∈ tokens.map tokenJson, Json.Reads item := by
    intro item among
    obtain ⟨t, _, rfl⟩ := List.mem_map.mp among
    exact tokenJson_reads t
  apply Json.reads_object
  intro member among
  simp only [List.mem_cons, List.not_mem_nil, or_false] at among
  rcases among with rfl | rfl
  · exact Json.reads_ofText name
  · exact Json.reads_arr items

theorem jsonDump_injective {name name' : String} {first second : List Token}
    (same : jsonDump name first = jsonDump name' second) : name = name' ∧ first = second := by
  have text := String.ofList_injective (String.append_left_inj _ |>.mp same)
  have json := Json.print_injective (jsonLine_reads name first) (jsonLine_reads name' second) text
  simp only [Json.object_inj, List.cons.injEq, Prod.mk.injEq, true_and, and_true, Json.ofText_inj,
    Json.arr.injEq] at json
  exact ⟨json.1, List.map_injective_iff.mpr (fun _ _ => tokenJson_injective) json.2⟩

/-- Both dumps are lossless, whatever the tokens are, and neither has a line feed inside a line. -/
theorem dumps_lossless :
    (∀ first second : List Token, textDump first = textDump second ↔ first = second) ∧
      (∀ (name name' : String) (first second : List Token),
        jsonDump name first = jsonDump name' second ↔ name = name' ∧ first = second) ∧
      (∀ t : Token, '\n' ∉ t.dump.toList) ∧
      ∀ (name : String) (tokens : List Token),
        ∃ line : String, jsonDump name tokens = line ++ "\n" ∧ '\n' ∉ line.toList := by
  refine ⟨fun first second => ⟨textDump_injective, congrArg textDump⟩,
    fun name name' first second => ⟨jsonDump_injective, ?_⟩, Token.lf_not_mem_dump,
    fun name tokens => ⟨_, rfl, ?_⟩⟩
  · rintro ⟨rfl, rfl⟩
    rfl
  · rw [String.toList_ofList]
    exact (jsonLine_reads name tokens).line

end CommandLine

end Offside
