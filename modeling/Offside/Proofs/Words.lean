import Offside.Proofs.Lossless
import Offside.Proofs.Respelling
import Offside.Proofs.TokenOrder

namespace Offside

namespace Keyword

/-- The reserved words as a table, from the word to what it is. -/
def ofTable? : String → Option Keyword
  | "as" => some as_
  | "break" => some break_
  | "continue" => some continue_
  | "else" => some else_
  | "export" => some export_
  | "false" => some false_
  | "for" => some for_
  | "from" => some from_
  | "if" => some if_
  | "import" => some import_
  | "in" => some in_
  | "let" => some let_
  | "null" => some null_
  | "pass" => some pass_
  | "return" => some return_
  | "true" => some true_
  | "type" => some type_
  | "while" => some while_
  | _ => none

theorem ofWord?_eq_some_iff {text : String} {k : Keyword} :
    ofWord? text = some k ↔ text = k.word := by
  constructor
  · intro found
    have same : k.word = text := by simpa using List.find?_some found
    exact same.symm
  · rintro rfl
    exact ofWord?_word k

theorem ofTable?_eq_some_iff {text : String} {k : Keyword} :
    ofTable? text = some k ↔ text = k.word := by
  constructor
  · intro found
    unfold ofTable? at found
    split at found <;> cases found <;> rfl
  · rintro rfl
    cases k <;> rfl

theorem ofWord?_eq_ofTable? (text : String) : ofWord? text = ofTable? text := by
  apply Option.ext
  intro k
  rw [ofTable?_eq_some_iff, ofWord?_eq_some_iff]

/-- No reserved word goes on as another one. -/
theorem eq_nil_of_append_eq_word {k l : Keyword} {more : List Char}
    (h : k.word.toList ++ more = l.word.toList) : more = [] := by
  have apart : ∀ k ∈ all, ∀ l ∈ all, k.word.toList <+: l.word.toList →
      k.word.toList.length = l.word.toList.length := by decide
  have length := apart k k.mem_all l l.mem_all ⟨more, h⟩
  rw [← h, List.length_append] at length
  exact List.length_eq_zero_iff.mp (by omega)

end Keyword

namespace Token.Kind

def isWord : Kind → Bool
  | id _ | keyword _ => true
  | _ => false

/-- This is the kind of a token made of the word `text`. -/
structure OfWord (text : List Char) (kind : Kind) : Prop where
  keyword_iff : ∀ k : Keyword, kind = .keyword k ↔ text = k.word.toList
  name : (∀ k : Keyword, text ≠ k.word.toList) → kind = .id (String.ofList text)
  free : ∀ k : Keyword, kind ≠ .id k.word
  /-- It is not enough that a word begins with a reserved one. -/
  longer : ∀ (k : Keyword) (more : List Char), more ≠ [] → text = k.word.toList ++ more →
    kind = .id (String.ofList text)

end Token.Kind

namespace Lexeme

theorem wordKind_cases (text : List Char) :
    (∃ k : Keyword, text = k.word.toList ∧ wordKind (String.ofList text) = .keyword k) ∨
      (∀ k : Keyword, text ≠ k.word.toList) ∧
        wordKind (String.ofList text) = .id (String.ofList text) := by
  unfold wordKind
  cases found : Keyword.ofWord? (String.ofList text) with
  | some k =>
    have same := Keyword.ofWord?_eq_some_iff.mp found
    refine .inl ⟨k, ?_, rfl⟩
    rw [← same, String.toList_ofList]
  | none =>
    refine .inr ⟨?_, rfl⟩
    rintro k rfl
    rw [String.ofList_toList, Keyword.ofWord?_word] at found
    contradiction

theorem wordKind_ofWord (text : List Char) :
    (wordKind (String.ofList text)).OfWord text := by
  rcases wordKind_cases text with ⟨k, rfl, kind⟩ | ⟨free, kind⟩
  · rw [kind]
    constructor
    · intro l
      constructor
      · rintro ⟨⟩
        rfl
      · intro same
        rw [Keyword.word_injective (String.toList_injective same)]
    · intro free
      exact absurd rfl (free k)
    · intro l same
      contradiction
    · intro l more some longer
      exact absurd (Keyword.eq_nil_of_append_eq_word longer.symm) some
  · rw [kind]
    constructor
    · intro k
      constructor
      · intro same
        contradiction
      · intro same
        exact absurd same (free k)
    · intro _
      rfl
    · intro k same
      injection same with same
      exact free k (by rw [← same, String.toList_ofList])
    · intro k more _ _
      rfl

theorem spelling_wordKind (text : List Char) :
    (wordKind (String.ofList text)).spelling = text := by
  rcases wordKind_cases text with ⟨k, same, kind⟩ | ⟨_, kind⟩
  · rw [kind, same]
    rfl
  · rw [kind]
    exact String.toList_ofList

theorem word_of_scan {c : Char} {rest : List Char} {r : Text.Reading Token.Kind}
    (h : scan c rest = .ok r) (kind : r.value.isWord = true) :
    isWordStart c = true ∧ r = word (c :: rest) := by
  unfold scan at h
  split at h
  · obtain ⟨_, _, value, _⟩ := stringLiteral_eq_ok h
    rw [value] at kind
    contradiction
  · split at h
    · rename_i first
      exact ⟨first, (Except.ok.inj h).symm⟩
    · split at h
      · obtain ⟨f, e, _, _, value, _⟩ := number_eq_ok h
        rw [value, numberKind] at kind
        split at kind <;> contradiction
      · obtain ⟨p, value, _⟩ := punctuator_eq_ok h
        rw [value] at kind
        contradiction

end Lexeme

namespace Token

/-- Where the token `t`, which is made of a word, has that word in `text`. -/
structure WordIn (text : List Char) (t : Token) (before word after : List Char) : Prop where
  split : before ++ word ++ after = text
  place : (LineMap.ofText text).offsetOf t.position = Text.byteLength before
  isWord : Lexeme.IsWord word
  longest : ∀ c ∈ after.head?, ¬Lexeme.InWord c
  kind : t.kind.OfWord word
  spelling : t.kind.spelling = word

/-- If `t` is made of a word, then no character of the word lies at `place` or behind it. -/
def EndsBy (t : Token) (place : Position) : Prop :=
  t.kind.isWord = true → t.position.past t.kind.spelling ≤ place

end Token

namespace Lexer

structure WordsIn (text : List Char) (lexer : Lexer) (tokens : List Token) : Prop where
  stands : lexer.cursor.StandsIn text
  words : ∀ t ∈ tokens, t.kind.isWord = true → ∃ before word after, t.WordIn text before word after
  apart : tokens.Pairwise fun t u => t.EndsBy u.position
  behind : ∀ t ∈ tokens, t.EndsBy lexer.position

section Words

variable {text : List Char} {lexer next : Lexer} {tokens new : List Token}

theorem WordsIn.start (text : List Char) (options : Options) :
    WordsIn text (ofText text options) [] where
  stands := Cursor.ofText_standsIn text
  words t member := by contradiction
  apart := List.Pairwise.nil
  behind t member := by contradiction

theorem WordsIn.emit (h : WordsIn text lexer tokens) (stands : next.cursor.StandsIn text)
    (later : lexer.position ≤ next.position) (here : ∀ t ∈ new, t.position = lexer.position)
    (words : ∀ t ∈ new, t.kind.isWord = true → ∃ before word after, t.WordIn text before word after)
    (apart : new.Pairwise fun t u => t.EndsBy u.position)
    (behind : ∀ t ∈ new, t.EndsBy next.position) : WordsIn text next (tokens ++ new) where
  stands := stands
  words t member := by
    rcases List.mem_append.mp member with old | fresh
    · exact h.words t old
    · exact words t fresh
  apart := by
    refine List.pairwise_append.mpr ⟨h.apart, apart, ?_⟩
    intro t old u fresh
    rw [here u fresh]
    exact h.behind t old
  behind t member := by
    rcases List.mem_append.mp member with old | fresh
    · intro word
      exact (h.behind t old word).trans later
    · exact behind t fresh

theorem WordsIn.moves (h : WordsIn text lexer tokens) (stands : next.cursor.StandsIn text)
    (later : lexer.position ≤ next.position) : WordsIn text next tokens := by
  have moved : WordsIn text next (tokens ++ []) :=
    h.emit stands later (by simp) (by simp) List.Pairwise.nil (by simp)
  rwa [List.append_nil] at moved

theorem WordsIn.past (h : WordsIn text lexer tokens) {front : List Char}
    (within : front <+: lexer.cursor.rest) (cut : Text.CutBehind front lexer.cursor.rest) :
    WordsIn text (lexer.past front) tokens :=
  h.moves (h.stands.past within cut) (Position.le_past _ _)

theorem WordsIn.silent (h : WordsIn text lexer tokens) (stands : next.cursor.StandsIn text)
    (later : lexer.position ≤ next.position) (here : ∀ t ∈ new, t.position = lexer.position)
    (others : ∀ t ∈ new, t.kind.isWord = false) : WordsIn text next (tokens ++ new) := by
  have ends (t : Token) (member : t ∈ new) (place : Position) : t.EndsBy place := by
    intro word
    rw [others t member] at word
    contradiction
  refine h.emit stands later here ?_ ?_ fun t member => ends t member _
  · intro t member word
    rw [others t member] at word
    contradiction
  · refine List.pairwise_iff_forall_sublist.mpr ?_
    intro t u within
    exact ends t (within.subset (by simp)) _

theorem wordIn_of_scan {c : Char} {rest : List Char} {r : Text.Reading Token.Kind}
    (stands : lexer.cursor.StandsIn text) (ahead : lexer.cursor.rest = c :: rest)
    (scanned : Lexeme.scan c rest = .ok r) (word : r.value.isWord = true) :
    Token.WordIn text ⟨lexer.position, r.value⟩ lexer.cursor.passed.reverse r.text r.rest := by
  obtain ⟨first, rfl⟩ := Lexeme.word_of_scan scanned word
  have whole := Lexeme.word_splits (c :: rest)
  have part : Lexeme.isWordPart c = true := by simp [Lexeme.isWordPart, first]
  constructor
  · rw [List.append_assoc, whole, ← ahead]
    exact stands.split
  · rw [← Cursor.offset_eq]
    exact stands.offsetOf
  · rw [Lexeme.isWord_iff, List.all_eq_true]
    constructor
    · simp [Lexeme.word, Text.Reading.map, Text.Reading.span, part, first]
    · exact Text.Reading.span_inside Lexeme.isWordPart (c :: rest)
  · intro d behind
    rw [← Lexeme.isWordPart_eq_false_iff]
    exact Text.Reading.span_stops Lexeme.isWordPart (c :: rest) d behind
  · exact Lexeme.wordKind_ofWord _
  · exact Lexeme.spelling_wordKind _

theorem WordsIn.lexeme (h : WordsIn text lexer tokens) {c : Char} {rest : List Char}
    {r : Text.Reading Token.Kind} (ahead : lexer.cursor.rest = c :: rest)
    (inside : Text.isBreak c = false) (scanned : Lexeme.scan c rest = .ok r) :
    WordsIn text (lexer.behind r.value r.text) (tokens ++ [⟨lexer.position, r.value⟩]) := by
  have stands := (lexeme_standsIn h.stands ahead inside scanned).1
  refine h.emit stands (Position.le_past _ _) ?_ ?_ (List.pairwise_singleton _ _) ?_
  · intro t member
    rw [List.mem_singleton.mp member]
  · intro t member word
    rw [List.mem_singleton.mp member] at word ⊢
    exact ⟨_, _, _, wordIn_of_scan h.stands ahead scanned word⟩
  · intro t member word
    rw [List.mem_singleton.mp member] at word ⊢
    rw [(wordIn_of_scan h.stands ahead scanned word).spelling]
    exact le_refl (lexer.position.past r.text)

theorem WordsIn.body (h : WordsIn text lexer tokens) {ahead : List Char}
    (rest : lexer.cursor.rest = ahead) :
    WordsIn text (lexer.body (Line.readPieces ahead)).lexer
      (tokens ++ (lexer.body (Line.readPieces ahead)).tokens) := by
  refine body_scans_induction (I := WordsIn text) ?past ?lexeme ?newLine tokens h rest
  case past =>
    intro lexer tokens front within cut h
    exact h.past within cut
  case lexeme =>
    intro lexer tokens c rest r ahead inside scanned h
    exact h.lexeme ahead inside scanned
  case newLine =>
    intro lexer tokens front _ within cut _ h
    apply h.silent (h.stands.past within cut) (Position.le_past _ _)
    · intro t member
      rw [List.mem_singleton.mp member]
    · intro t member
      rw [List.mem_singleton.mp member]
      rfl

theorem WordsIn.line (h : WordsIn text lexer tokens) :
    WordsIn text lexer.line.lexer (tokens ++ lexer.line.tokens) := by
  obtain ⟨stands, rest⟩ := past_indent_standsIn h.stands
  have same : lexer.indented.lexer.cursor = (lexer.past lexer.ahead.indent).cursor :=
    indented_cursor lexer
  have indented : WordsIn text lexer.indented.lexer (tokens ++ lexer.indented.tokens) := by
    apply h.silent (same ▸ stands)
    · rw [position, position, same]
      exact Position.le_past _ _
    · intro t member
      exact (mem_indented member).1
    · intro t member
      rcases (mem_indented member).2 with kind | kind <;> rw [kind] <;> rfl
  rcases line_cases lexer with ⟨empty, _⟩ | ⟨_, _, e⟩ | ⟨_, _, e⟩
  · have behind := line_standsIn h.stands
    rw [line_skips lexer empty] at behind ⊢
    rw [List.append_nil]
    exact h.moves behind (Position.le_past _ _)
  · rw [e]
    exact indented
  · rw [e, Step.after_tokens, ← List.append_assoc]
    exact indented.body (same ▸ rest)

theorem WordsIn.finish (h : WordsIn text lexer tokens) :
    WordsIn text lexer.finish.lexer (tokens ++ lexer.finish.tokens) := by
  have same := finish_cursor lexer
  apply h.silent (same ▸ h.stands)
  · rw [position, position, same]
  · intro t member
    exact (mem_finish member).1
  · intro t member
    rcases (mem_finish member).2 with kind | kind <;> rw [kind] <;> rfl

end Words

/-- However often a lexer is run over a text, each token that is a name or a reserved word goes as
far in the text as word characters go, and further tokens stand behind it. Which of the two it is
depends on all of the word, as the table of reserved words tells. And any word by itself is one
token. -/
theorem runs_read_words (text : List Char) (options : Options) :
    (∀ n, let tokens := (ofText text options).tokensOfRuns n
      (∀ t ∈ tokens, t.kind.isWord = true →
        ∃ before word after, t.WordIn text before word after) ∧
      tokens.Pairwise fun t u => t.kind.isWord = true →
        t.position.past t.kind.spelling ≤ u.position) ∧
    (∀ word, Lexeme.IsWord word → ∃ kind : Token.Kind, kind.OfWord word ∧ kind.spelling = word ∧
      tokenize word options = .ok [⟨⟨1, 1⟩, kind⟩]) ∧
    ∀ word, Keyword.ofWord? word = Keyword.ofTable? word := by
  refine ⟨?_, ?_, Keyword.ofWord?_eq_ofTable?⟩
  · intro n tokens
    have kept := runs_induction (I := WordsIn text) (fun _ _ h => h.line) (fun _ _ h => h.finish)
      n _ [] (.start text options)
    exact ⟨kept.words, kept.apart⟩
  · intro word isWord
    exact ⟨_, Lexeme.wordKind_ofWord word, Lexeme.spelling_wordKind word,
      tokenize_of_spells (Lexeme.word_spells isWord) options⟩

end Lexer

end Offside
