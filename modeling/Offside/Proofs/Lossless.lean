import Mathlib
import Offside.Proofs.LexerSteps
import Offside.Proofs.Spelling

namespace Offside

/-- `text`, with `rest` behind it, holds nothing but blanks, line breaks among them, and whole
comments. A comment is whole if a line break or the end of the text follows it. -/
inductive Gap : List Char → List Char → Prop where
  | nil {rest : List Char} : Gap [] rest
  | blank {c : Char} {text rest : List Char} :
      Text.isBlank c = true → Gap text rest → Gap (c :: text) rest
  | comment {body text rest : List Char} :
      (∀ c ∈ body, Text.isBreak c = false) →
      (∀ c, (text ++ rest).head? = some c → Text.isBreak c = true) →
      Gap text rest → Gap ('#' :: body ++ text) rest

theorem Gap.append {a b rest : List Char} (first : Gap a (b ++ rest)) (last : Gap b rest) :
    Gap (a ++ b) rest := by
  generalize behind : b ++ rest = after at first
  induction first with
  | nil => exact last
  | blank hc _ ih => exact .blank hc (ih behind)
  | @comment body text after inside whole _ ih =>
    subst behind
    rw [List.append_assoc]
    refine .comment inside ?_ (ih rfl)
    simpa using whole

theorem gap_of_blank {text : List Char} (h : ∀ c ∈ text, Text.isBlank c = true)
    (rest : List Char) : Gap text rest := by
  induction text with
  | nil => exact .nil
  | cons c text ih => exact .blank (h c (by simp)) (ih fun d hd => h d (by simp [hd]))

/-- From the byte `offset` of a source on, `text` is made of gaps and, between them, of the
spellings of the tokens in their order, each at the byte that its token's position names. -/
inductive Tiles (map : LineMap) : Nat → List Char → List Token → Prop where
  | gap {offset : Nat} {gap : List Char} : Gap gap [] → Tiles map offset gap []
  | token {offset : Nat} {gap spelling rest : List Char} {t : Token} {ts : List Token} :
      Gap gap (spelling ++ rest) → spelling ≠ [] → t.kind.SpelledBy spelling →
      map.offsetOf t.position = offset + Text.byteLength gap →
      Tiles map (offset + Text.byteLength gap + Text.byteLength spelling) rest ts →
      Tiles map offset (gap ++ (spelling ++ rest)) (t :: ts)

namespace Tiles

variable {map : LineMap} {offset : Nat} {rest : List Char} {ts : List Token}

theorem behind_gap {g : List Char} (first : Gap g rest)
    (h : Tiles map (offset + Text.byteLength g) rest ts) : Tiles map offset (g ++ rest) ts := by
  cases h with
  | gap last => exact .gap (Gap.append (by simpa using first) last)
  | @token _ gap spelling rest t ts inside some spelled place later =>
    rw [← List.append_assoc]
    rw [Nat.add_assoc offset, ← Text.byteLength_append] at place later
    exact .token (Gap.append first inside) some spelled place later

theorem behind_lexeme {spelling : List Char} {t : Token} (some : spelling ≠ [])
    (spelled : t.kind.SpelledBy spelling) (place : map.offsetOf t.position = offset)
    (h : Tiles map (offset + Text.byteLength spelling) rest ts) :
    Tiles map offset (spelling ++ rest) (t :: ts) := by
  have none : Gap [] (spelling ++ rest) := .nil
  exact .token none some spelled place h

end Tiles

theorem Text.first_isBreak {c : Char} (h : isBreak c = true) (rest : List Char) :
    ∀ d ∈ (first c rest).text, isBreak d = true := by
  intro d member
  rcases first_cases c rest with ⟨_, _, _, e⟩ | ⟨_, _, e⟩ | ⟨_, e⟩
  · simp only [e, List.mem_cons, List.not_mem_nil, or_false] at member
    rcases member with rfl | rfl <;> rfl
  · rw [e] at member
    obtain rfl := List.mem_singleton.mp member
    rfl
  · rw [e] at member
    rwa [List.mem_singleton.mp member]

theorem Text.first_isBlank {c : Char} (h : isBreak c = true) (rest : List Char) :
    ∀ d ∈ (first c rest).text, isBlank d = true :=
  fun d member => isBlank_of_isBreak (first_isBreak h rest d member)

theorem first_gap {c : Char} (h : Text.isBreak c = true) (rest after : List Char) :
    Gap (Text.first c rest).text after :=
  gap_of_blank (Text.first_isBlank h rest) after

theorem comment_gap (text : List Char) :
    Gap (Line.comment ('#' :: text)).text (Line.comment ('#' :: text)).rest := by
  obtain ⟨body, inside, ⟨_, read⟩ | ⟨c, more, ends, _, read⟩⟩ := Line.comment_cases text
  · rw [read, ← List.append_nil (_ :: _)]
    exact .comment inside (by simp) .nil
  · have split : (Text.first c more).text ++ (Text.first c more).rest = c :: more :=
      Text.first_splits c more
    rw [read]
    refine .comment inside ?_ (first_gap ends more _)
    rw [split]
    simpa using ends

namespace Lexer

def spelled (tokens : List Token) : List Token :=
  tokens.filter (!·.kind.isLayout)

theorem spelled_eq_nil {tokens : List Token} (h : ∀ t ∈ tokens, t.kind.isLayout = true) :
    spelled tokens = [] := by
  rw [spelled, List.filter_eq_nil_iff]
  intro t member
  simp [h t member]

theorem spelled_append (a b : List Token) : spelled (a ++ b) = spelled a ++ spelled b :=
  List.filter_append ..

theorem spelled_singleton (t : Token) (h : t.kind.isLayout = false) : spelled [t] = [t] := by
  simp [spelled, h]

theorem spelled_ending (lexer : Lexer) (e : Ending) : spelled (lexer.ending e).tokens = [] := by
  apply spelled_eq_nil
  intro t member
  rw [kind_of_mem_ending member]
  rfl

theorem mem_indented {lexer : Lexer} {t : Token} (member : t ∈ lexer.indented.tokens) :
    t.position = lexer.position ∧ (t.kind = .indent ∨ t.kind = .dedent) := by
  unfold indented at member
  rcases indentTo_cases (lexer.past lexer.ahead.indent) (lexer.ahead.width lexer.tabWidth)
    lexer.position with ⟨_, e⟩ | ⟨_, e⟩
  · rw [e] at member
    rw [List.mem_singleton.mp member]
    exact ⟨rfl, .inl rfl⟩
  · rw [e] at member
    rw [(List.mem_replicate.mp member).2]
    exact ⟨rfl, .inr rfl⟩

theorem spelled_indented (lexer : Lexer) : spelled lexer.indented.tokens = [] := by
  apply spelled_eq_nil
  intro t member
  rcases (mem_indented member).2 with h | h <;> rw [h] <;> rfl

theorem mem_finish {lexer : Lexer} {t : Token} (member : t ∈ lexer.finish.tokens) :
    t.position = lexer.position ∧ (t.kind = .newLine ∨ t.kind = .dedent) := by
  unfold finish at member
  split at member
  · contradiction
  · rcases List.mem_cons.mp member with rfl | closes
    · exact ⟨rfl, .inl rfl⟩
    · rw [(List.mem_replicate.mp closes).2]
      exact ⟨rfl, .inr rfl⟩

theorem spelled_finish (lexer : Lexer) : spelled lexer.finish.tokens = [] := by
  apply spelled_eq_nil
  intro t member
  rcases (mem_finish member).2 with h | h <;> rw [h] <;> rfl

section Map

variable {map : LineMap} {cursor : Cursor} {rest : List Char} {ts : List Token}

theorem tiles_past_gap {gap : List Char} (split : gap ++ rest = cursor.rest) (h : Gap gap rest)
    (later : Tiles map (cursor.past gap).offset (cursor.past gap).rest ts) :
    Tiles map cursor.offset cursor.rest ts := by
  rw [Cursor.offset_past, Cursor.rest_past, ← split, List.drop_left] at later
  rw [← split]
  exact .behind_gap h later

theorem tiles_past_lexeme {kind : Token.Kind} {text : List Char}
    (split : text ++ rest = cursor.rest) (some : text ≠ []) (spells : kind.SpelledBy text)
    (place : map.offsetOf cursor.position = cursor.offset)
    (later : Tiles map (cursor.past text).offset (cursor.past text).rest ts) :
    Tiles map cursor.offset cursor.rest (⟨cursor.position, kind⟩ :: ts) := by
  rw [Cursor.offset_past, Cursor.rest_past, ← split, List.drop_left] at later
  rw [← split]
  exact .behind_lexeme some spells place later

end Map

/-- If the text behind a line's body is tiled by some tokens, then with the tokens of the body in
front of them the text from the body on is. -/
theorem body_tiles {source text : List Char} {lexer : Lexer} {ts : List Token}
    (h : lexer.cursor.StandsIn source) (ahead : lexer.cursor.rest = text)
    (ok : (lexer.body (Line.readPieces text)).stop? = none)
    (later : Tiles (.ofText source) (lexer.body (Line.readPieces text)).lexer.cursor.offset
      (lexer.body (Line.readPieces text)).lexer.cursor.rest ts) :
    Tiles (.ofText source) lexer.cursor.offset lexer.cursor.rest
      (spelled (lexer.body (Line.readPieces text)).tokens ++ ts) := by
  fun_induction Line.readPieces text generalizing lexer with
  | case1 => exact later
  | case2 c rest hb =>
    rw [body_of_no_pieces _ rfl] at later ⊢
    rw [spelled_ending]
    exact tiles_past_gap ((Text.first_splits c rest).trans ahead.symm) (first_gap hb rest _) later
  | case3 c rest hb blank ih =>
    rw [body_gap] at ok later ⊢
    obtain ⟨stands, further⟩ := gap_standsIn h ahead (by simpa using hb)
    have gap : Gap [c] rest := .blank blank .nil
    exact tiles_past_gap ahead.symm gap (ih stands further ok later)
  | case4 rest _ _ =>
    rw [body_of_no_pieces _ rfl] at later ⊢
    rw [spelled_ending]
    exact tiles_past_gap ((Line.comment_splits _).trans ahead.symm) (comment_gap rest) later
  | case5 c rest hb _ _ r hs ih =>
    rw [body_lexeme] at ok later ⊢
    obtain ⟨stands, further⟩ := lexeme_standsIn h ahead (by simpa using hb) hs
    have split : r.text ++ r.rest = c :: rest := (Lexeme.scan_splits c rest).of_ok hs
    have some : r.text ≠ [] := by
      have consumed := Lexeme.scan_consumed_ne_nil c rest
      rwa [hs] at consumed
    have spells := Lexeme.scan_spelled hs
    rw [Step.after_tokens, spelled_append, spelled_singleton _ spells.not_isLayout]
    exact tiles_past_lexeme (split.trans ahead.symm) some spells h.offsetOf
      (ih stands further ok later)
  | case6 c rest hb _ _ f hs =>
    rw [body_of_no_pieces _ rfl] at ok
    contradiction

theorem line_tiles {source : List Char} {lexer : Lexer} {ts : List Token}
    (h : lexer.cursor.StandsIn source) (ok : lexer.line.stop? = none)
    (later : Tiles (.ofText source) lexer.line.lexer.cursor.offset
      lexer.line.lexer.cursor.rest ts) :
    Tiles (.ofText source) lexer.cursor.offset lexer.cursor.rest
      (spelled lexer.line.tokens ++ ts) := by
  obtain ⟨stands, rest⟩ := past_indent_standsIn h
  have split := Text.Reading.span_splits Line.isIndent lexer.cursor.rest
  have margin (after : List Char) : Gap lexer.ahead.indent after := by
    apply gap_of_blank
    intro c member
    rcases Line.isIndent_iff.mp (isIndent_of_mem_indent c member) with rfl | rfl <;> decide
  have same := indented_cursor lexer
  refine tiles_past_gap split (margin _) ?_
  rcases line_cases lexer with ⟨empty, e⟩ | ⟨_, stops, e⟩ | ⟨_, _, e⟩
  · -- what is skipped is the gap that an empty body would have left
    obtain ⟨none, ending⟩ := Line.of_isEmpty empty
    rw [e] at later ⊢
    have nothing : spelled ((lexer.past lexer.ahead.indent).body lexer.ahead).tokens = [] := by
      rw [body_of_no_pieces _ none, spelled_ending]
    have tiled : Tiles (.ofText source) _ _
        (spelled ((lexer.past lexer.ahead.indent).body lexer.ahead).tokens ++ ts) :=
      body_tiles stands rest ((body_stop? _ lexer.ahead).mpr ending) later
    rw [nothing] at tiled
    exact tiled
  · rw [e] at ok
    contradiction
  · rw [e] at ok later ⊢
    rw [Step.after_tokens, spelled_append, spelled_indented, List.nil_append]
    have tiled := body_tiles (same ▸ stands) (same ▸ rest) ok later
    rwa [same] at tiled

theorem lines_tiles {source : List Char} {lexer : Lexer} (h : lexer.cursor.StandsIn source)
    (ok : lexer.lines.stop? = none) :
    Tiles (.ofText source) lexer.cursor.offset lexer.cursor.rest (spelled lexer.lines.tokens) := by
  fun_induction lines lexer with
  | case1 lexer done =>
    rw [done]
    exact .gap .nil
  | case2 lexer _ line s hs => exact absurd ok (by rw [hs]; simp)
  | case3 lexer _ line hs following ih =>
    rw [spelled_append]
    exact line_tiles h hs (ih (line_standsIn h) ok)

/-- The tokens of a text, block and line ends apart, are spelled out in it one after the other, each
where its position says, and between them lie only blanks and whole comments. -/
theorem tokenize_lossless {text : List Char} {options : Options} {tokens : List Token}
    (h : tokenize text options = .ok tokens) :
    Tiles (.ofText text) 0 text (tokens.filter (!·.kind.isLayout)) := by
  obtain ⟨ok, rfl⟩ := tokenize_eq_ok_iff.mp h
  rw [run_stop?] at ok
  have tiled := lines_tiles (Cursor.ofText_standsIn text) ok
  rcases run_cases (ofText text options) with ⟨stops, _⟩ | ⟨_, e⟩
  · contradiction
  · show Tiles _ 0 text (spelled _)
    rwa [e, Step.after_tokens, spelled_append, spelled_finish, List.append_nil]

theorem tokenize_lossless_block :
    tokenize "if x:\n\tf(1_0.5E3, # é\r\n\ty)\r\nz".toList {} =
      .ok [⟨⟨1, 1⟩, .keyword .if_⟩, ⟨⟨1, 4⟩, .id "x"⟩, ⟨⟨1, 5⟩, .punct .colon⟩,
        ⟨⟨1, 6⟩, .newLine⟩, ⟨⟨2, 1⟩, .indent⟩, ⟨⟨2, 2⟩, .id "f"⟩, ⟨⟨2, 3⟩, .punct .openParen⟩,
        ⟨⟨2, 4⟩, .float "10.5e3"⟩, ⟨⟨2, 11⟩, .punct .comma⟩, ⟨⟨3, 2⟩, .id "y"⟩,
        ⟨⟨3, 3⟩, .punct .closeParen⟩, ⟨⟨3, 4⟩, .newLine⟩, ⟨⟨4, 1⟩, .dedent⟩, ⟨⟨4, 1⟩, .id "z"⟩] ∧
    Tiles (.ofText "if x:\n\tf(1_0.5E3, # é\r\n\ty)\r\nz".toList) 0
      "if x:\n\tf(1_0.5E3, # é\r\n\ty)\r\nz".toList
      [⟨⟨1, 1⟩, .keyword .if_⟩, ⟨⟨1, 4⟩, .id "x"⟩, ⟨⟨1, 5⟩, .punct .colon⟩,
        ⟨⟨2, 2⟩, .id "f"⟩, ⟨⟨2, 3⟩, .punct .openParen⟩, ⟨⟨2, 4⟩, .float "10.5e3"⟩,
        ⟨⟨2, 11⟩, .punct .comma⟩, ⟨⟨3, 2⟩, .id "y"⟩, ⟨⟨3, 3⟩, .punct .closeParen⟩,
        ⟨⟨4, 1⟩, .id "z"⟩] := by
  refine ⟨?lexed, tokenize_lossless ?lexed⟩
  cbv

end Lexer

end Offside
