import Offside.Proofs.SpelledScans
import Offside.Proofs.TruthfulScans

/-!
Where a punctuator may stand, the spellings of all punctuators tell what a lexer does: it takes the
longest one that fits. Two dots without a third one are refused although a dot fits. At most two
more characters have to be looked at.
-/

namespace Offside

def Text.TwoDots (text : List Char) : Prop :=
  ['.', '.'] <+: text ∧ ¬['.', '.', '.'] <+: text

namespace Punct

/-- No punctuator at the front of a text is longer than `p`, which is one. -/
structure IsLongest (text : List Char) (p : Punct) : Prop where
  front : p.spelling <+: text
  longest : ∀ q : Punct, q.spelling <+: text → q.spelling.length ≤ p.spelling.length

def single? : Char → Option Punct
  | '(' => some openParen
  | '[' => some openBracket
  | '\x7b' => some openBrace
  | ')' => some closeParen
  | ']' => some closeBracket
  | '\x7d' => some closeBrace
  | '.' => some dot
  | ',' => some comma
  | ':' => some colon
  | ';' => some semicolon
  | '~' => some tilde
  | '^' => some caret
  | '+' => some plus
  | '*' => some asterisk
  | '/' => some slash
  | '%' => some percent
  | '!' => some exclamation
  | '=' => some equals
  | '-' => some minus
  | '&' => some ampersand
  | '|' => some bar
  | '<' => some less
  | '>' => some greater
  | _ => none

def double : Char → List (Char × Punct)
  | '!' => [('=', notEquals)]
  | '=' => [('=', equalsEquals), ('>', fatArrow)]
  | '-' => [('>', arrow)]
  | '&' => [('&', andAnd)]
  | '|' => [('|', orOr)]
  | '<' => [('<', shiftLeft), ('=', lessEquals)]
  | '>' => [('>', shiftRight), ('=', greaterEquals)]
  | '?' => [('.', questionDot)]
  | _ => []

/-- The punctuator at the front of `c :: rest`, found by one look at the character behind `c`. -/
def lookAhead? (c : Char) (rest : List Char) : Option Punct :=
  (((double c).find? (rest.head? = some ·.1)).map (·.2)).or (single? c)

variable {text : List Char} {p q : Punct}

theorem IsLongest.unique (h : IsLongest text p) (other : IsLongest text q) : p = q := by
  have length : p.spelling.length = q.spelling.length :=
    Nat.le_antisymm (other.longest p h.front) (h.longest q other.front)
  apply spelling_injective
  exact (List.prefix_of_prefix_length_le h.front other.front length.le).eq_of_length length

theorem longest?_eq_some_iff : longest? text = some p ↔ IsLongest text p := by
  have sound (q : Punct) (found : longest? text = some q) : IsLongest text q :=
    ⟨spelling_prefix_of_longest? found, fun r => length_le_of_longest? found⟩
  constructor
  · exact sound p
  · intro h
    obtain ⟨q, found⟩ := exists_longest? h.front
    rw [found, h.unique (sound q found)]

theorem longest?_eq_none_iff : longest? text = none ↔ ∀ p : Punct, ¬p.spelling <+: text := by
  constructor
  · exact Lexeme.not_prefix_of_longest?
  · intro none
    cases found : longest? text with
    | none => rfl
    | some p => exact absurd (spelling_prefix_of_longest? found) (none p)

theorem single?_eq_some_iff {c : Char} : single? c = some p ↔ p.spelling = [c] := by
  constructor
  · intro h
    unfold single? at h
    split at h <;> cases h <;> rfl
  · intro h
    cases p <;> cases h <;> rfl

theorem mem_double_iff {c d : Char} : (d, p) ∈ double c ↔ p.spelling = [c, d] := by
  constructor
  · intro member
    have spelled : ∀ next ∈ double c, next.2.spelling = [c, next.1] := by
      unfold double
      split <;> simp [spelling]
    exact spelled (d, p) member
  · intro h
    cases p <;> cases h <;> simp [double]

theorem head?_spelling {c : Char} {rest : List Char} (front : p.spelling <+: c :: rest) :
    p.spelling.head? = some c := by
  obtain ⟨d, more, spelled⟩ := List.exists_cons_of_ne_nil p.spelling_ne_nil
  rw [spelled] at front ⊢
  rw [(List.cons_prefix_cons.mp front).1]
  rfl

theorem eq_single_or_double (p : Punct) :
    p = spread ∨ (∃ c, p.spelling = [c]) ∨ ∃ c d, p.spelling = [c, d] := by
  cases p <;> simp [spelling]

theorem front_cases {c : Char} {rest : List Char} (other : c ≠ '.')
    (front : p.spelling <+: c :: rest) :
    p.spelling = [c] ∨ ∃ d, rest.head? = some d ∧ p.spelling = [c, d] := by
  rcases p.eq_single_or_double with rfl | ⟨d, one⟩ | ⟨d, e, two⟩
  · exact absurd (List.cons_prefix_cons.mp front).1.symm other
  · rw [one, List.cons_prefix_cons] at front
    exact .inl (front.1 ▸ one)
  · rw [two, List.cons_prefix_cons] at front
    obtain ⟨rfl, _, rfl⟩ := front
    exact .inr ⟨e, rfl, two⟩

theorem lookAhead?_isLongest {c : Char} {rest : List Char} (other : c ≠ '.')
    (found : lookAhead? c rest = some p) : IsLongest (c :: rest) p := by
  unfold lookAhead? at found
  cases next : (double c).find? (rest.head? = some ·.1) with
  | some pair =>
    obtain ⟨d, q⟩ := pair
    rw [next] at found
    obtain rfl : q = p := Option.some.inj found
    have two : q.spelling = [c, d] := mem_double_iff.mp (List.mem_of_find?_eq_some next)
    have head : rest.head? = some d := by simpa using List.find?_some next
    obtain ⟨behind, rfl⟩ := List.head?_eq_some_iff.mp head
    refine ⟨two ▸ ⟨behind, rfl⟩, ?_⟩
    intro r front
    rcases front_cases other front with spelled | ⟨e, _, spelled⟩
    · simp [spelled, two]
    · simp [spelled, two]
  | none =>
    rw [next] at found
    have one : p.spelling = [c] := single?_eq_some_iff.mp found
    refine ⟨one ▸ ⟨rest, rfl⟩, ?_⟩
    intro q front
    rcases front_cases other front with spelled | ⟨d, head, spelled⟩
    · simp [spelled, one]
    · have refused := List.find?_eq_none.mp next (d, q) (mem_double_iff.mpr spelled)
      exact absurd (decide_eq_true head) refused

theorem longest?_eq_lookAhead? {c : Char} (other : c ≠ '.') (rest : List Char) :
    longest? (c :: rest) = lookAhead? c rest := by
  cases found : lookAhead? c rest with
  | some p => exact longest?_eq_some_iff.mpr (lookAhead?_isLongest other found)
  | none =>
    rw [lookAhead?, Option.or_eq_none_iff, Option.map_eq_none_iff] at found
    obtain ⟨noDouble, noSingle⟩ := found
    rw [longest?_eq_none_iff]
    intro p front
    rcases front_cases other front with one | ⟨d, head, two⟩
    · rw [single?_eq_some_iff.mpr one] at noSingle
      contradiction
    · have refused := List.find?_eq_none.mp noDouble (d, p) (mem_double_iff.mpr two)
      exact refused (decide_eq_true head)

/-- A dot is the longest punctuator where no three dots stand. -/
theorem dot_isLongest {rest : List Char} (few : ¬['.', '.', '.'] <+: '.' :: rest) :
    IsLongest ('.' :: rest) dot := by
  refine ⟨⟨rest, rfl⟩, ?_⟩
  intro q front
  have dots : ∀ q ∈ all, q.spelling.head? = some '.' → q = spread ∨ q = dot := by decide
  rcases dots q q.mem_all (head?_spelling front) with rfl | rfl
  · exact absurd front few
  · exact Nat.le_refl _

theorem spread_isLongest {rest : List Char} (front : ['.', '.', '.'] <+: '.' :: rest) :
    IsLongest ('.' :: rest) spread := by
  refine ⟨front, ?_⟩
  intro q _
  cases q <;> decide

end Punct

namespace Lexeme

/-- The punctuator at the front of the text `c :: rest`, found by looking ahead. Behind a dot, up to
two more dots are looked for. -/
def lookAhead (c : Char) (rest : List Char) : Scan Token.Kind :=
  if c = '.' ∧ rest[0]? = some '.' then
    if rest[1]? = some '.' then
      .ok { value := .punct .spread, text := ['.', '.', '.'], rest := rest.drop 2 }
    else .error { fault := .malformedSpread, before := [], text := ['.', '.'] }
  else
    match Punct.lookAhead? c rest with
    | some p =>
      .ok { value := .punct p, text := p.spelling, rest := (c :: rest).drop p.spelling.length }
    | none => .error { fault := noPunctuator c, before := [], text := [c] }

theorem twoDots_iff {c : Char} {rest : List Char} :
    Text.TwoDots (c :: rest) ↔ c = '.' ∧ rest[0]? = some '.' ∧ rest[1]? ≠ some '.' := by
  rcases rest with _ | ⟨d, rest⟩
  · simp [Text.TwoDots]
  · rcases rest with _ | ⟨e, rest⟩
    · simp [Text.TwoDots, eq_comm]
    · simp only [Text.TwoDots, List.cons_prefix_cons, List.nil_prefix, and_true, ne_eq, eq_comm,
        List.getElem?_cons_zero, List.getElem?_cons_succ, Option.some.injEq]
      tauto

/-- A dot is taken for one unless it is the first of three. -/
theorem longest?_dots (rest : List Char) :
    Punct.longest? ('.' :: rest) =
      if rest[0]? = some '.' ∧ rest[1]? = some '.' then some .spread else some .dot := by
  split
  · rename_i three
    rcases rest with _ | ⟨c, _ | ⟨d, after⟩⟩
    · cases three.1
    · cases three.2
    · obtain ⟨⟨⟩, ⟨⟩⟩ := three
      exact Punct.longest?_eq_some_iff.mpr (Punct.spread_isLongest ⟨after, rfl⟩)
  · rename_i few
    refine Punct.longest?_eq_some_iff.mpr (Punct.dot_isLongest ?_)
    rintro ⟨after, ⟨⟩⟩
    exact few ⟨rfl, rfl⟩

theorem punctuator_eq_lookAhead (c : Char) (rest : List Char) :
    punctuator c rest = lookAhead c rest := by
  by_cases dot : c = '.'
  · subst dot
    have alone : Punct.lookAhead? '.' rest = some .dot := rfl
    simp only [punctuator, lookAhead, longest?_dots, alone, true_and, List.head?_eq_getElem?]
    by_cases second : rest[0]? = some '.'
    · by_cases third : rest[1]? = some '.'
      · simp [second, third, Punct.spelling]
      · simp [second, third]
    · simp [second]
  · have other (p : Punct) (found : Punct.lookAhead? c rest = some p) : p ≠ .dot := by
      rintro rfl
      have front := (Punct.lookAhead?_isLongest dot found).front
      exact dot (List.cons_prefix_cons.mp front).1.symm
    simp only [punctuator, lookAhead, Punct.longest?_eq_lookAhead? dot, dot, false_and, if_false]
    cases found : Punct.lookAhead? c rest with
    | none => rfl
    | some p => simp [other p found]

/-- What stands where a punctuator may stand: two dots, or the longest punctuator there, or nothing
that is one. -/
theorem punctuator_cases (c : Char) (rest : List Char) :
    (Text.TwoDots (c :: rest) ∧ punctuator c rest =
      .error { fault := .malformedSpread, before := [], text := ['.', '.'] }) ∨
    (¬Text.TwoDots (c :: rest) ∧ ∃ p : Punct, p.IsLongest (c :: rest) ∧ punctuator c rest =
      .ok { value := .punct p, text := p.spelling, rest := (c :: rest).drop p.spelling.length }) ∨
    (¬Text.TwoDots (c :: rest) ∧ (∀ p : Punct, ¬p.spelling <+: c :: rest) ∧
      punctuator c rest = .error { fault := noPunctuator c, before := [], text := [c] }) := by
  unfold punctuator
  rw [List.head?_eq_getElem?]
  cases found : Punct.longest? (c :: rest) with
  | none =>
    have none := Punct.longest?_eq_none_iff.mp found
    refine .inr (.inr ⟨?_, none, rfl⟩)
    intro two
    obtain ⟨rfl, _⟩ := twoDots_iff.mp two
    exact none .dot ⟨rest, rfl⟩
  | some p =>
    have longest := Punct.longest?_eq_some_iff.mp found
    by_cases refused : p = .dot ∧ rest[0]? = some '.'
    · obtain ⟨rfl, second⟩ := refused
      have first : c = '.' := (List.cons_prefix_cons.mp longest.front).1.symm
      subst first
      refine .inl ⟨twoDots_iff.mpr ⟨rfl, second, ?_⟩, by simp [second]⟩
      intro third
      rw [longest?_dots, if_pos ⟨second, third⟩] at found
      contradiction
    · refine .inr (.inl ⟨?_, p, longest, by simp [refused]⟩)
      intro two
      obtain ⟨rfl, second, few⟩ := twoDots_iff.mp two
      rw [longest?_dots, if_neg fun three => few three.2] at found
      exact refused ⟨(Option.some.inj found).symm, second⟩

theorem scan_eq_punctuator {c : Char} (quote : isQuote c = false) (word : isWordStart c = false)
    (digit : c.isDigit = false) (rest : List Char) : scan c rest = punctuator c rest := by
  simp only [scan, quote, word, digit, Bool.false_eq_true, if_false]

/-- Where no punctuator fits, a character is a question mark or begins no punctuator at all. -/
theorem head_of_not_prefix {c : Char} {rest : List Char}
    (none : ∀ p : Punct, ¬p.spelling <+: c :: rest) :
    c = '?' ∨ ∀ p : Punct, p.spelling.head? ≠ some c := by
  by_cases question : c = '?'
  · exact .inl question
  · refine .inr ?_
    intro p head
    obtain ⟨more, spelled⟩ := List.head?_eq_some_iff.mp head
    have stands := longest?_eq_none (Punct.longest?_eq_none_iff.mpr none) question more
    exact Punct.longest?_eq_none_iff.mp stands p (spelled ▸ List.prefix_refl _)

end Lexeme

namespace Lexer

def lexeme (lexer : Lexer) : Step :=
  match lexer.cursor.rest with
  | [] => { tokens := [], lexer }
  | c :: rest =>
    match Lexeme.scan c rest with
    | .ok r => lexer.piece (.lexeme r.value r.text)
    | .error f => lexer.ending (.failure f)

/-- The lexeme ahead becomes one token of this kind, and this text is what is taken. -/
structure Takes (lexer : Lexer) (kind : Token.Kind) (text : List Char) : Prop where
  tokens : lexer.lexeme.tokens = [⟨lexer.position, kind⟩]
  goesOn : lexer.lexeme.stop? = none
  front : text <+: lexer.cursor.rest
  cursor : lexer.lexeme.lexer.cursor = lexer.cursor.past text

/-- No token is made of what is ahead, and the fault lies at its front. -/
structure Refuses (lexer : Lexer) (fault : Fault) : Prop where
  tokens : lexer.lexeme.tokens = []
  stops : lexer.lexeme.stop? = some (.error ⟨fault, lexer.position⟩)
  depth : lexer.lexeme.lexer.depth = lexer.depth

section Lexeme

variable {lexer : Lexer} {c : Char} {rest : List Char}

theorem body_readPieces (ahead : lexer.cursor.rest = c :: rest) (blank : Text.isBlank c = false)
    (comment : c ≠ '#') :
    lexer.body (Line.readPieces lexer.cursor.rest) =
      lexer.lexeme.andThen fun next => next.body (Line.readPieces next.cursor.rest) := by
  simp only [lexeme, ahead]
  cases scanned : Lexeme.scan c rest with
  | ok r =>
    have split : r.Splits lexer.cursor.rest := ahead ▸ (Lexeme.scan_splits c rest).of_ok scanned
    have left : (lexer.behind r.value r.text).cursor.rest = r.rest :=
      Cursor.rest_past_splits split
    rw [Line.readPieces_lexeme blank comment scanned, body_lexeme, ← left]
    rfl
  | error f =>
    rw [Line.readPieces_failure blank comment scanned, body_of_no_pieces _ rfl]
    rfl

theorem Refuses.unique {f g : Fault} (h : lexer.Refuses f) (other : lexer.Refuses g) : f = g := by
  have same := h.stops.symm.trans other.stops
  cases same
  rfl

theorem Takes.not_refuses {kind : Token.Kind} {text : List Char} (h : lexer.Takes kind text)
    (f : Fault) : ¬lexer.Refuses f := by
  intro refused
  have stops := refused.stops
  rw [h.goesOn] at stops
  contradiction

theorem refuses_of_scan {f : Scan.Failure} (ahead : lexer.cursor.rest = c :: rest)
    (scanned : Lexeme.scan c rest = .error f) (front : f.before = []) :
    lexer.Refuses f.fault := by
  have failed : lexer.lexeme = lexer.ending (.failure f) := by
    simp only [lexeme, ahead, scanned]
  refine ⟨by rw [failed]; rfl, ?_, by rw [failed]; rfl⟩
  rw [failed]
  simp only [ending, front, Position.past_nil]

/-- Where a punctuator may stand, a lexer refuses two dots, takes the longest punctuator, or refuses
what begins none. -/
theorem lexeme_cases (ahead : lexer.cursor.rest = c :: rest) (quote : Lexeme.isQuote c = false)
    (word : Lexeme.isWordStart c = false) (digit : c.isDigit = false) :
    (Text.TwoDots (c :: rest) ∧ lexer.Refuses .malformedSpread) ∨
    (¬Text.TwoDots (c :: rest) ∧ ∃ p : Punct, p.IsLongest (c :: rest) ∧
      lexer.Takes (.punct p) p.spelling ∧
      lexer.lexeme.lexer.depth = (Token.Kind.punct p).depthAfter lexer.depth) ∨
    (¬Text.TwoDots (c :: rest) ∧ (∀ p : Punct, ¬p.spelling <+: c :: rest) ∧
      lexer.Refuses (Lexeme.noPunctuator c)) := by
  have scan := Lexeme.scan_eq_punctuator quote word digit rest
  rcases Lexeme.punctuator_cases c rest with
    ⟨two, read⟩ | ⟨apart, p, longest, read⟩ | ⟨apart, none, read⟩
  · exact .inl ⟨two, refuses_of_scan ahead (scan.trans read) rfl⟩
  · have taken : lexer.lexeme = lexer.piece (.lexeme (.punct p) p.spelling) := by
      simp only [lexeme, ahead, scan.trans read]
    refine .inr (.inl ⟨apart, p, longest, ⟨?_, ?_, ?_, ?_⟩, ?_⟩)
    · rw [taken]
      rfl
    · rw [taken]
      rfl
    · rw [ahead]
      exact longest.front
    · rw [taken]
      rfl
    · rw [taken]
      rfl
  · exact .inr (.inr ⟨apart, none, refuses_of_scan ahead (scan.trans read) rfl⟩)

theorem takes_iff (ahead : lexer.cursor.rest = c :: rest) (quote : Lexeme.isQuote c = false)
    (word : Lexeme.isWordStart c = false) (digit : c.isDigit = false) :
    (∃ kind, lexer.Takes kind kind.text.toList) ↔
      (∃ p : Punct, p.spelling <+: c :: rest) ∧ ¬Text.TwoDots (c :: rest) := by
  rcases lexeme_cases ahead quote word digit with
    ⟨two, refused⟩ | ⟨apart, p, longest, takes, _⟩ | ⟨_, none, refused⟩
  · constructor
    · rintro ⟨kind, takes⟩
      exact absurd refused (takes.not_refuses _)
    · rintro ⟨_, apart⟩
      exact absurd two apart
  · constructor
    · intro _
      exact ⟨⟨p, longest.front⟩, apart⟩
    · intro _
      refine ⟨.punct p, ?_⟩
      rwa [Token.Kind.text, String.toList_ofList]
  · constructor
    · rintro ⟨kind, takes⟩
      exact absurd refused (takes.not_refuses _)
    · rintro ⟨⟨p, front⟩, _⟩
      exact absurd front (none p)

theorem Takes.unique {kind kind' : Token.Kind} {text text' : List Char}
    (h : lexer.Takes kind text) (other : lexer.Takes kind' text') : kind = kind' ∧ text = text' := by
  constructor
  · have same := h.tokens.symm.trans other.tokens
    cases same
    rfl
  · have same := congrArg Cursor.passed (h.cursor.symm.trans other.cursor)
    exact List.reverse_injective (List.append_cancel_right same)

theorem Takes.longest {kind : Token.Kind} {text : List Char} (h : lexer.Takes kind text)
    (ahead : lexer.cursor.rest = c :: rest) (quote : Lexeme.isQuote c = false)
    (word : Lexeme.isWordStart c = false) (digit : c.isDigit = false) :
    ∃ p : Punct, kind = .punct p ∧ text = p.spelling ∧ p.IsLongest (c :: rest) ∧
      lexer.lexeme.lexer.depth = (Token.Kind.punct p).depthAfter lexer.depth := by
  rcases lexeme_cases ahead quote word digit with
    ⟨_, refused⟩ | ⟨_, p, longest, takes, depth⟩ | ⟨_, _, refused⟩
  · exact absurd refused (h.not_refuses _)
  · obtain ⟨rfl, rfl⟩ := h.unique takes
    exact ⟨p, rfl, rfl, longest, depth⟩
  · exact absurd refused (h.not_refuses _)

theorem refuses_iff (ahead : lexer.cursor.rest = c :: rest) (quote : Lexeme.isQuote c = false)
    (word : Lexeme.isWordStart c = false) (digit : c.isDigit = false) (f : Fault) :
    lexer.Refuses f ↔
      (f = .malformedSpread ∧ Text.TwoDots (c :: rest)) ∨
      (f = .malformedConditionalDot ∧ ['?'] <+: c :: rest ∧ ¬['?', '.'] <+: c :: rest) ∨
      (f = .unrecognizedOperator c ∧ ∀ p : Punct, p.spelling.head? ≠ some c) := by
  rcases lexeme_cases ahead quote word digit with
    ⟨two, refused⟩ | ⟨apart, p, longest, takes, _⟩ | ⟨apart, none, refused⟩
  · have dot : c = '.' := (Lexeme.twoDots_iff.mp two).1
    subst dot
    constructor
    · intro h
      exact .inl ⟨h.unique refused, two⟩
    · rintro (⟨rfl, _⟩ | ⟨_, question, _⟩ | ⟨_, begins⟩)
      · exact refused
      · exact absurd (List.cons_prefix_cons.mp question).1 (by decide)
      · exact absurd rfl (begins .dot)
  · constructor
    · intro h
      exact absurd h (takes.not_refuses f)
    · rintro (⟨_, two⟩ | ⟨_, question, alone⟩ | ⟨_, begins⟩)
      · exact absurd two apart
      -- a punctuator fits that begins with the question mark, and that is "?."
      · have only : ∀ p ∈ Punct.all, p.spelling.head? = some '?' → p = .questionDot := by decide
        have head := Punct.head?_spelling longest.front
        rw [← (List.cons_prefix_cons.mp question).1] at head
        obtain rfl := only p p.mem_all head
        exact absurd longest.front alone
      · exact absurd (Punct.head?_spelling longest.front) (begins p)
  · constructor
    · intro h
      obtain rfl := h.unique refused
      unfold Lexeme.noPunctuator
      split
      · rename_i question
        subst question
        exact .inr (.inl ⟨rfl, ⟨rest, rfl⟩, none .questionDot⟩)
      · rename_i other
        exact .inr (.inr ⟨rfl, (Lexeme.head_of_not_prefix none).resolve_left other⟩)
    · rintro (⟨_, two⟩ | ⟨rfl, question, _⟩ | ⟨rfl, begins⟩)
      · exact absurd two apart
      · have head : '?' = c := (List.cons_prefix_cons.mp question).1
        subst head
        exact refused
      · have other : c ≠ '?' := by
          rintro rfl
          exact begins .questionDot rfl
        rwa [Lexeme.noPunctuator, if_neg other] at refused

/-- Where a line goes on and no gap, comment, string literal, number or word is ahead, the spellings
of all punctuators tell what is. One of them is taken if one fits and two dots do not stand alone,
and it is the longest that fits; brackets are counted. Otherwise the fault lies where the lexer
stands, and the text ahead tells which of three it is. -/
theorem lexeme_takes_longest (ahead : lexer.cursor.rest = c :: rest)
    (blank : Text.isBlank c = false) (comment : c ≠ '#') (quote : Lexeme.isQuote c = false)
    (word : Lexeme.isWordStart c = false) (digit : c.isDigit = false) :
    lexer.body (Line.readPieces lexer.cursor.rest) =
      lexer.lexeme.andThen (fun next => next.body (Line.readPieces next.cursor.rest)) ∧
    Lexeme.scan c rest = Lexeme.lookAhead c rest ∧
    ((∃ kind, lexer.Takes kind kind.text.toList) ↔
      (∃ p : Punct, p.spelling <+: c :: rest) ∧ ¬Text.TwoDots (c :: rest)) ∧
    (∀ kind text, lexer.Takes kind text → ∃ p : Punct, kind = .punct p ∧ text = p.spelling ∧
      p.IsLongest (c :: rest) ∧
      (p ∈ [.openParen, .openBracket, .openBrace] →
        lexer.lexeme.lexer.depth = lexer.depth + 1) ∧
      (p ∈ [.closeParen, .closeBracket, .closeBrace] →
        lexer.lexeme.lexer.depth = lexer.depth - 1) ∧
      (p ∉ [.openParen, .openBracket, .openBrace, .closeParen, .closeBracket, .closeBrace] →
        lexer.lexeme.lexer.depth = lexer.depth)) ∧
    ((∀ kind text, ¬lexer.Takes kind text) → ∃ f, lexer.Refuses f) ∧
    ∀ f, lexer.Refuses f ↔
      (f = .malformedSpread ∧ Text.TwoDots (c :: rest)) ∨
      (f = .malformedConditionalDot ∧ ['?'] <+: c :: rest ∧ ¬['?', '.'] <+: c :: rest) ∨
      (f = .unrecognizedOperator c ∧ ∀ p : Punct, p.spelling.head? ≠ some c) := by
  refine ⟨body_readPieces ahead blank comment, ?_, takes_iff ahead quote word digit, ?_, ?_,
    refuses_iff ahead quote word digit⟩
  · rw [Lexeme.scan_eq_punctuator quote word digit, Lexeme.punctuator_eq_lookAhead]
  · intro kind text takes
    obtain ⟨p, same, spelled, longest, depth⟩ := takes.longest ahead quote word digit
    refine ⟨p, same, spelled, longest, ?_⟩
    rw [depth]
    cases p <;> simp [Token.Kind.depthAfter, Punct.opensBracket, Punct.closesBracket]
  · intro none
    rcases lexeme_cases ahead quote word digit with ⟨_, refused⟩ | ⟨_, p, _, takes, _⟩ |
      ⟨_, _, refused⟩
    · exact ⟨_, refused⟩
    · exact absurd takes (none _ _)
    · exact ⟨_, refused⟩

theorem lexeme_takes_longest_shiftLeft :
    (ofText "<<=".toList {}).lexeme.tokens = [⟨.start, .punct .shiftLeft⟩] ∧
    Punct.shiftLeft.IsLongest "<<=".toList ∧
    ∀ f, ¬(ofText "<<=".toList {}).Refuses f := by
  have takes : (ofText "<<=".toList {}).Takes (.punct .shiftLeft) ['<', '<'] :=
    ⟨rfl, rfl, ⟨['='], rfl⟩, rfl⟩
  have ahead : (ofText "<<=".toList {}).cursor.rest = '<' :: ['<', '='] := rfl
  obtain ⟨_, _, _, longest, _⟩ :=
    lexeme_takes_longest ahead (by decide) (by decide) (by decide) (by decide) (by decide)
  obtain ⟨p, same, _, front, _⟩ := longest _ _ takes
  cases same
  exact ⟨takes.tokens, front, takes.not_refuses⟩

end Lexeme

end Lexer

end Offside
