import Offside.Proofs.LexerPlaces
import Offside.Proofs.Marks

/-!
Line breaks and the tokens of a text. What tells whether a line break should have a token of its own
can be read off the text and the tokens: whether it is inside a string literal, whether its line
holds anything, whether a comment ends with it and how many brackets are open. A lexer in the middle
of a run knows it too.
-/

namespace Offside

open Text

/-- A line break begins with the character that has the index `n`. The second half of a "\r\n"
begins none. -/
def Text.BreaksAt (text : List Char) (n : Nat) : Prop :=
  (∃ c, text[n]? = some c ∧ isBreak c = true) ∧ Cut (text.take n) (text.drop n)

/-- The character with the index `n` belongs to a string literal that has its token among
`tokens`. -/
def InLiteral (text : List Char) (tokens : List Token) (n : Nat) : Prop :=
  ∃ i quote literal value, Lexeme.isQuote quote = true ∧ Lexeme.IsLiteral quote literal value ∧
    literal <+: text.drop i ∧ i ≤ n ∧ n < i + literal.length ∧
    ⟨placeOf text i, .str (String.ofList value)⟩ ∈ tokens

/-- Between the last line break outside of literals and the index `n`, the text holds something
other than spaces and tabs. -/
def FilledBefore (text : List Char) (tokens : List Token) (n : Nat) : Prop :=
  ∃ i c, i < n ∧ text[i]? = some c ∧ c ≠ ' ' ∧ c ≠ '\t' ∧
    ∀ j d, i ≤ j → j < n → text[j]? = some d → isBreak d = true → InLiteral text tokens j

/-- A comment reaches up to the index `n`. -/
def EndsComment (text : List Char) (tokens : List Token) (n : Nat) : Prop :=
  ∃ i, i < n ∧ text[i]? = some '#' ∧ ¬InLiteral text tokens i ∧
    ∀ j d, i < j → j < n → text[j]? = some d → isBreak d = false

/-- The number of brackets that `tokens` leave open: one more for every opening bracket, and one
less, but never below none, for every closing one. -/
def bracketsOpen (tokens : List Token) : Nat :=
  tokens.foldl (fun depth t =>
    if t.kind ∈ [.punct .openParen, .punct .openBracket, .punct .openBrace] then depth + 1
    else if t.kind ∈ [.punct .closeParen, .punct .closeBracket, .punct .closeBrace] then depth - 1
    else depth) 0

def tokensBefore (tokens : List Token) (place : Position) : List Token :=
  tokens.filter (·.position < place)

def LineBegins (text : List Char) (tokens : List Token) (n : Nat) : Prop :=
  n = 0 ∨ ∃ i c, n = i + 1 ∧ text[i]? = some c ∧ isBreak c = true ∧ ¬InLiteral text tokens i

theorem cut_of_literal {text literal value : List Char} {quote : Char} {i : Nat}
    (quotes : Lexeme.isQuote quote = true) (isLiteral : Lexeme.IsLiteral quote literal value)
    (front : literal <+: text.drop i) : Cut (text.take i) (text.drop i) := by
  obtain ⟨inside, rfl, _⟩ := isLiteral
  obtain ⟨rest, split⟩ := front
  have here : text[i]? = some quote := by
    rw [← List.head?_drop, ← split]
    rfl
  apply cut_of_getElem? here
  rintro rfl
  contradiction

theorem length_of_literal {text literal value : List Char} {quote : Char} {i : Nat}
    (isLiteral : Lexeme.IsLiteral quote literal value) (front : literal <+: text.drop i) :
    i + literal.length ≤ text.length := by
  have some : 0 < literal.length := by
    obtain ⟨inside, rfl, _⟩ := isLiteral
    exact Nat.succ_pos _
  have := front.length_le
  rw [List.length_drop] at this
  omega

theorem bracketsOpen_concat (tokens : List Token) (t : Token) :
    bracketsOpen (tokens ++ [t]) = t.kind.depthAfter (bracketsOpen tokens) := by
  simp only [bracketsOpen, List.foldl_append, List.foldl_cons, List.foldl_nil]
  generalize tokens.foldl _ 0 = depth
  cases t.kind with
  | punct p => cases p <;> rfl
  | _ => rfl

theorem bracketsOpen_of_layout {new : List Token} (layout : ∀ t ∈ new, t.kind.isLayout = true)
    (tokens : List Token) : bracketsOpen (tokens ++ new) = bracketsOpen tokens := by
  induction new generalizing tokens with
  | nil => rw [List.append_nil]
  | cons t new ih =>
    have same : t.kind.depthAfter (bracketsOpen tokens) = bracketsOpen tokens := by
      have first := layout t (by simp)
      cases h : t.kind with
      | punct p =>
        rw [h] at first
        contradiction
      | _ => rfl
    have later : ∀ u ∈ new, u.kind.isLayout = true := fun u member => layout u (by simp [member])
    rw [← List.singleton_append, ← List.append_assoc, ih later, bracketsOpen_concat, same]

theorem bracketsOpen_filter {keeps : Token → Bool} {tokens : List Token}
    (h : ∀ t ∈ tokens, keeps t = true ∨ t.kind = .dedent) :
    bracketsOpen (tokens.filter keeps) = bracketsOpen tokens := by
  induction tokens using List.reverseRecOn with
  | nil => rfl
  | append_singleton tokens t ih =>
    have before := ih fun u member => h u (by simp [member])
    rw [List.filter_append, bracketsOpen_concat, ← before]
    by_cases kept : keeps t = true
    · rw [List.filter_cons_of_pos kept, List.filter_nil, bracketsOpen_concat]
    · have closes : t.kind = .dedent := (h t (by simp)).resolve_left kept
      rw [List.filter_cons_of_neg kept, List.filter_nil, List.append_nil, closes]
      rfl

/-- A lexer in the middle of a run over a text: of all the tokens of the run, `made` are those that
it has made, and `due` those that it will make. -/
structure Lexer.Reached (text : List Char) (tokens made due : List Token) (lexer : Lexer) :
    Prop where
  stands : lexer.cursor.StandsIn text
  whole : tokens = made ++ due
  before : OrderedTo lexer.position made
  after : ∀ t ∈ due, lexer.position ≤ t.position
  depth : lexer.depth = bracketsOpen made
  /-- No literal reaches beyond the lexer. -/
  closed : ∀ i quote literal value, Lexeme.isQuote quote = true →
    Lexeme.IsLiteral quote literal value → literal <+: text.drop i →
    ⟨placeOf text i, .str (String.ofList value)⟩ ∈ made →
    i + literal.length ≤ lexer.cursor.passed.length

namespace Lexer

namespace Reached

variable {text front : List Char} {tokens made due new later : List Token}
variable {lexer next : Lexer} {n : Nat} {c : Char}

section Here

variable (h : lexer.Reached text tokens made due)

include h

theorem take : text.take lexer.index = lexer.cursor.passed.reverse := by
  rw [← h.stands.split, index, ← List.length_reverse, List.take_left]

theorem drop : text.drop lexer.index = lexer.cursor.rest := by
  rw [← h.stands.split, index, ← List.length_reverse, List.drop_left]

theorem cut : Cut (text.take lexer.index) (text.drop lexer.index) := by
  rw [h.take, h.drop]
  exact h.stands.cut

theorem index_le : lexer.index ≤ text.length := by
  rw [← h.stands.split, index, List.length_append, List.length_reverse]
  exact Nat.le_add_right _ _

theorem position : lexer.position = placeOf text lexer.index := by
  rw [placeOf, h.take]
  exact h.stands.position

theorem getElem? (k : Nat) : text[lexer.index + k]? = lexer.cursor.rest[k]? := by
  rw [← h.drop, List.getElem?_drop]

theorem getElem?_index {after : List Char} (ahead : lexer.cursor.rest = c :: after) :
    text[lexer.index]? = some c := by
  rw [← Nat.add_zero lexer.index, h.getElem?, ahead]
  rfl

theorem mem_of_getElem? (within : front <+: lexer.cursor.rest) (low : lexer.index ≤ n)
    (high : n < lexer.index + front.length) (here : text[n]? = some c) : c ∈ front := by
  obtain ⟨k, rfl⟩ := Nat.exists_eq_add_of_le low
  have inside : k < front.length := by omega
  obtain ⟨more, split⟩ := within
  rw [h.getElem?, ← split, List.getElem?_append_left inside] at here
  exact List.mem_of_getElem? here

/-- The brackets that a lexer counts are those open in front of it. -/
theorem depth_eq : lexer.depth = bracketsOpen (tokensBefore tokens (placeOf text lexer.index)) := by
  have none : tokensBefore due (placeOf text lexer.index) = [] := by
    rw [tokensBefore, List.filter_eq_nil_iff]
    intro t member
    have := h.after t member
    rw [h.position] at this
    simpa using this.not_gt
  rw [h.depth, h.whole, tokensBefore, List.filter_append, ← tokensBefore, ← tokensBefore, none,
    List.append_nil, tokensBefore, bracketsOpen_filter]
  intro t member
  rw [← h.position]
  rcases h.before.reached t member with earlier | ⟨_, closes⟩
  · exact .inl (by simpa using earlier)
  · exact .inr closes

end Here

/-- What lies between two places that a lexer reaches, without a literal among the tokens from
there, is inside no literal. -/
theorem not_inLiteral (h : lexer.Reached text tokens made due)
    (h' : next.Reached text tokens (made ++ new) later)
    (plain : ∀ t ∈ new, ∀ value, t.kind ≠ .str value) (low : lexer.index ≤ n)
    (high : n < next.index) : ¬InLiteral text tokens n := by
  rintro ⟨i, quote, literal, value, quotes, isLiteral, front, begins, inside, member⟩
  rw [h'.whole, List.mem_append, List.mem_append] at member
  rcases member with (earlier | here) | further
  · have := h.closed i quote literal value quotes isLiteral front earlier
    rw [index] at low
    omega
  · exact plain _ here _ rfl
  · have later := h'.after _ further
    rw [h'.position] at later
    exact (placeOf_lt (cut_of_literal quotes isLiteral front) (by omega) h'.index_le).not_ge later

/-- Of the line ends between two places that a lexer reaches, the tokens from there tell. -/
theorem newLine_mem_iff (h : lexer.Reached text tokens made due)
    (h' : next.Reached text tokens (made ++ new) later) (low : lexer.index ≤ n)
    (high : n < next.index) (cut : Cut (text.take n) (text.drop n)) :
    ⟨placeOf text n, .newLine⟩ ∈ tokens ↔ ⟨placeOf text n, .newLine⟩ ∈ new := by
  rw [h'.whole, List.mem_append, List.mem_append]
  constructor
  · rintro ((earlier | here) | further)
    · rcases h.before.reached _ earlier with lt | ⟨_, closes⟩
      · rw [h.position] at lt
        exact absurd (placeOf_le h.cut low) lt.not_ge
      · contradiction
    · exact here
    · have later := h'.after _ further
      rw [h'.position] at later
      exact absurd later (placeOf_lt cut high h'.index_le).not_ge
  · intro here
    exact .inl (.inr here)

theorem past (h : lexer.Reached text tokens made due) (within : front <+: lexer.cursor.rest)
    (cut : CutBehind front lexer.cursor.rest)
    (after : ∀ t ∈ due, (lexer.past front).position ≤ t.position) :
    (lexer.past front).Reached text tokens made due where
  stands := h.stands.past within cut
  whole := h.whole
  before := h.before.mono (Position.le_past _ _)
  after := after
  depth := h.depth
  closed i quote literal value quotes isLiteral begins member := by
    have := h.closed i quote literal value quotes isLiteral begins member
    simp only [Lexer.past, Cursor.past, List.length_append]
    omega

/-- Past a text with a token of its own. If that is a literal, then the text is all of it. -/
theorem behind {kind : Token.Kind}
    (h : lexer.Reached text tokens made (⟨lexer.position, kind⟩ :: due))
    (some : front ≠ []) (within : front <+: lexer.cursor.rest)
    (cut : CutBehind front lexer.cursor.rest)
    (after : ∀ t ∈ due, (lexer.behind kind front).position ≤ t.position)
    (literal : ∀ quote literal value, Lexeme.isQuote quote = true →
      Lexeme.IsLiteral quote literal value → literal <+: lexer.cursor.rest →
      kind = .str (String.ofList value) → literal.length ≤ front.length) :
    (lexer.behind kind front).Reached text tokens (made ++ [⟨lexer.position, kind⟩]) due where
  stands := h.stands.past within cut
  whole := by
    rw [List.append_assoc]
    exact h.whole
  before := h.before.emit kind (Position.lt_past _ some)
  after := after
  depth := by
    rw [bracketsOpen_concat, ← h.depth]
    rfl
  closed i quote text' value quotes isLiteral begins member := by
    have length : (lexer.behind kind front).cursor.passed.length = lexer.index + front.length :=
      index_behind lexer kind front
    rw [length]
    rcases List.mem_append.mp member with earlier | here
    · have := h.closed i quote text' value quotes isLiteral begins earlier
      rw [index]
      omega
    · obtain ⟨place, same⟩ := Token.mk.inj (List.mem_singleton.mp here)
      have within := length_of_literal isLiteral begins
      rw [h.position] at place
      -- equal positions are equal places, so it is the literal at this place
      obtain rfl := placeOf_inj (cut_of_literal quotes isLiteral begins) h.cut (by omega) h.index_le
        place
      rw [h.drop] at begins
      have := literal quote text' value quotes isLiteral begins same.symm
      omega

end Reached

end Lexer

/-- Between the indices `n` and `m`, exactly the right line breaks have a token. From there, the run
makes the tokens `new`, and all line ends among them belong to line breaks outside of literals. -/
structure Marked (text : List Char) (tokens new : List Token) (n m : Nat) : Prop where
  breaks : ∀ i, n ≤ i → i < m → BreaksAt text i → ¬InLiteral text tokens i →
    (⟨placeOf text i, .newLine⟩ ∈ tokens ↔ FilledBefore text tokens i ∧ ¬EndsComment text tokens i ∧
      bracketsOpen (tokensBefore tokens (placeOf text i)) = 0)
  located : ∀ t ∈ new, t.kind = .newLine →
    ∃ i, BreaksAt text i ∧ ¬InLiteral text tokens i ∧ t.position = placeOf text i

/-- From the index `n` up to `m`, line breaks and the sign of a comment stand only in literals. -/
def Clean (text : List Char) (tokens : List Token) (n m : Nat) : Prop :=
  ∀ i c, n ≤ i → i < m → text[i]? = some c → isMark c = true → InLiteral text tokens i

/-- The index `n` is on the line that begins at `begin`, outside of comments. -/
structure OnLine (text : List Char) (tokens : List Token) (begin n : Nat) : Prop where
  begins : LineBegins text tokens begin
  le : begin ≤ n
  clean : Clean text tokens begin n

section Lines

variable {text : List Char} {tokens new more : List Token} {begin n m k : Nat} {c : Char}

theorem Clean.append (first : Clean text tokens n m) (last : Clean text tokens m k) :
    Clean text tokens n k := by
  intro i c low high
  rcases Nat.lt_or_ge i m with before | behind
  · exact first i c low before
  · exact last i c behind high

theorem Marked.append (first : Marked text tokens new n m) (last : Marked text tokens more m k) :
    Marked text tokens (new ++ more) n k where
  breaks i low high := by
    rcases Nat.lt_or_ge i m with before | behind
    · exact first.breaks i low before
    · exact last.breaks i behind high
  located t member := by
    rcases List.mem_append.mp member with earlier | later
    · exact first.located t earlier
    · exact last.located t later

theorem marked_of_no_break (none : ∀ t ∈ new, t.kind ≠ .newLine)
    (literals : ∀ i c, n ≤ i → i < m → text[i]? = some c → isBreak c = true →
      InLiteral text tokens i) : Marked text tokens new n m where
  breaks i low high := by
    rintro ⟨⟨c, here, ends⟩, _⟩ outside
    exact absurd (literals i c low high here ends) outside
  located t member newLine := absurd newLine (none t member)

theorem Marked.nil : Marked text tokens [] n n :=
  marked_of_no_break (by simp) fun i _ low high => absurd high low.not_gt

theorem Clean.marked (clean : Clean text tokens n m) (none : ∀ t ∈ new, t.kind ≠ .newLine) :
    Marked text tokens new n m :=
  marked_of_no_break none fun i c low high here ends =>
    clean i c low high here (isMark_of_isBreak ends)

theorem OnLine.extend (h : OnLine text tokens begin n) (le : n ≤ m)
    (clean : Clean text tokens n m) : OnLine text tokens begin m :=
  ⟨h.begins, h.le.trans le, h.clean.append clean⟩

theorem OnLine.not_endsComment (h : OnLine text tokens begin n) : ¬EndsComment text tokens n := by
  rintro ⟨i, before, sign, outside, inside⟩
  by_cases here : begin ≤ i
  · exact outside (h.clean i '#' here before sign rfl)
  · -- the comment would reach over the line break in front of the line
    rcases h.begins with rfl | ⟨j, c, rfl, last, ends, _⟩
    · omega
    · rcases Nat.lt_or_eq_of_le (Nat.le_of_lt_succ (Nat.lt_of_not_ge here)) with lt | rfl
      · rw [inside j c lt (by have := h.le; omega) last] at ends
        contradiction
      · rw [last] at sign
        cases sign
        contradiction

theorem OnLine.not_filled (h : OnLine text tokens begin n)
    (margin : ∀ i c, begin ≤ i → i < n → text[i]? = some c → c = ' ' ∨ c = '\t') :
    ¬FilledBefore text tokens n := by
  rintro ⟨i, c, before, here, space, tab, literals⟩
  by_cases inside : begin ≤ i
  · exact (margin i c inside before here).elim space tab
  · rcases h.begins with rfl | ⟨j, d, rfl, last, ends, outside⟩
    · omega
    · exact outside (literals j d (by omega) (by have := h.le; omega) last ends)

theorem FilledBefore.extend (h : FilledBefore text tokens n) (le : n ≤ m)
    (clean : Clean text tokens n m) : FilledBefore text tokens m := by
  obtain ⟨i, c, before, here, space, tab, literals⟩ := h
  refine ⟨i, c, before.trans_le le, here, space, tab, fun j d low high last ends => ?_⟩
  rcases Nat.lt_or_ge j n with earlier | later
  · exact literals j d low earlier last ends
  · exact clean j d later high last (isMark_of_isBreak ends)

theorem filledBefore_of_char (here : text[n]? = some c) (space : c ≠ ' ') (tab : c ≠ '\t')
    (lt : n < m) (clean : Clean text tokens n m) : FilledBefore text tokens m :=
  ⟨n, c, lt, here, space, tab, fun j d low high last ends =>
    clean j d low high last (isMark_of_isBreak ends)⟩

end Lines

end Offside
