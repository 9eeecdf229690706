import Mathlib
import Offside.Proofs.LexerSteps
import Offside.Proofs.Spelling

namespace Offside

def Token.Kind.isBlock : Token.Kind → Bool
  | indent | dedent => true
  | newLine | punct _ | keyword _ | id _ | int _ | float _ | str _ => false

theorem Token.Kind.isBlock_of_not_isLayout {kind : Token.Kind} (h : kind.isLayout = false) :
    kind.isBlock = false := by
  cases kind <;> first | rfl | contradiction

def opened (tokens : List Token) : Nat :=
  tokens.countP (·.kind = .indent)

def closed (tokens : List Token) : Nat :=
  tokens.countP (·.kind = .dedent)

/-- Tokens that neither open nor close a block. -/
def Within (tokens : List Token) : Prop :=
  ∀ t ∈ tokens, t.kind.isBlock = false

theorem Within.append {a b : List Token} (ha : Within a) (hb : Within b) : Within (a ++ b) := by
  intro t member
  rcases List.mem_append.mp member with left | right
  · exact ha t left
  · exact hb t right

theorem Within.opened_eq_zero {tokens : List Token} (h : Within tokens) : opened tokens = 0 := by
  apply List.countP_eq_zero.mpr
  intro t member
  have := h t member
  cases e : t.kind <;> simp_all [Token.Kind.isBlock]

theorem Within.closed_eq_zero {tokens : List Token} (h : Within tokens) : closed tokens = 0 := by
  apply List.countP_eq_zero.mpr
  intro t member
  have := h t member
  cases e : t.kind <;> simp_all [Token.Kind.isBlock]

theorem opened_append (a b : List Token) : opened (a ++ b) = opened a + opened b :=
  List.countP_append

theorem closed_append (a b : List Token) : closed (a ++ b) = closed a + closed b :=
  List.countP_append

/-- The tokens lead from `before` open levels to `after` of them, and on the way they close no
level that is not open. -/
structure Leads (before : Nat) (tokens : List Token) (after : Nat) : Prop where
  prefixes : ∀ p, p <+: tokens → closed p ≤ before + opened p
  levels : before + opened tokens = closed tokens + after

namespace Leads

theorem append {a b c : Nat} {first last : List Token} (h : Leads a first b)
    (further : Leads b last c) : Leads a (first ++ last) c := by
  constructor
  · intro p front
    rcases List.prefix_or_prefix_of_prefix front (List.prefix_append first last) with
      inside | ⟨q, rfl⟩
    · exact h.prefixes p inside
    · -- this prefix has all of the first part behind it, with `b` levels open there
      have := further.prefixes q ((List.prefix_append_right_inj first).mp front)
      have := h.levels
      rw [opened_append, closed_append]
      omega
  · have := h.levels
    have := further.levels
    rw [opened_append, closed_append]
    omega

theorem of_within {tokens : List Token} (h : Within tokens) (n : Nat) : Leads n tokens n := by
  constructor
  · intro p front
    have inside : Within p := fun t member => h t (front.subset member)
    rw [inside.closed_eq_zero]
    omega
  · rw [h.opened_eq_zero, h.closed_eq_zero]
    omega

theorem indent (n : Nat) (start : Position) : Leads n [⟨start, .indent⟩] (n + 1) := by
  constructor
  · intro p front
    have none : closed p ≤ 0 := front.sublist.countP_le
    omega
  · simp [opened, closed]

theorem dedents (n k : Nat) (start : Position) :
    Leads (k + n) (List.replicate k ⟨start, .dedent⟩) n := by
  constructor
  · intro p front
    have few : closed p ≤ p.length := List.countP_le_length
    have short := front.length_le
    rw [List.length_replicate] at short
    omega
  · simp [opened, closed, List.countP_replicate]

end Leads

namespace Lexer

theorem body_within (lexer : Lexer) (text : List Char) :
    Within (lexer.body (Line.readPieces text)).tokens := by
  have ending_within (lexer : Lexer) (e : Ending) : Within (lexer.ending e).tokens := by
    intro t member
    rw [kind_of_mem_ending member]
    rfl
  fun_induction Line.readPieces text generalizing lexer with
  | case1 => exact ending_within lexer .endOfText
  | case2 c rest _ =>
    rw [body_of_no_pieces _ rfl]
    exact ending_within lexer _
  | case3 c rest _ _ ih =>
    rw [body_gap]
    exact ih _
  | case4 rest _ _ =>
    rw [body_of_no_pieces _ rfl]
    exact ending_within lexer _
  | case5 c rest _ _ _ r hs ih =>
    rw [body_lexeme]
    have spelled := (Lexeme.scan_spelled hs).not_isLayout
    refine Within.append ?_ (ih _)
    intro t member
    rw [List.mem_singleton.mp member]
    exact Token.Kind.isBlock_of_not_isLayout spelled
  | case6 c rest _ _ _ f hs =>
    rw [body_of_no_pieces _ rfl]
    exact ending_within lexer _

theorem indentTo_leads (lexer : Lexer) (width : Nat) (start : Position) :
    Leads lexer.indents.size (lexer.indentTo width start).tokens
      (lexer.indentTo width start).lexer.indents.size := by
  rcases indentTo_cases lexer width start with ⟨_, e⟩ | ⟨_, e⟩
  · rw [e]
    exact .indent _ start
  · have split : (lexer.indents.closeAbove width).1 + (lexer.indents.closeAbove width).2.size =
        lexer.indents.size := by
      simp only [IndentStack.closeAbove, IndentStack.size]
      rw [← List.length_append, List.takeWhile_append_dropWhile]
    rw [e, ← split]
    exact .dedents _ _ start

theorem line_leads (lexer : Lexer) :
    Leads lexer.indents.size lexer.line.tokens lexer.line.lexer.indents.size := by
  have indented : Leads lexer.indents.size lexer.indented.tokens
      lexer.indented.lexer.indents.size :=
    indentTo_leads (lexer.past lexer.ahead.indent) _ _
  rcases line_cases lexer with ⟨_, e⟩ | ⟨_, _, e⟩ | ⟨_, _, e⟩
  · rw [e]
    show Leads _ [] (body _ _).lexer.indents.size
    rw [(body_frame _ _).1]
    exact .of_within (by simp [Within]) _
  · rw [e]
    exact indented
  · rw [e]
    refine indented.append ?_
    show Leads _ _ (body _ _).lexer.indents.size
    rw [(body_frame _ _).1]
    exact .of_within (body_within _ _) _

theorem finish_tokens (lexer : Lexer) :
    lexer.finish.tokens =
      if lexer.indents.size = 0 then []
      else ⟨lexer.position, .newLine⟩ ::
        List.replicate lexer.indents.size ⟨lexer.position, .dedent⟩ := by
  obtain ⟨cursor, ⟨widths⟩, depth, tabWidth⟩ := lexer
  cases widths <;> rfl

theorem finish_indents (lexer : Lexer) : lexer.finish.lexer.indents = .empty := by
  obtain ⟨cursor, ⟨widths⟩, depth, tabWidth⟩ := lexer
  cases widths <;> rfl

theorem finish_leads (lexer : Lexer) :
    Leads lexer.indents.size lexer.finish.tokens lexer.finish.lexer.indents.size := by
  rw [finish_tokens, finish_indents]
  split
  · rename_i none
    rw [none]
    exact .of_within (by simp [Within]) 0
  · have newLine : Within [⟨lexer.position, .newLine⟩] := by
      intro t member
      rw [List.mem_singleton.mp member]
      rfl
    exact (Leads.of_within newLine _).append (.dedents 0 _ _)

theorem runs_leads (text : List Char) (options : Options) (n : Nat) :
    Leads 0 ((ofText text options).tokensOfRuns n)
      ((ofText text options).afterRuns n).indents.size := by
  refine runs_induction (I := fun lexer tokens => Leads 0 tokens lexer.indents.size)
    ?line ?finish n (ofText text options) [] ?start
  case line =>
    intro lexer tokens h
    exact h.append (line_leads lexer)
  case finish =>
    intro lexer tokens h
    exact h.append (finish_leads lexer)
  case start => exact .of_within (by simp [Within]) 0

theorem runs_standsIn (text : List Char) (options : Options) (n : Nat) :
    ((ofText text options).afterRuns n).cursor.StandsIn text := by
  refine runs_induction (I := fun lexer _ => lexer.cursor.StandsIn text)
    ?line ?finish n (ofText text options) [] ?start
  case line =>
    intro lexer tokens h
    exact line_standsIn h
  case finish =>
    intro lexer tokens h
    rwa [finish_cursor]
  case start => exact Cursor.ofText_standsIn text

theorem afterRuns_succ (lexer : Lexer) (n : Nat) :
    lexer.afterRuns (n + 1) = (lexer.afterRuns n).run.lexer := by
  induction n generalizing lexer with
  | zero => rfl
  | succ n ih => exact ih lexer.run.lexer

theorem tokensOfRuns_succ (lexer : Lexer) (n : Nat) :
    lexer.tokensOfRuns (n + 1) = lexer.tokensOfRuns n ++ (lexer.afterRuns n).run.tokens := by
  induction n generalizing lexer with
  | zero => simp [tokensOfRuns, runs, afterRuns]
  | succ n ih =>
    have step (m : Nat) :
        lexer.tokensOfRuns (m + 1) = lexer.run.tokens ++ lexer.run.lexer.tokensOfRuns m := rfl
    rw [step, step, ih, List.append_assoc]
    rfl

theorem position_of_rest_eq_nil {text : List Char} {lexer : Lexer}
    (h : lexer.cursor.StandsIn text) (done : lexer.cursor.rest = []) :
    lexer.position = Position.start.past text := by
  have split := h.split
  rw [done, List.append_nil] at split
  rw [← split]
  exact h.position

/-- However many runs a lexer makes over a text, its tokens never close a block that is not open,
and it holds as many levels as its tokens have left open. After a run without a fault there are
none: if the lines of the run left some open, then the end of the text closes them, behind one line
end, and otherwise it adds nothing. -/
theorem runs_keep_blocks_balanced (text : List Char) (options : Options) (n : Nat) :
    let fresh := ofText text options
    let lexer := fresh.afterRuns n
    (∀ p, p <+: fresh.tokensOfRuns n → closed p ≤ opened p) ∧
    opened (fresh.tokensOfRuns n) = closed (fresh.tokensOfRuns n) + lexer.indents.size ∧
    (lexer.run.stop? = none →
      lexer.lines.lexer.cursor.rest = [] ∧
      fresh.tokensOfRuns (n + 1) = fresh.tokensOfRuns n ++ lexer.lines.tokens ++
        (if lexer.lines.lexer.indents.size = 0 then []
        else ⟨Position.start.past text, .newLine⟩ ::
          List.replicate lexer.lines.lexer.indents.size ⟨Position.start.past text, .dedent⟩) ∧
      (fresh.afterRuns (n + 1)).indents = .empty ∧
      opened (fresh.tokensOfRuns (n + 1)) = closed (fresh.tokensOfRuns (n + 1))) := by
  intro fresh lexer
  have balanced := runs_leads text options n
  refine ⟨fun p front => ?_, ?_, fun ok => ?_⟩
  · have := balanced.prefixes p front
    omega
  · rw [← balanced.levels, Nat.zero_add]
  · rw [run_stop?] at ok
    have done := lines_rest ok
    have last := position_of_rest_eq_nil (lines_standsIn (runs_standsIn text options n)) done
    rcases run_cases lexer with ⟨stops, _⟩ | ⟨_, e⟩
    · contradiction
    have empty : (fresh.afterRuns (n + 1)).indents = .empty := by
      rw [afterRuns_succ]
      show lexer.run.lexer.indents = _
      rw [e]
      exact finish_indents _
    refine ⟨done, ?_, empty, ?_⟩
    · rw [tokensOfRuns_succ, List.append_assoc]
      show _ ++ lexer.run.tokens = _
      rw [e, Step.after_tokens, finish_tokens, last]
    · have := (runs_leads text options (n + 1)).levels
      rw [show ((ofText text options).afterRuns (n + 1)).indents = .empty from empty] at this
      simpa [IndentStack.size, IndentStack.empty] using this

theorem runs_keep_blocks_balanced_two_open :
    (ofText "a\n b\n\t c".toList {}).lines.lexer.indents.size = 2 ∧
    (ofText "a\n b\n\t c".toList {}).tokensOfRuns 1 =
      (ofText "a\n b\n\t c".toList {}).tokensOfRuns 0 ++
        (ofText "a\n b\n\t c".toList {}).lines.tokens ++
        [⟨⟨3, 4⟩, .newLine⟩, ⟨⟨3, 4⟩, .dedent⟩, ⟨⟨3, 4⟩, .dedent⟩] := by
  have ok : (ofText "a\n b\n\t c".toList {}).run.stop? = none := by cbv
  have two : (ofText "a\n b\n\t c".toList {}).lines.lexer.indents.size = 2 := by cbv
  have last : Position.start.past "a\n b\n\t c".toList = ⟨3, 4⟩ := by cbv
  obtain ⟨_, tokens, _⟩ := (runs_keep_blocks_balanced "a\n b\n\t c".toList {} 0).2.2 ok
  simp only [afterRuns, Nat.zero_add, two, last] at tokens
  exact ⟨two, tokens⟩

end Lexer

end Offside
