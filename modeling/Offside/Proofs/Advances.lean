import Mathlib.Logic.Function.Iterate
import Offside.Proofs.Slices
import Offside.Proofs.UnifiedText

/-!
All moves of a cursor are made of advances. A move that succeeds goes as far as one advance, and one
that fails stays where it is. Only the move to the end of a line goes further, and it finds that end
among the bytes of the text, but it arrives where advances one by one arrive.
-/

namespace Offside.Cursor

theorem advance_rest_length_lt {cursor next : Cursor} {c : Char}
    (h : cursor.advance = .ok (c, next)) : next.rest.length < cursor.rest.length := by
  obtain ⟨d, rest, ahead, rfl⟩ := advance_eq_ok h
  rw [rest_past_splits (ahead ▸ Text.first_splits d rest), ahead]
  exact Text.first_rest_length_lt d rest

def advanceLine (cursor : Cursor) : Cursor :=
  match _h : cursor.advance with
  | .ok (c, next) => if c = '\n' then next else next.advanceLine
  | .error _ => cursor
termination_by cursor.rest.length
decreasing_by exact advance_rest_length_lt _h

def drain (cursor : Cursor) : List Char :=
  match _h : cursor.advance with
  | .ok (c, next) => c :: next.drain
  | .error _ => []
termination_by cursor.rest.length
decreasing_by exact advance_rest_length_lt _h

/-- Goes up to the next line break. The first byte of one is looked for among the bytes ahead, and
the characters up to there are counted. -/
def seekBreak? (cursor : Cursor) : Option Cursor :=
  let length := (Text.bytes cursor.rest).findIdx Text.isBreakByte
  (Text.dropBytes? length cursor.rest).map fun rest =>
    let line := cursor.rest.take (cursor.rest.length - rest.length)
    { passed := line.reverse ++ cursor.passed
      rest
      position := { cursor.position with column := cursor.position.column + line.length } }

section Moves

variable {cursor : Cursor}

theorem move_advance_of_rest {c : Char} {rest : List Char} (ahead : cursor.rest = c :: rest) :
    cursor.move .advance = cursor.past (Text.first c rest).text := by
  rw [move, advance_of_rest ahead]

theorem advance_of_rest_eq_nil (ahead : cursor.rest = []) :
    cursor.advance = .error ⟨.unexpectedEndOfInput, cursor.position⟩ := by
  simp only [advance, next?, ahead]

theorem advance_eq_error {e : LexError} (h : cursor.advance = .error e) :
    cursor.rest = [] ∧ e = ⟨.unexpectedEndOfInput, cursor.position⟩ := by
  cases ahead : cursor.rest with
  | nil =>
    rw [advance_of_rest_eq_nil ahead] at h
    cases h
    exact ⟨rfl, rfl⟩
  | cons c rest =>
    rw [advance_of_rest ahead] at h
    contradiction

theorem accept?_eq (cursor : Cursor) (wanted : Char → Bool) :
    cursor.accept? wanted =
      if cursor.current?.any wanted then some (cursor.move .advance) else none := by
  unfold accept? current?
  cases ahead : cursor.rest with
  | nil => rfl
  | cons c rest =>
    rw [move_advance_of_rest ahead]
    rfl

theorem skipLine_of_rest_eq_nil (ahead : cursor.rest = []) : cursor.skipLine = cursor := by
  obtain ⟨passed, rest, position⟩ := cursor
  subst ahead
  rfl

theorem skipLine_of_isBreak {c : Char} {rest : List Char} (ahead : cursor.rest = c :: rest)
    (ends : Text.isBreak c = true) : cursor.skipLine = cursor.move .advance := by
  have none : cursor.rest.takeWhile (!Text.isBreak ·) = [] := by simp [ahead, ends]
  have here : cursor.past [] = cursor := rfl
  rw [skipLine, none, here, acceptBreak?, accept?_eq, current?, ahead, List.head?_cons,
    Option.any_some, ends, if_pos rfl, Option.getD_some]

theorem skipLine_of_not_isBreak {c : Char} {rest : List Char} (ahead : cursor.rest = c :: rest)
    (inside : Text.isBreak c = false) : cursor.skipLine = (cursor.move .advance).skipLine := by
  have step : cursor.move .advance = cursor.past [c] := by
    rw [move_advance_of_rest ahead, Text.first_of_not_isBreak inside]
  have behind : (cursor.past [c]).rest = rest := by simp [ahead]
  have line : cursor.rest.takeWhile (!Text.isBreak ·) =
      [c] ++ rest.takeWhile (!Text.isBreak ·) := by
    simp [ahead, inside]
  have cut : Text.Cut [c] (rest.takeWhile (!Text.isBreak ·)) :=
    Text.cut_of_ne (Text.ne_of_not_isBreak inside) _
  rw [step, skipLine, skipLine, behind, line, past_append cursor cut]

theorem skipLine_eq_advanceLine (cursor : Cursor) : cursor.skipLine = cursor.advanceLine := by
  fun_induction advanceLine cursor with
  | case1 cursor next goes =>
    obtain ⟨c, rest, ahead, rfl⟩ := advance_eq_ok goes
    rw [advance_of_rest ahead, Except.ok.injEq, Prod.mk.injEq, Text.first_value] at goes
    have ends : Text.isBreak c = true := by
      rw [← Text.apply_unifyBreak (f := Text.isBreak) rfl, goes.1]
      rfl
    rw [skipLine_of_isBreak ahead ends, move_advance_of_rest ahead]
  | case2 cursor d next goes other ih =>
    obtain ⟨c, rest, ahead, rfl⟩ := advance_eq_ok goes
    rw [advance_of_rest ahead, Except.ok.injEq, Prod.mk.injEq, Text.first_value] at goes
    have inside : Text.isBreak c = false := by
      rw [← Bool.not_eq_true]
      intro ends
      exact other (goes.1.symm.trans (Text.unifyBreak_of_isBreak ends))
    rw [skipLine_of_not_isBreak ahead inside, move_advance_of_rest ahead, ih]
  | case3 cursor e stops => exact skipLine_of_rest_eq_nil (advance_eq_error stops).1

/-- The end of a line that is found among the bytes is where the line ends. -/
theorem seekBreak?_eq (cursor : Cursor) :
    cursor.seekBreak? = some (cursor.past (cursor.rest.takeWhile (!Text.isBreak ·))) := by
  have split : cursor.rest.takeWhile (!Text.isBreak ·) ++
      cursor.rest.dropWhile (!Text.isBreak ·) = cursor.rest := List.takeWhile_append_dropWhile
  have inside : ∀ c ∈ cursor.rest.takeWhile (!Text.isBreak ·), Text.isBreak c = false := by
    intro c member
    simpa using List.mem_takeWhile_imp member
  have line : cursor.rest.take
      (cursor.rest.length - (cursor.rest.dropWhile (!Text.isBreak ·)).length) =
        cursor.rest.takeWhile (!Text.isBreak ·) := by
    have length := congrArg List.length split
    rw [List.length_append] at length
    rw [← length, Nat.add_sub_cancel]
    nth_rewrite 2 [← split]
    exact List.take_left
  have behind : cursor.rest.drop (cursor.rest.takeWhile (!Text.isBreak ·)).length =
      cursor.rest.dropWhile (!Text.isBreak ·) := by
    nth_rewrite 2 [← split]
    exact List.drop_left
  simp only [seekBreak?, Text.dropBytes?_findIdx, Option.map_some, line, past, behind,
    Position.past_of_no_break _ inside]

theorem advanceLine_eq_iterate (cursor : Cursor) :
    ∃ n, cursor.advanceLine = (move · .advance)^[n] cursor := by
  fun_induction advanceLine cursor with
  | case1 cursor next goes => exact ⟨1, by simp [move, goes]⟩
  | case2 cursor c next goes _ ih =>
    obtain ⟨n, same⟩ := ih
    exact ⟨n + 1, by simp [same, move, goes]⟩
  | case3 cursor => exact ⟨0, rfl⟩

theorem accept_eq_iterate (cursor : Cursor) (wanted : Char → Bool) :
    ∃ n, (cursor.accept? wanted).getD cursor = (move · .advance)^[n] cursor := by
  rw [accept?_eq]
  split
  · exact ⟨1, rfl⟩
  · exact ⟨0, rfl⟩

theorem move_eq_iterate (cursor : Cursor) (call : Move) :
    ∃ n, cursor.move call = (move · .advance)^[n] cursor := by
  cases call with
  | advance => exact ⟨1, rfl⟩
  | acceptChar c => exact accept_eq_iterate cursor (· == c)
  | acceptBreak => exact accept_eq_iterate cursor Text.isBreak
  | skipLine =>
    obtain ⟨n, same⟩ := advanceLine_eq_iterate cursor
    exact ⟨n, (skipLine_eq_advanceLine cursor).trans same⟩

theorem moves_eq_iterate (cursor : Cursor) (calls : List Move) :
    ∃ n, cursor.moves calls = (move · .advance)^[n] cursor := by
  induction calls generalizing cursor with
  | nil => exact ⟨0, rfl⟩
  | cons call calls ih =>
    obtain ⟨n, first⟩ := move_eq_iterate cursor call
    obtain ⟨m, later⟩ := ih (cursor.move call)
    refine ⟨m + n, ?_⟩
    rw [Function.iterate_add_apply, ← first]
    exact later

theorem drain_eq_unifyBreaks (cursor : Cursor) : cursor.drain = Text.unifyBreaks cursor.rest := by
  fun_induction drain cursor with
  | case1 cursor d next goes ih =>
    obtain ⟨c, rest, ahead, rfl⟩ := advance_eq_ok goes
    rw [advance_of_rest ahead, Except.ok.injEq, Prod.mk.injEq, Text.first_value] at goes
    rw [ih, rest_past_splits (ahead ▸ Text.first_splits c rest), ahead, Text.unifyBreaks_first,
      goes.1]
  | case2 cursor e stops => rw [(advance_eq_error stops).1, Text.unifyBreaks_nil]

theorem iterate_reads (cursor : Cursor) (n : Nat) :
    ∃ read, ((move · .advance)^[n] cursor).passed.reverse = cursor.passed.reverse ++ read := by
  induction n generalizing cursor with
  | zero => exact ⟨[], by simp⟩
  | succ n ih =>
    obtain ⟨more, later⟩ := ih (cursor.move .advance)
    rw [Function.iterate_succ_apply, later]
    cases ahead : cursor.rest with
    | nil =>
      have stays : cursor.move .advance = cursor := by
        rw [move, advance_of_rest_eq_nil ahead]
      exact ⟨more, by rw [stays]⟩
    | cons c rest =>
      rw [move_advance_of_rest ahead]
      exact ⟨(Text.first c rest).text ++ more, by simp [Cursor.past]⟩

end Moves

/-- What the operations of a cursor do, told by what it does when it is advanced. -/
structure OnlyAdvances (cursor : Cursor) : Prop where
  acceptChar : ∀ c, cursor.acceptChar? c =
    if cursor.current? = some c then some (cursor.move .advance) else none
  acceptBreak : cursor.acceptBreak? =
    if cursor.current?.any Text.isBreak then some (cursor.move .advance) else none
  refusedChar : ∀ c, cursor.acceptChar? c = none → cursor.move (.acceptChar c) = cursor
  refusedBreak : cursor.acceptBreak? = none → cursor.move .acceptBreak = cursor
  refused : ∀ e, cursor.advance = .error e → cursor.atEnd = true ∧ cursor.move .advance = cursor
  skipLine : cursor.skipLine = cursor.advanceLine
  /-- The end of the line is found among bytes, and what is there is passed as by an advance. -/
  seekBreak : cursor.seekBreak?.map (·.move .acceptBreak) = some cursor.advanceLine

theorem onlyAdvances (cursor : Cursor) : cursor.OnlyAdvances where
  acceptChar c := by
    rw [acceptChar?, accept?_eq]
    cases cursor.current? <;> simp
  acceptBreak := accept?_eq cursor Text.isBreak
  refusedChar c none := by rw [move, none, Option.getD_none]
  refusedBreak none := by rw [move, none, Option.getD_none]
  refused e stops := by
    have ends := (advance_eq_error stops).1
    refine ⟨by rw [atEnd, ends]; rfl, ?_⟩
    rw [move, stops]
  skipLine := skipLine_eq_advanceLine cursor
  seekBreak := by
    rw [seekBreak?_eq, ← skipLine_eq_advanceLine]
    rfl

/-- Whatever calls have been made, all operations of the cursor are advances, and the cursor is where
some number of advances leads. From any place on, what has been passed is a slice of the text, and
advances from the beginning give all of the text, with its line breaks spelled '\n'. -/
theorem moves_only_advance (text : List Char) :
    (∀ calls : List Move,
      let cursor := (ofText text).moves calls
      cursor.OnlyAdvances ∧
      (∃ n, cursor = (move · .advance)^[n] (ofText text)) ∧
      ∀ more, let later := cursor.moves more
        ∃ before read after, before ++ read ++ after = text ∧
          cursor.offset = Text.byteLength before ∧
          later.offset = Text.byteLength (before ++ read) ∧
          later.sliceFrom? cursor.offset = some read) ∧
    (ofText text).drain =
      Text.replaceAll ['\r'] ['\n'] (Text.replaceAll ['\r', '\n'] ['\n'] text) := by
  constructor
  · intro calls cursor
    refine ⟨cursor.onlyAdvances, moves_eq_iterate _ calls, ?_⟩
    intro more later
    obtain ⟨n, steps⟩ := moves_eq_iterate cursor more
    obtain ⟨read, passed⟩ := iterate_reads cursor n
    rw [← steps] at passed
    have stands : later.StandsIn text := ((ofText_standsIn text).moves calls).moves more
    have split := stands.split
    rw [passed] at split
    refine ⟨cursor.passed.reverse, read, later.rest, split, offset_eq cursor, ?_,
      sliceFrom?_offset passed⟩
    rw [← passed]
    exact offset_eq later
  · rw [drain_eq_unifyBreaks, Text.replaceAll_eq_unifyBreaks]
    rfl

end Offside.Cursor
