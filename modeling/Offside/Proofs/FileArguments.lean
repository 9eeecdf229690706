import Mathlib.Data.List.Basic
import Offside.CommandLine.Arguments

namespace Offside.CommandLine.Arguments

namespace State

variable {s t : State}

def takesFile (s : State) (arg : String) : Bool :=
  match s.pending?, s.filesOnly, arg.toList with
  | some _, _, _ => false
  | none, true, _ => true
  | none, false, '-' :: _ :: _ => false
  | none, false, _ => true

def withFiles (s : State) (files : List String) : State :=
  { s with arguments := { s.arguments with files } }

/-- The arguments without the file names that are not to be kept. Each goes by its number among the
file names. -/
def keepFiles (keep : Nat → Bool) : State → List String → List String
  | _, [] => []
  | s, arg :: args =>
    match s.take arg with
    | .error _ => arg :: args
    | .ok next =>
      let others := keepFiles keep next args
      if s.takesFile arg && !keep s.arguments.files.length then others else arg :: others

def keptNames (keep : Nat → Bool) : Nat → List String → List String
  | _, [] => []
  | n, name :: names =>
    if keep n then name :: keptNames keep (n + 1) names else keptNames keep (n + 1) names

@[simp] theorem withFiles_self (s : State) : s.withFiles s.arguments.files = s := rfl

@[simp] theorem withFiles_withFiles (s : State) (files more : List String) :
    (s.withFiles files).withFiles more = s.withFiles more := rfl

@[simp] theorem withFiles_files (s : State) (files : List String) :
    (s.withFiles files).arguments.files = files := rfl

theorem set_withFiles (s : State) (files : List String) (setting : Setting) (value : List Char) :
    (s.withFiles files).set setting value = (s.set setting value).map (·.withFiles files) := by
  cases setting with
  | project =>
    simp only [set, apply_ite (Except.map _)]
    rfl
  | tabWidth =>
    simp only [set]
    cases parseWidth? value with
    | none => rfl
    | some width =>
      simp only [apply_ite (Except.map _)]
      rfl
  | format =>
    simp only [set]
    cases parseFormat? value with
    | none => rfl
    | some format =>
      simp only [apply_ite (Except.map _)]
      rfl

theorem louder_withFiles (s : State) (files : List String) :
    (s.withFiles files).louder = s.louder.withFiles files := rfl

theorem long_withFiles (s : State) (files : List String) (text : List Char) :
    (s.withFiles files).long text = (s.long text).map (·.withFiles files) := by
  simp only [long]
  split
  · exact set_withFiles s files _ _
  · rfl
  · simp only [apply_ite (Except.map _)]
    rfl

theorem short_withFiles (s : State) (files : List String) (text : List Char) :
    (s.withFiles files).short text = (s.short text).map (·.withFiles files) := by
  induction text generalizing s with
  | nil => rfl
  | cons c rest ih =>
    rw [short.eq_def (s.withFiles files), short.eq_def s]
    dsimp only
    split
    · rw [louder_withFiles, ih]
    · split
      · rfl
      · split
        · rfl
        · split
          · split <;> first | rfl | exact set_withFiles s files _ _
          · rfl

/-- An argument is taken as the name of a file, or in a way that does not depend on the files before
it. -/
theorem take_cases (s : State) (arg : String) :
    (s.takesFile arg = true ∧ s.take arg = s.addFile arg) ∨
      s.takesFile arg = false ∧
        ∀ files, (s.withFiles files).take arg = (s.take arg).map (·.withFiles files) := by
  obtain ⟨a, pending?, filesOnly⟩ := s
  cases pending? with
  | some setting =>
    right
    refine ⟨rfl, fun files => ?_⟩
    have value := set_withFiles ⟨a, some setting, filesOnly⟩ files setting arg.toList
    simp only [withFiles] at value ⊢
    simp only [take]
    split
    · rfl
    · rename_i same _
      rwa [← Option.some.inj same]
    all_goals contradiction
  | none =>
    cases filesOnly with
    | true => exact .inl ⟨rfl, rfl⟩
    | false =>
      by_cases dash : ∃ c text, arg.toList = '-' :: c :: text
      · right
        obtain ⟨c, text, shape⟩ := dash
        refine ⟨by simp only [takesFile, shape], fun files => ?_⟩
        have long := long_withFiles ⟨a, none, false⟩ files
        have short := short_withFiles ⟨a, none, false⟩ files
        simp only [withFiles] at long short ⊢
        simp only [take]
        split
        any_goals contradiction
        · rfl
        · exact long _
        · exact short _
        · rename_i other
          exact absurd shape (other c text)
      · left
        have other (c : Char) (text : List Char) (shape : arg.toList = '-' :: c :: text) : False :=
          dash ⟨c, text, shape⟩
        constructor
        · simp only [takesFile]
        · simp only [take]
          split <;> first | rfl | contradiction | exact absurd ‹arg.toList = _› (other _ _)

theorem take_of_takesFile {arg : String} (file : s.takesFile arg = true) :
    s.take arg = s.addFile arg := by
  rcases take_cases s arg with ⟨_, taken⟩ | ⟨other, _⟩
  · exact taken
  · rw [file] at other
    contradiction

theorem addFile_of_ne {name : String} (named : name ≠ "") (s : State) :
    s.addFile name = .ok (s.withFiles (s.arguments.files ++ [name])) := by
  rw [addFile, if_neg named]
  rfl

theorem addFile_eq_ok {name : String} (h : s.addFile name = .ok t) :
    name ≠ "" ∧ t = s.withFiles (s.arguments.files ++ [name]) := by
  by_cases named : name = ""
  · rw [addFile, if_pos named] at h
    contradiction
  · rw [addFile_of_ne named] at h
    exact ⟨named, (Except.ok.inj h).symm⟩

theorem files_of_take {arg : String} (other : s.takesFile arg = false) (h : s.take arg = .ok t) :
    t.arguments.files = s.arguments.files ∧
      ∀ files, (s.withFiles files).take arg = .ok (t.withFiles files) := by
  rcases take_cases s arg with ⟨file, _⟩ | ⟨_, commutes⟩
  · rw [file] at other
    contradiction
  · have same := commutes s.arguments.files
    rw [withFiles_self, h] at same
    refine ⟨congrArg (·.arguments.files) (Except.ok.inj same), fun files => ?_⟩
    rw [commutes, h]
    rfl

/-- Taking arguments with some of the file names left out leads to the same state, with those names
left out. -/
theorem foldlM_keepFiles (keep : Nat → Bool) {args : List String}
    (taken : args.foldlM take s = .ok t) :
    ∃ names, t.arguments.files = s.arguments.files ++ names ∧
      ∀ files, (keepFiles keep s args).foldlM take (s.withFiles files) =
        .ok (t.withFiles (files ++ keptNames keep s.arguments.files.length names)) := by
  -- the number of an argument among the file names is the number of files collected before it
  induction args generalizing s with
  | nil =>
    cases taken
    exact ⟨[], by simp, fun files => by simp [keepFiles, keptNames, pure, Except.pure]⟩
  | cons arg args ih =>
    rw [List.foldlM_cons] at taken
    cases step : s.take arg with
    | error e =>
      rw [step] at taken
      contradiction
    | ok next =>
      rw [step] at taken
      obtain ⟨names, files, others⟩ := ih taken
      cases file : s.takesFile arg with
      | true =>
        obtain ⟨named, rfl⟩ := addFile_eq_ok ((take_of_takesFile file).symm.trans step)
        rw [withFiles_files, List.append_assoc, List.length_append, List.length_singleton] at *
        refine ⟨arg :: names, files, fun files => ?_⟩
        rw [keepFiles, step, keptNames]
        simp only [file, Bool.true_and, Bool.not_eq_true']
        cases kept : keep s.arguments.files.length with
        | true =>
          have again : (s.withFiles files).take arg = .ok (s.withFiles (files ++ [arg])) := by
            rw [take_of_takesFile (s := s.withFiles files) file]
            exact addFile_of_ne named _
          rw [if_neg (by decide), if_pos rfl, List.foldlM_cons, again]
          have behind := others (files ++ [arg])
          rw [withFiles_withFiles, List.append_assoc] at behind
          exact behind
        | false =>
          rw [if_pos rfl, if_neg (by decide)]
          exact others files
      | false =>
        obtain ⟨same, alike⟩ := files_of_take file step
        rw [same] at files others
        refine ⟨names, files, fun files => ?_⟩
        rw [keepFiles, step]
        simp only [file, Bool.false_and, Bool.false_eq_true, if_false]
        rw [List.foldlM_cons, alike]
        exact others files

theorem keptNames_eq (k n : Nat) (names : List String) :
    keptNames (· == k) n names = if n ≤ k then (names[k - n]?).toList else [] := by
  induction names generalizing n with
  | nil => simp [keptNames]
  | cons name names ih =>
    rw [keptNames, ih]
    rcases Nat.lt_trichotomy n k with before | rfl | past
    · have later : k - n = k - (n + 1) + 1 := by omega
      rw [if_pos (Nat.succ_le_of_lt before), if_pos (Nat.le_of_lt before), later]
      simp [Nat.ne_of_lt before]
    · rw [if_neg (Nat.not_succ_le_self n), if_pos (Nat.le_refl n)]
      simp
    · rw [if_neg (show ¬n + 1 ≤ k by omega), if_neg (Nat.not_le_of_gt past)]
      simp [Nat.ne_of_gt past]

end State

/-- The same arguments with one of the file names alone. -/
def only (i : Nat) (args : List String) : List String :=
  State.keepFiles (· == i) {} args

theorem parse_only {args : List String} {a : Arguments} (parsed : parse args = .ok a) {i : Nat}
    (inside : i < a.files.length) : parse (only i args) = .ok { a with files := [a.files[i]] } := by
  simp only [parse, bind, Except.bind] at parsed ⊢
  cases taken : args.foldlM State.take {} with
  | error e =>
    rw [taken] at parsed
    contradiction
  | ok s =>
    rw [taken] at parsed
    obtain ⟨names, files, kept⟩ := State.foldlM_keepFiles (· == i) taken
    cases settled : s.pending? with
    | some setting =>
      simp only [settled] at parsed
      contradiction
    | none =>
      simp only [settled] at parsed
      cases parsed
      have whole : s.arguments.files = names := files
      have one : State.keptNames (· == i) 0 names = [s.arguments.files[i]] := by
        rw [State.keptNames_eq, if_pos (Nat.zero_le i), Nat.sub_zero, ← whole,
          List.getElem?_eq_getElem inside]
        rfl
      have alone : (only i args).foldlM State.take {} =
          .ok (s.withFiles [s.arguments.files[i]]) := by
        rw [← one]
        exact kept []
      have still : (s.withFiles [s.arguments.files[i]]).pending? = none := settled
      simp only [alone, still]
      rfl

end Offside.CommandLine.Arguments
