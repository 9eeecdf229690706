import Mathlib
import Offside.CommandLine.Run
import Offside.Proofs.FileArguments

/-!
Several input files in one invocation. What becomes of a file depends on that file alone, and the
outcome of the invocation is put together from the outcomes that its files would have alone.
-/

namespace Offside.CommandLine

/-- What becomes of a file that is given as an input. -/
inductive Verdict where
  | unreadable (reason : String)
  | faulty (text : List Char) (e : LexError)
  | clean (tokens : List Token)

namespace Verdict

def isReadable : Verdict → Bool
  | unreadable _ => false
  | faulty _ _ | clean _ => true

def isClean : Verdict → Bool
  | clean _ => true
  | unreadable _ | faulty _ _ => false

def block (format : Format) (several : Bool) (name : String) : Verdict → String
  | clean tokens => format.print several name tokens
  | unreadable _ | faulty _ _ => ""

def unread (name : String) : Verdict → List Notice
  | unreadable reason => [.plain (.ofMessage .cannotReadFile [name, reason])]
  | faulty _ _ | clean _ => []

def fault (name : String) : Verdict → List Notice
  | faulty text e =>
    let d := e.diagnostic (some name)
    [.fault d (.ofError name text e d)]
  | unreadable _ | clean _ => []

def faultCode? : Verdict → Option String
  | faulty _ e => some ("SNEK" ++ toString e.fault.message.code)
  | unreadable _ | clean _ => none

/-- The outcome of an invocation with one file alone. -/
def outcome (format : Format) (name : String) (v : Verdict) : Outcome :=
  .ofNotices (v.block format false name) (v.unread name ++ v.fault name)

end Verdict

def Notice.code? (notice : Notice) : Option String :=
  notice.diagnostic?.map (·.codeText)

/-- The codes that are told to the user. -/
def Outcome.codes (o : Outcome) : List String :=
  o.notices.filterMap Notice.code?

/-- All that is told to the user besides the tokens, the latest last. -/
def Outcome.stderr (o : Outcome) : List String :=
  o.notices.map Notice.text ++ o.summary?.toList

def judge (files : Files Id) (options : Options) (name : String) : Verdict :=
  match (files.read name).run with
  | .error reason => .unreadable reason
  | .ok text =>
    match Lexer.tokenize text options with
    | .error e => .faulty text e
    | .ok tokens => .clean tokens

section Inputs

variable (files : Files Id) (options : Options)

theorem readPaths_eq (names : List String) :
    (readPaths files names).run =
      { inputs := names.flatMap fun name => (named name (files.read name).run).inputs
        notices := names.flatMap fun name => (named name (files.read name).run).notices } := by
  induction names with
  | nil => rfl
  | cons name names ih =>
    have first : (readPaths files (name :: names)).run =
        { inputs := (named name (files.read name).run).inputs ++ (readPaths files names).run.inputs
          notices := (named name (files.read name).run).notices ++
            (readPaths files names).run.notices } := rfl
    rw [first, ih]
    rfl

theorem judge_cases (name : String) :
    (∃ reason, (files.read name).run = .error reason ∧
      judge files options name = .unreadable reason) ∨
    (∃ text e, (files.read name).run = .ok text ∧ Lexer.tokenize text options = .error e ∧
      judge files options name = .faulty text e) ∨
    ∃ text tokens, (files.read name).run = .ok text ∧
      Lexer.tokenize text options = .ok tokens ∧ judge files options name = .clean tokens := by
  cases read : (files.read name).run with
  | error reason => exact .inl ⟨reason, rfl, by simp only [judge, read]⟩
  | ok text =>
    right
    cases result : Lexer.tokenize text options with
    | error e => exact .inl ⟨text, e, rfl, result, by simp only [judge, read, result]⟩
    | ok tokens => exact .inr ⟨text, tokens, rfl, result, by simp only [judge, read, result]⟩

theorem named_of_judge (name : String) :
    let single := named name (files.read name).run
    let verdict := judge files options name
    (single.inputs.length = if verdict.isReadable then 1 else 0) ∧
      single.notices = verdict.unread name ∧
      ∀ (format : Format) (several : Bool),
        let results := single.inputs.map (lexInput options format several)
        String.join (results.map (·.1)) = verdict.block format several name ∧
          results.flatMap (·.2) = verdict.fault name := by
  rcases judge_cases files options name with ⟨reason, read, verdict⟩ |
    ⟨text, e, read, result, verdict⟩ | ⟨text, tokens, read, result, verdict⟩
  · simp [read, verdict, named, Verdict.isReadable, Verdict.unread, Verdict.block, Verdict.fault]
  · simp [read, verdict, named, lexInput, result, Verdict.isReadable, Verdict.unread, Verdict.block,
      Verdict.fault, String.join_cons]
  · simp [read, verdict, named, lexInput, result, Verdict.isReadable, Verdict.unread, Verdict.block,
      Verdict.fault, String.join_cons]

theorem join_flatMap {α : Type} (write : α → List String) (xs : List α) :
    String.join (xs.flatMap write) = String.join (xs.map fun x => String.join (write x)) := by
  apply String.toList_inj.mp
  simp [String.toList_join, List.flatMap_assoc, List.flatMap_map]

/-- The outcome of an invocation is put together from what becomes of each file. -/
theorem lexInputs_readPaths (format : Format) (names : List String) :
    let judge := judge files options
    let several : Bool := 1 < names.countP fun name => (judge name).isReadable
    lexInputs options format (readPaths files names).run =
      .ofNotices (String.join (names.map fun name => (judge name).block format several name))
        (names.flatMap (fun name => (judge name).unread name) ++
          names.flatMap fun name => (judge name).fault name) := by
  have readable : (readPaths files names).run.inputs.length =
      names.countP fun name => (judge files options name).isReadable := by
    rw [readPaths_eq]
    induction names with
    | nil => rfl
    | cons name names ih =>
      rw [List.flatMap_cons, List.length_append, ih, (named_of_judge files options name).1,
        List.countP_cons, Nat.add_comm]
  have unread : (readPaths files names).run.notices =
      names.flatMap fun name => (judge files options name).unread name := by
    rw [readPaths_eq]
    exact List.flatMap_congr fun name _ => (named_of_judge files options name).2.1
  have single (several : Bool) (name : String) :=
    (named_of_judge files options name).2.2 format several
  have printed (several : Bool) :
      String.join (((readPaths files names).run.inputs.map (lexInput options format several)).map
        (·.1)) = String.join (names.map fun name =>
          (judge files options name).block format several name) := by
    rw [readPaths_eq, List.map_flatMap, List.map_flatMap, join_flatMap]
    exact congrArg String.join (List.map_congr_left fun name _ => (single several name).1)
  have faults (several : Bool) :
      ((readPaths files names).run.inputs.map (lexInput options format several)).flatMap (·.2) =
        names.flatMap fun name => (judge files options name).fault name := by
    rw [readPaths_eq, List.map_flatMap, List.flatMap_assoc]
    exact List.flatMap_congr fun name _ => (single several name).2
  simp only [lexInputs, readable, unread, printed, faults]

end Inputs

section Errors

def Notice.IsError (notice : Notice) : Prop :=
  ∃ d, notice.diagnostic? = some d ∧ d.isError = true

theorem errorCount_of_isError {notices : List Notice} (errors : ∀ n ∈ notices, n.IsError) :
    (notices.filterMap Notice.diagnostic?).countP Diagnostic.isError = notices.length := by
  induction notices with
  | nil => rfl
  | cons notice notices ih =>
    obtain ⟨d, told, error⟩ := errors notice List.mem_cons_self
    rw [List.filterMap_cons_some told, List.countP_cons, error,
      ih fun n among => errors n (List.mem_cons_of_mem _ among)]
    rfl

/-- The end of a run in which nothing but errors was reported. -/
theorem ofNotices_of_isError {notices : List Notice} (errors : ∀ n ∈ notices, n.IsError)
    (stdout : String) :
    let o := Outcome.ofNotices stdout notices
    let count := notices.length
    o.exitCode = (if count = 0 then 0 else 1) ∧
      o.summary? = if count = 0 then none else some (summary count) := by
  have count := errorCount_of_isError errors
  have any := Diagnostic.Collection.hasErrors_eq_false_iff ⟨notices.filterMap Notice.diagnostic?⟩
  rw [Diagnostic.Collection.errorCount, count] at any
  simp only [Outcome.ofNotices, Diagnostic.Collection.errorCount, count]
  by_cases quiet : notices.length = 0
  · simp [any.mpr quiet, quiet]
  · simp [eq_true_of_ne_false (mt any.mp quiet), quiet]

theorem summary_eq (errors : Nat) :
    summary errors =
      if errors = 1 then "Found 1 error." else "Found " ++ toString errors ++ " errors." := by
  by_cases one : errors = 1
  · rw [one]
    decide
  · have plural : " error" ++ ("s" ++ ".") = " errors." := by decide
    rw [summary, if_neg one, if_neg one, String.append_assoc, String.append_assoc, plural]

theorem severity_message (f : Fault) : f.message.severity = .error := by
  cases f <;> rfl

namespace Verdict

variable (v : Verdict) (name : String)

theorem unread_isError : ∀ n ∈ v.unread name, n.IsError := by
  intro n among
  cases v with
  | unreadable reason =>
    rw [List.mem_singleton.mp among]
    exact ⟨_, rfl, rfl⟩
  | faulty text e => exact absurd among List.not_mem_nil
  | clean tokens => exact absurd among List.not_mem_nil

theorem fault_isError : ∀ n ∈ v.fault name, n.IsError := by
  intro n among
  cases v with
  | faulty text e =>
    rw [List.mem_singleton.mp among]
    refine ⟨_, rfl, ?_⟩
    simp [LexError.diagnostic, Diagnostic.ofMessage, Diagnostic.isError, severity_message]
  | unreadable reason => exact absurd among List.not_mem_nil
  | clean tokens => exact absurd among List.not_mem_nil

theorem notices_length :
    (v.unread name).length + (v.fault name).length = if v.isClean then 0 else 1 := by
  cases v <;> rfl

theorem exitCode_outcome (format : Format) :
    (v.outcome format name).exitCode = if v.isClean then 0 else 1 := by
  have errors : ∀ n ∈ v.unread name ++ v.fault name, n.IsError := by
    intro n among
    rcases List.mem_append.mp among with unread | fault
    · exact v.unread_isError name n unread
    · exact v.fault_isError name n fault
  rw [outcome, (ofNotices_of_isError errors _).1, List.length_append, notices_length]
  cases v.isClean <;> rfl

theorem codes_unread :
    (v.unread name).filterMap Notice.code? =
      if v.isReadable then [] else ["SNEK6001"] := by
  cases v with
  | unreadable reason =>
    have code : (Notice.plain (.ofMessage .cannotReadFile [name, reason])).code? =
        some "SNEK6001" := by
      change some ("SNEK" ++ toString 6001) = some "SNEK6001"
      decide
    rw [unread, List.filterMap_cons_some code]
    rfl
  | _ => rfl

theorem codes_fault :
    (v.fault name).filterMap Notice.code? =
      v.faultCode?.toList := by
  cases v <;> rfl

theorem block_json (several : Bool) : v.block .json several name = v.block .json false name := by
  cases v <;> rfl

/-- Token lines come with a header if and only if there are several files. -/
theorem block_text (several : Bool) :
    v.block .text several name =
      if v.isClean then
        (if several then "==> " ++ name ++ " <==\n" else "") ++ v.block .text false name
      else "" := by
  cases v with
  | clean tokens => simp [block, isClean, Format.print, header]
  | _ => rfl

theorem block_of_not_isClean {format : Format} (failed : v.isClean = false) (several : Bool) :
    v.block format several name = "" := by
  cases v with
  | clean tokens => contradiction
  | _ => rfl

end Verdict

variable (verdict : String → Verdict) (names : List String)

theorem notices_count :
    (names.flatMap (fun name => (verdict name).unread name) ++
      names.flatMap fun name => (verdict name).fault name).length =
        names.countP fun name => !(verdict name).isClean := by
  induction names with
  | nil => rfl
  | cons name names ih =>
    have one := (verdict name).notices_length name
    rw [List.length_append] at ih ⊢
    rw [List.flatMap_cons, List.flatMap_cons, List.length_append, List.length_append,
      List.countP_cons, ← ih]
    cases clean : (verdict name).isClean with
    | true =>
      rw [clean, if_pos rfl] at one
      rw [Bool.not_true, if_neg Bool.false_ne_true]
      omega
    | false =>
      rw [clean, if_neg Bool.false_ne_true] at one
      rw [Bool.not_false, if_pos rfl]
      omega

theorem notices_isError :
    ∀ n ∈ names.flatMap (fun name => (verdict name).unread name) ++
      names.flatMap fun name => (verdict name).fault name, n.IsError := by
  intro n among
  rw [List.mem_append, List.mem_flatMap, List.mem_flatMap] at among
  rcases among with ⟨name, _, unread⟩ | ⟨name, _, fault⟩
  · exact (verdict name).unread_isError name n unread
  · exact (verdict name).fault_isError name n fault

theorem notices_codes :
    (names.flatMap (fun name => (verdict name).unread name) ++
      names.flatMap fun name => (verdict name).fault name).filterMap
        Notice.code? =
      List.replicate (names.countP fun name => !(verdict name).isReadable) "SNEK6001" ++
        names.filterMap fun name => (verdict name).faultCode? := by
  rw [List.filterMap_append, List.filterMap_flatMap, List.filterMap_flatMap]
  simp only [Verdict.codes_unread, Verdict.codes_fault]
  congr 1
  · induction names with
    | nil => rfl
    | cons name names ih =>
      rw [List.flatMap_cons, ih, List.countP_cons]
      cases (verdict name).isReadable with
      | true => rfl
      | false => exact List.replicate_succ.symm
  · exact (List.filterMap_eq_flatMap_toList _ _).symm

end Errors

/-- The options in force: those of the command line come before those of the project. -/
def effective (a : Arguments) (project : Project) : Options :=
  { tabWidth := a.tabWidth?.getD project.config.options.tabWidth }

/-- An invocation with at least one file that gets as far as reading its files: its arguments are
right, its project loads, and tabs have a width that is allowed. -/
structure Accepted (files : Files Id) (args : List String) (a : Arguments) (project : Project) :
    Prop where
  parsed : Arguments.parse args = .ok a
  named : a.files ≠ []
  found : (findProject files a).run = .ok project
  width : 1 ≤ (effective a project).tabWidth.toNat ∧ (effective a project).tabWidth.toNat ≤ 64

/-- The outcome of an invocation over files whose contents stay as they are. -/
def answer (files : Files Id) (args : List String) : Outcome :=
  (respond files args).run

/-- The outcomes of the same invocation with each of its files alone. -/
def alone (files : Files Id) (args names : List String) : List (String × Outcome) :=
  names.mapIdx fun i name => (name, answer files (Arguments.only i args))

section Invocation

variable {files : Files Id} {args : List String} {a : Arguments} {project : Project}

theorem run_eq (files : Files Id) (a : Arguments) :
    (run files a).run =
      match (findProject files a).run with
      | .error d => .refused d
      | .ok project =>
        match resolveOptions a project.config with
        | .error d => .refused d
        | .ok options =>
          lexInputs options (a.format?.getD .text) (readInputs files (inputPaths a project)).run := by
  simp only [run, Id.run_bind]
  cases (findProject files a).run with
  | error d => rfl
  | ok project =>
    dsimp only
    cases resolveOptions a project.config <;> rfl

theorem Accepted.alone (accepted : Accepted files args a project) {i : Nat}
    (inside : i < a.files.length) :
    Accepted files (Arguments.only i args) { a with files := [a.files[i]] } project where
  parsed := Arguments.parse_only accepted.parsed inside
  named := List.cons_ne_nil _ _
  found := by
    have found := accepted.found
    have named : a.files.isEmpty = false := List.isEmpty_eq_false_iff.mpr accepted.named
    unfold findProject at found ⊢
    cases wanted : a.project? with
    | some path =>
      rw [wanted] at found
      exact found
    | none =>
      rw [wanted, named] at found
      exact found
  width := accepted.width

theorem Accepted.answer_eq (accepted : Accepted files args a project) :
    let judge := judge files (effective a project)
    let format := a.format?.getD .text
    let several : Bool := 1 < a.files.countP fun name => (judge name).isReadable
    answer files args =
      .ofNotices (String.join (a.files.map fun name => (judge name).block format several name))
        (a.files.flatMap (fun name => (judge name).unread name) ++
          a.files.flatMap fun name => (judge name).fault name) := by
  have options : resolveOptions a project.config = .ok (effective a project) := by
    have valid := (Options.validate_eq_ok_iff _).mpr accepted.width
    rw [effective] at valid
    simp only [resolveOptions, valid]
    rfl
  have named : a.files.isEmpty = false := List.isEmpty_eq_false_iff.mpr accepted.named
  have paths : inputPaths a project = a.files := by
    rw [inputPaths, named]
    rfl
  have inputs : readInputs files a.files = readPaths files a.files := by
    rw [readInputs, named]
    rfl
  have whole : answer files args = (run files a).run := by
    rw [answer, respond, accepted.parsed]
  rw [whole, run_eq, accepted.found]
  simp only [options, paths, inputs]
  exact lexInputs_readPaths files _ _ _

theorem Accepted.answer_only (accepted : Accepted files args a project) {i : Nat}
    (inside : i < a.files.length) :
    answer files (Arguments.only i args) =
      (judge files (effective a project) a.files[i]).outcome (a.format?.getD .text) a.files[i] := by
  have one (p : String → Bool) : decide (1 < [a.files[i]].countP p) = false := by
    rw [decide_eq_false_iff_not, Nat.not_lt]
    exact List.countP_le_length
  rw [(accepted.alone inside).answer_eq]
  simp only [one, List.map_cons, List.map_nil, List.flatMap_cons, List.flatMap_nil, List.append_nil]
  rw [String.join_cons]
  exact congrArg (Outcome.ofNotices · _) String.append_empty

theorem Accepted.alone_eq (accepted : Accepted files args a project) :
    CommandLine.alone files args a.files = a.files.map fun name =>
      (name, (judge files (effective a project) name).outcome (a.format?.getD .text) name) := by
  apply List.ext_getElem
  · rw [CommandLine.alone, List.length_mapIdx, List.length_map]
  · intro i within inside
    rw [List.length_map] at inside
    rw [List.getElem_map]
    simp only [CommandLine.alone, List.getElem_mapIdx, accepted.answer_only inside]

/-- The files of an invocation do not influence each other. -/
theorem answer_independent (accepted : Accepted files args a project) :
    let whole := answer files args
    let each := alone files args a.files
    let failures := each.countP fun (_, o) => o.exitCode = 1
    let judge := judge files (effective a project)
    let several : Bool := 2 ≤ a.files.countP fun name => (judge name).isReadable
    (a.format? = some .json → whole.stdout = String.join (each.map fun (_, o) => o.stdout)) ∧
    (a.format? ≠ some .json → whole.stdout = String.join (each.map fun (name, o) =>
      if o.exitCode = 1 then ""
      else (if several then "==> " ++ name ++ " <==\n" else "") ++ o.stdout)) ∧
    (∀ name o, (name, o) ∈ each → o.exitCode = 1 → o.stdout = "") ∧
    (whole.exitCode = if 0 < failures then 1 else 0) ∧
    (0 < failures → whole.stderr.getLast? = some
      (if failures = 1 then "Found 1 error." else "Found " ++ toString failures ++ " errors.")) ∧
    whole.codes =
      List.replicate (a.files.countP fun name => !(judge name).isReadable) "SNEK6001" ++
        a.files.filterMap fun name => (judge name).faultCode? := by
  -- whole and alone, an outcome is a sum over the verdicts on the files, so all parts compare there
  intro whole each failures judge several
  have put : whole = .ofNotices _ _ := accepted.answer_eq
  have apart : each = _ := accepted.alone_eq
  have failed : failures = a.files.countP fun name => !(judge name).isClean := by
    rw [show failures = each.countP _ from rfl, apart, List.countP_map]
    apply List.countP_congr
    intro name _
    simp only [Function.comp_apply, Verdict.exitCode_outcome, judge]
    cases (CommandLine.judge files (effective a project) name).isClean <;> decide
  have count := notices_count judge a.files
  have ends := ofNotices_of_isError (notices_isError judge a.files)
  rw [count, ← failed] at ends
  refine ⟨fun json => ?_, fun text => ?_, fun name o among failure => ?_, ?_, fun some => ?_, ?_⟩
  · rw [put, apart, List.map_map, json]
    exact congrArg String.join (List.map_congr_left fun name _ => Verdict.block_json _ name _)
  · have format : a.format?.getD .text = .text := by
      cases given : a.format? with
      | none => rfl
      | some format =>
        cases format with
        | text => rfl
        | json => exact absurd given text
    rw [put, apart, List.map_map, format]
    refine congrArg String.join (List.map_congr_left fun name _ => ?_)
    simp only [Function.comp_apply, Verdict.exitCode_outcome]
    rw [Verdict.block_text]
    cases (judge name).isClean <;> rfl
  · rw [apart] at among
    obtain ⟨_, _, same⟩ := List.mem_map.mp among
    obtain ⟨rfl, rfl⟩ := Prod.mk.inj same
    rw [Verdict.exitCode_outcome] at failure
    apply Verdict.block_of_not_isClean
    rw [← Bool.not_eq_true]
    intro clean
    rw [clean] at failure
    contradiction
  · rw [put, (ends _).1]
    cases failures <;> rfl
  · rw [put, Outcome.stderr, (ends _).2, if_neg (Nat.ne_of_gt some), Option.toList_some,
      List.getLast?_concat, summary_eq]
  · rw [put]
    exact notices_codes judge a.files

end Invocation

theorem answer_independent_one_missing :
    let files := FileTree.files ⟨[(["a"], .file "if x".toUTF8), (["c"], .file "@".toUTF8)]⟩
      (.error "closed")
    let text := answer files ["a", "--tab-width=4", "b", "-v", "c", "a"]
    let json := answer files ["--format", "json", "a", "--tab-width=4", "b", "-v", "c", "a"]
    text.stdout =
      "==> a <==\n1:1 KeywordIf\n1:4 Id \"x\"\n==> a <==\n1:1 KeywordIf\n1:4 Id \"x\"\n" ∧
    text.exitCode = 1 ∧ text.stderr.getLast? = some "Found 2 errors." ∧
    text.codes = ["SNEK6001", "SNEK1010"] ∧ json.codes = text.codes := by
  intro files text json
  let arguments (format? : Option Format) : Arguments :=
    { tabWidth? := some 4, format?, verbosity := 1, files := ["a", "b", "c", "a"] }
  have width : 1 ≤ (4 : UInt32).toNat ∧ (4 : UInt32).toNat ≤ 64 := by decide
  have asText : Accepted files ["a", "--tab-width=4", "b", "-v", "c", "a"]
      (arguments none) ⟨.empty, none⟩ :=
    { parsed := by cbv
      named := by decide
      found := rfl
      width }
  have asJson : Accepted files ["--format", "json", "a", "--tab-width=4", "b", "-v", "c", "a"]
      (arguments (some .json)) ⟨.empty, none⟩ :=
    { parsed := by cbv
      named := by decide
      found := rfl
      width }
  have options (format? : Option Format) :
      effective (arguments format?) ⟨.empty, none⟩ = { tabWidth := 4 } := rfl
  have clean : judge files { tabWidth := 4 } "a" =
      .clean [⟨⟨1, 1⟩, .keyword .if_⟩, ⟨⟨1, 4⟩, .id "x"⟩] := by cbv
  have missing : judge files { tabWidth := 4 } "b" =
      .unreadable "No such file or directory" := by cbv
  have faulty : judge files { tabWidth := 4 } "c" =
      .faulty ['@'] ⟨.unrecognizedOperator '@', ⟨1, 1⟩⟩ := by cbv
  obtain ⟨_, printed, _, exit, last, codes⟩ := answer_independent asText
  obtain ⟨_, _, _, _, _, same⟩ := answer_independent asJson
  rw [asText.alone_eq, options] at printed exit last
  rw [options] at codes same
  simp only [arguments, List.map_cons, List.map_nil, List.countP_cons, List.countP_nil,
    List.filterMap_cons, List.filterMap_nil, clean, missing, faulty, Verdict.exitCode_outcome,
    Verdict.isReadable, Verdict.isClean, Verdict.faultCode?] at printed exit last codes same
  exact ⟨(printed (by decide)).trans (by decide +kernel), exit.trans (by decide),
    (last (by decide)).trans (by decide), codes.trans (by decide), same.trans codes.symm⟩

end Offside.CommandLine
