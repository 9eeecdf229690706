import Mathlib
import Offside.Proofs.ConfigRoundTrip
import Offside.Proofs.InputFiles

/-!
Options and inputs of an invocation, resolved from its arguments and its project file. Either both
can be resolved, and then all inputs are lexed with the options in force, or nothing is done but to
report the one error that is in the way.
-/

namespace Offside.CommandLine

/-- The path of the project file: the one that is asked for, or else the default one, if it is there
and no inputs are named. -/
def projectPath? (files : Files Id) (a : Arguments) : Option String :=
  a.project?.or
    (if a.files = [] ∧ (files.isFile defaultProject).run = true then some defaultProject else none)

/-- An invocation has a project: that of its project file, which can be read, is well formed and has
options that are allowed, or the empty one if there is no such file. -/
inductive HasProject (files : Files Id) (a : Arguments) : Project → Prop where
  | ofFile {path : String} {text : List Char} {config : Config} :
    projectPath? files a = some path → (files.read path).run = .ok text →
      (Json.parse? text).bind Config.ofJson? = some config → config.Allowed →
        HasProject files a { config, dir? := some (Path.parent path) }
  | empty : projectPath? files a = none → HasProject files a { config := .empty, dir? := none }

/-- An input, be it a file or standard input, with what can be read of it. -/
structure Source where
  name : String
  content : Except String (List Char)

def Source.ofPath (files : Files Id) (path : String) : Source :=
  { name := path, content := (files.read path).run }

/-- The inputs of an invocation: the files that are named, or else those of its project, or else
standard input alone. -/
def sources (files : Files Id) (a : Arguments) (project : Project) : List Source :=
  let listed := (project.config.files?.getD []).map (Path.join (project.dir?.getD "") ·)
  if a.files ≠ [] then a.files.map (.ofPath files)
  else if listed ≠ [] then listed.map (.ofPath files)
  else [{ name := standardInputName, content := files.standardInput.run }]

def Verdict.ofContent (options : Options) : Except String (List Char) → Verdict
  | .error reason => .unreadable reason
  | .ok text =>
    match Lexer.tokenize text options with
    | .error e => .faulty text e
    | .ok tokens => .clean tokens

/-- The outcome of lexing some inputs, with notices in front of those on the inputs. -/
def Outcome.ofSources (options : Options) (format : Format) (first : List Notice)
    (inputs : List Source) : Outcome :=
  let verdict (s : Source) := Verdict.ofContent options s.content
  let several : Bool := 1 < inputs.countP fun s => (verdict s).isReadable
  .ofNotices (String.join (inputs.map fun s => (verdict s).block format several s.name))
    (first ++ (inputs.flatMap (fun s => (verdict s).unread s.name) ++
      inputs.flatMap fun s => (verdict s).fault s.name))

section Project

variable {files : Files Id} {a : Arguments} {project : Project}

theorem findProject_of_path {path : String} (found : projectPath? files a = some path) :
    (findProject files a).run = (readProject files path).run := by
  rw [findProject]
  cases given : a.project? with
  | some asked =>
    rw [projectPath?, given, Option.some_or] at found
    cases found
    rfl
  | none =>
    rw [projectPath?, given, Option.none_or, Option.ite_none_right_eq_some] at found
    obtain ⟨⟨unnamed, there⟩, same⟩ := found
    cases same
    simp [unnamed, there]

theorem findProject_of_none (missing : projectPath? files a = none) :
    (findProject files a).run = .ok { config := .empty, dir? := none } := by
  rw [projectPath?, Option.or_eq_none_iff, ite_eq_right_iff] at missing
  obtain ⟨given, other⟩ := missing
  have skip : ¬(a.files = [] ∧ (files.isFile defaultProject).run = true) :=
    fun both => Option.some_ne_none _ (other both)
  rw [findProject, given]
  cases unnamed : a.files with
  | nil => simp_all
  | cons name names => rfl

theorem readProject_cases (files : Files Id) (path : String) :
    (∃ text config, (files.read path).run = .ok text ∧ Config.parse text = .ok config ∧
      (readProject files path).run = .ok { config, dir? := some (Path.parent path) }) ∨
    (∀ text config, (files.read path).run = .ok text → Config.parse text ≠ .ok config) ∧
      ∃ reason, (readProject files path).run =
        .error (.ofMessage .invalidConfigFile [path, reason]) := by
  simp only [readProject, Id.run_bind, Id.run_pure]
  cases (files.read path).run with
  | error reason => exact .inr ⟨nofun, _, rfl⟩
  | ok text =>
    cases parsed : Config.parse text with
    | error e =>
      refine .inr ⟨fun other config same => ?_, _, by simp only [parsed]; rfl⟩
      rw [← Except.ok.inj same, parsed]
      nofun
    | ok config => exact .inl ⟨text, config, rfl, parsed, by simp only [parsed]⟩

theorem HasProject.unique {other : Project} (one : HasProject files a project)
    (two : HasProject files a other) : project = other := by
  cases one with
  | empty missing =>
    cases two with
    | empty => rfl
    | ofFile found => exact absurd (missing.symm.trans found) (by simp)
  | ofFile found read parsed =>
    cases two with
    | empty missing => exact absurd (missing.symm.trans found) (by simp)
    | ofFile found' read' parsed' =>
      cases found.symm.trans found'
      cases read.symm.trans read'
      cases parsed.symm.trans parsed'
      rfl

theorem findProject_cases (files : Files Id) (a : Arguments) :
    (∃ project, HasProject files a project ∧ (findProject files a).run = .ok project) ∨
      (∀ project, ¬HasProject files a project) ∧
        ∃ path reason, (findProject files a).run =
          .error (.ofMessage .invalidConfigFile [path, reason]) := by
  cases found : projectPath? files a with
  | none => exact .inl ⟨_, .empty found, findProject_of_none found⟩
  | some path =>
    rw [findProject_of_path found]
    rcases readProject_cases files path with ⟨text, config, read, parsed, project⟩ |
      ⟨unread, reason, reported⟩
    · obtain ⟨formed, allowed⟩ := Config.read_of_parse parsed
      exact .inl ⟨_, .ofFile found read formed allowed, project⟩
    · refine .inr ⟨fun project has => ?_, path, reason, reported⟩
      cases has with
      | empty missing => exact absurd (missing.symm.trans found) (by simp)
      | ofFile found' read formed allowed =>
        cases found.symm.trans found'
        exact unread _ _ read ((Config.parse_of_read formed).1 allowed)

end Project

section Settings

/-- The width of a tab: the one that is asked for, or else that of the project, or else eight. -/
def tabWidth (a : Arguments) (config : Config) : UInt32 :=
  (a.tabWidth?.or (config.options?.map (·.tabWidth))).getD 8

theorem resolveOptions_cases (a : Arguments) (config : Config) :
    let width := tabWidth a config
    (1 ≤ width.toNat ∧ width.toNat ≤ 64) ∧ resolveOptions a config = .ok { tabWidth := width } ∨
      ¬(1 ≤ width.toNat ∧ width.toNat ≤ 64) ∧
        ∃ reason, resolveOptions a config =
          .error (.ofMessage .invalidConfigFile ["--tab-width", reason]) := by
  intro width
  have same : a.tabWidth?.getD config.options.tabWidth = width := by
    simp only [width, tabWidth, Config.options]
    cases a.tabWidth? <;> cases config.options? <;> rfl
  have valid := Options.validate_eq_ok_iff { tabWidth := width }
  simp only [resolveOptions, same]
  cases checked : Options.validate { tabWidth := width } with
  | ok => exact .inl ⟨valid.mp checked, rfl⟩
  | error reason =>
    refine .inr ⟨fun allowed => ?_, _, rfl⟩
    rw [valid.mpr allowed] at checked
    contradiction

end Settings

section Inputs

variable (files : Files Id) (options : Options) (format : Format)

theorem lexInputs_cons (first : Notice) (inputs : List Input) (notices : List Notice) :
    let rest := lexInputs options format { inputs, notices }
    lexInputs options format { inputs, notices := first :: notices } =
      .ofNotices rest.stdout (first :: rest.notices) := rfl

theorem lexInputs_paths (paths : List String) :
    lexInputs options format (readPaths files paths).run =
      .ofSources options format [] (paths.map (.ofPath files)) := by
  have verdict (name : String) : judge files options name =
      Verdict.ofContent options (files.read name).run := rfl
  rw [lexInputs_readPaths]
  simp only [Outcome.ofSources, List.map_map, List.countP_map, List.flatMap_map, List.nil_append,
    verdict]
  rfl

/-- Without any path, standard input is lexed as a file with its content would be. -/
theorem lexInputs_standardInput :
    lexInputs options format (readInputs files []).run =
      .ofSources options format [.plain (.ofMessage .noInputs [])]
        [{ name := standardInputName, content := files.standardInput.run }] := by
  let alike : Files Id := { files with read := fun _ => files.standardInput }
  have read : (readPaths alike [standardInputName]).run =
      { inputs := (named standardInputName files.standardInput.run).inputs ++ []
        notices := (named standardInputName files.standardInput.run).notices ++ [] } := rfl
  have lexed := lexInputs_paths alike options format [standardInputName]
  rw [read, List.append_nil, List.append_nil] at lexed
  have only : (readInputs files []).run =
      { inputs := (named standardInputName files.standardInput.run).inputs
        notices := .plain (.ofMessage .noInputs []) ::
          (named standardInputName files.standardInput.run).notices } := rfl
  rw [only, lexInputs_cons, lexed]
  rfl

def noInputs (a : Arguments) (project : Project) : List Notice :=
  if a.files = [] ∧ project.config.files?.getD [] = [] then [.plain (.ofMessage .noInputs [])]
  else []

theorem lexInputs_sources (a : Arguments) (project : Project) :
    lexInputs options format (readInputs files (inputPaths a project)).run =
      .ofSources options format (noInputs a project) (sources files a project) := by
  have paths {names : List String} (some : names ≠ []) :
      lexInputs options format (readInputs files names).run =
        .ofSources options format [] (names.map (.ofPath files)) := by
    rw [← lexInputs_paths, readInputs, List.isEmpty_eq_false_iff.mpr some]
    rfl
  have see (path : String) :
      (project.dir?.map (Path.join · path)).getD path = Path.join (project.dir?.getD "") path := by
    cases project.dir? <;> simp [Path.join]
  by_cases unnamed : a.files = []
  · have listed : inputPaths a project =
        (project.config.files?.getD []).map (Path.join (project.dir?.getD "") ·) := by
      simp only [inputPaths, unnamed, List.isEmpty_nil, Bool.not_true, Bool.false_eq_true, if_false,
        see]
    by_cases unlisted : project.config.files?.getD [] = []
    · rw [listed, unlisted, List.map_nil, lexInputs_standardInput]
      simp [noInputs, sources, unnamed, unlisted]
    · rw [listed, paths (mt List.map_eq_nil_iff.mp unlisted)]
      simp [noInputs, sources, unnamed, unlisted]
  · have named : inputPaths a project = a.files := by
      simp [inputPaths, unnamed]
    rw [named, paths unnamed]
    simp [noInputs, sources, unnamed]

end Inputs

section Codes

theorem refused_codes (args : List String) :
    let o := Outcome.refused (.ofMessage .invalidConfigFile args)
    o.stdout = "" ∧ o.codes = ["SNEK6002"] ∧ o.summary? = some "Found 1 error." ∧ o.exitCode = 1 := by
  have code : "SNEK" ++ toString 6002 = "SNEK6002" := by decide
  have summary : summary 1 = "Found 1 error." := by decide
  refine ⟨rfl, ?_, ?_, rfl⟩
  · exact congrArg ([·]) code
  · exact congrArg some summary

theorem code_message (f : Fault) : "SNEK" ++ toString f.message.code ≠ "SNEK6002" := by
  cases f <;> (simp only [Fault.message]; decide)

theorem notMem_codes_ofSources (options : Options) (format : Format) (inputs : List Source)
    {first : List Notice} (other : "SNEK6002" ∉ first.filterMap Notice.code?) :
    "SNEK6002" ∉ (Outcome.ofSources options format first inputs).codes := by
  have unread (v : Verdict) (name : String) :
      "SNEK6002" ∉ (v.unread name).filterMap Notice.code? := by
    rw [Verdict.codes_unread]
    split <;> decide
  have fault (v : Verdict) (name : String) :
      "SNEK6002" ∉ (v.fault name).filterMap Notice.code? := by
    rw [Verdict.codes_fault]
    cases v with
    | faulty text e => simpa [Verdict.faultCode?] using (code_message e.fault).symm
    | _ => exact List.not_mem_nil
  simp only [Outcome.codes, Outcome.ofSources, Outcome.ofNotices, List.filterMap_append,
    List.filterMap_flatMap, List.mem_append, List.mem_flatMap, not_or, not_exists, not_and]
  exact ⟨other, fun s _ => unread _ _, fun s _ => fault _ _⟩

theorem notMem_codes_noInputs (a : Arguments) (project : Project) :
    "SNEK6002" ∉ (noInputs a project).filterMap Notice.code? := by
  have code : (Notice.plain (.ofMessage .noInputs [])).code? = some "SNEK6003" := by
    change some ("SNEK" ++ toString 6003) = some "SNEK6003"
    decide
  rw [noInputs]
  split
  · rw [List.filterMap_cons_some code]
    decide
  · exact List.not_mem_nil

end Codes

/-- An invocation without a project, or with a width of tabs that is not allowed, does nothing but
to report that. It has no project if its project file cannot be read, is not well formed or has
options that are not allowed, whatever width is asked for. In any other invocation, all inputs are
lexed with the width in force. -/
theorem answer_all_or_nothing {files : Files Id} {args : List String} {a : Arguments}
    (parsed : Arguments.parse args = .ok a) :
    let o := answer files args
    let allowed (width : UInt32) : Prop := 1 ≤ width.toNat ∧ width.toNat ≤ 64
    ((∀ project, HasProject files a project → ¬allowed (tabWidth a project.config)) →
      o.stdout = "" ∧ o.codes = ["SNEK6002"] ∧ o.summary? = some "Found 1 error." ∧
        o.exitCode = 1) ∧
    ∀ project, HasProject files a project → allowed (tabWidth a project.config) →
      o = .ofSources { tabWidth := tabWidth a project.config } (a.format?.getD .text)
        (noInputs a project) (sources files a project) ∧
      "SNEK6002" ∉ o.codes := by
  intro o allowed
  have whole : o = (run files a).run := by
    simp only [o, answer, respond, parsed]
  rw [run_eq] at whole
  rcases findProject_cases files a with ⟨project, has, found⟩ | ⟨hasNone, path, reason, reported⟩
  · rw [found] at whole
    rcases resolveOptions_cases a project.config with ⟨width, options⟩ | ⟨wrong, reason, reported⟩
    · simp only [options, lexInputs_sources] at whole
      refine ⟨fun never => absurd width (never project has), fun other has' _ => ?_⟩
      rw [has'.unique has, whole]
      exact ⟨rfl, notMem_codes_ofSources _ _ _ (notMem_codes_noInputs a project)⟩
    · simp only [reported] at whole
      refine ⟨fun _ => whole ▸ refused_codes _, fun other has' width => ?_⟩
      rw [has'.unique has] at width
      contradiction
  · simp only [reported] at whole
    exact ⟨fun _ => whole ▸ refused_codes _, fun project has => absurd has (hasNone project)⟩

theorem answer_all_or_nothing_project_dir :
    let files (content : String) := FileTree.files ⟨[(["p", "c"], .file content.toUTF8),
      (["p", "a"], .file "\tif\n  x".toUTF8)]⟩ (.error "closed")
    let args := ["-p", "p/c", "--tab-width", "2"]
    (answer (files "[[0], [\"a\"]]") args).codes = ["SNEK6002"] ∧
      (answer (files "[[4], [\"a\"]]") args).stdout =
        "1:1 Indent\n1:2 KeywordIf\n1:4 NewLine\n2:3 Id \"x\"\n2:4 NewLine\n2:4 Dedent\n" := by
  intro files args
  let a : Arguments := { project? := some "p/c", tabWidth? := some 2 }
  have parsed : Arguments.parse args = .ok a := by cbv
  have path (content : String) : projectPath? (files content) a = some "p/c" := rfl
  constructor
  · refine ((answer_all_or_nothing parsed).1 fun project has => ?_).2.1
    have text : ((files "[[0], [\"a\"]]").read "p/c").run = .ok "[[0], [\"a\"]]".toList := by cbv
    have formed : (Json.parse? "[[0], [\"a\"]]".toList).bind Config.ofJson? =
        some ⟨some ⟨0⟩, some ["a"]⟩ := by cbv
    cases has with
    | empty missing => exact absurd ((path _).symm.trans missing) (Option.some_ne_none _)
    | ofFile found read config allowed =>
      rw [← Option.some.inj ((path _).symm.trans found), text] at read
      rw [← Except.ok.inj read, formed] at config
      rw [← Option.some.inj config] at allowed
      exact absurd (allowed _ rfl).1 (by decide)
  · have text : ((files "[[4], [\"a\"]]").read "p/c").run = .ok "[[4], [\"a\"]]".toList := by cbv
    have formed : (Json.parse? "[[4], [\"a\"]]".toList).bind Config.ofJson? =
        some ⟨some ⟨4⟩, some ["a"]⟩ := by cbv
    have has := HasProject.ofFile (path _) text formed (by simp [Config.Allowed])
    obtain ⟨lexed, _⟩ := (answer_all_or_nothing parsed).2 _ has (by decide)
    rw [lexed]
    decide +kernel

end Offside.CommandLine
