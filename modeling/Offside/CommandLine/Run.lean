import Offside.CommandLine.Files
import Offside.CommandLine.Output
import Offside.Config
import Offside.Diagnostic.Collection
import Offside.Lexer.Run
import Offside.Report

/-!
The program: it finds out its options and its inputs, lexes each input on its own, prints the tokens
of those without a fault and reports all that went wrong.
-/

namespace Offside.CommandLine

def defaultProject : String := "snek.json"

def standardInputName : String := "<stdin>"

structure Input where
  name : String
  text : List Char

inductive Notice where
  | usage (e : UsageError)
  | plain (d : Diagnostic)
  /-- A fault in a source, with the stretch that it is about. -/
  | fault (d : Diagnostic) (r : Report)

def Notice.diagnostic? : Notice → Option Diagnostic
  | usage _ => none
  | plain d | fault d _ => some d

def Notice.text : Notice → String
  | usage e => "error: " ++ e.text
  | plain d => toString d
  | fault d r => toString d ++ "\n  " ++ r.label

structure Outcome where
  exitCode : UInt8
  stdout : String
  notices : List Notice
  /-- The number of errors in words, if there are any. -/
  summary? : Option String

def summary (errors : Nat) : String :=
  "Found " ++ toString errors ++ " error" ++ (if errors = 1 then "" else "s") ++ "."

/-- The outcome of a run with given output. It has failed if an error was reported. -/
def Outcome.ofNotices (stdout : String) (notices : List Notice) : Outcome :=
  let all : Diagnostic.Collection := ⟨notices.filterMap Notice.diagnostic?⟩
  { exitCode := if all.hasErrors then 1 else 0
    stdout
    notices
    summary? := if all.hasErrors then some (summary all.errorCount) else none }

def Outcome.refused (d : Diagnostic) : Outcome :=
  .ofNotices "" [.plain d]

/-- The project file, and the directory that its paths are seen from. -/
structure Project where
  config : Config
  dir? : Option String

def readProject {m : Type → Type} [Monad m] (files : Files m) (path : String) :
    m (Except Diagnostic Project) := do
  let parsed : Except Config.Error Config :=
    match ← files.read path with
    | .ok text => Config.parse text
    | .error reason => .error (.unreadable reason)
  return match parsed with
    | .ok config => .ok { config, dir? := some (Path.parent path) }
    | .error e => .error (.ofMessage .invalidConfigFile [path, e.text])

/-- The project file that is asked for, or the default one if there is nothing else to go by. -/
def findProject {m : Type → Type} [Monad m] (files : Files m) (args : Arguments) :
    m (Except Diagnostic Project) := do
  match args.project? with
  | some path => readProject files path
  | none =>
    if args.files.isEmpty && (← files.isFile defaultProject) then readProject files defaultProject
    else return .ok { config := .empty, dir? := none }

/-- The options in force. Those of the command line come before those of the project. -/
def resolveOptions (args : Arguments) (config : Config) : Except Diagnostic Options :=
  let options : Options := { tabWidth := args.tabWidth?.getD config.options.tabWidth }
  match options.validate with
  | .ok () => .ok options
  | .error reason => .error (.ofMessage .invalidConfigFile ["--tab-width", reason.text])

/-- The paths of the inputs. Those of the command line take the place of those of the project. -/
def inputPaths (args : Arguments) (project : Project) : List String :=
  if !args.files.isEmpty then args.files
  else
    let see (path : String) : String := (project.dir?.map (Path.join · path)).getD path
    (project.config.files?.getD []).map see

structure Inputs where
  inputs : List Input
  notices : List Notice

def named (name : String) : Except String (List Char) → Inputs
  | .ok text => { inputs := [{ name, text }], notices := [] }
  | .error reason =>
    { inputs := [], notices := [.plain (.ofMessage .cannotReadFile [name, reason])] }

def readPaths {m : Type → Type} [Monad m] (files : Files m) : List String → m Inputs
  | [] => return { inputs := [], notices := [] }
  | path :: paths => do
    let first := named path (← files.read path)
    let others ← readPaths files paths
    return { inputs := first.inputs ++ others.inputs, notices := first.notices ++ others.notices }

/-- The inputs with the given paths. Without any path, standard input is read instead. -/
def readInputs {m : Type → Type} [Monad m] (files : Files m) (paths : List String) : m Inputs := do
  if paths.isEmpty then
    let only := named standardInputName (← files.standardInput)
    return { only with notices := .plain (.ofMessage .noInputs []) :: only.notices }
  else readPaths files paths

def lexInput (options : Options) (format : Format) (several : Bool) (input : Input) :
    String × List Notice :=
  match Lexer.tokenize input.text options with
  | .ok tokens => (format.print several input.name tokens, [])
  | .error e =>
    let d := e.diagnostic (some input.name)
    ("", [.fault d (.ofError input.name input.text e d)])

def lexInputs (options : Options) (format : Format) (inputs : Inputs) : Outcome :=
  let results := inputs.inputs.map (lexInput options format (1 < inputs.inputs.length))
  .ofNotices (String.join (results.map (·.1))) (inputs.notices ++ results.flatMap (·.2))

def run {m : Type → Type} [Monad m] (files : Files m) (args : Arguments) : m Outcome := do
  match ← findProject files args with
  | .error d => return .refused d
  | .ok project =>
    match resolveOptions args project.config with
    | .error d => return .refused d
    | .ok options =>
      let inputs ← readInputs files (inputPaths args project)
      return lexInputs options (args.format?.getD .text) inputs

def versionText : String := "snek-lex 0.1.0\n"

def helpText : String :=
  "Tokenize snek source files\n\n" ++
  "Usage: snek-lex [OPTIONS] [FILE]...\n\n" ++
  "Options:\n" ++
  "  -p, --project <PROJECT>      Path to snek.json\n" ++
  "      --tab-width <TAB_WIDTH>  Columns a tab contributes to indentation\n" ++
  "      --format <FORMAT>        Output format, text or json\n" ++
  "  -v, --verbose                Accepted for more messages, may be repeated\n" ++
  "  -h, --help                   Print help\n" ++
  "  -V, --version                Print version\n"

def respond {m : Type → Type} [Monad m] (files : Files m) (args : List String) : m Outcome :=
  match Arguments.parse args with
  | .ok arguments => run files arguments
  | .error .help => return .ofNotices helpText []
  | .error .version => return .ofNotices versionText []
  | .error (.usage e) =>
    return { exitCode := 2, stdout := "", notices := [.usage e], summary? := none }

end Offside.CommandLine
