/-!
The arguments of the command line. They are taken from left to right, and the first one that is
wrong, or that asks for help or for the version, decides.
-/

namespace Offside.CommandLine

inductive Format where
  | text
  | json
  deriving DecidableEq

inductive Setting where
  | project
  | tabWidth
  | format
  deriving DecidableEq

structure Arguments where
  project? : Option String := none
  tabWidth? : Option UInt32 := none
  format? : Option Format := none
  verbosity : Nat := 0
  files : List String := []
  deriving DecidableEq

inductive UsageError where
  | unknownOption (name : String)
  | missingValue (setting : Setting)
  | unexpectedValue (name : String)
  | invalidValue (setting : Setting) (value : String)
  | repeated (setting : Setting)
  | emptyFileName
  deriving DecidableEq

inductive Halt where
  | usage (e : UsageError)
  | help
  | version
  deriving DecidableEq

def Setting.name : Setting → String
  | project => "project"
  | tabWidth => "tab-width"
  | format => "format"

def Setting.ofName? (name : List Char) : Option Setting :=
  [project, tabWidth, format].find? (·.name.toList == name)

def UsageError.text : UsageError → String
  | unknownOption name => "unexpected argument '" ++ name ++ "'"
  | missingValue setting => "a value is required for '--" ++ setting.name ++ "'"
  | unexpectedValue name => "no value is expected for '" ++ name ++ "'"
  | invalidValue setting value =>
    "invalid value '" ++ value ++ "' for '--" ++ setting.name ++ "'"
  | repeated setting => "'--" ++ setting.name ++ "' cannot be used more than once"
  | emptyFileName => "a file name must not be empty"

namespace Arguments

/-- A magnitude: one decimal digit or more, for a number below 2 to the 32. -/
def parseMagnitude? (digits : List Char) : Option UInt32 :=
  let n := Nat.ofDigitChars 10 digits 0
  if !digits.isEmpty && digits.all Char.isDigit && n < UInt32.size then some (.ofNat n) else none

/-- A width: a magnitude, perhaps behind a sign. Only zero can have a minus sign. -/
def parseWidth? : List Char → Option UInt32
  | '+' :: digits => parseMagnitude? digits
  | '-' :: digits => (parseMagnitude? digits).filter (· = 0)
  | digits => parseMagnitude? digits

def parseFormat? (value : List Char) : Option Format :=
  if value = "text".toList then some .text
  else if value = "json".toList then some .json
  else none

structure State where
  arguments : Arguments := {}
  /-- The option whose value comes next. -/
  pending? : Option Setting := none
  /-- Whether only file names may follow. -/
  filesOnly : Bool := false

namespace State

def addFile (s : State) (name : String) : Except Halt State :=
  if name = "" then .error (.usage .emptyFileName)
  else .ok { s with arguments := { s.arguments with files := s.arguments.files ++ [name] } }

def set (s : State) (setting : Setting) (value : List Char) : Except Halt State :=
  let a := s.arguments
  let invalid : Except Halt State := .error (.usage (.invalidValue setting (String.ofList value)))
  let repeated : Except Halt State := .error (.usage (.repeated setting))
  let filled (a : Arguments) : Except Halt State := .ok { s with arguments := a, pending? := none }
  match setting with
  | .project =>
    if value.isEmpty then invalid
    else if a.project?.isSome then repeated
    else filled { a with project? := some (String.ofList value) }
  | .tabWidth =>
    match parseWidth? value with
    | none => invalid
    | some width =>
      if a.tabWidth?.isSome then repeated else filled { a with tabWidth? := some width }
  | .format =>
    match parseFormat? value with
    | none => invalid
    | some format =>
      if a.format?.isSome then repeated else filled { a with format? := some format }

def louder (s : State) : State :=
  { s with arguments := { s.arguments with verbosity := s.arguments.verbosity + 1 } }

def long (s : State) (text : List Char) : Except Halt State :=
  let name := text.takeWhile (· != '=')
  let value? := if name.length < text.length then some (text.drop (name.length + 1)) else none
  let shown := "--" ++ String.ofList name
  match Setting.ofName? name, value? with
  | some setting, some value => s.set setting value
  | some setting, none => .ok { s with pending? := some setting }
  | none, _ =>
    let plain (result : Except Halt State) : Except Halt State :=
      if value?.isSome then .error (.usage (.unexpectedValue shown)) else result
    if name = "verbose".toList then plain (.ok s.louder)
    else if name = "help".toList then plain (.error .help)
    else if name = "version".toList then plain (.error .version)
    else .error (.usage (.unknownOption shown))

/-- Takes what follows one dash: one-letter options, the last of which may have a value, either in
the same argument or in the next one. -/
def short (s : State) : List Char → Except Halt State
  | [] => .ok s
  | c :: rest =>
    if c = 'v' then s.louder.short rest
    else if c = 'h' then .error .help
    else if c = 'V' then .error .version
    else if c = 'p' then
      match rest with
      | [] => .ok { s with pending? := some .project }
      | '=' :: value => s.set .project value
      | value => s.set .project value
    else .error (.usage (.unknownOption (String.ofList ['-', c])))

/-- Takes an argument. A dash alone is the name of a file, and can be a value. -/
def take (s : State) (arg : String) : Except Halt State :=
  match s.pending?, s.filesOnly, arg.toList with
  | some setting, _, '-' :: _ :: _ => .error (.usage (.missingValue setting))
  | some setting, _, value => s.set setting value
  | none, true, _ => s.addFile arg
  | none, false, ['-', '-'] => .ok { s with filesOnly := true }
  | none, false, '-' :: '-' :: text => s.long text
  | none, false, '-' :: c :: text => s.short (c :: text)
  | none, false, _ => s.addFile arg

end State

def parse (args : List String) : Except Halt Arguments := do
  let s ← args.foldlM State.take {}
  match s.pending? with
  | some setting => .error (.usage (.missingValue setting))
  | none => .ok s.arguments

end Arguments

end Offside.CommandLine
