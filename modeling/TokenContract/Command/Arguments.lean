import TokenContract.Command.Basic

namespace TokenContract

inductive OptionKind
  | query
  | flag
  | text
  | choice (words : List String)
deriving DecidableEq, Repr

structure OptionRule where
  letter : Char
  name : String
  kind : OptionKind
deriving DecidableEq, Repr

/-- What a command takes: options, and values in the order of their names. -/
structure Signature where
  options : List OptionRule
  values : List String
deriving DecidableEq, Repr

inductive UsageError
  | unknownOption (arg : String)
  | unneededValue (option : String)
  | missingValue (option : String)
  | badValue (option value : String)
  | repeatedOption (option : String)
  | unknownCommand (name : String)
  | missingCommand
  | unexpected (arg : String)
  | empty (name : String)
  | missing (name : String)
deriving DecidableEq, Repr

namespace UsageError

def message : UsageError → String
  | unknownOption arg => "unknown option " ++ arg
  | unneededValue o => "no value belongs to --" ++ o
  | missingValue o => "--" ++ o ++ " has no value"
  | badValue o v => "--" ++ o ++ " cannot be '" ++ v ++ "'"
  | repeatedOption o => "--" ++ o ++ " is given twice"
  | unknownCommand name => "unknown command '" ++ name ++ "'"
  | missingCommand => "there is no command"
  | unexpected arg => "unexpected argument '" ++ arg ++ "'"
  | empty name => "<" ++ name ++ "> is empty"
  | missing name => "<" ++ name ++ "> is missing"

end UsageError

abbrev Parsed (α : Type) := Except UsageError α

structure Reading where
  settings : List (String × String) := []
  values : List String := []
  pending : Option OptionRule := none
  query : Option String := none
  isLiteral : Bool := false
deriving DecidableEq, Repr

def OptionKind.admits (value : String) : OptionKind → Bool
  | query | flag => value.isEmpty
  | text => !value.isEmpty
  | choice words => words.contains value

def isDashed (arg : String) : Bool :=
  match arg.toList with
  | '-' :: _ :: _ => true
  | _ => false

namespace Reading

def setting? (r : Reading) (name : String) : Option String :=
  r.settings.lookup name

def set (r : Reading) (o : OptionRule) (value : String) : Parsed Reading :=
  if (r.setting? o.name).isSome then .error (.repeatedOption o.name)
  else if o.kind.admits value then
    .ok { r with settings := r.settings ++ [(o.name, value)], pending := none }
  else .error (.badValue o.name value)

/-- An argument of letters. The value of an option can follow its letter, also after `=`; a letter
without a value can be followed by others. -/
def letters (options : List OptionRule) (r : Reading) : List Char → Parsed Reading
  | [] => .ok r
  | c :: cs =>
    match options.find? (·.letter == c) with
    | none => .error (.unknownOption (String.ofList ['-', c]))
    | some o =>
      match o.kind, cs with
      | .query, _ => .ok { r with query := some o.name }
      | .flag, cs => do letters options (← r.set o "") cs
      | _, [] => .ok { r with pending := some o }
      | _, '=' :: v | _, v => r.set o (String.ofList v)

def named (options : List OptionRule) (r : Reading) (cs : List Char) : Parsed Reading :=
  let name := String.ofList (cs.takeWhile (· != '='))
  match options.find? (·.name == name) with
  | none => .error (.unknownOption ("--" ++ name))
  | some o =>
    match o.kind, cs.dropWhile (· != '=') with
    | .query, [] => .ok { r with query := some name }
    | .flag, [] => r.set o ""
    | .query, _ | .flag, _ => .error (.unneededValue name)
    | _, [] => .ok { r with pending := some o }
    | _, _ :: v => r.set o (String.ofList v)

def addValue (names : List String) (r : Reading) (arg : String) : Parsed Reading :=
  match names[r.values.length]? with
  | none => .error (.unexpected arg)
  | some name =>
    if arg.isEmpty then .error (.empty name) else .ok { r with values := r.values ++ [arg] }

def step (s : Signature) (r : Reading) (arg : String) : Parsed Reading :=
  match r.pending with
  | some o => if isDashed arg then .error (.missingValue o.name) else r.set o arg
  | none =>
    if r.isLiteral || !isDashed arg then r.addValue s.values arg
    else
      match arg.toList with
      | '-' :: '-' :: [] => .ok { r with isLiteral := true }
      | '-' :: '-' :: cs => r.named s.options cs
      | cs => r.letters s.options cs.tail

def finish (s : Signature) (r : Reading) : Parsed Reading :=
  match r.pending, s.values[r.values.length]? with
  | some o, _ => .error (.missingValue o.name)
  | none, some name => .error (.missing name)
  | none, none => .ok r

end Reading

def Signature.read (s : Signature) (r : Reading) : List String → Parsed Reading
  | [] => r.finish s
  | arg :: args => do
    let r ← r.step s arg
    if r.query.isSome then return r else s.read r args

def configOption : OptionRule := ⟨'c', "config", .text⟩
def verboseOption : OptionRule := ⟨'v', "verbose", .flag⟩
def versionOption : OptionRule := ⟨'V', "version", .query⟩
def helpOption : OptionRule := ⟨'h', "help", .query⟩
def outOption : OptionRule := ⟨'o', "out", .text⟩
def formatOption : OptionRule := ⟨'f', "format", .choice (OutputFormat.all.map OutputFormat.name)⟩

def globalSignature : Signature :=
  ⟨[configOption, verboseOption, versionOption, helpOption], []⟩

inductive CommandName
  | generate
  | validate
  | catalog
deriving DecidableEq, Repr

namespace CommandName

def ofName? : String → Option CommandName
  | "generate" => some generate
  | "validate" => some validate
  | "catalog" => some catalog
  | _ => none

def signature : CommandName → Signature
  | generate => ⟨[outOption, formatOption, helpOption], ["SPEC"]⟩
  | validate => ⟨[helpOption], ["SPEC"]⟩
  | catalog => ⟨[helpOption], []⟩

def command : CommandName → Reading → Parsed Command
  | generate, r =>
    match r.values with
    | spec :: _ =>
      let format := (r.setting? formatOption.name).bind OutputFormat.ofName?
      .ok (.generate spec (r.setting? outOption.name) (format.getD .source))
    | [] => .error (.missing "SPEC")
  | validate, r =>
    match r.values with
    | spec :: _ => .ok (.validate spec)
    | [] => .error (.missing "SPEC")
  | catalog, _ => .ok .catalog

end CommandName

def configOf (r : Reading) (environment : Option String) : Parsed (Option String) :=
  match r.setting? configOption.name, environment with
  | some path, _ => .ok (some path)
  | none, some "" => .error (.badValue configOption.name "")
  | none, path => .ok path

def readHelp : List String → Parsed Request
  | [] => .ok .help
  | name :: args =>
    if name = "help" || (CommandName.ofName? name).isSome then
      match args with
      | [] => .ok .help
      | arg :: _ => .error (.unknownCommand arg)
    else .error (.unknownCommand name)

def readRequest (environment : Option String) (r : Reading) : List String → Parsed Request
  | [] =>
    match r.pending with
    | some o => .error (.missingValue o.name)
    | none => .error .missingCommand
  | arg :: args =>
    if r.pending.isSome || r.isLiteral || isDashed arg then do
      let r ← r.step globalSignature arg
      match r.query with
      | some "version" => return .version
      | some _ => return .help
      | none => readRequest environment r args
    else if arg = "help" then readHelp args
    else
      match CommandName.ofName? arg with
      | none => .error (.unknownCommand arg)
      | some name => do
        let given ← name.signature.read {} args
        if given.query.isSome then return .help
        return .run ⟨← configOf r environment, ← name.command given⟩

namespace Request

def ofArguments (args : List String) (environment : Option String) : Parsed Request :=
  readRequest environment {} args

end Request

end TokenContract
