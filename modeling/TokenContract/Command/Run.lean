import TokenContract.Catalog.Format
import TokenContract.Catalog.Standard
import TokenContract.Command.Basic
import TokenContract.History
import TokenContract.Settings.Toml
import TokenContract.Spec.Yaml

namespace TokenContract

/-- What a run needs of its surroundings. Nothing is read from a file that is not there. -/
structure Host (m : Type → Type) where
  textOf : String → m (Option String)
  input : m (Option String)
  save : String → String → m Bool
  print : String → m Unit
  report : String → m Unit

variable {m : Type → Type} [Monad m]

abbrev Run (m : Type → Type) := ExceptT Failure m

def orFail {α : Type} (f : Failure) : Option α → Run m α
  | some a => return a
  | none => throw f

/-- Whether a path is a dash and nothing else. Empty parts of a path and points in the place of a
part count as nothing. -/
def isDash (path : String) : Bool :=
  match path.splitOn "/" with
  | [] => false
  | first :: more => first == "-" && more.all fun part ↦ part == "" || part == "."

def fileName (path : String) : List Char :=
  ((path.toList.reverse.dropWhile (· == '/')).takeWhile (· != '/')).reverse

def extension? (path : String) : Option String :=
  let name := fileName path
  match name.reverse.span (· != '.') with
  | (ending, _ :: _ :: _) => some (String.ofList ending.reverse)
  | _ => none

def isYamlPath (path : String) : Bool :=
  extension? path == some "yaml" || extension? path == some "yml"

def looksLikeJson (s : String) : Bool :=
  (s.toList.dropWhile Text.isBlank).head? == some '{'

def specOf (isYaml : Bool) (s : String) : Except Failure Spec :=
  if isYaml then
    match Spec.parseYaml? s with
    | some spec => .ok spec
    | none => .error .yaml
  else (Spec.parse s).mapError fun _ ↦ .json

namespace Host

def readSettings (h : Host m) : Option String → Run m Settings
  | none => return {}
  | some path => do
    let text ← orFail .file (← h.textOf path)
    orFail .config (Settings.parseToml? text)

def readSpec (h : Host m) (path : String) : Run m Spec := do
  if isDash path then
    let text ← orFail .file (← h.input)
    specOf (!looksLikeJson text) text
  else
    let text ← orFail .file (← h.textOf path)
    specOf (isYamlPath path) text

def write (h : Host m) (out : Option String) (text : String) : Run m Unit :=
  match out with
  | none => h.print text
  | some path => do
    if !(← h.save path text) then throw .file

end Host

def Artifact.toJson (a : Artifact) : Json :=
  .object [
    ("contractName", .text a.contractName),
    ("sourceText", .text a.sourceText),
    ("enabledFeatureIds", .array (a.enabled.map .text)),
    ("sourceHash", .text a.sourceHash)]

def Artifact.written (a : Artifact) : OutputFormat → String
  | .source => a.sourceText
  | .document => a.toJson.pretty

def validationReport (vs : List Violation) : Json :=
  .object [("valid", .bool vs.isEmpty), ("errors", .array (vs.map Violation.toJson))]

namespace Command

/-- Generates the contract of a specification. The violations of one that is rejected are
reported. -/
def runGenerate (h : Host m) (settings : Settings) (s : Spec) (out : Option String)
    (format : OutputFormat) : Run m Unit := do
  match (History.generate {} .standard settings s).1 with
  | .ok a => h.write out (a.written format)
  | .error (.invalid vs) =>
    vs.forM fun v ↦ h.report ("  " ++ v.display)
    throw (.rejected vs.length)
  | .error (.defect d) => throw (.defect d)

/-- Prints a report on a specification. One without violations must also have a plan. -/
def runValidate (h : Host m) (s : Spec) : Run m Unit := do
  let vs := Catalog.standard.violations s
  if vs.isEmpty then
    match Catalog.standard.plan s with
    | .ok _ => pure ()
    | .error d => throw (.defect d)
  h.print ((validationReport vs).pretty ++ "\n")
  if !vs.isEmpty then throw (.rejected vs.length)

def run (h : Host m) (settings : Settings) : Command → Run m Unit
  | generate path out format => do
    runGenerate h settings (← h.readSpec path) out format
  | validate path => do
    runValidate h (← h.readSpec path)
  | catalog => h.print (Catalog.standard.toJson.pretty ++ "\n")

end Command

def Invocation.run (h : Host m) (i : Invocation) : Run m Unit := do
  i.command.run h (← h.readSettings i.config)

end TokenContract
