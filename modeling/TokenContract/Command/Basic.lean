import TokenContract.Generation

namespace TokenContract

/-- How an artifact is written: its source text alone, or all of it as a document. -/
inductive OutputFormat
  | source
  | document
deriving DecidableEq, Repr

namespace OutputFormat

def all : List OutputFormat := [source, document]

def name : OutputFormat → String
  | source => "source"
  | document => "json"

def ofName? (s : String) : Option OutputFormat :=
  all.find? (·.name == s)

end OutputFormat

inductive Command
  | generate (spec : String) (out : Option String) (format : OutputFormat)
  | validate (spec : String)
  | catalog
deriving DecidableEq, Repr

structure Invocation where
  config : Option String
  command : Command
deriving DecidableEq, Repr

inductive Request
  | version
  | help
  | run (invocation : Invocation)
deriving DecidableEq, Repr

inductive Failure
  | file
  | json
  | yaml
  | config
  | rejected (count : Nat)
  | defect (d : Defect)
deriving DecidableEq, Repr

def showRecord (name : String) (fields : List (String × String)) : String :=
  name ++ " \x7b " ++ ", ".intercalate (fields.map fun (k, v) ↦ k ++ ": " ++ v) ++ " \x7d"

def Defect.diagnostic : Defect → String
  | unknownFeature f => s!"UnknownFeature({Text.diagnostic f})"
  | duplicateFeature f => s!"DuplicateFeature({showId f})"
  | invalidCatalog f reason =>
    showRecord "InvalidCatalog" [("feature", showId f), ("reason", Text.diagnostic reason)]
  | dependencyOrder consumer producer value =>
    showRecord "DependencyOrder" [("consumer", showId consumer), ("producer", showId producer),
      ("value", Text.diagnostic value)]
  | dependencyCycle fs => s!"DependencyCycle({showIds fs})"
  | duplicateSetter name first second =>
    showRecord "DuplicateAdminFunction" [("name", Text.diagnostic name),
      ("first", Text.diagnostic first), ("second", Text.diagnostic second)]
  | missingFragment f h => showRecord "MissingFragment" [("feature", showId f), ("hook", h.name)]
  | unexpectedFragment f h =>
    showRecord "UnexpectedFragment" [("feature", showId f), ("hook", h.name)]
  | missingParameter f p =>
    showRecord "MissingParameter" [("feature", showId f), ("parameter", Text.diagnostic p)]

def Failure.diagnostic : Failure → String
  | file => "Io"
  | json => "Json"
  | yaml => "Yaml"
  | config => "Config"
  | rejected n => s!"Rejected({n})"
  | defect d => s!"Forge(Composition({d.diagnostic}))"

end TokenContract
