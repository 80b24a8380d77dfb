import TokenContract.Hook
import TokenContract.Text.Diagnostic

namespace TokenContract

/-- Disagreements between a catalog, a plan and the text of the features. -/
inductive Defect
  | unknownFeature (feature : FeatureId)
  | duplicateFeature (feature : FeatureId)
  | invalidCatalog (feature : FeatureId) (reason : String)
  | dependencyOrder (consumer producer : FeatureId) (value : String)
  | dependencyCycle (features : List FeatureId)
  | duplicateSetter (name first second : String)
  | missingFragment (feature : FeatureId) (hook : Hook)
  | unexpectedFragment (feature : FeatureId) (hook : Hook)
  | missingParameter (feature : FeatureId) (parameter : String)
deriving DecidableEq, Repr

namespace Defect

def showId (id : FeatureId) : String :=
  "FeatureId(" ++ Text.diagnostic id ++ ")"

def showIds (ids : List FeatureId) : String :=
  "[" ++ ", ".intercalate (ids.map showId) ++ "]"

def message : Defect → String
  | unknownFeature f => s!"unknown feature '{f}'"
  | duplicateFeature f => s!"feature '{f}' is registered twice"
  | invalidCatalog f reason => s!"invalid catalog entry '{f}': {reason}"
  | dependencyOrder consumer producer value =>
    s!"stage '{consumer}' consumes '{value}' before producer '{producer}' runs"
  | dependencyCycle features =>
    "transfer stage dependency cycle through " ++ showIds features
  | duplicateSetter name first second =>
    s!"admin function '{name}' declared by both '{first}' and '{second}'"
  | missingFragment f hook => s!"renderer for '{f}' produced no fragment for {hook.label}"
  | unexpectedFragment f hook => s!"renderer for '{f}' produced an undeclared {hook.label} fragment"
  | missingParameter f parameter =>
    s!"parameter '{parameter}' of '{f}' is unavailable after validation"

end Defect

end TokenContract
