import TokenContract.Catalog.Basic
import TokenContract.Defect

namespace TokenContract

inductive Flaw
  | noOptions (parameter : String)
  | defaultNotOption (parameter : String)
  | defaultNotNumber (parameter : String)
  | boundsCrossed (parameter : String) (min max : Binary64)
  | defaultOutOfBounds (parameter : String)
  | defaultNotBoolean (parameter : String)
  | defaultNotText (parameter : String)
  | repeatedParameter (parameter : String)
  | repeatedHook (hook : Hook)
  | stageApartFromHook
  | settersApartFromHook
  | flagNotBoolean (setter flag : String)
deriving DecidableEq

def Flaw.message : Flaw → String
  | noOptions p => s!"select parameter '{p}' has no options"
  | defaultNotOption p => s!"default of '{p}' is not one of its options"
  | defaultNotNumber p => s!"numeric parameter '{p}' has a non-numeric default"
  | boundsCrossed p min max => s!"'{p}' has min {min.display} above max {max.display}"
  | defaultOutOfBounds p => s!"default of '{p}' is outside its bounds"
  | defaultNotBoolean p => s!"boolean parameter '{p}' has a non-boolean default"
  | defaultNotText p => s!"text parameter '{p}' has a non-text default"
  | repeatedParameter p => s!"parameter '{p}' declared twice"
  | repeatedHook h => s!"hook point {h.label} declared twice"
  | stageApartFromHook => "transfer-override hook and transfer stage must be declared together"
  | settersApartFromHook => "admin-functions hook and admin setters must be declared together"
  | flagNotBoolean setter flag => s!"setter '{setter}' depends on non-boolean parameter '{flag}'"

namespace Parameter

def inBounds (p : Parameter) (x : Binary64) : Bool :=
  !(p.min.any (x < ·)) && !(p.max.any (· < x))

def crossedBounds (p : Parameter) : Option (Binary64 × Binary64) :=
  match p.min, p.max with
  | some min, some max => if max < min then some (min, max) else none
  | _, _ => none

/-- A choice has options and its default is one of them; a default of any other sort is a value of
the type, and a number keeps to the bounds. -/
def flaw? (p : Parameter) : Option Flaw :=
  match p.type with
  | .select =>
    if p.options = [] then some (.noOptions p.id)
    else if p.default.asText?.getD "" ∈ p.options then none
    else some (.defaultNotOption p.id)
  | .number =>
    match p.default.asNumber? with
    | none => some (.defaultNotNumber p.id)
    | some x =>
      match p.crossedBounds with
      | some (min, max) => some (.boundsCrossed p.id min max)
      | none => if p.inBounds x then none else some (.defaultOutOfBounds p.id)
  | .boolean => if p.default.asBool?.isSome then none else some (.defaultNotBoolean p.id)
  | .text => if p.default.asText?.isSome then none else some (.defaultNotText p.id)

end Parameter

namespace Feature

def parameterFlaw? (seen : List String) : List Parameter → Option Flaw
  | [] => none
  | p :: ps =>
    if p.id ∈ seen then some (.repeatedParameter p.id)
    else p.flaw? <|> parameterFlaw? (p.id :: seen) ps

def hookFlaw? (seen : List Hook) : List Hook → Option Flaw
  | [] => none
  | h :: hs => if h ∈ seen then some (.repeatedHook h) else hookFlaw? (h :: seen) hs

def isBooleanParameter (f : Feature) (id : String) : Bool :=
  (f.parameter? id).any (·.type == .boolean)

def flagFlaw? (f : Feature) (s : SetterDeclaration) : Option Flaw :=
  match s.requiresFlag with
  | some flag => if f.isBooleanParameter flag then none else some (.flagNotBoolean s.name flag)
  | none => none

def flaw? (f : Feature) : Option Flaw :=
  parameterFlaw? [] f.parameters
  <|> hookFlaw? [] f.hooks
  <|> (if f.contributesTo .transfer = f.transferStage.isSome then none else some .stageApartFromHook)
  <|> (if f.contributesTo .admin = !f.setters.isEmpty then none else some .settersApartFromHook)
  <|> f.setters.findSome? f.flagFlaw?

def defect? (f : Feature) : Option Defect :=
  f.flaw?.map fun w ↦ .invalidCatalog f.id w.message

end Feature

namespace Catalog

/-- The first defect among features that come after those with the names `seen`. -/
def featureDefect? (seen : List FeatureId) : List Feature → Option Defect
  | [] => none
  | f :: fs =>
    if f.id ∈ seen then some (.duplicateFeature f.id)
    else f.defect? <|> featureDefect? (f.id :: seen) fs

def defect? (c : Catalog) : Option Defect :=
  featureDefect? [] c.features

def verify (c : Catalog) : Except Defect Unit :=
  match c.defect? with
  | some d => .error d
  | none => .ok ()

def ofFeatures (features : List Feature) : Except Defect Catalog := do
  let c : Catalog := ⟨features⟩
  c.verify
  return c

def get (c : Catalog) (id : FeatureId) : Except Defect Feature :=
  match c.find? id with
  | some f => .ok f
  | none => .error (.unknownFeature id)

end Catalog

end TokenContract
