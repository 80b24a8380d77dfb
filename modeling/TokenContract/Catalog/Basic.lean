import TokenContract.Hook
import TokenContract.Spec.Value

namespace TokenContract

inductive ParameterType
  | text
  | number
  | boolean
  | select
deriving DecidableEq, Repr

def ParameterType.name : ParameterType → String
  | .text => "text"
  | .number => "number"
  | .boolean => "boolean"
  | .select => "select"

structure Parameter where
  id : String
  displayName : String
  type : ParameterType
  required : Bool := false
  default : Value
  min : Option Binary64 := none
  max : Option Binary64 := none
  step : Option Binary64 := none
  options : List String := []
  address : Bool := false
  helpText : String := ""
deriving DecidableEq

namespace Parameter

def number (id displayName : String) (default : Binary64) : Parameter :=
  { id, displayName, type := .number, default := .number default }

def boolean (id displayName : String) (default : Bool) : Parameter :=
  { id, displayName, type := .boolean, default := .bool default }

def text (id displayName : String) : Parameter :=
  { id, displayName, type := .text, default := .text "" }

def select (id displayName : String) (options : List String) (default : String) : Parameter :=
  { id, displayName, type := .select, default := .text default, options }

def mandatory (p : Parameter) : Parameter :=
  { p with required := true }

def within (p : Parameter) (min max step : Binary64) : Parameter :=
  { p with min := some min, max := some max, step := some step }

def ofAddress (p : Parameter) : Parameter :=
  { p with address := true }

def help (p : Parameter) (helpText : String) : Parameter :=
  { p with helpText }

end Parameter

/-- The kind of a feature decides what text it contributes. -/
inductive FeatureKind
  | tax
  | antibot
  | reflection
  | autoLiquidity
  | timelock
deriving DecidableEq, Repr

namespace FeatureKind

def all : List FeatureKind :=
  [.tax, .antibot, .reflection, .autoLiquidity, .timelock]

def name : FeatureKind → String
  | .tax => "tax"
  | .antibot => "antibot"
  | .reflection => "reflection"
  | .autoLiquidity => "autoLiquidity"
  | .timelock => "timelock"

def ofName? (s : String) : Option FeatureKind :=
  all.find? fun k ↦ k.name == s

end FeatureKind

/-- Where a feature stands in a transfer, and which values it hands on or takes up. Stages with a
lower priority come first. -/
structure TransferStage where
  priority : Nat
  produces : List SharedValue
  consumes : List SharedValue
deriving DecidableEq, Repr

/-- A setter that a feature adds, always or only if a flag among its parameters is set. -/
structure SetterDeclaration where
  name : String
  requiresFlag : Option String := none
deriving DecidableEq, Repr

structure Feature where
  id : FeatureId
  kind : FeatureKind
  displayName : String := ""
  description : String := ""
  parameters : List Parameter := []
  hooks : List Hook := []
  capabilities : List Capability := []
  transferStage : Option TransferStage := none
  setters : List SetterDeclaration := []
deriving DecidableEq

namespace Feature

def contributesTo (f : Feature) (h : Hook) : Bool :=
  f.hooks.contains h

def parameter? (f : Feature) (id : String) : Option Parameter :=
  f.parameters.find? fun p ↦ p.id == id

end Feature

/-- A list of features; nothing is said about whether they go together. -/
structure Catalog where
  features : List Feature
deriving DecidableEq

namespace Catalog

def find? (c : Catalog) (id : FeatureId) : Option Feature :=
  c.features.find? fun f ↦ f.id == id

def position? (c : Catalog) (id : FeatureId) : Option Nat :=
  c.features.findIdx? fun f ↦ f.id == id

def parameter? (c : Catalog) (feature : FeatureId) (id : String) : Option Parameter :=
  (c.find? feature).bind (·.parameter? id)

end Catalog

end TokenContract
