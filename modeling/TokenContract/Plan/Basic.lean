import TokenContract.Catalog.Resolved
import TokenContract.Scope

namespace TokenContract

/-- Who fills a hook: the skeleton of the contract, shared infrastructure, which belongs to the
first feature that needs it, or a feature. -/
inductive Contributor
  | base
  | capability (capability : Capability) (owner : FeatureId)
  | feature (id : FeatureId)
deriving DecidableEq, Repr

namespace Contributor

/-- The feature that is responsible. -/
def feature? : Contributor → Option FeatureId
  | .base => none
  | .capability _ owner => some owner
  | .feature id => some id

def baseLabel : String := "base"

def label : Contributor → String
  | .base => baseLabel
  | .capability c _ => c.label
  | .feature id => id

end Contributor

structure PlannedFeature where
  id : FeatureId
  kind : FeatureKind
  parameters : Resolved
deriving DecidableEq

structure Staged where
  feature : FeatureId
  stage : TransferStage
deriving DecidableEq, Repr

/-- The stages of a transfer in their order, the values that they share in the order of first use,
and those of them that no stage produces, which stay zero. The guard leaves out the stages while the
contract swaps its own tokens. -/
structure Transfer where
  stages : List (FeatureId × Nat)
  sharedValues : List SharedValue
  zeroSeeded : List SharedValue
  swapGuard : Bool
deriving DecidableEq, Repr

/-- A setter, who adds it, and whether it waits behind the timelock. -/
structure Binding where
  name : String
  contributor : Contributor
  timelocked : Bool := false
deriving DecidableEq, Repr

/-- A hook without contributors is not there at all. -/
structure Plan where
  features : List PlannedFeature
  hooks : Hook → Option (List Contributor)
  capabilities : Capability → Option FeatureId
  transfer : Option Transfer
  setters : List Binding
  scope : Option Scope

namespace Plan

def isActive (p : Plan) (h : Hook) : Bool :=
  (p.hooks h).isSome

def hasCapability (p : Plan) (c : Capability) : Bool :=
  (p.capabilities c).isSome

def feature? (p : Plan) (id : FeatureId) : Option PlannedFeature :=
  p.features.find? (·.id == id)

def enabled (p : Plan) : List FeatureId :=
  p.features.map (·.id)

def settersOf (p : Plan) (c : Contributor) : List Binding :=
  p.setters.filter (·.contributor == c)

def timelocked (p : Plan) : List String :=
  (p.setters.filter (·.timelocked)).map (·.name)

end Plan

end TokenContract
