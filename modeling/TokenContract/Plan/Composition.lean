import TokenContract.Catalog.Check
import TokenContract.Plan.Setters
import TokenContract.Plan.Transfer

namespace TokenContract

def Catalog.selected (c : Catalog) (s : Spec) : List (Feature × Selection) :=
  c.features.filterMap fun f ↦ (s.selection? f.id).map (f, ·)

def ownerOf? (enabled : List Feature) (c : Capability) : Option FeatureId :=
  (enabled.find? (c ∈ ·.capabilities)).map (·.id)

def scopeOf (features : List PlannedFeature) : Except Defect (Option Scope) :=
  match features.find? (·.id == Scope.featureId) with
  | none => .ok none
  | some f => do
    match Scope.ofName? (← f.parameters.text Scope.parameterId) with
    | some s => return some s
    | none => .error (.missingParameter f.id Scope.parameterId)

def capabilitiesAt (owner? : Capability → Option FeatureId) (h : Hook) : List Contributor :=
  Capability.all.filterMap fun c ↦ if h ∈ c.hooks then (owner? c).map (.capability c) else none

def contributorsAt (enabled : List Feature) (owner? : Capability → Option FeatureId)
    (transfer : Option Transfer) (setters : List Binding) (h : Hook) : List Contributor :=
  capabilitiesAt owner? h ++
    match h with
    | .transfer => (transfer.elim [] (·.stages)).map fun s ↦ .feature s.1
    | .admin => (setters.map (·.contributor)).eraseDups
    | h => (enabled.filter (·.contributesTo h)).map fun f ↦ .feature f.id

def Catalog.checkKnown (c : Catalog) (s : Spec) : Except Defect Unit :=
  s.features.keys.forM fun id ↦ do let _ ← c.get id

/-- The features stand in the order of the catalog everywhere except in a transfer. -/
def Catalog.plan (c : Catalog) (s : Spec) : Except Defect Plan := do
  c.checkKnown s
  let selected := c.selected s
  let enabled := selected.map Prod.fst
  let features := selected.map fun (f, selection) ↦
    ⟨f.id, f.kind, Resolved.ofSelection f selection⟩
  let transfer ← planTransfer enabled (ownerOf? enabled .swapRouter).isSome
  let scope ← scopeOf features
  let setters ← planSetters (enabled.zip (features.map (·.parameters))) scope
  return {
    features
    hooks := fun h ↦
      match contributorsAt enabled (ownerOf? enabled) transfer setters h with
      | [] => none
      | cs => some cs
    capabilities := ownerOf? enabled
    transfer
    setters
    scope }

end TokenContract
