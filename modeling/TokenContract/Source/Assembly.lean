import TokenContract.Feature.Kind
import TokenContract.Settings
import TokenContract.Source.Fragment

namespace TokenContract

namespace Spec

def supplyExpression (s : Spec) : String :=
  s!"{Text.trim s.totalSupply} * 10 ** {s.decimals.toNat}"

def environment (s : Spec) (p : Plan) : Environment :=
  ⟨s.supplyExpression, p.hasCapability .swapRouter⟩

def header (s : Spec) (settings : Settings) : Header where
  license := settings.license
  contractName := s.contractName
  tokenName := Text.trim s.name
  tokenSymbol := Text.trim s.symbol
  decimals := s.decimals
  supply := s.supplyExpression

end Spec

namespace Plan

def expects (p : Plan) (id : FeatureId) (h : Hook) : Bool :=
  ((p.hooks h).getD []).contains (.feature id)

def expectsSetter (p : Plan) (id : FeatureId) (name : String) : Bool :=
  (p.settersOf (.feature id)).any (·.name == name)

/-- The first hook that a feature fills against the plan. The owner's functions are judged setter by
setter. -/
def unexpected? (p : Plan) (id : FeatureId) (o : Output) : Option Hook :=
  (o.hooks.find? fun h ↦ h != .admin && !p.expects id h)
  <|> if o.setters.all (p.expectsSetter id ·.name) then none else some .admin

def outputOf (p : Plan) (e : Environment) (f : PlannedFeature) :
    Except Defect (FeatureId × Output) := do
  let o ← f.kind.output f.parameters e
  match p.unexpected? f.id o with
  | some h => .error (.unexpectedFragment f.id h)
  | none => return (f.id, o)

def outputs (p : Plan) (e : Environment) : Except Defect (Dict Output) :=
  return Dict.ofList (← p.features.mapM (p.outputOf e))

def setterFragments (p : Plan) (h : Hook) (c : Contributor) (owner : FeatureId)
    (setter? : String → Option Setter) : Except Defect (List Fragment) :=
  (p.settersOf c).mapM fun b ↦
    match setter? b.name with
    | some s => return ⟨h, c, s.render b.timelocked⟩
    | none => .error (.missingFragment owner h)

def fragmentsOf (p : Plan) (os : Dict Output) (h : Hook) (c : Contributor) :
    Except Defect (List Fragment) :=
  match c with
  | .base => p.setterFragments h c Contributor.baseLabel Setter.inherited?
  | .capability capability owner =>
    match capability.section? h with
    | some ls => .ok [⟨h, c, Text.joinLines ls⟩]
    | none => .error (.missingFragment owner h)
  | .feature id =>
    match h, os.find? id with
    | .admin, some o => p.setterFragments h c id o.setter?
    | h, some o =>
      match o.text? h with
      | some text => .ok [⟨h, c, text⟩]
      | none => .error (.missingFragment id h)
    | h, none => .error (.missingFragment id h)

def fragmentsAt (p : Plan) (os : Dict Output) (h : Hook) : Except Defect (List Fragment) :=
  return (← ((p.hooks h).getD []).mapM (p.fragmentsOf os h)).flatten

def frame (p : Plan) : Frame :=
  match p.transfer with
  | some t => ⟨t.swapGuard, t.sharedValues.map SharedValue.declaration⟩
  | none => {}

def assemble (p : Plan) (s : Spec) (settings : Settings) : Except Defect Assembly := do
  let os ← p.outputs (s.environment p)
  return {
    header := s.header settings
    fragments := (← Hook.all.mapM (p.fragmentsAt os)).flatten
    frame := p.frame
    enabled := p.enabled }

end Plan

end TokenContract
