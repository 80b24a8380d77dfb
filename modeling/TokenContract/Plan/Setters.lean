import TokenContract.Plan.Basic

namespace TokenContract

def addSetter (bound : List Binding) (name : String) (c : Contributor) :
    Except Defect (List Binding) :=
  match bound.find? (·.name == name) with
  | some b => .error (.duplicateSetter name b.contributor.label c.label)
  | none => .ok (bound ++ [⟨name, c, false⟩])

def SetterDeclaration.applies (d : SetterDeclaration) (r : Resolved) : Except Defect Bool :=
  match d.requiresFlag with
  | some flag => r.boolean flag
  | none => .ok true

def addSetters (bound : List Binding) (f : Feature) (r : Resolved) :
    Except Defect (List Binding) :=
  f.setters.foldlM (fun bound d ↦ do
    if ← d.applies r then addSetter bound d.name (.feature f.id) else return bound) bound

def inheritedNames : List String :=
  ["transferOwnership", "renounceOwnership"]

def addInherited (bound : List Binding) (s : Scope) : Except Defect (List Binding) :=
  (inheritedNames.filter s.covers).foldlM (fun bound name ↦ addSetter bound name .base) bound

def planSetters (features : List (Feature × Resolved)) (scope : Option Scope) :
    Except Defect (List Binding) := do
  let bound ← features.foldlM (fun bound (f, r) ↦ addSetters bound f r) []
  match scope with
  | none => return bound
  | some s =>
    return (← addInherited bound s).map fun b ↦ { b with timelocked := s.covers b.name }

end TokenContract
