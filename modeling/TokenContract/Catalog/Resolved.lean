import TokenContract.Catalog.Basic
import TokenContract.Defect
import TokenContract.Spec.Basic

namespace TokenContract

structure Resolved where
  feature : FeatureId
  values : Dict Value
deriving DecidableEq

namespace Resolved

def valueOf (p : Parameter) (s : Selection) : Value :=
  match s.parameters.find? p.id with
  | some v => if v.isBlank then p.default else v
  | none => p.default

theorem valueOf_eq (p : Parameter) (s : Selection) :
    valueOf p s = ((s.parameters.find? p.id).filter (!·.isBlank)).getD p.default := by
  rw [valueOf]
  cases s.parameters.find? p.id with
  | none => rfl
  | some v =>
    cases hv : v.isBlank with
    | true => simp [Option.filter, hv]
    | false => simp [Option.filter, hv]

def ofSelection (f : Feature) (s : Selection) : Resolved :=
  ⟨f.id, Dict.ofList (f.parameters.map fun p ↦ (p.id, valueOf p s))⟩

/-- What `read` finds in the value of a parameter; it is a defect if that is nothing. -/
def get {α : Type} (r : Resolved) (read : Value → Option α) (id : String) : Except Defect α :=
  match (r.values.find? id).bind read with
  | some a => .ok a
  | none => .error (.missingParameter r.feature id)

def number (r : Resolved) (id : String) : Except Defect Binary64 :=
  r.get Value.asNumber? id

def boolean (r : Resolved) (id : String) : Except Defect Bool :=
  r.get Value.asBool? id

def text (r : Resolved) (id : String) : Except Defect String :=
  r.get Value.asText? id

def natural (r : Resolved) (id : String) : Except Defect Nat :=
  return (← r.number id).toWord

def basisPoints (r : Resolved) (id : String) : Except Defect Nat :=
  return ((← r.number id) * 100).toWord

end Resolved

end TokenContract
