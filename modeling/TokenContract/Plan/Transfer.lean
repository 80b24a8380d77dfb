import TokenContract.Plan.Basic
import TokenContract.Plan.Graph

namespace TokenContract

def stagesOf (enabled : List Feature) : List Staged :=
  let staged := enabled.filterMap fun f ↦ f.transferStage.map (⟨f.id, ·⟩)
  staged.mergeSort fun s t ↦ s.stage.priority ≤ t.stage.priority

def feeds (stages : List Staged) (p c : Nat) : Bool :=
  match stages[p]?, stages[c]? with
  | some s, some t => p != c && t.stage.consumes.any (· ∈ s.stage.produces)
  | _, _ => false

def stageGraph (stages : List Staged) : Graph :=
  ⟨stages.length, feeds stages⟩

def tangledFeatures (stages : List Staged) : List FeatureId :=
  (stageGraph stages).tangled.filterMap fun i ↦ stages[i]?.map (·.feature)

/-- The first stage that produces a value, with its position. -/
def producer? (stages : List Staged) (v : SharedValue) : Option (FeatureId × Nat) :=
  (stages.zipIdx.find? fun s ↦ v ∈ s.1.stage.produces).map fun s ↦ (s.1.feature, s.2)

/-- The defect of a stage at a position that takes up a value before its producer. -/
def earlyUse? (stages : List Staged) (s : Staged) (position : Nat) (v : SharedValue) :
    Option Defect :=
  match producer? stages v with
  | some (p, i) => if position < i then some (.dependencyOrder s.feature p v.name) else none
  | none => none

def orderDefect? (stages : List Staged) : Option Defect :=
  stages.zipIdx.findSome? fun (s, i) ↦ s.stage.consumes.findSome? (earlyUse? stages s i)

def sharedValuesOf (stages : List Staged) : List SharedValue :=
  (stages.flatMap fun s ↦ s.stage.produces ++ s.stage.consumes).eraseDups

/-- The values that are taken up but not produced. -/
def zeroSeededOf (stages : List Staged) : List SharedValue :=
  ((stages.flatMap (·.stage.consumes)).filter fun v ↦ (producer? stages v).isNone).eraseDups

def checkAcyclic (stages : List Staged) : Except Defect Unit :=
  match tangledFeatures stages with
  | [] => .ok ()
  | ids => .error (.dependencyCycle ids)

def checkOrder (stages : List Staged) : Except Defect Unit :=
  match orderDefect? stages with
  | none => .ok ()
  | some d => .error d

def transferOf (stages : List Staged) (swapRouter : Bool) : Option Transfer :=
  if stages.isEmpty then none
  else some {
    stages := stages.map fun s ↦ (s.feature, s.stage.priority)
    sharedValues := sharedValuesOf stages
    zeroSeeded := zeroSeededOf stages
    swapGuard := swapRouter }

def planTransfer (enabled : List Feature) (swapRouter : Bool) :
    Except Defect (Option Transfer) := do
  let stages := stagesOf enabled
  checkAcyclic stages
  checkOrder stages
  return transferOf stages swapRouter

end TokenContract
