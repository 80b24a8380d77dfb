import TokenContract.Artifact
import TokenContract.Plan.Composition
import TokenContract.Source.Assembly
import TokenContract.Validation

namespace TokenContract

inductive Rejection
  | invalid (violations : List Violation)
  | defect (d : Defect)
deriving DecidableEq, Repr

namespace Rejection

def message : Rejection → String
  | invalid vs => s!"token specification rejected with {vs.length} validation error(s)"
  | defect d => "internal composition defect: " ++ d.message

def isDefect : Rejection → Bool
  | invalid _ => false
  | defect _ => true

def violations? : Rejection → Option (List Violation)
  | invalid vs => some vs
  | defect _ => none

end Rejection

namespace Catalog

def validate (c : Catalog) (s : Spec) : Except Rejection Unit :=
  match c.violations s with
  | [] => .ok ()
  | vs => .error (.invalid vs)

def assembly (c : Catalog) (s : Spec) (settings : Settings) : Except Defect Assembly := do
  (← c.plan s).assemble s settings

/-- A specification with violations is rejected with all of them and never planned; whatever fails
later is a defect. -/
def generate (c : Catalog) (s : Spec) (settings : Settings) : Except Rejection Artifact := do
  c.validate s
  return Artifact.ofAssembly (← (c.assembly s settings).mapError .defect)

end Catalog

end TokenContract
