import TokenContract.Hook

namespace TokenContract

inductive Scope
  | all
  | taxOnly
  | ownershipOnly
deriving DecidableEq, Repr

def occursIn (w : List Char) : List Char → Bool
  | [] => w.isEmpty
  | c :: cs => w.isPrefixOf (c :: cs) || occursIn w cs

namespace Scope

def options : List Scope :=
  [.all, .taxOnly, .ownershipOnly]

def featureId : FeatureId := "timelock"

def parameterId : String := "functionsToTimelock"

def name : Scope → String
  | .all => "all"
  | .taxOnly => "tax-only"
  | .ownershipOnly => "ownership-only"

def ofName? : String → Option Scope
  | "all" => some .all
  | "tax-only" => some .taxOnly
  | "ownership-only" => some .ownershipOnly
  | _ => none

/-- A setter is covered by a word in its name, in capital letters or not. -/
def covers (s : Scope) (setter : String) : Bool :=
  let letters := setter.toList.map Char.toLower
  match s with
  | .all => true
  | .taxOnly => occursIn "tax".toList letters || occursIn "fee".toList letters
  | .ownershipOnly => occursIn "owner".toList letters

theorem ofName?_name (s : Scope) : ofName? s.name = some s := by
  cases s <;> rfl

end Scope

end TokenContract
