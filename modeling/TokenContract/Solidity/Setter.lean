import TokenContract.Solidity.Block

namespace TokenContract

def timelockExpiry : String := "timelockExpiry"

def createTimelock : String := "_createTimelock"

def timelockExpired : String := "_timelockExpired"

structure Setter where
  name : String
  params : String
  modifiers : String := "external onlyOwner"
  body : List String
deriving DecidableEq, Repr

namespace Setter

def overriding (s : Setter) : Setter :=
  { s with modifiers := "public override onlyOwner" }

def guard (name : String) : List String :=
  [s!"bytes32 functionId = keccak256(abi.encodePacked(\"{name}\"));"]
    ++ Solidity.block s!"if ({timelockExpiry}[functionId] == 0)"
      [s!"{createTimelock}(functionId);", "return;"]
    ++ [s!"require({timelockExpired}(functionId), \"Timelock: delay not elapsed\");",
      s!"delete {timelockExpiry}[functionId];"]

def signature (s : Setter) : String :=
  s!"function {s.name}({s.params}) {s.modifiers}"

def lines (s : Setter) (timelocked : Bool) : List String :=
  Solidity.block s.signature ((if timelocked then guard s.name else []) ++ s.body)

def render (s : Setter) (timelocked : Bool) : String :=
  Text.joinLines (s.lines timelocked)

/-- The inherited setters of the ownership, which a contract repeats only to put a guard before
them. -/
def inherited : List Setter :=
  [overriding ⟨"transferOwnership", "address newOwner", "", ["super.transferOwnership(newOwner);"]⟩,
    overriding ⟨"renounceOwnership", "", "", ["super.renounceOwnership();"]⟩]

def inherited? (name : String) : Option Setter :=
  inherited.find? (·.name == name)

end Setter

end TokenContract
