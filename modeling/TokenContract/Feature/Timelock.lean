import TokenContract.Catalog.Resolved
import TokenContract.Feature.Output
import TokenContract.Scope

namespace TokenContract.Timelock

open Solidity (block spaced)

/-- The delay, the noted times and what the guards of setters call. Which setters have a guard is
decided by the plan. -/
def feature : Feature where
  id := Scope.featureId
  kind := .timelock
  displayName := "Admin Timelock"
  description := "Delays a scope of administrative functions"
  parameters := [
    (Parameter.select Scope.parameterId "Functions to Timelock"
      (Scope.options.map Scope.name) Scope.all.name).mandatory,
    (Parameter.number "delayHours" "Delay (hours)" 48).within 1 720 1]
  hooks := [.state, .helpers]

def create : List String :=
  block s!"function {createTimelock}(bytes32 functionId) private"
    ["uint256 executableAt = block.timestamp + TIMELOCK_DELAY;",
      s!"{timelockExpiry}[functionId] = executableAt;",
      "emit TimelockScheduled(functionId, executableAt);"]

def expired : List String :=
  block s!"function {timelockExpired}(bytes32 functionId) private view returns (bool)"
    [s!"uint256 expiry = {timelockExpiry}[functionId];",
      "return expiry != 0 && block.timestamp >= expiry;"]

def output (r : Resolved) (_ : Environment) : Except Defect Output := do
  let delay ← r.natural "delayHours"
  return {
    sections := fun
      | .state => some [
        s!"uint256 public constant TIMELOCK_DELAY = {delay} hours;",
        s!"mapping(bytes32 => uint256) public {timelockExpiry};",
        "",
        "event TimelockScheduled(bytes32 indexed functionId, uint256 executableAt);"]
      | .helpers => some (spaced [create, expired])
      | _ => none }

end TokenContract.Timelock
