import TokenContract.Catalog.Resolved
import TokenContract.Feature.Output

namespace TokenContract.Reflection

open Solidity (block call importOf publicNumber spaced)

/-- Part of the shared fee is burnt and noted as a reward per token, which holders claim. Without a
feature that takes a fee there are no rewards. -/
def feature : Feature where
  id := "reflection"
  kind := .reflection
  displayName := "Reflection Rewards"
  description := "Redistributes part of each extracted fee to holders by balance"
  parameters := [
    (Parameter.number "reflectionPercent" "Reflection (% of fee)" 50).mandatory
      |>.within 0 100 1]
  hooks := [.imports, .state, .transfer, .helpers]
  transferStage := some ⟨300, [], [.feeAmount]⟩

def transfer : List String :=
  [s!"uint256 reflectionAmount = {SharedValue.feeAmount.name} * reflectionPercent / 100;"]
    ++ block "if (reflectionAmount > 0 && totalSupply() > reflectionAmount)"
      ["_burn(from, reflectionAmount);",
        "amount -= reflectionAmount;",
        "_reflectionPerToken += Math.mulDiv(reflectionAmount, REFLECTION_MAGNITUDE, totalSupply());"]

/-- Every change of a balance settles both sides first. -/
def beforeTransfer : List String :=
  block "function _beforeTokenTransfer(address from, address to, uint256 amount) internal override" (
    ["super._beforeTokenTransfer(from, to, amount);"]
    ++ block "if (from != address(0))" ["_settleReflections(from);"]
    ++ block "if (to != address(0))" ["_settleReflections(to);"])

def settle : List String :=
  block "function _settleReflections(address account) private" (
    call "uint256 owed = Math.mulDiv"
      ["balanceOf(account)",
        "_reflectionPerToken - _reflectionCheckpoint[account]",
        "REFLECTION_MAGNITUDE"]
    ++ ["_reflectionCheckpoint[account] = _reflectionPerToken;"]
    ++ block "if (owed > 0)" ["pendingReflections[account] += owed;"])

def claim : List String :=
  block "function claimReflections() external"
    ["_settleReflections(msg.sender);",
      "uint256 owed = pendingReflections[msg.sender];",
      "require(owed > 0, \"Reflection: nothing to claim\");",
      "pendingReflections[msg.sender] = 0;",
      "_mint(msg.sender, owed);"]

def output (r : Resolved) (_ : Environment) : Except Defect Output := do
  let percent ← r.natural "reflectionPercent"
  return {
    sections := fun
      | .imports => some [importOf "@openzeppelin/contracts/utils/math/Math.sol"]
      | .state => some [
        publicNumber "reflectionPercent" (toString percent),
        "uint256 private constant REFLECTION_MAGNITUDE = 2**128;",
        "uint256 private _reflectionPerToken;",
        "mapping(address => uint256) private _reflectionCheckpoint;",
        "mapping(address => uint256) public pendingReflections;"]
      | .transfer => some transfer
      | .helpers => some (spaced [beforeTransfer, settle, claim])
      | _ => none }

end TokenContract.Reflection
