import TokenContract.Catalog.Resolved
import TokenContract.Feature.Output
import TokenContract.Solidity.Router

namespace TokenContract.AutoLiquidity

open Solidity (block publicNumber)

/-- Part of each transfer is kept by the contract; once that reaches a threshold, half of it is
swapped and both halves go to the pool. -/
def feature : Feature where
  id := "autoLiquidity"
  kind := .autoLiquidity
  displayName := "Auto-Liquidity"
  description := "Accumulates part of each transfer and periodically adds it to the pool"
  parameters := [
    (Parameter.number "liquidityPercent" "Liquidity (% of transfer)" 2).mandatory
      |>.within 0 10 1,
    (Parameter.number "liquidityThreshold" "Liquify Threshold (% of supply)" 0.05)
      |>.within 0.01 5 0.01]
  hooks := [.state, .transfer, .helpers]
  capabilities := [.swapRouter]
  transferStage := some ⟨400, [], []⟩

def transfer : List String :=
  ["uint256 liquidityAmount = amount * autoLiquidityPercent / 100;"]
    ++ block "if (liquidityAmount > 0)"
      ["_liquidityTokens += liquidityAmount;",
        "amount -= liquidityAmount;",
        "super._transfer(from, address(this), liquidityAmount);"]
    ++ block s!"if (_liquidityTokens >= liquifyThreshold && from != {Router.pair})"
      ["_swapAndLiquify(liquifyThreshold);"]

def helpers : List String :=
  block "function _swapAndLiquify(uint256 tokenAmount) private lockTheSwap" (
    ["_liquidityTokens -= tokenAmount;",
      "uint256 half = tokenAmount / 2;",
      "uint256 otherHalf = tokenAmount - half;",
      "uint256 initialBalance = address(this).balance;",
      "_swapTokensForEth(half);",
      "uint256 ethReceived = address(this).balance - initialBalance;"]
    ++ block "if (ethReceived > 0)" ["_addLiquidity(otherHalf, ethReceived);"])

def output (r : Resolved) (e : Environment) : Except Defect Output := do
  let percent ← r.natural "liquidityPercent"
  let threshold ← r.basisPoints "liquidityThreshold"
  return {
    sections := fun
      | .state => some [
        publicNumber "autoLiquidityPercent" (toString percent),
        publicNumber "liquifyThreshold" (e.share threshold),
        "uint256 private _liquidityTokens;"]
      | .transfer => some transfer
      | .helpers => some helpers
      | _ => none }

end TokenContract.AutoLiquidity
