import TokenContract.Address
import TokenContract.Catalog.Resolved
import TokenContract.Feature.Output
import TokenContract.Solidity.Router

namespace TokenContract.Tax

open Solidity (block blockElse publicNumber)

/-- The highest tax, in percent; the setters of the contract keep to it too. -/
def maxPercent : Nat := 25

def setterNames : List String :=
  ["setBuyTax", "setSellTax", "setTaxShares", "setMarketingWallet", "setTaxSwapThreshold"]

/-- Trades with the pair pay a fee to the contract. What it collects is swapped at a threshold and
divided between liquidity and a wallet. -/
def feature : Feature where
  id := "tax"
  kind := .tax
  displayName := "Transaction Tax"
  description := "Buy/sell fees split between auto-liquidity and a marketing wallet"
  parameters := [
    (Parameter.number "buyTax" "Buy Tax (%)" 5).mandatory
      |>.within 0 (Binary64.ofNat maxPercent) 1
      |>.help "Fee taken when tokens are bought from the pair",
    (Parameter.number "sellTax" "Sell Tax (%)" 5).mandatory
      |>.within 0 (Binary64.ofNat maxPercent) 1
      |>.help "Fee taken when tokens are sold into the pair",
    (Parameter.number "liquidityShare" "Liquidity Share (%)" 50).mandatory
      |>.within 0 100 1
      |>.help "Portion of collected fees added to liquidity",
    (Parameter.number "marketingShare" "Marketing Share (%)" 50).mandatory
      |>.within 0 100 1
      |>.help "Portion of collected fees sent to the marketing wallet",
    (Parameter.text "marketingWallet" "Marketing Wallet").ofAddress
      |>.help "Receives the marketing share; defaults to the deployer",
    (Parameter.number "swapThreshold" "Swap Threshold (% of supply)" 0.05).within 0.01 5 0.01
      |>.help "Collected fees are swapped once they reach this share of supply"]
  hooks := [.state, .construction, .transfer, .admin, .helpers]
  capabilities := [.swapRouter]
  transferStage := some ⟨200, [.feeAmount], []⟩
  setters := setterNames.map fun name ↦ ⟨name, none⟩

/-- The wallet that takes the marketing share: that of the deployer unless another is given. -/
def wallet (r : Resolved) : Except Defect String := do
  let given := Text.trim (← r.text "marketingWallet")
  if given = "" then
    return "msg.sender"
  else match Address.checksum? given with
    | some a => return a
    | none => .error (.missingParameter r.feature "marketingWallet")

/-- The fee is declared by the frame of the transfer and only computed here. -/
def transfer : List String :=
  let fee := SharedValue.feeAmount.name
  block s!"if (_taxTokens >= swapTokensAtAmount && from != {Router.pair})"
      ["_swapAndDistribute(swapTokensAtAmount);"]
    ++ blockElse s!"if (from == {Router.pair} && buyTax > 0)" [s!"{fee} = amount * buyTax / 100;"]
      s!"if (to == {Router.pair} && sellTax > 0)" [s!"{fee} = amount * sellTax / 100;"]
    ++ block s!"if ({fee} > 0)"
      [s!"_taxTokens += {fee};",
        s!"amount -= {fee};",
        s!"super._transfer(from, address(this), {fee});"]

def helpers : List String :=
  block "function _swapAndDistribute(uint256 tokenAmount) private lockTheSwap" (
    ["uint256 totalShares = liquidityShare + marketingShare;"]
    ++ block "if (totalShares == 0)" ["return;"]
    ++ ["_taxTokens -= tokenAmount;",
      "uint256 liquidityTokens = tokenAmount * liquidityShare / totalShares / 2;",
      "uint256 initialBalance = address(this).balance;",
      "_swapTokensForEth(tokenAmount - liquidityTokens);",
      "uint256 ethReceived = address(this).balance - initialBalance;",
      "uint256 liquidityEth = ethReceived * liquidityShare / (totalShares * 2 - liquidityShare);"]
    ++ block "if (liquidityTokens > 0 && liquidityEth > 0)"
      ["_addLiquidity(liquidityTokens, liquidityEth);"]
    ++ ["uint256 marketingEth = ethReceived - liquidityEth;"]
    ++ block "if (marketingEth > 0)"
      ["(bool sent, ) = payable(marketingWallet).call\x7bvalue: marketingEth\x7d(\"\");",
        "require(sent, \"Tax: marketing transfer failed\");"])

def rateSetter (name rate : String) : Setter where
  name := name
  params := "uint256 newTax"
  body := [s!"require(newTax <= {maxPercent}, \"Tax: exceeds maximum\");", s!"{rate} = newTax;"]

def setters : List Setter := [
  rateSetter "setBuyTax" "buyTax",
  rateSetter "setSellTax" "sellTax",
  { name := "setTaxShares"
    params := "uint256 newLiquidityShare, uint256 newMarketingShare"
    body := ["liquidityShare = newLiquidityShare;", "marketingShare = newMarketingShare;"] },
  { name := "setMarketingWallet"
    params := "address newWallet"
    body := ["require(newWallet != address(0), \"Tax: zero address\");",
      "marketingWallet = newWallet;"] },
  { name := "setTaxSwapThreshold"
    params := "uint256 newAmount"
    body := ["require(newAmount > 0, \"Tax: zero threshold\");",
      "swapTokensAtAmount = newAmount;"] }]

def output (r : Resolved) (e : Environment) : Except Defect Output := do
  let buyTax ← r.natural "buyTax"
  let sellTax ← r.natural "sellTax"
  let liquidityShare ← r.natural "liquidityShare"
  let marketingShare ← r.natural "marketingShare"
  let threshold ← r.basisPoints "swapThreshold"
  let wallet ← wallet r
  return {
    sections := fun
      | .state => some [
        publicNumber "buyTax" (toString buyTax),
        publicNumber "sellTax" (toString sellTax),
        publicNumber "liquidityShare" (toString liquidityShare),
        publicNumber "marketingShare" (toString marketingShare),
        "address public marketingWallet;",
        publicNumber "swapTokensAtAmount" (e.share threshold),
        "uint256 private _taxTokens;"]
      | .construction => some [s!"marketingWallet = {wallet};"]
      | .transfer => some transfer
      | .helpers => some helpers
      | _ => none
    setters }

end TokenContract.Tax
