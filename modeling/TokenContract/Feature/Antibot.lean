import TokenContract.Catalog.Resolved
import TokenContract.Feature.Output
import TokenContract.Solidity.Router

namespace TokenContract.Antibot

open Solidity (block publicNumber)

/-- Caps on what is transferred at once and on what an account holds, and if wanted a blacklist. The
pair holds the tokens of the pool, so the second cap is not for it. -/
def feature : Feature where
  id := "antibot"
  kind := .antibot
  displayName := "Anti-Bot Limits"
  description := "Max-transaction and max-wallet caps with an optional blacklist"
  parameters := [
    (Parameter.number "maxTxAmount" "Max Transaction (% of supply)" 1).mandatory
      |>.within 0.1 100 0.1,
    (Parameter.number "maxWalletAmount" "Max Wallet (% of supply)" 2).mandatory
      |>.within 0.1 100 0.1,
    (Parameter.boolean "enableBlacklist" "Enable Blacklist" false)
      |>.help "Lets the owner block addresses from transferring"]
  hooks := [.state, .construction, .transfer, .admin]
  transferStage := some ⟨100, [], []⟩
  setters := [⟨"setMaxTxAmount", none⟩, ⟨"setMaxWalletAmount", none⟩, ⟨"setLimitExemption", none⟩,
    ⟨"setBlacklist", some "enableBlacklist"⟩]

def onlyIf (blacklist : Bool) (line : String) : List String :=
  if blacklist then [line] else []

def transfer (blacklist swapRouter : Bool) : List String :=
  let spared := if swapRouter then s!" && to != {Router.pair}" else ""
  onlyIf blacklist
      "require(!isBlacklisted[from] && !isBlacklisted[to], \"Antibot: address is blacklisted\");"
    ++ block "if (!isExemptFromLimits[from] && !isExemptFromLimits[to])"
      ["require(amount <= maxTxAmount, \"Antibot: transfer exceeds max transaction\");"]
    ++ block s!"if (!isExemptFromLimits[to]{spared})"
      ["require(balanceOf(to) + amount <= maxWalletAmount, \"Antibot: balance exceeds max wallet\");"]

def capSetter (name cap : String) : Setter where
  name := name
  params := "uint256 newAmount"
  body := ["require(newAmount >= totalSupply() / 1000, \"Antibot: limit too low\");",
    s!"{cap} = newAmount;"]

def setters (blacklist : Bool) : List Setter :=
  [capSetter "setMaxTxAmount" "maxTxAmount",
    capSetter "setMaxWalletAmount" "maxWalletAmount",
    { name := "setLimitExemption"
      params := "address account, bool exempt"
      body := ["isExemptFromLimits[account] = exempt;"] }]
    ++ if blacklist then
      [{ name := "setBlacklist"
         params := "address account, bool blocked"
         body := ["isBlacklisted[account] = blocked;"] }]
    else []

def output (r : Resolved) (e : Environment) : Except Defect Output := do
  let maxTx ← r.basisPoints "maxTxAmount"
  let maxWallet ← r.basisPoints "maxWalletAmount"
  let blacklist ← r.boolean "enableBlacklist"
  return {
    sections := fun
      | .state => some (
        [publicNumber "maxTxAmount" (e.share maxTx),
          publicNumber "maxWalletAmount" (e.share maxWallet),
          "mapping(address => bool) public isExemptFromLimits;"]
        ++ onlyIf blacklist "mapping(address => bool) public isBlacklisted;")
      | .construction => some [
        "isExemptFromLimits[msg.sender] = true;",
        "isExemptFromLimits[address(this)] = true;"]
      | .transfer => some (transfer blacklist e.swapRouter)
      | _ => none
    setters := setters blacklist }

end TokenContract.Antibot
