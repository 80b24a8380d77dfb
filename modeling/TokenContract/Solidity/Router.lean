import TokenContract.Hook
import TokenContract.Solidity.Block

namespace TokenContract

namespace Router

open Solidity (block call importOf spaced)

def account : String := "0x7a250d5630B4cF539739dF2C5dAcb4c659F2488D"

def pair : String := "uniswapV2Pair"

def swapFlag : String := "_inSwap"

def imports : List String :=
  [importOf "@uniswap/v2-core/contracts/interfaces/IUniswapV2Factory.sol",
    importOf "@uniswap/v2-periphery/contracts/interfaces/IUniswapV2Router02.sol"]

def state : List String :=
  [s!"address public constant UNISWAP_V2_ROUTER = {account};",
    "IUniswapV2Router02 public immutable uniswapV2Router;",
    s!"address public {pair};",
    s!"bool private {swapFlag};",
    ""]
    ++ block "modifier lockTheSwap()" [s!"{swapFlag} = true;", "_;", s!"{swapFlag} = false;"]

/-- The pair is kept in storage, so that text of the constructor after this one can read it. -/
def construction : List String :=
  ["IUniswapV2Router02 router = IUniswapV2Router02(UNISWAP_V2_ROUTER);",
    "uniswapV2Router = router;",
    s!"{pair} = IUniswapV2Factory(router.factory()).createPair(address(this), router.WETH());"]

def swapTokensForEth : List String :=
  block "function _swapTokensForEth(uint256 tokenAmount) internal" (
    ["address[] memory path = new address[](2);",
      "path[0] = address(this);",
      "path[1] = uniswapV2Router.WETH();",
      "_approve(address(this), address(uniswapV2Router), tokenAmount);"]
    ++ call "uniswapV2Router.swapExactTokensForETHSupportingFeeOnTransferTokens"
      ["tokenAmount", "0", "path", "address(this)", "block.timestamp"])

def addLiquidity : List String :=
  block "function _addLiquidity(uint256 tokenAmount, uint256 ethAmount) internal" (
    ["_approve(address(this), address(uniswapV2Router), tokenAmount);"]
    ++ call "uniswapV2Router.addLiquidityETH\x7bvalue: ethAmount\x7d"
      ["address(this)", "tokenAmount", "0", "0", "owner()", "block.timestamp"])

def helpers : List String :=
  spaced [swapTokensForEth, addLiquidity, ["receive() external payable \x7b\x7d"]]

def section? : Hook → Option (List String)
  | .imports => some imports
  | .state => some state
  | .construction => some construction
  | .helpers => some helpers
  | .transfer | .admin => none

end Router

namespace Capability

def section? : Capability → Hook → Option (List String)
  | .swapRouter => Router.section?

theorem isSome_section? (c : Capability) (h : Hook) : (c.section? h).isSome ↔ h ∈ c.hooks := by
  cases c; cases h <;> decide

end Capability

end TokenContract
