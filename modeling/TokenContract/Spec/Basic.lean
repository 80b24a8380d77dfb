import TokenContract.Hook
import TokenContract.Spec.Value

namespace TokenContract

structure Selection where
  enabled : Bool
  parameters : Dict Value
deriving DecidableEq

/-- A token to generate a contract for. The supply counts whole tokens, in decimal digits. -/
structure Spec where
  name : String
  symbol : String
  totalSupply : String
  decimals : UInt8
  features : Dict Selection
deriving DecidableEq

/-- The names that a contract must not take: the types it inherits or imports, and some words of the
language. -/
def reservedNames : List String :=
  ["ERC20", "IERC20", "IERC20Metadata", "Ownable", "Context", "IUniswapV2Router02",
    "IUniswapV2Factory", "contract", "function", "constructor", "address", "mapping", "return"]

def isNameChar (c : Char) : Bool :=
  c.isAlphanum || c == '_'

/-- The identifier for a name: its usable characters, with `Token` before a leading digit or after a
reserved name. A name without usable characters has none. -/
def identifierOf (name : String) : String :=
  let kept := name.toList.filter isNameChar
  match kept with
  | [] => ""
  | c :: _ =>
    let s := String.ofList kept
    if c.isDigit then "Token" ++ s
    else if s ∈ reservedNames then s ++ "Token"
    else s

namespace Spec

def contractName (spec : Spec) : String :=
  identifierOf spec.name

/-- The selection of a feature that is present and enabled. -/
def selection? (spec : Spec) (id : FeatureId) : Option Selection :=
  (spec.features.find? id).filter (·.enabled)

def enabledKeys (spec : Spec) : List FeatureId :=
  (spec.features.entries.filter fun e ↦ e.2.enabled).map Prod.fst

end Spec

end TokenContract
