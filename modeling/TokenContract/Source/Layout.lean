import TokenContract.Solidity.Router
import TokenContract.Source.Fragment

namespace TokenContract

open Text (indent tab)
open Solidity (block literal spaced)

def languageVersion : String := "pragma solidity ^0.8.19;"

def baseImports : List String :=
  [Solidity.importOf "@openzeppelin/contracts/token/ERC20/ERC20.sol",
    Solidity.importOf "@openzeppelin/contracts/access/Ownable.sol"]

def usualDecimals : UInt8 := 18

namespace Header

def contractLine (h : Header) : String :=
  s!"contract {h.contractName} is ERC20, Ownable \x7b"

def constructorLine (h : Header) : String :=
  tab ++ "constructor() ERC20(" ++ literal h.tokenName ++ ", \"" ++ h.tokenSymbol ++ "\") \x7b"

def mintLine (h : Header) : String :=
  tab ++ tab ++ s!"_mint(msg.sender, {h.supply});"

def decimalsMember (h : Header) : List (List String) :=
  if h.decimals = usualDecimals then []
  else [Text.deeper (block "function decimals() public pure override returns (uint8)"
    [s!"return {h.decimals.toNat};"])]

end Header

namespace Assembly

def members (a : Assembly) (h : Hook) : List (List String) :=
  (a.textsAt h).map (indent h.level)

/-- The base imports and then those of the fragments, each line once. -/
def imports (a : Assembly) : List String :=
  let lines := (a.textsAt .imports).flatMap Text.lines
  (baseImports ++ (lines.map Text.trim).filter (· != "")).eraseDups

def constructorBody (a : Assembly) : List String :=
  match spaced (a.members .construction) with
  | [""] => []
  | ls => ls

def constructor (a : Assembly) : List String :=
  let body := a.constructorBody
  a.header.constructorLine :: a.header.mintLine ::
    (if body = [] then [] else "" :: body) ++ [tab ++ "\x7d"]

/-- Transfers from and to the owner, and those within a swap, skip all stages. -/
def transferGuard (a : Assembly) : List String :=
  let swap := if a.frame.swapGuard then s!"{Router.swapFlag} || " else ""
  block s!"if ({swap}from == owner() || to == owner())"
    ["super._transfer(from, to, amount);", "return;"]

def declarations (a : Assembly) : List (List String) :=
  match a.frame.declarations with
  | [] => []
  | ds => [indent Hook.transfer.level (Text.joinLines ds)]

def transferMember (a : Assembly) : List (List String) :=
  match a.members .transfer with
  | [] => []
  | stages =>
    let level := Hook.transfer.level
    let parts := [a.transferGuard.map (Text.padLine level)] ++ a.declarations ++ stages ++
      [["super._transfer(from, to, amount);"].map (Text.padLine level)]
    [(tab ++ "function _transfer(address from, address to, uint256 amount) internal override \x7b")
      :: spaced parts ++ [tab ++ "\x7d"]]

def body (a : Assembly) : List (List String) :=
  a.members .state ++ [a.constructor] ++ a.header.decimalsMember ++ a.transferMember ++
    a.members .admin ++ a.members .helpers

def lines (a : Assembly) : List String :=
  ["// SPDX-License-Identifier: " ++ a.header.license, languageVersion, ""] ++ a.imports ++
    ["", a.header.contractLine] ++ spaced a.body ++ ["\x7d"]

def sourceText (a : Assembly) : String :=
  String.join (a.lines.map (· ++ "\n"))

end Assembly

end TokenContract
