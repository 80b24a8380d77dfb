import TokenContract.Plan.Basic

namespace TokenContract

/-- A text at a hook, without the indentation of its place, and who it comes from. -/
structure Fragment where
  hook : Hook
  origin : Contributor
  text : String
deriving DecidableEq, Repr

/-- What the skeleton of a contract says about the token. -/
structure Header where
  license : String
  contractName : String
  tokenName : String
  tokenSymbol : String
  decimals : UInt8
  supply : String
deriving DecidableEq, Repr

/-- What stands around the stages of a transfer. -/
structure Frame where
  swapGuard : Bool := false
  declarations : List String := []
deriving DecidableEq, Repr

structure Assembly where
  header : Header
  fragments : List Fragment
  frame : Frame
  enabled : List FeatureId
deriving DecidableEq, Repr

def Assembly.textsAt (a : Assembly) (h : Hook) : List String :=
  (a.fragments.filter (·.hook == h)).map (·.text)

end TokenContract
