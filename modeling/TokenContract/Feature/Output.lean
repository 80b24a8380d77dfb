import TokenContract.Hook
import TokenContract.Solidity.Setter

namespace TokenContract

/-- What the text of a feature depends on besides its own parameters. -/
structure Environment where
  /-- The supply in the smallest unit, as a constant expression. -/
  supply : String
  swapRouter : Bool
deriving DecidableEq, Repr

def Environment.share (e : Environment) (basisPoints : Nat) : String :=
  s!"({e.supply}) * {basisPoints} / 10000"

structure Output where
  sections : Hook → Option (List String)
  setters : List Setter := []

namespace Output

def text? (o : Output) (h : Hook) : Option String :=
  (o.sections h).map Text.joinLines

/-- The hooks that are filled; setters fill that of the owner's functions. -/
def hooks (o : Output) : List Hook :=
  Hook.all.filter fun h ↦ (o.sections h).isSome || (h == .admin && !o.setters.isEmpty)

def setter? (o : Output) (name : String) : Option Setter :=
  o.setters.find? (·.name == name)

end Output

end TokenContract
