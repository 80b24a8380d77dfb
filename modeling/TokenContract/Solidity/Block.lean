import TokenContract.Text.Lines

namespace TokenContract.Solidity

open Text (deeper)

def block (head : String) (body : List String) : List String :=
  (head ++ " \x7b") :: deeper body ++ ["\x7d"]

def blockElse (head : String) (body : List String) (otherwise : String) (other : List String) :
    List String :=
  (head ++ " \x7b") :: deeper body ++
    ("\x7d else " ++ otherwise ++ " \x7b") :: deeper other ++ ["\x7d"]

def arguments : List String → List String
  | [] => []
  | [a] => [a]
  | a :: as => (a ++ ",") :: arguments as

def call (head : String) (args : List String) : List String :=
  (head ++ "(") :: deeper (arguments args) ++ [");"]

def spaced (pieces : List (List String)) : List String :=
  [""].intercalate pieces

/-- A string literal; one with characters beyond ASCII is marked. -/
def literal (s : String) : String :=
  if s.toList.all (·.toNat < 128) then "\"" ++ s ++ "\"" else "unicode\"" ++ s ++ "\""

def importOf (path : String) : String :=
  "import \"" ++ path ++ "\";"

def publicNumber (name value : String) : String :=
  s!"uint256 public {name} = {value};"

end TokenContract.Solidity
