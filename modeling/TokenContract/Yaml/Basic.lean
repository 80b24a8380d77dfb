import TokenContract.Yaml.Token

namespace TokenContract

inductive Yaml
  | scalar (text : String) (style : Yaml.Style) (tag : Option String)
  | sequence (items : List Yaml)
  | mapping (entries : List (Yaml × Yaml))
  | anchored (n : Nat) (node : Yaml)
  | reference (n : Nat)

namespace Yaml

def absent : Yaml := .scalar "" .plain none

instance : Inhabited Yaml := ⟨absent⟩

mutual

def anchors : Yaml → List (Nat × Yaml)
  | .scalar .. | .reference _ => []
  | .sequence items => anchorsOfItems items
  | .mapping entries => anchorsOfEntries entries
  | .anchored n y => (n, y) :: anchors y

def anchorsOfItems : List Yaml → List (Nat × Yaml)
  | [] => []
  | y :: ys => anchors y ++ anchorsOfItems ys

def anchorsOfEntries : List (Yaml × Yaml) → List (Nat × Yaml)
  | [] => []
  | (k, y) :: es => anchors k ++ anchors y ++ anchorsOfEntries es

end

/-- The node that a part of a document stands for. Of several nodes with one number the last is
meant. -/
def follow (document : Yaml) : Yaml → Yaml
  | .anchored _ y => y
  | .reference n => (document.anchors.reverse.lookup n).getD (.reference n)
  | y => y

end Yaml

end TokenContract
