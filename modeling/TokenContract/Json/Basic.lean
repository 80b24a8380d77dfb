import TokenContract.Number.Binary64

namespace TokenContract

/-- What is wrong with a place of a text: the document breaks off there, or a literal is well formed
but no value corresponds to it, or that holds for the name of the field. -/
inductive Json.Fault
  | broken
  | valueless
  | nameless
deriving DecidableEq, Repr

/-- A document. An integer of at most 64 bits is kept apart from a double, an object keeps repeated
fields, and a faulty text leaves a fault in the place where it goes wrong. -/
inductive Json
  | null
  | bool (b : Bool)
  | integer (n : Int)
  | real (x : Binary64)
  | text (s : String)
  | array (items : List Json)
  | object (fields : List (String × Json))
  | fault (f : Json.Fault)

namespace Json

instance : Inhabited Json := ⟨.null⟩

mutual

def any (p : Json → Bool) : Json → Bool
  | .array items => p (.array items) || anyItem p items
  | .object fields => p (.object fields) || anyField p fields
  | j => p j

def anyItem (p : Json → Bool) : List Json → Bool
  | [] => false
  | j :: js => any p j || anyItem p js

def anyField (p : Json → Bool) : List (String × Json) → Bool
  | [] => false
  | (_, j) :: fs => any p j || anyField p fs

end

def isBroken : Json → Bool :=
  any fun | .fault .broken => true | _ => false

def isFaulty : Json → Bool :=
  any fun | .fault _ => true | _ => false

mutual

def depth : Json → Nat
  | .array items => depthItems items + 1
  | .object fields => depthFields fields + 1
  | _ => 0

def depthItems : List Json → Nat
  | [] => 0
  | j :: js => max (depth j) (depthItems js)

def depthFields : List (String × Json) → Nat
  | [] => 0
  | (_, j) :: fs => max (depth j) (depthFields fs)

end

end Json

end TokenContract
