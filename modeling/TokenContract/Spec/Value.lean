import TokenContract.Json.Decode
import TokenContract.Text.Blank

namespace TokenContract

inductive Value
  | bool (b : Bool)
  | number (x : Binary64)
  | text (s : String)
deriving DecidableEq

def messageLayout : Binary64.Layout where
  tie := .up
  writtenPlain _ := true
  point := false

def Binary64.display : Binary64 → String
  | .nan => "NaN"
  | .infinite negative => if negative then "-inf" else "inf"
  | .finite negative n _ => String.ofList (messageLayout.write negative n)

namespace Value

def asNumber? : Value → Option Binary64
  | .number x => some x
  | _ => none

def asBool? : Value → Option Bool
  | .bool b => some b
  | _ => none

def asText? : Value → Option String
  | .text s => some s
  | _ => none

def kind : Value → String
  | .bool _ => "boolean"
  | .number _ => "number"
  | .text _ => "text"

/-- A text without a visible character counts as no value at all. -/
def isBlank : Value → Bool
  | .text s => Text.blank s
  | _ => false

def display : Value → String
  | .bool b => toString b
  | .number x => x.display
  | .text s => s

def toJson : Value → Json
  | .bool b => .bool b
  | .number x => .real x
  | .text s => .text s

def ofJson? : Json → Option Value
  | .bool b => some (.bool b)
  | .integer n => some (.number (if n < 0 then -Binary64.ofNat n.natAbs else Binary64.ofNat n.natAbs))
  | .real x => some (.number x)
  | .text s => some (.text s)
  | _ => none

def decode (origin : Json.Origin) (level : Nat) : Json.Decoder Value :=
  Json.decodeVariant origin level "ParameterValue" ofJson?

end Value

end TokenContract
