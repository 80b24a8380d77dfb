import TokenContract.Dict
import TokenContract.Json.Reader
import TokenContract.Json.Writer
import TokenContract.Text.Diagnostic

namespace TokenContract.Json

/-- Where a document came from: a text, which is judged as it is read, or a value at hand. -/
inductive Origin
  | text
  | value
deriving DecidableEq, Repr

inductive Mismatch
  | missingField (name : String)
  | repeatedField (name : String)
  | wrongType (found : Json) (expected : String)
  | outOfRange (found : Int) (expected : String)
  | tooShort (length : Nat) (record : String) (size : Nat)
  | tooLong (length : Nat)
  | noVariant (type : String)

inductive DecodeError
  | malformed
  | mismatch (m : Mismatch)

abbrev Decoder (α : Type) := Json → Except DecodeError α

def describe : Json → String
  | .null => "null"
  | .bool b => s!"boolean `{b}`"
  | .integer n => s!"integer `{n}`"
  | .real x => "floating point `" ++ String.ofList (writeReal x) ++ "`"
  | .text s => "string " ++ Text.diagnostic s
  | .array _ => "sequence"
  | .object _ => "map"
  | .fault _ => "nothing"

def Mismatch.message : Mismatch → String
  | .missingField name => s!"missing field `{name}`"
  | .repeatedField name => s!"duplicate field `{name}`"
  | .wrongType found expected => s!"invalid type: {describe found}, expected {expected}"
  | .outOfRange found expected => s!"invalid value: integer `{found}`, expected {expected}"
  | .tooShort length record size =>
    s!"invalid length {length}, expected struct {record} with {size} elements"
  | .tooLong length => s!"invalid length {length}, expected fewer elements in array"
  | .noVariant type => s!"data did not match any variant of untagged enum {type}"

def fail {α : Type} (m : Mismatch) : Except DecodeError α :=
  .error (.mismatch m)

def unexpected {α : Type} (expected : String) : Decoder α
  | .fault _ => .error .malformed
  | j => fail (.wrongType j expected)

def decodeText : Decoder String
  | .text s => .ok s
  | j => unexpected "a string" j

def decodeBool : Decoder Bool
  | .bool b => .ok b
  | j => unexpected "a boolean" j

def decodeNat (type : String) (bound : Nat) : Decoder Nat
  | .integer n => if 0 ≤ n ∧ n ≤ bound then .ok n.toNat else fail (.outOfRange n type)
  | j => unexpected type j

def decodeList {α : Type} (item : Decoder α) : Decoder (List α)
  | .array items => items.mapM item
  | j => unexpected "a sequence" j

/-- A dictionary; of several fields with one name the last counts. -/
def decodeDict {α : Type} (value : Decoder α) : Decoder (Dict α)
  | .object fields => do
    return Dict.ofList (← fields.mapM fun (k, j) ↦ return (k, ← value j))
  | j => unexpected "a map" j

def maxNesting : Nat := 128

/-- A document that is one of several scalars, within `level` others. All of it is read before any
of it is judged. -/
def decodeVariant {α : Type} (origin : Origin) (level : Nat) (type : String) (select : Json → Option α) :
    Decoder α := fun j ↦
  if j.isFaulty || (origin == .text && maxNesting ≤ level + j.depth) then .error .malformed
  else match select j with
    | some a => .ok a
    | none => fail (.noVariant type)

/-- The fields of a record as they were written, and what is wrong with their number. -/
structure Record where
  fields : List (String × Json)
  flaw : Option DecodeError

/-- A record is an object, or an array of its fields in their order. The first `required` fields of
an array cannot be left out. -/
def decodeRecord (origin : Origin) (type : String) (names : List String) (required : Nat) :
    Decoder Record
  | .object fields => .ok ⟨fields, none⟩
  | .array items =>
    .ok ⟨names.zip items,
      if items.length < required then some (.mismatch (.tooShort items.length type names.length))
      else if names.length < items.length then
        match origin with
        | .text => some .malformed
        | .value => some (.mismatch (.tooLong items.length))
      else none⟩
  | j => unexpected ("struct " ++ type) j

def decodeOnce {α : Type} (name : String) (decoder : Decoder α) (seen : Option α) (j : Json) :
    Except DecodeError (Option α) :=
  match seen with
  | some _ => fail (.repeatedField name)
  | none => some <$> decoder j

/-- Passes over a field that nobody asked for. Its name is read all the same, and of its value no
more than where it ends. -/
def skipField : Json → Except DecodeError Unit
  | .fault .nameless => .error .malformed
  | j => if j.isBroken then .error .malformed else .ok ()

def require {α : Type} (name : String) : Option α → Except DecodeError α
  | some a => .ok a
  | none => fail (.missingField name)

def Record.foldFields {σ : Type} (r : Record) (init : σ)
    (step : σ → String → Json → Except DecodeError σ) : Except DecodeError σ := do
  let s ← r.fields.foldlM (fun s (k, j) ↦ step s k j) init
  match r.flaw with
  | some e => .error e
  | none => return s

def decodeString {α : Type} (decoder : Decoder α) (s : String) : Except DecodeError α := do
  let (j, complete) := read s
  let a ← decoder j
  if complete then return a else .error .malformed

end TokenContract.Json
