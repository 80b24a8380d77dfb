import TokenContract.Json.Decode

namespace TokenContract

open Json (DecodeError Decoder Origin)

structure Settings where
  license : String := "MIT"
  capacity : Nat := 256
deriving DecidableEq, Repr

namespace Settings

def toJson (s : Settings) : Json :=
  .object [("license", .text s.license), ("max_cached_artifacts", .integer s.capacity)]

structure Draft where
  license : Option String := none
  capacity : Option Nat := none

def Draft.read (d : Draft) (name : String) (j : Json) : Except DecodeError Draft :=
  match name with
  | "license" => do
    return { d with license := ← Json.decodeOnce name Json.decodeText d.license j }
  | "max_cached_artifacts" => do
    let decoder := Json.decodeNat "usize" Binary64.maxWord
    return { d with capacity := ← Json.decodeOnce name decoder d.capacity j }
  | _ => do
    Json.skipField j
    return d

def decode (origin : Origin) : Decoder Settings := fun j ↦ do
  let r ← Json.decodeRecord origin "GeneratorConfig" ["license", "max_cached_artifacts"] 0 j
  let d ← r.foldFields {} Draft.read
  let standard : Settings := {}
  return ⟨d.license.getD standard.license, d.capacity.getD standard.capacity⟩

def parse (s : String) : Except DecodeError Settings :=
  Json.decodeString (decode .text) s

end Settings

end TokenContract
