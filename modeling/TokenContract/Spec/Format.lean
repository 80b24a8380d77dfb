import TokenContract.Spec.Basic

namespace TokenContract

open Json (DecodeError Decoder Origin)

/-- A supply given as a text, less the blanks around it, or as a whole number of 64 bits. -/
def supplyOfJson? : Json → Option String
  | .text s => some (Text.trim s)
  | .integer n => if 0 ≤ n then some (String.ofList (digitChars n.toNat)) else none
  | _ => none

namespace Selection

def toJson (s : Selection) : Json :=
  .object [
    ("enabled", .bool s.enabled),
    ("parameters", .object (s.parameters.map Value.toJson).entries)]

structure Draft where
  enabled : Option Bool := none
  parameters : Option (Dict Value) := none

def Draft.read (origin : Origin) (p : Draft) (name : String) (j : Json) :
    Except DecodeError Draft :=
  match name with
  | "enabled" => do
    return { p with enabled := ← Json.decodeOnce name Json.decodeBool p.enabled j }
  | "parameters" => do
    let decoder := Json.decodeDict (Value.decode origin 4)
    return { p with parameters := ← Json.decodeOnce name decoder p.parameters j }
  | _ => do
    Json.skipField j
    return p

def decode (origin : Origin) : Decoder Selection := fun j ↦ do
  let r ← Json.decodeRecord origin "FeatureConfig" ["enabled", "parameters"] 1 j
  let p ← r.foldFields {} (Draft.read origin)
  return { enabled := ← Json.require "enabled" p.enabled, parameters := p.parameters.getD .empty }

end Selection

namespace Spec

def toJson (s : Spec) : Json :=
  .object [
    ("name", .text s.name),
    ("symbol", .text s.symbol),
    ("totalSupply", .text s.totalSupply),
    ("decimals", .integer s.decimals.toNat),
    ("features", .object (s.features.map Selection.toJson).entries)]

/-- All fields in a fixed order, and the keys of dictionaries in ascending order. -/
def canonical (s : Spec) : String :=
  s.toJson.compact

structure Draft where
  name : Option String := none
  symbol : Option String := none
  totalSupply : Option String := none
  decimals : Option Nat := none
  features : Option (Dict Selection) := none

def Draft.read (origin : Origin) (p : Draft) (name : String) (j : Json) :
    Except DecodeError Draft :=
  match name with
  | "name" => do
    return { p with name := ← Json.decodeOnce name Json.decodeText p.name j }
  | "symbol" => do
    return { p with symbol := ← Json.decodeOnce name Json.decodeText p.symbol j }
  | "totalSupply" => do
    let decoder := Json.decodeVariant origin 1 "Supply" supplyOfJson?
    return { p with totalSupply := ← Json.decodeOnce name decoder p.totalSupply j }
  | "decimals" => do
    return { p with decimals := ← Json.decodeOnce name (Json.decodeNat "u8" 255) p.decimals j }
  | "features" => do
    let decoder := Json.decodeDict (Selection.decode origin)
    return { p with features := ← Json.decodeOnce name decoder p.features j }
  | _ => do
    Json.skipField j
    return p

def fieldNames : List String :=
  ["name", "symbol", "totalSupply", "decimals", "features"]

def decode (origin : Origin) : Decoder Spec := fun j ↦ do
  let r ← Json.decodeRecord origin "TokenSpec" fieldNames 4 j
  let p ← r.foldFields {} (Draft.read origin)
  return {
    name := ← Json.require "name" p.name
    symbol := ← Json.require "symbol" p.symbol
    totalSupply := ← Json.require "totalSupply" p.totalSupply
    decimals := UInt8.ofNat (← Json.require "decimals" p.decimals)
    features := p.features.getD .empty }

def parse (s : String) : Except DecodeError Spec :=
  Json.decodeString (decode .text) s

end Spec

end TokenContract
