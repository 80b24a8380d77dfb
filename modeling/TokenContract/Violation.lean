import TokenContract.Catalog.Check
import TokenContract.Json.Decode

namespace TokenContract

open Json (DecodeError Decoder Origin)

structure Violation where
  feature : String
  parameter : String
  reason : String
deriving DecidableEq, Repr

namespace Violation

def addresses (v : Violation) (feature parameter : String) : Bool :=
  v.feature == feature && v.parameter == parameter

def display (v : Violation) : String :=
  s!"{v.feature}.{v.parameter}: {v.reason}"

def toJson (v : Violation) : Json :=
  .object [
    ("featureId", .text v.feature),
    ("parameterId", .text v.parameter),
    ("reason", .text v.reason)]

structure Draft where
  feature : Option String := none
  parameter : Option String := none
  reason : Option String := none

def Draft.read (d : Draft) (name : String) (j : Json) : Except DecodeError Draft :=
  match name with
  | "featureId" => do
    return { d with feature := ← Json.decodeOnce name Json.decodeText d.feature j }
  | "parameterId" => do
    return { d with parameter := ← Json.decodeOnce name Json.decodeText d.parameter j }
  | "reason" => do
    return { d with reason := ← Json.decodeOnce name Json.decodeText d.reason j }
  | _ => do
    Json.skipField j
    return d

def decode (origin : Origin) : Decoder Violation := fun j ↦ do
  let names := ["featureId", "parameterId", "reason"]
  let r ← Json.decodeRecord origin "ValidationError" names 3 j
  let d ← r.foldFields {} Draft.read
  return {
    feature := ← Json.require "featureId" d.feature
    parameter := ← Json.require "parameterId" d.parameter
    reason := ← Json.require "reason" d.reason }

end Violation

end TokenContract
