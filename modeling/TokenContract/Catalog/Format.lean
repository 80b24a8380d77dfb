import TokenContract.Catalog.Basic

namespace TokenContract

def optionalField {α : Type} (name : String) (toJson : α → Json) : Option α → List (String × Json)
  | some a => [(name, toJson a)]
  | none => []

def listField {α : Type} (name : String) (toJson : α → Json) : List α → List (String × Json)
  | [] => []
  | xs => [(name, .array (xs.map toJson))]

def SharedValue.toJson (v : SharedValue) : Json :=
  .object [("name", .text v.name), ("solidity_type", .text v.solidityType)]

def Parameter.toJson (p : Parameter) : Json :=
  .object (
    [("id", .text p.id),
      ("displayName", .text p.displayName),
      ("type", .text p.type.name),
      ("required", .bool p.required),
      ("default", p.default.toJson)]
    ++ optionalField "min" .real p.min
    ++ optionalField "max" .real p.max
    ++ optionalField "step" .real p.step
    ++ listField "options" .text p.options
    ++ [("address", .bool p.address),
      ("helpText", .text p.helpText)])

def TransferStage.toJson (s : TransferStage) : Json :=
  .object [
    ("priority", .integer s.priority),
    ("produces", .array (s.produces.map SharedValue.toJson)),
    ("consumes", .array (s.consumes.map SharedValue.toJson))]

def SetterDeclaration.toJson (s : SetterDeclaration) : Json :=
  .object ([("name", .text s.name)] ++ optionalField "requiresFlag" .text s.requiresFlag)

def Feature.toJson (f : Feature) : Json :=
  .object (
    [("id", .text f.id),
      ("kind", .text f.kind.name),
      ("displayName", .text f.displayName),
      ("description", .text f.description),
      ("parameters", .array (f.parameters.map Parameter.toJson)),
      ("hooks", .array (f.hooks.map fun h ↦ .text h.name))]
    ++ listField "capabilities" (fun c : Capability ↦ .text c.name) f.capabilities
    ++ optionalField "transferStage" TransferStage.toJson f.transferStage
    ++ listField "adminFunctions" SetterDeclaration.toJson f.setters)

def Catalog.toJson (c : Catalog) : Json :=
  .object [("features", .array (c.features.map Feature.toJson))]

end TokenContract
