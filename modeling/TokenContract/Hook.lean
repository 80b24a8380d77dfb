namespace TokenContract

abbrev FeatureId := String

/-- The places for text of a contract, in the order in which they appear. -/
inductive Hook
  | imports
  | state
  | construction
  | transfer
  | admin
  | helpers
deriving DecidableEq, Repr

namespace Hook

def all : List Hook :=
  [.imports, .state, .construction, .transfer, .admin, .helpers]

def index : Hook → Nat
  | .imports => 0
  | .state => 1
  | .construction => 2
  | .transfer => 3
  | .admin => 4
  | .helpers => 5

def level : Hook → Nat
  | .imports => 0
  | .state | .admin | .helpers => 1
  | .construction | .transfer => 2

def name : Hook → String
  | .imports => "Imports"
  | .state => "Variables"
  | .construction => "Constructor"
  | .transfer => "TransferOverride"
  | .admin => "AdminFunctions"
  | .helpers => "HelperFunctions"

def label : Hook → String
  | .imports => "imports"
  | .state => "variables"
  | .construction => "constructor"
  | .transfer => "transfer-override"
  | .admin => "admin-functions"
  | .helpers => "helper-functions"

def ofName? (s : String) : Option Hook :=
  all.find? fun h ↦ h.name == s

theorem getElem?_index (h : Hook) : all[h.index]? = some h := by
  cases h <;> rfl

theorem mem_all (h : Hook) : h ∈ all :=
  List.mem_of_getElem? h.getElem?_index

end Hook

/-- Infrastructure that several features use and a contract holds once. -/
inductive Capability
  | swapRouter
deriving DecidableEq, Repr

namespace Capability

def all : List Capability := [.swapRouter]

def name : Capability → String
  | .swapRouter => "SwapRouter"

def label : Capability → String
  | .swapRouter => "swap-router"

def hooks : Capability → List Hook
  | .swapRouter => [.imports, .state, .construction, .helpers]

def ofName? (s : String) : Option Capability :=
  all.find? fun c ↦ c.name == s

theorem mem_all (c : Capability) : c ∈ all := by
  cases c; decide

end Capability

/-- A local variable by which one stage of a transfer hands a value to a later one. -/
structure SharedValue where
  name : String
  solidityType : String
deriving DecidableEq, Repr

namespace SharedValue

/-- The fee taken out of a transfer, in token units. -/
def feeAmount : SharedValue := ⟨"feeAmount", "uint256"⟩

def declaration (v : SharedValue) : String :=
  v.solidityType ++ " " ++ v.name ++ ";"

end SharedValue

end TokenContract
