import TokenContract.Address
import TokenContract.Spec.Basic
import TokenContract.Violation

namespace TokenContract

inductive Objection
  | missing
  | forbiddenCharacter
  | noNameCharacter
  | symbolCharacter
  | symbolTooLong
  | supplyNotWhole
  | supplyZero
  | supplyTooLarge
  | tooManyDecimals
  | notNumber (found : Value)
  | notFinite
  | belowMin (min : Binary64)
  | aboveMax (max : Binary64)
  | offStep (step : Binary64)
  | notBoolean (found : Value)
  | notChoice (found : Value)
  | unknownChoice (options : List String)
  | notText (found : Value)
  | notAddress
deriving DecidableEq

def maxSymbolLength : Nat := 11

def maxDecimals : Nat := 18

/-- The digits that a supply in its smallest unit may have, so that it stays below `2 ^ 256`. -/
def maxSupplyDigits : Nat := 77

namespace Objection

def message : Objection → String
  | missing => "required parameter is missing"
  | forbiddenCharacter => "must not contain quotes, backslashes or control characters"
  | noNameCharacter => "must contain at least one ASCII letter or digit"
  | symbolCharacter => "must contain only ASCII letters and digits"
  | symbolTooLong => s!"must be at most {maxSymbolLength} characters"
  | supplyNotWhole => "must be a whole number"
  | supplyZero => "must be greater than zero"
  | supplyTooLarge => "supply scaled by decimals does not fit in uint256"
  | tooManyDecimals => s!"must be at most {maxDecimals}"
  | notNumber found => s!"expected a number, got {found.kind}"
  | notFinite => "must be a finite number"
  | belowMin min => s!"must be at least {min.display}"
  | aboveMax max => s!"must be at most {max.display}"
  | offStep step => s!"must be a multiple of {step.display}"
  | notBoolean found => s!"expected a boolean, got {found.kind}"
  | notChoice found => s!"expected one of the options, got {found.kind}"
  | unknownChoice options => "must be one of: " ++ ", ".intercalate options
  | notText found => s!"expected text, got {found.kind}"
  | notAddress => "must be a 0x-prefixed 40-digit hexadecimal address"

end Objection

def isForbidden (c : Char) : Bool :=
  c == '"' || c == '\\' || Text.isControl c

def nameObjection? (name : String) : Option Objection :=
  let trimmed := Text.trimChars name.toList
  if trimmed = [] then some .missing
  else if trimmed.any isForbidden then some .forbiddenCharacter
  else if identifierOf name = "" then some .noNameCharacter
  else none

def symbolObjection? (symbol : String) : Option Objection :=
  let trimmed := Text.trimChars symbol.toList
  if trimmed = [] then some .missing
  else if !trimmed.all Char.isAlphanum then some .symbolCharacter
  else if maxSymbolLength < trimmed.length then some .symbolTooLong
  else none

/-- Zeros at the front of a supply do not count among its digits. -/
def supplyObjection? (supply : String) (decimals : Nat) : Option Objection :=
  let trimmed := Text.trimChars supply.toList
  if trimmed = [] then some .missing
  else if !trimmed.all Char.isDigit then some .supplyNotWhole
  else
    match trimmed.dropWhile (· == '0') with
    | [] => some .supplyZero
    | digits => if maxSupplyDigits < digits.length + decimals then some .supplyTooLarge else none

def decimalsObjection? (decimals : Nat) : Option Objection :=
  if maxDecimals < decimals then some .tooManyDecimals else none

namespace Parameter

def stepTolerance : Binary64 := 0.000001

/-- Whether a number lies a whole number of steps above the minimum, as near as doubles tell. -/
def onStep (p : Parameter) (step x : Binary64) : Bool :=
  let steps := (x - p.min.getD 0) / step
  !(stepTolerance < (steps - steps.round).abs)

def numberObjection? (p : Parameter) (x : Binary64) : Option Objection :=
  if !x.isFinite then some .notFinite
  else
    (p.min.filter (x < ·)).map .belowMin
    <|> (p.max.filter (· < x)).map .aboveMax
    <|> (p.step.filter fun s ↦ 0 < s && !p.onStep s x).map .offStep

def valueObjection? (p : Parameter) (v : Value) : Option Objection :=
  match p.type, v with
  | .number, .number x => p.numberObjection? x
  | .number, v => some (.notNumber v)
  | .boolean, .bool _ => none
  | .boolean, v => some (.notBoolean v)
  | .select, .text s => if s ∈ p.options then none else some (.unknownChoice p.options)
  | .select, v => some (.notChoice v)
  | .text, .text s => if p.address && !Address.isAddress s then some .notAddress else none
  | .text, v => some (.notText v)

/-- A blank value counts as none, and only a mandatory parameter needs one. -/
def objection? (p : Parameter) (given : Option Value) : Option Objection :=
  match given.filter (!·.isBlank) with
  | some v => p.valueObjection? v
  | none => if p.required then some .missing else none

end Parameter

structure Field where
  feature : String
  parameter : String
  objection? : Option Objection

def Field.violation? (f : Field) : Option Violation :=
  f.objection?.map fun o ↦ ⟨f.feature, f.parameter, o.message⟩

def tokenScope : String := "token"

namespace Spec

def tokenFields (s : Spec) : List Field := [
  ⟨tokenScope, "name", nameObjection? s.name⟩,
  ⟨tokenScope, "symbol", symbolObjection? s.symbol⟩,
  ⟨tokenScope, "totalSupply", supplyObjection? s.totalSupply s.decimals.toNat⟩,
  ⟨tokenScope, "decimals", decimalsObjection? s.decimals.toNat⟩]

end Spec

def Feature.fields (f : Feature) (s : Selection) : List Field :=
  f.parameters.map fun p ↦ ⟨f.id, p.id, p.objection? (s.parameters.find? p.id)⟩

namespace Catalog

/-- The fields of a specification, in the order in which they are reported. -/
def fields (c : Catalog) (s : Spec) : List Field :=
  s.tokenFields ++ c.features.flatMap fun f ↦
    match s.selection? f.id with
    | some selection => f.fields selection
    | none => []

def violations (c : Catalog) (s : Spec) : List Violation :=
  (c.fields s).filterMap Field.violation?

end Catalog

end TokenContract
